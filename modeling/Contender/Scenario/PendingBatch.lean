import Contender.Scenario.PrepareSpam
import Mathlib.Data.List.Infix

/-!
# Sending and collecting a batch

Each transaction of a batch is sent by a task of its own, which reports the
node's answer through `handle_tx_outcome`: a gas bump, a nonce shift or a
success goes into one of three channels. `collect_pending_batch` drains the
channels once the tasks have ended and corrects gas price and nonces before the
next batch is prepared.
-/

namespace Contender

/-- A message of a spam task to the loop that collects the batch. -/
inductive SpamMessage
  | addGas (bump : Nat)
  | shiftNonce (address : Address) (shift : Int)
  | success
  deriving DecidableEq, Repr

/-- What handling one answer of the node does: the message sent, and the error
the transaction is recorded with. -/
structure TxOutcome where
  message : Option SpamMessage
  error : Option Text
  deriving DecidableEq, Repr

/-- The test `handle_tx_outcome` makes first. -/
def saysUnderpriced (env : Env) (msg : Text) : Prop :=
  "replacement transaction underpriced".toList <:+: env.toLowercase msg

def saysNonceTooLow (env : Env) (msg : Text) : Prop :=
  "nonce too low".toList <:+: env.toLowercase msg

def saysNonceTooHigh (env : Env) (msg : Text) : Prop :=
  "nonce too high".toList <:+: env.toLowercase msg

instance (env : Env) (msg : Text) : Decidable (saysUnderpriced env msg) :=
  inferInstanceAs (Decidable (_ <:+: _))

instance (env : Env) (msg : Text) : Decidable (saysNonceTooLow env msg) :=
  inferInstanceAs (Decidable (_ <:+: _))

instance (env : Env) (msg : Text) : Decidable (saysNonceTooHigh env msg) :=
  inferInstanceAs (Decidable (_ <:+: _))

/-- The message `handle_tx_outcome` sends for an error of the node. -/
def errorMessage (env : Env) (req : NamedTxRequest) (msg : Text) : Option SpamMessage :=
  if saysUnderpriced env msg then
    some (.addGas (req.tx.maxFeePerGas.getD (req.tx.gasPrice.getD 1000000000) / 10))
  else if saysNonceTooLow env msg then
    req.tx.fromAddr.map (.shiftNonce · 1)
  else if saysNonceTooHigh env msg then
    req.tx.fromAddr.map (.shiftNonce · (-1))
  else none

def handleTxOutcome (env : Env) (req : NamedTxRequest) : Option Text → TxOutcome
  | some msg => { message := errorMessage env req msg, error := some msg }
  | none => { message := some .success, error := none }

namespace SpamMessage

def bump? : SpamMessage → Option Nat
  | .addGas bump => some bump
  | _ => none

def shift? : SpamMessage → Option (Address × Int)
  | .shiftNonce address shift => some (address, shift)
  | _ => none

end SpamMessage

/-- The request of a payload that is a single transaction. -/
def ExecutionPayload.single? : ExecutionPayload → Option NamedTxRequest
  | .signedTx _ req => some req
  | .signedTxBundle _ _ => none

/-- The messages the tasks of single transactions send when the node answers
each transaction by `answer`. -/
def reportedMessages (env : Env) (answer : NamedTxRequest → Option Text)
    (reqs : List NamedTxRequest) : List SpamMessage :=
  reqs.filterMap fun req => (handleTxOutcome env req (answer req)).message

/-- A batch whose tasks are running, seen when it is collected: how waiting for
the tasks and the `on_batch_sent` callback ends, and what the channels hold, in
the order of arrival. -/
structure PendingBatch where
  awaited : Except Text Unit
  addGas : List Nat
  shiftNonce : List (Address × Int)
  successes : Nat
  numPayloads : Nat

/-- The tasks have all ended and their messages are in the channels; the order of
arrival is open. -/
structure PendingBatch.Delivers (batch : PendingBatch) (messages : List SpamMessage) : Prop where
  awaited : batch.awaited = .ok ()
  addGas : batch.addGas.Perm (messages.filterMap SpamMessage.bump?)
  shiftNonce : batch.shiftNonce.Perm (messages.filterMap SpamMessage.shift?)
  successes : batch.successes = messages.count .success

open EStateM ScenarioM

/-- One round of the gas loop: a bump that the batch has already reached is
skipped. -/
def bumpGas (start adder : Int) (gas : Nat) : Option Int := do
  let wanted ← addI128 (asI128 gas) start
  -- several bumps of one batch do not add up
  if adder ≥ wanted then return adder else addI128 adder (asI128 gas)

/-- The gas price adder after the bumps of the batch. -/
def gasAfterBumps (start : Int) (bumps : List Nat) : Option Int :=
  bumps.foldlM (bumpGas start) start

/-- One round of the shift loop: the shift is added to the total of its address,
in `i32`. -/
def addShift (adjustments : AssocMap Address Int) (shift : Address × Int) :
    Option (AssocMap Address Int) :=
  (addI32 ((adjustments.lookup shift.1).getD 0) shift.2).map (adjustments.insert shift.1 ·)

/-- `nonce_adjustments`: the shifts of the batch, summed per address. -/
def nonceAdjustments (shifts : List (Address × Int)) : Option (AssocMap Address Int) :=
  shifts.foldlM addShift ∅

/-- A nonce moved by a total shift, saturating at both ends of `u64`. -/
def shiftedNonce (nonce : Nat) (totalShift : Int) : Nat :=
  if totalShift < 0 then nonce - totalShift.natAbs else satAddU64 nonce totalShift.toNat

def applyAdjustments (adjustments : List (Sigma fun _ : Address => Int))
    (nonces : AssocMap Address Nat) : AssocMap Address Nat :=
  adjustments.foldl (fun nonces adjustment =>
    nonces.insert adjustment.1
      (shiftedNonce ((nonces.lookup adjustment.1).getD 0) adjustment.2)) nonces

namespace TestScenario

/-- When every transaction of the batch was sent, a tenth of the gas price adder
is taken back. -/
def takeBackGas (batch : PendingBatch) : ScenarioM Unit := do
  if batch.successes = batch.numPayloads then
    modify fun scenario =>
      if 0 < scenario.gasPriceAdder then
        { scenario with
          gasPriceAdder := scenario.gasPriceAdder + scenario.gasPriceAdder.tdiv (-10) }
      else scenario

def collectPendingBatch (batch : PendingBatch) : ScenarioM Unit := do
  -- a failed task or callback returns before the channels are read
  ofExcept .batchFailed batch.awaited
  let scenario ← get
  let adder ← okOr .panic (gasAfterBumps scenario.gasPriceAdder batch.addGas)
  modify fun scenario => { scenario with gasPriceAdder := adder }
  let adjustments ← okOr .panic (nonceAdjustments batch.shiftNonce)
  modify fun scenario =>
    { scenario with nonces := applyAdjustments adjustments.entries scenario.nonces }
  takeBackGas batch

theorem takeBackGas_ok (batch : PendingBatch) (s : TestScenario) :
    ∃ t, takeBackGas batch s = .ok () t ∧ t.nonces = s.nonces := by
  unfold takeBackGas
  split
  · refine ⟨_, modify_eq_ok.mpr rfl, ?_⟩
    split <;> rfl
  · exact ⟨s, pure_eq_ok.mpr ⟨rfl, rfl⟩, rfl⟩

end TestScenario

end Contender
