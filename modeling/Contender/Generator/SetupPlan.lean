import Contender.Data.KeyedChain
import Contender.Generator.LoadTxs
import Contender.Semantics.Effect

/-!
# Loading the setup transactions

`load_txs(PlanType::Setup)` goes through the setup steps, makes a request for
each account of a step, gives it the next nonce of its sender, and hands it to
the callback. A task the callback starts is chained behind the task started last
for the same sender. This file models the loop itself, which never looks at the
tasks; what it reads from outside is collected in `SetupEnv`.
-/

namespace Contender

/-- How a task of the callback ends. -/
inductive TaskOutcome
  | ok
  | failed (message : Text)
  | panicked
  deriving DecidableEq, Repr

/-- The errors `load_txs(PlanType::Setup)` returns. `callback` is an error of the
callback or of its task, `join` a task that did not run to its end. -/
inductive SetupError
  | generator (e : GeneratorError)
  | rpc (message : Text)
  | callback (message : Text)
  | join
  deriving DecidableEq, Repr

/-- What awaiting a chained task yields: the result of the callback's own task. -/
def TaskOutcome.join : TaskOutcome → Except SetupError Unit
  | .ok => .ok ()
  | .failed message => .error (.callback message)
  | .panicked => .error .join

/-- What the loop reads from outside: the named transactions in the database,
when the placeholders of step `k` are looked up and when the request for one of
its accounts is made; the node's transaction counts; and whether the callback
starts a task for a request. -/
structure SetupEnv where
  database : (k : Nat) → (account : Option Nat) → Text → Except Text (Option NamedTx)
  transactionCount : Address → Except Text Nat
  onSetupStep : NamedTxRequest → Except Text Bool

/-- The local variables of the loop. `pending_per_sender` is kept by `chains`,
with all the tasks that were started. -/
structure SetupState where
  placeholderMap : AssocMap Text Text
  nextNonce : AssocMap Address Nat
  chains : KeyedChain Address NamedTxRequest
  txs : List ExecutionRequest

abbrev SetupM := EStateM SetupError SetupState

namespace SetupM

variable {ε α : Type}

/-- `?` on a fallible call. -/
def ofExcept (wrap : ε → SetupError) : Except ε α → SetupM α
  | .ok a => pure a
  | .error e => throw (wrap e)

def ofGenerator : Except GeneratorError α → SetupM α := ofExcept .generator

end SetupM

namespace Generator

open SetupM

variable (g : Generator) (env : SetupEnv)

/-- The generator with the database as it is at one moment. -/
def withDatabase (getNamedTx : Text → Except Text (Option NamedTx)) : Generator :=
  { g with source := { g.source with getNamedTx } }

/-- The accounts a setup step is run for: all of its pool, or the first one. -/
def accountIndices (step : FunctionCallDefinition) : Except GeneratorError (List Nat) :=
  if step.forAllAccounts then
    match step.fromPool with
    | some pool => do
      let agent ← orError (.fromPoolNotFound pool) (g.agents.lookup pool)
      return List.range agent.signers.length
    | none => .error .forAllAccountsRequiresFromPool
  else .ok [0]

/-- The next nonce of the sender, fetched from the node the first time. -/
def takeNonce (sender : Address) : SetupM Nat := do
  if sender ∉ (← get).nextNonce then
    let count ← ofExcept .rpc (env.transactionCount sender)
    modify fun s => { s with nextNonce := s.nextNonce.insert sender count }
  let nonce ← ofGenerator (orError .panic ((← get).nextNonce.lookup sender))
  let next ← ofGenerator (orError .panic (addU64 nonce 1))
  modify fun s => { s with nextNonce := s.nextNonce.insert sender next }
  return nonce

/-- One round of the inner loop. -/
def setupTx (k : Nat) (step : FunctionCallDefinition) (idx : Nat) : SetupM Unit := do
  -- the `from` address is injected here
  let strict ← ofGenerator
    ((g.withDatabase (env.database k (some idx))).makeStrictCall step idx)
  let tx ← ofGenerator (g.foreign.templateFunctionCall (← get).placeholderMap strict)
  let sender ← ofGenerator (orError .panic tx.fromAddr)
  let nonce ← takeNonce env sender
  let req : NamedTxRequest := { tx := { tx with nonce := some nonce }, kind := step.kind }
  -- an error of the callback leaves the loop; the tasks started before run on
  let started ← ofExcept .callback (env.onSetupStep req)
  if started then
    modify fun s => { s with chains := s.chains.push sender req }
  modify fun s => { s with txs := s.txs ++ [.tx req] }

/-- One round of the outer loop. -/
def setupStep (k : Nat) (step : FunctionCallDefinition) : SetupM Unit := do
  let source := (g.withDatabase (env.database k none)).source
  let placeholderMap ← ofGenerator
    (source.findFncallPlaceholders (← get).placeholderMap step)
  modify fun s => { s with placeholderMap }
  let indices ← ofGenerator (g.accountIndices step)
  indices.forM (g.setupTx env k step)

/-- The two loops over the setup steps and their accounts. -/
def loadSetup : SetupM Unit :=
  g.setupSteps.zipIdx.forM fun (step, k) => g.setupStep env k step

/-- The loops, run from the tracked nonces. -/
def runLoadSetup : EStateM.Result SetupError SetupState Unit :=
  (g.loadSetup env).run {
    placeholderMap := g.env
    nextNonce := g.nonces
    chains := .empty
    txs := [] }

end Generator

end Contender
