import Mathlib.Data.List.TakeWhile
import Contender.Data.Traverse
import Contender.Spammer.TxActor

/-!
# When the actor stops

`TxActor::run` is meant to end on a stop request only. It also returns whenever a
handler fails, and three things make a handler fail without a stop request: a
requester that dropped its reply channel, a `RemovedRunTx` that names an uncached
transaction, and a cache dump that cannot be written. Each of them drops the
cache. The flush requests and the flashblock marks never fail: their handlers
discard the outcome of the reply.
-/

namespace Contender

open Semantics

/-- The timestamps of a cached transaction fit the `u64` columns they are dumped
into. -/
def PendingRunTx.FitsU64 (tx : PendingRunTx) : Prop :=
  tx.startTimestampMs < 2 ^ 64 ∧ (∀ stamp ∈ tx.endTimestampMs, stamp < 2 ^ 64) ∧
    ∀ stamp ∈ tx.flashblockTimestampMs, stamp - tx.startTimestampMs < 2 ^ 64

instance (tx : PendingRunTx) : Decidable tx.FitsU64 :=
  inferInstanceAs (Decidable (_ ∧ _ ∧ _))

theorem toU64_isSome {n : Nat} : (toU64 n).isSome ↔ n < 2 ^ 64 := by
  unfold toU64
  split_ifs with h
  · exact ⟨fun _ => h, fun _ => rfl⟩
  · exact ⟨fun hnone => absurd hnone (by simp), fun hlt => absurd hlt h⟩

theorem PendingRunTx.toDumpedRunTx_isSome {tx : PendingRunTx} :
    tx.toDumpedRunTx.isSome ↔ tx.FitsU64 := by
  have hstop : tx.endTimestampU64.isSome ↔ ∀ stamp ∈ tx.endTimestampMs, stamp < 2 ^ 64 := by
    unfold endTimestampU64
    cases tx.endTimestampMs <;> simp [toU64_isSome]
  have hlatency : tx.flashblockLatencyMs.isSome ↔
      ∀ stamp ∈ tx.flashblockTimestampMs, stamp - tx.startTimestampMs < 2 ^ 64 := by
    unfold flashblockLatencyMs
    cases tx.flashblockTimestampMs <;> simp [toU64_isSome]
  -- each narrowing succeeds exactly on its own part of the condition
  unfold FitsU64
  rw [← toU64_isSome, ← hstop, ← hlatency]
  simp only [toDumpedRunTx, Option.bind_eq_bind]
  cases toU64 tx.startTimestampMs <;> cases tx.endTimestampU64 <;>
    cases tx.flashblockLatencyMs <;> simp

namespace ActorInput

/-- The two ways to ask the actor to stop. -/
def isStop : ActorInput → Bool
  | .stopSignal => true
  | .message (.stop _) _ => true
  | _ => false

/-- Whether a transaction is cached after an input that is processed, read off the
meaning of the input. -/
def keeps (txHash : TxHash) (cached : Prop) : ActorInput → Prop
  | .message (.sentRunTx sent _ _ _ _ _) _ => txHash = sent ∨ cached
  | .message (.removedRunTx removed _) _ => txHash ≠ removed ∧ cached
  | .message (.dumpCache _ _) _ => False
  | .message (.clearCache _) _ => False
  | .flush (.removeConfirmed confirmed _) _ => cached ∧ txHash ∉ confirmed
  | _ => cached

/-- The reply channel a message carries, if it carries one. -/
def reply : ActorInput → Option Oneshot
  | .message (.getCacheLen r) _ => some r
  | .message (.sentRunTx _ _ _ _ _ r) _ => some r
  | .message (.removedRunTx _ r) _ => some r
  | .message (.dumpCache _ r) _ => some r
  | .message (.stop r) _ => some r
  | .message (.clearCache r) _ => some r
  | _ => none

end ActorInput

namespace TxActor

/-- A removal names a cached transaction, and a dump fits the columns and is
committed. -/
def accepts (a : TxActor) : ActorInput → Bool
  | .message (.removedRunTx txHash _) _ => decide (txHash ∈ a.cache)
  | .message (.dumpCache _ _) inserted =>
    decide (∀ tx ∈ a.cache.values, tx.FitsU64) && inserted
  | _ => true

/-- The requester of the input still listens, and the actor can do what it asks. -/
def Answered (a : TxActor) (input : ActorInput) : Prop :=
  input.reply ≠ some .dropped ∧ a.accepts input = true

instance (a : TxActor) (input : ActorInput) : Decidable (a.Answered input) :=
  inferInstanceAs (Decidable (_ ∧ _))

/-- A running actor survives a handler exactly when the handler returns `Ok` and
does not shut it down. -/
theorem survivor_eq_some {h : Handled} {b : TxActor} :
    survivor h = some b ↔ h.result = .ok () ∧ h.actor.status = .running ∧ h.actor = b := by
  unfold survivor
  cases h.result with
  | error fault => simp
  | ok u => cases hstatus : h.actor.status <;> simp

/-- What a dump does, by the two things it depends on. -/
theorem dumpCache_cases (a : TxActor) (inserted : Bool) (runId : Nat) :
    (a.accepts (.message (.dumpCache runId .listening) inserted) = true ∧
      ∃ txs, txs.map RunTx.txHash = a.cache.values.map PendingRunTx.txHash ∧
        a.dumpCache inserted runId =
          ({ a with cache := ∅ }, txs.map fun tx => (runId, tx), .ok txs)) ∨
    (a.accepts (.message (.dumpCache runId .listening) inserted) = false ∧
      ∃ fault, a.dumpCache inserted runId = (a, [], .error fault)) := by
  have hfits : (a.cache.values.mapM PendingRunTx.toDumpedRunTx).isSome ↔
      ∀ tx ∈ a.cache.values, tx.FitsU64 := by
    rw [List.mapM_isSome]
    exact forall₂_congr fun tx _ => PendingRunTx.toDumpedRunTx_isSome
  unfold dumpCache accepts
  cases hdump : a.cache.values.mapM PendingRunTx.toDumpedRunTx with
  -- a timestamp does not fit: the narrowing panics before the insert
  | none =>
    rw [hdump] at hfits
    have hnot : ¬ ∀ tx ∈ a.cache.values, tx.FitsU64 := fun h => by simpa using hfits.mpr h
    exact Or.inr ⟨by simp [hnot], .panic, rfl⟩
  | some txs =>
    have hall := hfits.mp (by rw [hdump]; rfl)
    cases inserted with
    -- the database refuses the rows
    | false => exact Or.inr ⟨by simp, .error .db, rfl⟩
    | true =>
      have hhashes : txs.map RunTx.txHash = a.cache.values.map PendingRunTx.txHash :=
        (List.mapM_eq_some_iff.mp hdump).map_eq fun _ _ h =>
          PendingRunTx.txHash_of_toDumpedRunTx h
      exact Or.inl ⟨by simpa using hall, txs, hhashes, rfl⟩

/-- A handler returns `Ok` exactly on the inputs it can answer. -/
theorem handle_result_ok {a : TxActor} {input : ActorInput} :
    (a.handle input).result = .ok () ↔ a.Answered input := by
  unfold Answered
  cases input with
  -- nothing to answer, or nobody to answer to
  | stopSignal => simp [handle, handleMessage, Oneshot.send, ActorInput.reply, accepts]
  | flush request nowMs => simp [handle, ActorInput.reply, accepts]
  | mark mark => simp [handle, ActorInput.reply, accepts]
  | message m inserted =>
    cases m with
    | initCtx ctx => simp [handle, handleMessage, ActorInput.reply, accepts]
    | replaceFlushReceiver receiver =>
      simp [handle, handleMessage, ActorInput.reply, accepts]
    -- the reply is all that can fail
    | getCacheLen r => cases r <;>
        simp [handle, handleMessage, Oneshot.send, ActorInput.reply, accepts]
    | sentRunTx h start stop kind error r => cases r <;>
        simp [handle, handleMessage, Oneshot.send, ActorInput.reply, accepts]
    | stop r => cases r <;>
        simp [handle, handleMessage, Oneshot.send, ActorInput.reply, accepts]
    | clearCache r => cases r <;>
        simp [handle, handleMessage, Oneshot.send, ActorInput.reply, accepts]
    -- these two may fail before they reply
    | removedRunTx h r =>
      by_cases hmem : h ∈ a.cache <;> cases r <;>
        simp [handle, handleMessage, removeCachedTx, Oneshot.send, ActorInput.reply, accepts, hmem]
    | dumpCache runId r =>
      rcases dumpCache_cases a inserted runId with ⟨haccepts, txs, -, hdump⟩ | ⟨haccepts, f, hdump⟩
      · have hacc : a.accepts (.message (.dumpCache runId r) inserted) = true := haccepts
        cases r <;> simp [handle, handleMessage, hdump, Oneshot.send, ActorInput.reply, hacc]
      · have hacc : a.accepts (.message (.dumpCache runId r) inserted) = false := haccepts
        simp [handle, handleMessage, hdump, hacc]

theorem handleFlashblockMark_status (a : TxActor) (mark : FlashblockMark) :
    (a.handleFlashblockMark mark).status = a.status := by
  unfold handleFlashblockMark
  split <;> split_ifs <;> rfl

theorem mem_cache_handleFlashblockMark {a : TxActor} {mark : FlashblockMark} {h : TxHash} :
    h ∈ (a.handleFlashblockMark mark).cache ↔ h ∈ a.cache := by
  unfold handleFlashblockMark
  split
  · split_ifs <;> simp
  · split_ifs <;> rfl

/-- Only a stop request changes the status. -/
theorem handle_status (a : TxActor) (input : ActorInput) :
    (a.handle input).actor.status =
      if input.isStop then .shuttingDown else a.status := by
  cases input with
  | stopSignal => rfl
  | flush request nowMs => cases request <;> rfl
  | mark mark => exact handleFlashblockMark_status a mark
  | message m inserted =>
    cases m with
    | removedRunTx h r =>
      by_cases hmem : h ∈ a.cache <;> simp [handle, handleMessage, removeCachedTx, hmem,
        ActorInput.isStop]
    | dumpCache runId r =>
      rcases dumpCache_cases a inserted runId with ⟨_, txs, -, hdump⟩ | ⟨_, f, hdump⟩ <;>
        simp [handle, handleMessage, hdump, ActorInput.isStop]
    | _ => rfl

/-- A handler that succeeds leaves in the cache what its input leaves there. -/
theorem mem_cache_handle {a : TxActor} {input : ActorInput} (answered : a.Answered input)
    (h : TxHash) : h ∈ (a.handle input).actor.cache ↔ input.keeps h (h ∈ a.cache) := by
  cases input with
  | stopSignal => rfl
  | flush request nowMs =>
    cases request with
    | getSnapshot => rfl
    | removeConfirmed confirmed target => exact AList.mem_eraseAll
  | mark mark => exact mem_cache_handleFlashblockMark
  | message m inserted =>
    cases m with
    | sentRunTx sent start stop kind error r => exact AList.mem_insert _
    -- an answered removal names a cached transaction
    | removedRunTx removed r =>
      have hmem : removed ∈ a.cache := by simpa [accepts] using answered.2
      simp [handle, handleMessage, removeCachedTx, hmem, ActorInput.keeps]
    | dumpCache runId r =>
      rcases dumpCache_cases a inserted runId with ⟨_, txs, -, hdump⟩ | ⟨hrefused, f, hdump⟩
      · simp [handle, handleMessage, hdump, ActorInput.keeps]
      · have haccepts : a.accepts (.message (.dumpCache runId .listening) inserted) = true :=
          answered.2
        rw [hrefused] at haccepts
        exact absurd haccepts (by simp)
    | clearCache r => simp [handle, handleMessage, ActorInput.keeps]
    | _ => rfl

/-- **One iteration.** A running actor that is not asked to stop keeps running
exactly when it can answer the input, with the cache the input leaves. -/
theorem next_iff {a : TxActor} {input : ActorInput} (running : a.status = .running)
    (nonstop : input.isStop = false) :
    (∃ b, a.next input = some b) ↔ a.Answered input := by
  have hstatus : (a.handle input).actor.status = .running := by
    rw [handle_status, nonstop]
    exact running
  rw [← handle_result_ok]
  constructor
  · rintro ⟨b, hb⟩
    exact (survivor_eq_some.mp hb).1
  · intro hok
    exact ⟨_, survivor_eq_some.mpr ⟨hok, hstatus, rfl⟩⟩

/-- The cache contents a list of inputs leaves, when all of them are processed. -/
def cachedAfter (a : TxActor) (txHash : TxHash) (inputs : List ActorInput) : Prop :=
  inputs.foldl (fun cached input => input.keeps txHash cached) (txHash ∈ a.cache)

/-- The actor stops on stop requests only: after every part of the inputs that asks
for no stop it is still running, and its cache holds what those inputs left. -/
def StopsOnlyOnStop (a : TxActor) (inputs : List ActorInput) : Prop :=
  ∀ processed, processed <+: inputs → (∀ input ∈ processed, input.isStop = false) →
    ∃ b, a.run processed = some b ∧ ∀ h, h ∈ b.cache ↔ a.cachedAfter h processed

/-- A running actor that is not asked to stop and can answer the input goes on,
with the cache the input leaves. -/
theorem next_of_answered {a : TxActor} {input : ActorInput} (running : a.status = .running)
    (nonstop : input.isStop = false) (answered : a.Answered input) :
    ∃ b, a.next input = some b ∧ b.status = .running ∧
      ∀ h rest, b.cachedAfter h rest ↔ a.cachedAfter h (input :: rest) := by
  obtain ⟨b, hb⟩ := (next_iff running nonstop).mpr answered
  obtain ⟨-, hstatus, rfl⟩ := survivor_eq_some.mp hb
  refine ⟨_, hb, hstatus, fun h rest => ?_⟩
  unfold cachedAfter
  rw [List.foldl_cons, propext (mem_cache_handle answered h)]

/-- The answered inputs of a running actor are all processed. -/
theorem run_of_answered {a : TxActor} {inputs : List ActorInput}
    (running : a.status = .running) (nonstop : ∀ input ∈ inputs, input.isStop = false)
    (answered : Execution.Along next Answered a inputs) :
    ∃ b, a.run inputs = some b ∧ ∀ h, h ∈ b.cache ↔ a.cachedAfter h inputs := by
  -- along the inputs, with the running actor generalised
  induction inputs generalizing a with
  | nil => exact ⟨a, rfl, fun _ => Iff.rfl⟩
  | cons input inputs ih =>
    obtain ⟨hfirst, hrest⟩ := List.forall_mem_cons.mp nonstop
    obtain ⟨c, hc, hstatus, hcached⟩ := next_of_answered running hfirst answered.1
    obtain ⟨b, hb, hcache⟩ := ih hstatus hrest (answered.2 c hc)
    refine ⟨b, Execution.run_cons_eq_some.mpr ⟨c, hc, hb⟩, fun h => ?_⟩
    rw [hcache h, hcached h]

/-- The inputs that a running actor got through were all answered. -/
theorem answered_of_run {a b : TxActor} {inputs : List ActorInput}
    (running : a.status = .running) (nonstop : ∀ input ∈ inputs, input.isStop = false)
    (hrun : a.run inputs = some b) : Execution.Along next Answered a inputs := by
  induction inputs generalizing a with
  | nil => trivial
  | cons input inputs ih =>
    obtain ⟨hfirst, hrest⟩ := List.forall_mem_cons.mp nonstop
    obtain ⟨c, hc, htail⟩ := Execution.run_cons_eq_some.mp hrun
    have hstatus : c.status = .running := by
      obtain ⟨-, hc', rfl⟩ := survivor_eq_some.mp hc
      exact hc'
    refine ⟨(next_iff running hfirst).mp ⟨c, hc⟩, fun d hd => ?_⟩
    obtain rfl : c = d := Option.some.inj (hc.symm.trans hd)
    exact ih hstatus hrest htail

/-- The actor stops on stop requests only, if and only if it can answer every input
that comes before the first stop request. -/
theorem stopsOnlyOnStop_iff {a : TxActor} (running : a.status = .running)
    (inputs : List ActorInput) :
    a.StopsOnlyOnStop inputs ↔
      Execution.Along next Answered a (inputs.takeWhile fun input => !input.isStop) := by
  have hbefore : ∀ input ∈ inputs.takeWhile (fun input => !input.isStop),
      input.isStop = false := by
    intro input hmem
    simpa using List.mem_takeWhile_imp hmem
  constructor
  · intro hstops
    obtain ⟨b, hb, -⟩ := hstops _ (List.takeWhile_prefix _) hbefore
    exact answered_of_run running hbefore hb
  · intro hanswered processed hprefix hnonstop
    -- a stop-free part of the inputs lies before the first stop request
    have hpart : processed <+: inputs.takeWhile (fun input => !input.isStop) := by
      obtain ⟨rest, rfl⟩ := hprefix
      rw [List.takeWhile_append_of_pos (by simpa using hnonstop)]
      exact List.prefix_append _ _
    obtain ⟨rest, hrest⟩ := hpart
    rw [← hrest] at hanswered
    exact run_of_answered running hnonstop hanswered.left

/-- Two requesters that wait for their replies leave the actor running. -/
theorem stopsOnlyOnStop_of_listening :
    (TxActor.new 0).StopsOnlyOnStop
      [.message (.sentRunTx 1 0 none none none .listening) true,
        .message (.removedRunTx 1 .listening) true, .stopSignal] :=
  (stopsOnlyOnStop_iff rfl _).mpr (by decide)

/-- A sender that abandons its `SentRunTx` reply ends the actor, and the
transaction cached before it is lost. -/
theorem not_stopsOnlyOnStop_of_dropped :
    ¬ (TxActor.new 0).StopsOnlyOnStop
      [.message (.sentRunTx 1 0 none none none .listening) true,
        .message (.sentRunTx 2 0 none none none .dropped) true] := by
  intro h
  obtain ⟨b, hb, -⟩ := h _ List.prefix_rfl (by decide)
  exact absurd hb (by simp [run, Execution.run, next, survivor, handle, handleMessage,
    Oneshot.send, TxActor.new])

end TxActor
end Contender
