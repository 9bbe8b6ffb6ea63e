import Contender.Primitives
import Contender.Semantics.Execution

/-!
# Dumping the transaction caches

At the end of a spam run `dump_tx_cache` goes through the message handles of the scenario. For
each of them it polls a cache length until the cache is empty or has not shrunk for
`pending_tx_timeout`, and then asks the handle to dump its cache.

The length that is polled is not that of the handle, but always that of the default one, and
the result of what is done for a handle is thrown away by the `select!` around it. So the other
handles are dumped without having been waited for, and a dump that fails, or that is never
requested because the default actor does not answer, leaves no trace in the result.

## Main results

* `DumpCall.waitsForEach_iff` — every handle is waited for and dumped exactly when there is no
  handle but the default one, and it answers every request
-/

namespace Contender

open Semantics

/-- The key of the handle that `tx_actor` returns. -/
def defaultHandle : Text := "default".toList

/-- The length of a hash map, which is below `usize::MAX`. -/
abbrev CacheLen := Fin (2 ^ 64 - 1)

/-- A call of `dump_tx_cache`: the keys of `msg_handles` in the order of iteration, among them
that of the default handle, and the timeout. -/
structure DumpCall where
  handles : List Text
  nodup : handles.Nodup
  hasDefault : defaultHandle ∈ handles
  pendingTxTimeout : Nat

/-- Where the work for the first of the remaining handles is. -/
inductive DumpPhase
  | start
  | poll (lastCacheLen lastProgress : Nat)
  | dump
  deriving DecidableEq, Repr

/-- What is asked of which handle: a poll, with the clock when the answer came and when the time
without progress was measured, and a dump with its outcome. -/
inductive DumpEvent
  | polled (handle : Text) (cacheLen now later : Nat)
  | dumped (handle : Text) (ok : Bool)
  | stopped (handle : Text)
  deriving DecidableEq, Repr

structure DumpState where
  remaining : List Text
  phase : DumpPhase
  events : List DumpEvent
  deriving DecidableEq, Repr

/-- What the clock shows, what the actors answer, and that the scenario is cancelled. -/
inductive DumpInput
  | begin (now : Nat)
  | cacheLen (answer : Option CacheLen) (now later : Nat)
  | dumped (ok : Bool)
  | cancelled
  deriving DecidableEq, Repr

/-- The actor answers the request. -/
def DumpInput.Answered : DumpInput → Prop
  | .cacheLen answer _ _ => answer ≠ none
  | .dumped ok => ok = true
  | _ => True

instance (input : DumpInput) : Decidable input.Answered :=
  match input with
  | .cacheLen answer _ _ => inferInstanceAs (Decidable (answer ≠ none))
  | .dumped ok => inferInstanceAs (Decidable (ok = true))
  | .begin _ | .cancelled => isTrue trivial

namespace DumpCall

variable (call : DumpCall)

def initial : DumpState := ⟨call.handles, .start, []⟩

/-- One iteration of the waiting loop, after an answer of the default actor. -/
def onCacheLen (s : DumpState) (lastCacheLen lastProgress cacheLen now later : Nat) : DumpState :=
  let events := s.events ++ [.polled defaultHandle cacheLen now later]
  if cacheLen = 0 then { s with phase := .dump, events := events }
  else
    -- progress is a length below all those seen before
    let len := if cacheLen < lastCacheLen then cacheLen else lastCacheLen
    let progress := if cacheLen < lastCacheLen then now else lastProgress
    if later - progress > call.pendingTxTimeout then
      { s with phase := .dump, events := events }
    else { s with phase := .poll len progress, events := events }

/-- One step of `dump_tx_cache`. It returns `Ok` when no handle remains. -/
def step (s : DumpState) (input : DumpInput) : Option DumpState :=
  match s.remaining, s.phase, input with
  | _ :: _, .start, .begin now => some { s with phase := .poll (2 ^ 64 - 1) now }
  | _ :: _, .poll lastCacheLen lastProgress, .cacheLen (some cacheLen) now later =>
    some (call.onCacheLen s lastCacheLen lastProgress cacheLen now later)
  -- `?` ends the block of the handle, and `_ =` drops the error
  | _ :: rest, .poll _ _, .cacheLen none _ _ => some { s with remaining := rest, phase := .start }
  | handle :: rest, .dump, .dumped ok =>
    some { remaining := rest, phase := .start, events := s.events ++ [.dumped handle ok] }
  -- the other arm of the `select!`
  | _ :: rest, _, .cancelled =>
    some { remaining := rest, phase := .start, events := s.events ++ [.stopped defaultHandle] }
  | _, _, _ => none

/-- The handle made no progress for the timeout: from one of its answers on none was lower, and
one of them came when the timeout had passed. -/
def Stalled (timeout : Nat) (handle : Text) (events : List DumpEvent) : Prop :=
  ∃ earlier cacheLen now later rest,
    events = earlier ++ .polled handle cacheLen now later :: rest ∧
    (∀ cacheLen' now' later', .polled handle cacheLen' now' later' ∈ rest → cacheLen ≤ cacheLen') ∧
    ∃ cacheLen' now' later', .polled handle cacheLen' now' later' ∈
      DumpEvent.polled handle cacheLen now later :: rest ∧ timeout < later' - now

/-- The handle reported an empty cache, or made no progress for the timeout. -/
def Settled (timeout : Nat) (handle : Text) (events : List DumpEvent) : Prop :=
  (∃ now later, .polled handle 0 now later ∈ events) ∨ Stalled timeout handle events

/-- Every dump is requested from a handle that has settled. -/
def DumpsSettled (events : List DumpEvent) : Prop :=
  ∀ earlier handle ok rest, events = earlier ++ .dumped handle ok :: rest →
    Settled call.pendingTxTimeout handle earlier

/-- The call waits for the actors it dumps, and has dumped all of them when it returns. -/
def WaitsForEach (s : DumpState) : Prop :=
  call.DumpsSettled s.events ∧
    (s.remaining = [] → ∀ handle ∈ call.handles, .dumped handle true ∈ s.events)

variable {call} {s t : DumpState} {input : DumpInput}

/-! ### One step -/

/-- The least length seen of the default actor, and when it was seen. -/
def Lowest (events : List DumpEvent) (len progress : Nat) : Prop :=
  ∃ earlier later rest, events = earlier ++ .polled defaultHandle len progress later :: rest ∧
    ∀ cacheLen' now' later', .polled defaultHandle cacheLen' now' later' ∈ rest → len ≤ cacheLen'

/-- What the phase says about the default actor. -/
def PhaseOk (timeout : Nat) (events : List DumpEvent) : DumpPhase → Prop
  | .start => True
  -- before the first answer the length is one that no cache has
  | .poll len progress => len = 2 ^ 64 - 1 ∨ Lowest events len progress
  | .dump => Settled timeout defaultHandle events

theorem Lowest.of_last (events : List DumpEvent) (len progress later : Nat) :
    Lowest (events ++ [.polled defaultHandle len progress later]) len progress :=
  ⟨events, later, [], rfl, fun _ _ _ hmem => absurd hmem List.not_mem_nil⟩

theorem Lowest.snoc {events : List DumpEvent} {len progress cacheLen : Nat}
    (hlowest : Lowest events len progress) (hle : len ≤ cacheLen) (now later : Nat) :
    Lowest (events ++ [.polled defaultHandle cacheLen now later]) len progress := by
  obtain ⟨earlier, later', rest, rfl, hrest⟩ := hlowest
  refine ⟨earlier, later', rest ++ [.polled defaultHandle cacheLen now later], by simp, ?_⟩
  intro cacheLen' now' later'' hmem
  rcases List.mem_append.mp hmem with hmem | hmem
  · exact hrest _ _ _ hmem
  · obtain ⟨-, rfl, -, -⟩ := DumpEvent.polled.inj (List.mem_singleton.mp hmem)
    exact hle

/-- An answer that comes too late after the least length was seen shows a stalled actor. -/
theorem Lowest.stalled {events : List DumpEvent} {timeout len progress cacheLen now later : Nat}
    (hlowest : Lowest (events ++ [.polled defaultHandle cacheLen now later]) len progress)
    (hlate : timeout < later - progress) :
    Stalled timeout defaultHandle (events ++ [.polled defaultHandle cacheLen now later]) := by
  obtain ⟨earlier, later', rest, heq, hrest⟩ := hlowest
  refine ⟨earlier, len, progress, later', rest, heq, hrest, cacheLen, now, later, ?_, hlate⟩
  -- the last event is the one found, or comes after it
  have hlast := congrArg List.getLast? heq
  rw [List.getLast?_concat, List.getLast?_append_cons] at hlast
  exact List.mem_of_getLast? hlast.symm

/-- A poll leaves an event, and the phase says what it showed. -/
theorem onCacheLen_spec {lastCacheLen lastProgress : Nat} (cacheLen : CacheLen) (now later : Nat)
    (hphase : PhaseOk call.pendingTxTimeout s.events (.poll lastCacheLen lastProgress)) :
    let t := call.onCacheLen s lastCacheLen lastProgress cacheLen now later
    t.remaining = s.remaining ∧
      t.events = s.events ++ [.polled defaultHandle cacheLen now later] ∧
      PhaseOk call.pendingTxTimeout t.events t.phase := by
  have hlowest : Lowest (s.events ++ [.polled defaultHandle cacheLen now later])
      (if cacheLen < lastCacheLen then cacheLen else lastCacheLen)
      (if cacheLen < lastCacheLen then now else lastProgress) := by
    split_ifs with hless
    · exact Lowest.of_last _ _ _ _
    · rcases hphase with rfl | hlowest
      · exact absurd cacheLen.isLt hless
      · exact hlowest.snoc (Nat.le_of_not_lt hless) now later
  unfold onCacheLen
  dsimp only
  split_ifs with hzero hless hlate hlate <;> refine ⟨rfl, rfl, ?_⟩
  · exact Or.inl ⟨now, later, by simp [hzero]⟩
  all_goals simp only [hless, if_true, if_false] at hlowest
  · exact Or.inr (hlowest.stalled hlate)
  · exact Or.inr hlowest
  · exact Or.inr (hlowest.stalled hlate)
  · exact Or.inr hlowest

/-- The steps of the call, by what they do to the first of the remaining handles. -/
inductive Move (call : DumpCall) (s : DumpState) (handle : Text) (rest : List Text) :
    DumpInput → DumpState → Prop
  | begin {now : Nat} :
      Move call s handle rest (.begin now) { s with phase := .poll (2 ^ 64 - 1) now }
  | poll {lastCacheLen lastProgress now later : Nat} {cacheLen : CacheLen}
      (hphase : s.phase = .poll lastCacheLen lastProgress) :
      Move call s handle rest (.cacheLen (some cacheLen) now later)
        (call.onCacheLen s lastCacheLen lastProgress cacheLen now later)
  | fail {now later : Nat} : Move call s handle rest (.cacheLen none now later)
      { s with remaining := rest, phase := .start }
  | dump {ok : Bool} (hphase : s.phase = .dump) : Move call s handle rest (.dumped ok)
      { remaining := rest, phase := .start, events := s.events ++ [.dumped handle ok] }
  | cancel : Move call s handle rest .cancelled
      { remaining := rest, phase := .start, events := s.events ++ [.stopped defaultHandle] }

theorem move_of_step (hstep : call.step s input = some t) :
    ∃ handle rest, s.remaining = handle :: rest ∧ Move call s handle rest input t := by
  obtain ⟨remaining, phase, events⟩ := s
  cases remaining with
  | nil => simp [step] at hstep
  | cons handle rest =>
    refine ⟨handle, rest, rfl, ?_⟩
    cases input with
    | begin now =>
      cases phase with
      | start => exact Option.some.inj hstep ▸ .begin
      | poll lastCacheLen lastProgress => cases hstep
      | dump => cases hstep
    | cacheLen answer now later =>
      cases phase with
      | start => cases answer <;> cases hstep
      | poll lastCacheLen lastProgress =>
        cases answer with
        | none => exact Option.some.inj hstep ▸ .fail
        | some cacheLen => exact Option.some.inj hstep ▸ .poll rfl
      | dump => cases answer <;> cases hstep
    | dumped ok =>
      cases phase with
      | start => cases hstep
      | poll lastCacheLen lastProgress => cases hstep
      | dump => exact Option.some.inj hstep ▸ .dump rfl
    | cancelled => cases phase <;> exact Option.some.inj hstep ▸ .cancel

/-! ### Whole calls -/

/-- What the call has done after some inputs: `consumed` are the handles it is through with. -/
structure Progress (call : DumpCall) (inputs : List DumpInput) (s : DumpState)
    (consumed : List Text) : Prop where
  handles : call.handles = consumed ++ s.remaining
  polled : ∀ handle cacheLen now later, .polled handle cacheLen now later ∈ s.events →
    handle = defaultHandle
  phase : PhaseOk call.pendingTxTimeout s.events s.phase
  settled : ∀ earlier ok rest, s.events = earlier ++ .dumped defaultHandle ok :: rest →
    Settled call.pendingTxTimeout defaultHandle earlier
  dumped : ∀ handle ok, .dumped handle ok ∈ s.events → handle ∈ consumed
  complete : (∀ input ∈ inputs, input.Answered) →
    ∀ handle ∈ consumed, .dumped handle true ∈ s.events
  missed : (∃ input ∈ inputs, ¬ input.Answered) →
    ∃ handle ∈ consumed, .dumped handle true ∉ s.events

theorem progress_initial (call : DumpCall) : Progress call [] call.initial [] where
  handles := rfl
  polled _ _ _ _ hmem := absurd hmem List.not_mem_nil
  phase := trivial
  settled earlier ok rest heq := by simp [initial] at heq
  dumped _ _ hmem := absurd hmem List.not_mem_nil
  complete _ _ hmem := absurd hmem List.not_mem_nil
  missed h := by simp at h

/-- Where an event stands in a log that has grown by one. -/
theorem snoc_eq_append_cons {events earlier rest : List DumpEvent} {last event : DumpEvent}
    (h : events ++ [last] = earlier ++ event :: rest) :
    (earlier = events ∧ event = last) ∨ ∃ rest', events = earlier ++ event :: rest' := by
  rcases List.eq_nil_or_concat rest with rfl | ⟨rest', last', rfl⟩
  · obtain ⟨rfl, hlast⟩ := List.append_inj' h rfl
    exact Or.inl ⟨rfl, (List.singleton_inj.mp hlast).symm⟩
  · rw [List.concat_eq_append, ← List.cons_append, ← List.append_assoc] at h
    exact Or.inr ⟨rest', (List.append_inj' h rfl).1⟩

section Step

variable {handle : Text} {rest consumed : List Text} {inputs : List DumpInput}

/-- A step that stays with the handle and logs at most a poll of the default actor. -/
theorem Progress.stay (hprogress : Progress call inputs s consumed)
    (hremaining : t.remaining = s.remaining)
    (hevents : t.events = s.events ∨ ∃ cacheLen now later,
      t.events = s.events ++ [.polled defaultHandle cacheLen now later])
    (hphase : PhaseOk call.pendingTxTimeout t.events t.phase) (hanswered : input.Answered) :
    Progress call (inputs ++ [input]) t consumed := by
  have hdumped : ∀ h ok, .dumped h ok ∈ t.events ↔ .dumped h ok ∈ s.events := by
    intro h ok
    rcases hevents with heq | ⟨cacheLen, now, later, heq⟩ <;> simp [heq]
  refine ⟨hremaining ▸ hprogress.handles, fun h cacheLen now later hmem => ?_, hphase,
    fun earlier ok rest' heq => ?_, fun h ok hmem => hprogress.dumped h ok ((hdumped h ok).mp hmem),
    fun hall h hmem => (hdumped h true).mpr ?_, fun hsome => ?_⟩
  · rcases hevents with heq | ⟨cacheLen', now', later', heq⟩ <;> rw [heq] at hmem
    · exact hprogress.polled _ _ _ _ hmem
    · rcases List.mem_append.mp hmem with hmem | hmem
      · exact hprogress.polled _ _ _ _ hmem
      · exact (DumpEvent.polled.inj (List.mem_singleton.mp hmem)).1
  · rcases hevents with hsame | ⟨cacheLen, now, later, hlogged⟩
    · exact hprogress.settled _ _ _ (hsame ▸ heq)
    · rw [hlogged] at heq
      rcases snoc_eq_append_cons heq with ⟨-, hevent⟩ | ⟨rest'', heq'⟩
      · cases hevent
      · exact hprogress.settled _ _ _ heq'
  · exact hprogress.complete (fun i hi => hall i (List.mem_append_left _ hi)) h hmem
  · obtain ⟨i, hi, hnot⟩ := hsome
    rcases List.mem_append.mp hi with hi | hi
    · obtain ⟨h, hmem, hmissed⟩ := hprogress.missed ⟨i, hi, hnot⟩
      exact ⟨h, hmem, fun hd => hmissed ((hdumped h true).mp hd)⟩
    · exact absurd hanswered (List.mem_singleton.mp hi ▸ hnot)

/-- A handle that is still to be dumped has not been dumped. -/
theorem Progress.notMem_dumped (hprogress : Progress call inputs s consumed)
    (hremaining : s.remaining = handle :: rest) (ok : Bool) : .dumped handle ok ∉ s.events := by
  intro hmem
  have hnodup := call.nodup
  rw [hprogress.handles, hremaining] at hnodup
  exact (List.nodup_append.mp hnodup).2.2 _ (hprogress.dumped _ _ hmem) _ List.mem_cons_self rfl

/-- The handle is given up without a dump. -/
theorem Progress.fail (hprogress : Progress call inputs s consumed)
    (hremaining : s.remaining = handle :: rest) (hnot : ¬ input.Answered) :
    Progress call (inputs ++ [input]) { s with remaining := rest, phase := .start }
      (consumed ++ [handle]) where
  handles := by
    rw [hprogress.handles, hremaining]
    simp
  polled := hprogress.polled
  phase := trivial
  settled := hprogress.settled
  dumped h ok hmem := List.mem_append_left _ (hprogress.dumped h ok hmem)
  complete hall := absurd (hall input (by simp)) hnot
  missed _ := ⟨handle, by simp, hprogress.notMem_dumped hremaining true⟩

/-- The handle is dumped. -/
theorem Progress.dump (hprogress : Progress call inputs s consumed)
    (hremaining : s.remaining = handle :: rest) (hphase : s.phase = .dump) (ok : Bool) :
    Progress call (inputs ++ [.dumped ok])
      { remaining := rest, phase := .start, events := s.events ++ [.dumped handle ok] }
      (consumed ++ [handle]) where
  handles := by
    rw [hprogress.handles, hremaining]
    simp
  polled h cacheLen now later hmem :=
    hprogress.polled h cacheLen now later (by simpa using hmem)
  phase := trivial
  settled earlier ok' rest' heq := by
    rcases snoc_eq_append_cons heq with ⟨rfl, -⟩ | ⟨rest'', heq'⟩
    · have hsettled := hprogress.phase
      rwa [hphase] at hsettled
    · exact hprogress.settled _ _ _ heq'
  dumped h ok' hmem := by
    rcases List.mem_append.mp hmem with hmem | hmem
    · exact List.mem_append_left _ (hprogress.dumped h ok' hmem)
    · obtain ⟨rfl, -⟩ := DumpEvent.dumped.inj (List.mem_singleton.mp hmem)
      simp
  complete hall h hmem := by
    rcases List.mem_append.mp hmem with hmem | hmem
    · have hbefore := hprogress.complete (fun i hi => hall i (List.mem_append_left _ hi)) h hmem
      exact List.mem_append_left _ hbefore
    · have hok : ok = true := hall (.dumped ok) (by simp)
      rw [List.mem_singleton.mp hmem, hok]
      simp
  missed hsome := by
    obtain ⟨i, hi, hnot⟩ := hsome
    rcases List.mem_append.mp hi with hi | hi
    · -- a handle that was missed before is not the one dumped now
      obtain ⟨h, hmem, hmissed⟩ := hprogress.missed ⟨i, hi, hnot⟩
      refine ⟨h, List.mem_append_left _ hmem, fun hd => ?_⟩
      rcases List.mem_append.mp hd with hd | hd
      · exact hmissed hd
      · obtain ⟨rfl, -⟩ := DumpEvent.dumped.inj (List.mem_singleton.mp hd)
        have hnodup := call.nodup
        rw [hprogress.handles, hremaining] at hnodup
        exact (List.nodup_append.mp hnodup).2.2 _ hmem _ List.mem_cons_self rfl
    · obtain rfl := List.mem_singleton.mp hi
      refine ⟨handle, by simp, fun hd => ?_⟩
      rcases List.mem_append.mp hd with hd | hd
      · exact hprogress.notMem_dumped hremaining true hd
      · exact hnot (DumpEvent.dumped.inj (List.mem_singleton.mp hd)).2.symm

/-- **Every step but a cancellation makes progress.** -/
theorem Progress.step (hprogress : Progress call inputs s consumed)
    (hcancelled : input ≠ .cancelled) (hstep : call.step s input = some t) :
    ∃ consumed', Progress call (inputs ++ [input]) t consumed' := by
  obtain ⟨handle, rest, hremaining, hmove⟩ := move_of_step hstep
  cases hmove with
  | begin => exact ⟨_, hprogress.stay rfl (Or.inl rfl) (Or.inl rfl) trivial⟩
  | poll hphase =>
    have hbefore := hprogress.phase
    rw [hphase] at hbefore
    obtain ⟨hsame, hevents, hafter⟩ := onCacheLen_spec _ _ _ hbefore
    exact ⟨_, hprogress.stay hsame (Or.inr ⟨_, _, _, hevents⟩) hafter
      (by simp [DumpInput.Answered])⟩
  | fail => exact ⟨_, hprogress.fail hremaining (by simp [DumpInput.Answered])⟩
  | dump hphase => exact ⟨_, hprogress.dump hremaining hphase _⟩
  | cancel => exact absurd rfl hcancelled

end Step

theorem exists_progress {inputs : List DumpInput} (hcancelled : .cancelled ∉ inputs)
    (hrun : Execution.run call.step call.initial inputs = some t) :
    ∃ consumed, Progress call inputs t consumed := by
  have hprogress := Execution.history_invariant
    (I := fun w s => ∃ consumed, Progress call w s consumed)
    (fun w s input t hok hstep ⟨consumed, hinv⟩ => hinv.step hok hstep) []
    ⟨[], progress_initial call⟩ hrun
    (Execution.along_of_forall fun input hmem _ heq => hcancelled (heq ▸ hmem))
  rwa [List.nil_append] at hprogress

/-- Only the default actor is ever polled, so no other handle is seen to settle. -/
theorem Settled.eq_default {timeout : Nat} {handle : Text} {events : List DumpEvent}
    (hpolled : ∀ handle cacheLen now later, .polled handle cacheLen now later ∈ events →
      handle = defaultHandle) (hsettled : Settled timeout handle events) :
    handle = defaultHandle := by
  rcases hsettled with ⟨now, later, hmem⟩ | ⟨earlier, cacheLen, now, later, rest, rfl, -⟩
  · exact hpolled _ _ _ _ hmem
  · exact hpolled handle cacheLen now later (by simp)

/-- **Waiting for each actor.** In a call that is not cancelled and has returned, every dump was
requested from an actor that had settled, and every handle has been dumped, exactly when the
default handle is the only one and it answered every request. -/
theorem waitsForEach_iff {inputs : List DumpInput} (hcancelled : .cancelled ∉ inputs)
    (hrun : Execution.run call.step call.initial inputs = some t) (hreturned : t.remaining = []) :
    call.WaitsForEach t ↔
      call.handles = [defaultHandle] ∧ ∀ input ∈ inputs, input.Answered := by
  obtain ⟨consumed, hprogress⟩ := exists_progress hcancelled hrun
  have hconsumed : consumed = call.handles := by
    rw [hprogress.handles, hreturned, List.append_nil]
  subst hconsumed
  constructor
  · rintro ⟨hsettled, hall⟩
    have honly : ∀ handle ∈ call.handles, handle = defaultHandle := by
      intro handle hmem
      obtain ⟨earlier, rest, heq⟩ := List.append_of_mem (hall hreturned handle hmem)
      refine (hsettled earlier handle true rest heq).eq_default fun h cacheLen now later hpoll => ?_
      exact hprogress.polled h cacheLen now later (heq ▸ List.mem_append_left _ hpoll)
    refine ⟨?_, fun input hmem => by_contra fun hnot => ?_⟩
    · have hreplicate := List.eq_replicate_iff.mpr ⟨rfl, honly⟩
      have hlength : call.handles.length = 1 := by
        have hle : call.handles.length ≤ 1 := by
          have hnodup := call.nodup
          rw [hreplicate] at hnodup
          exact List.nodup_replicate.mp hnodup
        have hpos := List.length_pos_of_mem call.hasDefault
        omega
      rw [hreplicate, hlength]
      rfl
    · obtain ⟨handle, hhandle, hmissed⟩ := hprogress.missed ⟨input, hmem, hnot⟩
      exact hmissed (hall hreturned handle hhandle)
  · rintro ⟨honly, hanswered⟩
    refine ⟨fun earlier handle ok rest heq => ?_, fun _ => hprogress.complete hanswered⟩
    have hmem := hprogress.dumped handle ok (heq ▸ by simp)
    rw [honly, List.mem_singleton] at hmem
    subst hmem
    exact hprogress.settled earlier ok rest heq

/-! ### Two handles -/

/-- The default handle and one more. -/
def withReplay : DumpCall where
  handles := [defaultHandle, "replay".toList]
  nodup := by decide
  hasDefault := by decide
  pendingTxTimeout := 12000

/-- The cache of the default actor is empty at once; the other one is dumped just after. -/
def oneAfterTheOther : List DumpInput :=
  [.begin 0, .cacheLen (some ⟨0, by decide⟩) 1 1, .dumped true,
    .begin 2, .cacheLen (some ⟨0, by decide⟩) 3 3, .dumped true]

theorem not_waitsForEach_withReplay :
    ∃ t, Execution.run withReplay.step withReplay.initial oneAfterTheOther = some t ∧
      t.remaining = [] ∧ ¬ withReplay.WaitsForEach t := by
  refine ⟨_, rfl, rfl, fun h => ?_⟩
  obtain ⟨hsettled, -⟩ := h
  have hreplay := hsettled [.polled defaultHandle 0 1 1, .dumped defaultHandle true,
    .polled defaultHandle 0 3 3] "replay".toList true [] rfl
  refine absurd (hreplay.eq_default fun h cacheLen now later hmem => ?_) (by decide)
  simp only [List.mem_cons, List.not_mem_nil, DumpEvent.polled.injEq, reduceCtorEq, or_false,
    false_or] at hmem
  rcases hmem with ⟨rfl, -⟩ | ⟨rfl, -⟩ <;> rfl

/-- The default handle alone. -/
def alone : DumpCall where
  handles := [defaultHandle]
  nodup := by decide
  hasDefault := by decide
  pendingTxTimeout := 12000

/-- Two transactions are confirmed, the third one is not, and the time runs out. -/
def oneLeft : List DumpInput :=
  [.begin 0, .cacheLen (some ⟨3, by decide⟩) 1 1, .cacheLen (some ⟨1, by decide⟩) 101 101,
    .cacheLen (some ⟨1, by decide⟩) 12102 12102, .dumped true]

theorem waitsForEach_alone :
    ∃ t, Execution.run alone.step alone.initial oneLeft = some t ∧ t.remaining = [] ∧
      alone.WaitsForEach t := by
  have hrun : Execution.run alone.step alone.initial oneLeft = some _ := rfl
  exact ⟨_, hrun, rfl, (waitsForEach_iff (by decide) hrun rfl).mpr ⟨rfl, by decide⟩⟩

end DumpCall

end Contender
