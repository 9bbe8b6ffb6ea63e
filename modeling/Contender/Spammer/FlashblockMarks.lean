import Contender.Spammer.Representation

/-!
# The first flashblock mark

Marks and sent transactions reach the actor on two channels, so the mark of a transaction may
be handled before or after the transaction itself. A mark that comes early is buffered and
applied when its transaction is cached; a mark that comes late is written to the cached
transaction. On either way the first mark wins, as long as the early one is not lost: refused
because the buffer is full, evicted because of its age, or removed with a confirmed
transaction.

## Main results

* `TxActor.firstMark_of_cached` — a cached transaction has the timestamp and the index of the
  first mark that was handled for it
-/

namespace Contender

open Semantics

/-- The timestamp and the index of the first mark for a transaction among the inputs. -/
def firstMark (txHash : TxHash) (inputs : List ActorInput) : Option (Nat × Nat) :=
  (inputs.findSome? fun input => input.markOf txHash).map fun mark => (mark.timestampMs, mark.index)

theorem firstMark_append (txHash : TxHash) (earlier later : List ActorInput) :
    firstMark txHash (earlier ++ later) =
      (firstMark txHash earlier).or (firstMark txHash later) := by
  unfold firstMark
  rw [List.findSome?_append]
  cases earlier.findSome? fun input => input.markOf txHash <;> simp

theorem firstMark_snoc (txHash : TxHash) (earlier : List ActorInput) (input : ActorInput) :
    firstMark txHash (earlier ++ [input]) = (firstMark txHash earlier).or
      ((input.markOf txHash).map fun mark => (mark.timestampMs, mark.index)) := by
  rw [firstMark_append]
  cases hmark : input.markOf txHash <;> simp [firstMark, hmark]

namespace TxActor

variable {a b : TxActor} {h : TxHash} {input : ActorInput}

/-- The flashblock fields of a transaction. -/
def flashblock (tx : PendingRunTx) : Option Nat × Option Nat :=
  (tx.flashblockTimestampMs, tx.flashblockIndex)

/-- The input does not lose a mark of the transaction: a first one finds room in the buffer,
and the buffered one is neither confirmed nor too old. -/
def KeepsMark (h : TxHash) (a : TxActor) : ActorInput → Prop
  | .mark mark => mark.txHash = h → h ∈ a.pendingFlashblockMarks ∨
      a.pendingFlashblockMarks.entries.length < maxPendingFlashblockMarks
  | .flush (.removeConfirmed hashes _) nowMs =>
    ∀ mark ∈ a.pendingFlashblockMarks.lookup h, h ∉ hashes ∧ nowMs - mark.1 < 20000
  | _ => True

instance (h : TxHash) (a : TxActor) (input : ActorInput) : Decidable (a.KeepsMark h input) :=
  match input with
  | .mark _ => inferInstanceAs (Decidable (_ → _))
  | .flush (.removeConfirmed _ _) _ => inferInstanceAs (Decidable (∀ mark ∈ _, _ ∧ _))
  | .flush .getSnapshot _ | .stopSignal | .message _ _ => isTrue trivial

/-- Before the transaction is sent: it is not cached, and its first mark is buffered. -/
structure Awaited (h : TxHash) (inputs : List ActorInput) (a : TxActor) : Prop where
  uncached : h ∉ a.cache
  buffered : a.pendingFlashblockMarks.lookup h = firstMark h inputs

/-- While the transaction is cached, it has its first mark. -/
def Marked (h : TxHash) (inputs : List ActorInput) (a : TxActor) : Prop :=
  ∀ tx ∈ a.cache.lookup h, flashblock tx =
    ((firstMark h inputs).map Prod.fst, (firstMark h inputs).map Prod.snd)

theorem firstMark_snoc_of_markOf (hmark : input.markOf h = none) (inputs : List ActorInput) :
    firstMark h (inputs ++ [input]) = firstMark h inputs := by
  rw [firstMark_snoc, hmark]
  simp

theorem markOf_mark_ne {mark : FlashblockMark} (hne : mark.txHash ≠ h) :
    (ActorInput.mark mark).markOf h = none := if_neg hne

/-- A mark of the transaction is its first one exactly when there was none before. -/
theorem firstMark_snoc_mark {mark : FlashblockMark} (heq : mark.txHash = h)
    (inputs : List ActorInput) : firstMark h (inputs ++ [.mark mark]) =
      (firstMark h inputs).or (some (mark.timestampMs, mark.index)) := by
  rw [firstMark_snoc]
  simp [ActorInput.markOf, heq]

/-- Until the transaction is sent, its first mark is waiting for it. -/
theorem Awaited.touch {inputs : List ActorInput} (hawaited : Awaited h inputs a)
    (htouch : Touch a input b) (hsends : ¬ input.Sends h) (hkeeps : a.KeepsMark h input) :
    Awaited h (inputs ++ [input]) b := by
  obtain ⟨huncached, hbuffered⟩ := hawaited
  cases htouch with
  | keep hsent hmark hcache hmarks =>
    rw [← firstMark_snoc_of_markOf (hmark h)] at hbuffered
    exact ⟨hcache ▸ huncached, hmarks ▸ hbuffered⟩
  | @send sent start stop kind error reply inserted b hcache hmarks =>
    have hne : h ≠ sent := fun heq => hsends heq.symm
    refine ⟨?_, ?_⟩
    · rw [hcache, AList.mem_insert]
      exact fun hmem => hmem.elim hne huncached
    · rw [hmarks, AList.lookup_erase_ne hne, hbuffered, firstMark_snoc_of_markOf rfl]
  | remove hsent hmark removed hcache hmarks =>
    rw [← firstMark_snoc_of_markOf (hmark h)] at hbuffered
    refine ⟨?_, hmarks ▸ hbuffered⟩
    rw [← AList.lookup_eq_none, hcache, AList.lookup_eq_none.mpr huncached, ite_self]
  | @confirm hashes target nowMs b hcache hmarks =>
    refine ⟨?_, ?_⟩
    · rw [hcache, AList.mem_eraseAll]
      exact fun hmem => huncached hmem.1
    · rw [hmarks, firstMark_snoc_of_markOf rfl, ← hbuffered]
      apply Option.ext
      intro mark
      rw [AList.lookup_retain_eq_some, AList.lookup_eraseAll]
      constructor
      · rintro ⟨hlookup, -⟩
        split_ifs at hlookup
        exact hlookup
      · intro hlookup
        obtain ⟨hnot, hyoung⟩ := hkeeps mark hlookup
        rw [if_neg hnot]
        exact ⟨hlookup, decide_eq_true hyoung⟩
  | @mark mark tx b hlookup hunmarked hcache hmarks =>
    -- the marked transaction is cached, so it is another one
    have hne : mark.txHash ≠ h := by
      rintro rfl
      exact huncached (AList.mem_iff_lookup.mpr ⟨tx, hlookup⟩)
    refine ⟨?_, ?_⟩
    · rw [hcache, AList.mem_replace]
      exact huncached
    · rw [hmarks, firstMark_snoc_of_markOf (markOf_mark_ne hne), hbuffered]
  | @buffer mark b huncached' hfree hroom hcache hmarks =>
    refine ⟨hcache ▸ huncached, ?_⟩
    by_cases heq : mark.txHash = h
    · subst heq
      have hnone : firstMark mark.txHash inputs = none :=
        hbuffered.symm.trans (AList.lookup_eq_none.mpr hfree)
      rw [hmarks, AList.lookup_insert, firstMark_snoc_mark rfl, hnone]
      rfl
    · rw [hmarks, AList.lookup_insert_ne (Ne.symm heq), hbuffered,
        firstMark_snoc_of_markOf (markOf_mark_ne heq)]
  | @ignore mark hmarked =>
    refine ⟨huncached, ?_⟩
    by_cases heq : mark.txHash = h
    · subst heq
      -- with room in the buffer, only a second mark is ignored
      have hmem : mark.txHash ∈ a.pendingFlashblockMarks := by
        rcases hmarked with ⟨tx, hlookup, -⟩ | ⟨-, hmem | hfull⟩
        · exact absurd (AList.mem_iff_lookup.mpr ⟨tx, hlookup⟩) huncached
        · exact hmem
        · exact (hkeeps rfl).elim id fun hroom => absurd hroom (Nat.not_lt.mpr hfull)
      obtain ⟨first, hfirst⟩ := AList.mem_iff_lookup.mp hmem
      rw [firstMark_snoc_mark rfl, ← hbuffered, hfirst]
      rfl
    · rw [hbuffered, firstMark_snoc_of_markOf (markOf_mark_ne heq)]

/-- The sent transaction is cached with the mark that was waiting for it. -/
theorem Awaited.send {inputs : List ActorInput} (hawaited : Awaited h inputs a)
    (htouch : Touch a input b) (hsends : input.Sends h) : Marked h (inputs ++ [input]) b := by
  cases htouch with
  | keep hsent hmark hcache hmarks => exact absurd hsends (hsent h)
  | remove hsent hmark removed hcache hmarks => exact absurd hsends (hsent h)
  | @send sent start stop kind error reply inserted b hcache hmarks =>
    obtain rfl : sent = h := hsends
    intro tx htx
    rw [hcache, AList.lookup_insert] at htx
    obtain rfl := Option.some.inj htx
    rw [firstMark_snoc_of_markOf rfl, ← hawaited.buffered]
    rfl
  | confirm | mark | buffer | ignore => exact hsends.elim

/-- A cached transaction keeps its first mark, or takes it from the input. -/
theorem Marked.touch {inputs : List ActorInput} (hmarked : Marked h inputs a)
    (htouch : Touch a input b) (hsends : ¬ input.Sends h) : Marked h (inputs ++ [input]) b := by
  intro tx htx
  cases htouch with
  | keep hsent hmark hcache hmarks =>
    rw [firstMark_snoc_of_markOf (hmark h)]
    exact hmarked tx (hcache ▸ htx)
  | @send sent start stop kind error reply inserted b hcache hmarks =>
    have hne : h ≠ sent := fun heq => hsends heq.symm
    rw [hcache, AList.lookup_insert_ne hne] at htx
    rw [firstMark_snoc_of_markOf rfl]
    exact hmarked tx htx
  | remove hsent hmark removed hcache hmarks =>
    rw [Option.mem_def, hcache] at htx
    split_ifs at htx
    rw [firstMark_snoc_of_markOf (hmark h)]
    exact hmarked tx htx
  | confirm hcache hmarks =>
    rw [hcache, Option.mem_def, AList.lookup_eraseAll] at htx
    split_ifs at htx
    rw [firstMark_snoc_of_markOf rfl]
    exact hmarked tx htx
  | @mark mark old b hlookup hunmarked hcache hmarks =>
    rw [hcache, Option.mem_def, AList.lookup_replace] at htx
    split_ifs at htx with heq
    · -- the transaction has no mark, so this one is the first
      subst heq
      have hfirst := hmarked old hlookup
      have hnone : firstMark mark.txHash inputs = none := by
        have hstamp := congrArg Prod.fst hfirst
        simpa [flashblock, hunmarked] using hstamp.symm
      rw [hlookup] at htx
      obtain rfl := Option.some.inj htx
      rw [firstMark_snoc_mark rfl, hnone]
      rfl
    · rw [firstMark_snoc_of_markOf (markOf_mark_ne (Ne.symm heq))]
      exact hmarked tx htx
  | @buffer mark b huncached hfree hroom hcache hmarks =>
    rw [hcache] at htx
    have hne : mark.txHash ≠ h := by
      rintro rfl
      exact huncached (AList.mem_iff_lookup.mpr ⟨tx, htx⟩)
    rw [firstMark_snoc_of_markOf (markOf_mark_ne hne)]
    exact hmarked tx htx
  | @ignore mark hignored =>
    by_cases heq : mark.txHash = h
    · subst heq
      have hfirst := hmarked tx htx
      -- the mark is ignored because there is one already
      rcases hignored with ⟨old, hlookup, hstamp⟩ | ⟨huncached, -⟩
      · obtain rfl : old = tx := Option.some.inj (hlookup.symm.trans htx)
        have hsome : firstMark mark.txHash inputs ≠ none := by
          intro hnone
          rw [hnone] at hfirst
          exact hstamp (congrArg Prod.fst hfirst)
        obtain ⟨first, hfirst'⟩ := Option.ne_none_iff_exists'.mp hsome
        rw [hfirst'] at hfirst
        rw [firstMark_snoc_mark rfl, hfirst']
        exact hfirst
      · exact absurd (AList.mem_iff_lookup.mpr ⟨tx, htx⟩) huncached
    · rw [firstMark_snoc_of_markOf (markOf_mark_ne heq)]
      exact hmarked tx htx

/-- **The first mark wins, whatever the order of arrival.** A transaction is sent once, and no
mark of it is lost before that. In every state in which it is cached afterwards, it has the
timestamp and the index of the first mark handled for it, before or after it was sent, and
none when there was no mark. -/
theorem firstMark_of_cached {receiver : Nat} {before after : List ActorInput}
    (hbefore : ∀ input ∈ before, ¬ input.Sends h) (hsends : input.Sends h)
    (hafter : ∀ input ∈ after, ¬ input.Sends h)
    (hkeeps : Execution.Along next (KeepsMark h) (new receiver) before)
    (hrun : (new receiver).run (before ++ input :: after) = some a) {tx : PendingRunTx}
    (hcached : a.cache.lookup h = some tx) :
    flashblock tx = ((firstMark h (before ++ input :: after)).map Prod.fst,
      (firstMark h (before ++ input :: after)).map Prod.snd) := by
  obtain ⟨s, hreach, hrest⟩ := Execution.run_append_eq_some.mp hrun
  obtain ⟨t, hnext, hlast⟩ := Execution.run_cons_eq_some.mp hrest
  have hawaited : Awaited h before s := by
    have hguard := hkeeps.and (Execution.along_of_forall fun input hmem _ => hbefore input hmem)
    refine Execution.history_invariant (I := Awaited h) (fun w s input t hok hnext hinv => ?_) []
      ⟨AList.notMem_empty h, rfl⟩ hreach hguard
    exact hinv.touch (touch_of_next hnext) hok.2 hok.1
  have hmarked := hawaited.send (touch_of_next hnext) hsends
  have hend : Marked h (before ++ [input] ++ after) a :=
    Execution.history_invariant (I := Marked h)
      (fun w s input t hok hnext hinv => hinv.touch (touch_of_next hnext) hok)
      _ hmarked hlast (Execution.along_of_forall fun input hmem _ => hafter input hmem)
  rw [← List.append_cons] at hend
  exact hend tx hcached

/-- A buffered mark, and the mark of a transaction that is then confirmed. -/
def markedTwice : List ActorInput :=
  [.mark ⟨0x1, 500, 2⟩, .mark ⟨0x2, 510, 2⟩, .flush (.removeConfirmed [0x2] 12) 600]

/-- The transaction that the first mark is for. -/
def sendMarked : ActorInput := .message (.sentRunTx 0x1 400 none none none .listening) true

theorem firstMark_markedTwice :
    ∃ a tx, (new 0).run (markedTwice ++ sendMarked :: [.mark ⟨0x1, 700, 3⟩]) = some a ∧
      a.cache.lookup 0x1 = some tx ∧ flashblock tx = (some 500, some 2) := by
  have hrun : (new 0).run (markedTwice ++ sendMarked :: [.mark ⟨0x1, 700, 3⟩]) = some _ := rfl
  have hsends : sendMarked.Sends 0x1 := rfl
  exact ⟨_, _, hrun, rfl,
    firstMark_of_cached (by decide) hsends (by decide) (by decide) hrun rfl⟩

end TxActor

end Contender
