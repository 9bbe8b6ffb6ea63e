import Contender.Data.Polling
import Contender.Primitives

/-!
# Waiting for a VALID payload

The extension trait of the engine API repeats a call until the node answers VALID. The seven
functions are copies of one loop that differ in what an INVALID answer and a SYNCING answer do.

## Main results

* `engineWaits_iff` — when each of the seven functions ends at the first answer that is not
  ACCEPTED, with `Ok` for VALID and `Err` for the others
-/

namespace Contender.Engine

open Polling Stream'

/-- The status of a payload, as the node reports it. -/
inductive PayloadStatusEnum
  | valid
  | invalid (validationError : String)
  | syncing
  | accepted
  deriving DecidableEq, Repr

def PayloadStatusEnum.isValid : PayloadStatusEnum → Bool
  | .valid => true
  | _ => false

def PayloadStatusEnum.isInvalid : PayloadStatusEnum → Bool
  | .invalid _ => true
  | _ => false

def PayloadStatusEnum.isSyncing : PayloadStatusEnum → Bool
  | .syncing => true
  | _ => false

/-- The answer to `engine_newPayload`. -/
structure PayloadStatus where
  status : PayloadStatusEnum
  latestValidHash : Option (BitVec 256)
  deriving DecidableEq, Repr

/-- The answer to `engine_forkchoiceUpdated`. -/
structure ForkchoiceUpdated where
  payloadStatus : PayloadStatus
  payloadId : Option (BitVec 64)
  deriving DecidableEq, Repr

def ForkchoiceUpdated.status (updated : ForkchoiceUpdated) : PayloadStatusEnum :=
  updated.payloadStatus.status

inductive RpcError
  | unsupportedFeature (text : String)
  | transport (text : String)
  deriving DecidableEq, Repr

/-- One answer of the node to the call, which is the same in every round. -/
abbrev Answer (σ : Type) := Except RpcError σ

/-- How a wait ends. -/
inductive WaitOutcome (σ : Type)
  | ok (status : σ)
  | err (error : RpcError)
  | panicked (text : String) (status : σ)
  deriving DecidableEq, Repr

variable {σ : Type}

/-- What one round of a wait does with its answer; `none` is another round. -/
def round (statusOf : σ → PayloadStatusEnum) (onInvalid : σ → WaitOutcome σ)
    (onSyncing : Option (WaitOutcome σ)) : Answer σ → Option (WaitOutcome σ)
  | .error e => some (.err e)
  | .ok status =>
    if (statusOf status).isValid then some (.ok status)
    else if (statusOf status).isInvalid then some (onInvalid status)
    else if (statusOf status).isSyncing then onSyncing
    else none

/-- `INVALID` answers end in an error. -/
def rejectInvalid (text : String) (_ : σ) : WaitOutcome σ := .err (.unsupportedFeature text)

/-- `SYNCING` answers end in an error. -/
def rejectSyncing : Option (WaitOutcome σ) :=
  some (.err (.unsupportedFeature
    "invalid range: no canonical state found for parent of requested block"))

/-! ### The seven functions

Each takes the number of calls made so far and the node's answers; `none` is a wait that goes on. -/

def newPayloadV1Wait : ℕ → Seq (Answer PayloadStatus) → Option (WaitOutcome PayloadStatus) :=
  poll (round PayloadStatus.status (rejectInvalid "Invalid newPayloadV1") none)

def newPayloadV2Wait : ℕ → Seq (Answer PayloadStatus) → Option (WaitOutcome PayloadStatus) :=
  poll (round PayloadStatus.status (rejectInvalid "Invalid newPayloadV2") none)

def newPayloadV3Wait : ℕ → Seq (Answer PayloadStatus) → Option (WaitOutcome PayloadStatus) :=
  poll (round PayloadStatus.status (rejectInvalid "Invalid newPayloadV3") rejectSyncing)

def newPayloadV4Wait : ℕ → Seq (Answer PayloadStatus) → Option (WaitOutcome PayloadStatus) :=
  poll (round PayloadStatus.status (rejectInvalid "Invalid newPayloadV4") rejectSyncing)

def forkChoiceUpdatedV1Wait :
    ℕ → Seq (Answer ForkchoiceUpdated) → Option (WaitOutcome ForkchoiceUpdated) :=
  poll (round ForkchoiceUpdated.status (.panicked "Invalid forkchoiceUpdatedV1: ") rejectSyncing)

def forkChoiceUpdatedV2Wait :
    ℕ → Seq (Answer ForkchoiceUpdated) → Option (WaitOutcome ForkchoiceUpdated) :=
  poll (round ForkchoiceUpdated.status (.panicked "Invalid forkchoiceUpdatedV2: ") rejectSyncing)

def forkChoiceUpdatedV3Wait :
    ℕ → Seq (Answer ForkchoiceUpdated) → Option (WaitOutcome ForkchoiceUpdated) :=
  poll (round ForkchoiceUpdated.status (.panicked "Invalid forkchoiceUpdatedV3: ") none)

/-! ### What a wait is for -/

/-- An answer other than `ACCEPTED`. -/
def Decisive (statusOf : σ → PayloadStatusEnum) : Answer σ → Prop
  | .error _ => True
  | .ok status => statusOf status ≠ .accepted

/-- The wait ends with the first decisive answer: with `Ok` when that is `VALID`, and otherwise
with an error. It never panics. -/
structure WaitsForValid (statusOf : σ → PayloadStatusEnum)
    (wait : ℕ → Seq (Answer σ) → Option (WaitOutcome σ)) (answers : Seq (Answer σ)) : Prop where
  ok : ∀ n status, FirstAt (Decisive statusOf) answers n (.ok status) →
    statusOf status = .valid →
      wait n answers = none ∧ wait (n + 1) answers = some (.ok status)
  err : ∀ n a, FirstAt (Decisive statusOf) answers n a →
    (∀ status, a = .ok status → statusOf status ≠ .valid) →
      wait n answers = none ∧ ∃ e, wait (n + 1) answers = some (.err e)
  no_panic : ∀ n text status, wait n answers ≠ some (.panicked text status)

/-- The first decisive answer is a status of the given kind. -/
def FirstStatus (statusOf : σ → PayloadStatusEnum) (kind : PayloadStatusEnum → Bool)
    (answers : Seq (Answer σ)) : Prop :=
  ∃ n status, FirstAt (Decisive statusOf) answers n (.ok status) ∧ kind (statusOf status) = true

variable {statusOf : σ → PayloadStatusEnum} {onInvalid : σ → WaitOutcome σ}
  {onSyncing : Option (WaitOutcome σ)} {answers : Seq (Answer σ)}

theorem round_eq_none_of_not_decisive {a : Answer σ} (h : ¬ Decisive statusOf a) :
    round statusOf onInvalid onSyncing a = none := by
  match a with
  | .error e => exact (h trivial).elim
  | .ok status =>
    have haccepted : statusOf status = .accepted := not_not.mp h
    simp [round, haccepted, PayloadStatusEnum.isValid, PayloadStatusEnum.isInvalid,
      PayloadStatusEnum.isSyncing]

theorem round_of_valid {status : σ} (h : statusOf status = .valid) :
    round statusOf onInvalid onSyncing (.ok status) = some (.ok status) := by
  simp [round, h, PayloadStatusEnum.isValid]

theorem round_of_isInvalid {status : σ} (h : (statusOf status).isInvalid) :
    round statusOf onInvalid onSyncing (.ok status) = some (onInvalid status) := by
  cases hs : statusOf status <;> simp_all [round, PayloadStatusEnum.isValid,
    PayloadStatusEnum.isInvalid]

theorem round_of_isSyncing {status : σ} (h : (statusOf status).isSyncing) :
    round statusOf onInvalid onSyncing (.ok status) = onSyncing := by
  cases hs : statusOf status <;> simp_all [round, PayloadStatusEnum.isValid,
    PayloadStatusEnum.isInvalid, PayloadStatusEnum.isSyncing]

/-- Only a `VALID` answer ends a round with `Ok`. -/
theorem eq_ok_of_round_eq_ok {a : Answer σ} {status : σ}
    (hinvalid : ∀ status', onInvalid status' ≠ .ok status)
    (hsyncing : onSyncing ≠ some (.ok status))
    (h : round statusOf onInvalid onSyncing a = some (.ok status)) :
    a = .ok status ∧ statusOf status = .valid := by
  cases a with
  | error e => cases Option.some.inj h
  | ok status' =>
    cases hs : statusOf status' with
    | valid =>
      rw [round_of_valid hs] at h
      obtain rfl := WaitOutcome.ok.inj (Option.some.inj h)
      exact ⟨rfl, hs⟩
    | invalid text =>
      rw [round_of_isInvalid (by rw [hs]; rfl)] at h
      exact (hinvalid status' (Option.some.inj h)).elim
    | syncing =>
      rw [round_of_isSyncing (by rw [hs]; rfl)] at h
      exact (hsyncing h).elim
    | accepted =>
      have hnone : ¬ Decisive statusOf (.ok status') := not_not.mpr hs
      rw [round_eq_none_of_not_decisive hnone] at h
      cases h

theorem ne_valid_of_isInvalid {status : PayloadStatusEnum} (h : status.isInvalid) :
    status ≠ .valid := by
  rintro rfl
  cases h

theorem ne_valid_of_isSyncing {status : PayloadStatusEnum} (h : status.isSyncing) :
    status ≠ .valid := by
  rintro rfl
  cases h

/-- A decisive answer other than `VALID` ends the wait with an error, where the wait answers
`INVALID` and `SYNCING` with one. -/
theorem exists_round_eq_err {a : Answer σ} (h : Decisive statusOf a)
    (hvalid : ∀ status, a = .ok status → statusOf status ≠ .valid)
    (hends : ∀ status, a = .ok status →
      ((statusOf status).isInvalid → ∃ e, onInvalid status = .err e) ∧
        ((statusOf status).isSyncing → ∃ e, onSyncing = some (.err e))) :
    ∃ e, round statusOf onInvalid onSyncing a = some (.err e) := by
  match a, h with
  | .error e, _ => exact ⟨e, rfl⟩
  | .ok status, haccepted =>
    obtain ⟨hinvalid, hsyncing⟩ := hends status rfl
    cases hs : statusOf status with
    | valid => exact (hvalid status rfl hs).elim
    | invalid text =>
      obtain ⟨e, he⟩ := hinvalid (by rw [hs]; rfl)
      exact ⟨e, by rw [round_of_isInvalid (by rw [hs]; rfl), he]⟩
    | syncing =>
      obtain ⟨e, he⟩ := hsyncing (by rw [hs]; rfl)
      exact ⟨e, by rw [round_of_isSyncing (by rw [hs]; rfl), he]⟩
    | accepted => exact (haccepted hs).elim

/-- A wait does what is expected exactly when it answers the first decisive status with an
error, should that status be `INVALID` or `SYNCING`. -/
theorem waitsForValid_iff :
    WaitsForValid statusOf (poll (round statusOf onInvalid onSyncing)) answers ↔
      ∀ n status, FirstAt (Decisive statusOf) answers n (.ok status) →
        ((statusOf status).isInvalid → ∃ e, onInvalid status = .err e) ∧
          ((statusOf status).isSyncing → ∃ e, onSyncing = some (.err e)) := by
  have hnone (b : Answer σ) (hb : ¬ Decisive statusOf b) :
      round statusOf onInvalid onSyncing b = none := round_eq_none_of_not_decisive hb
  constructor
  · intro h n status hfirst
    -- the wait ends in the round of the answer, so this is what the round itself says
    have herr (hvalid : statusOf status ≠ .valid) :
        ∃ e, round statusOf onInvalid onSyncing (.ok status) = some (.err e) := by
      obtain ⟨-, e, he⟩ := h.err n _ hfirst fun t ht => Except.ok.inj ht ▸ hvalid
      exact ⟨e, (hfirst.poll_succ hnone).symm.trans he⟩
    constructor
    · intro hinvalid
      obtain ⟨e, he⟩ := herr (ne_valid_of_isInvalid hinvalid)
      exact ⟨e, Option.some.inj ((round_of_isInvalid hinvalid).symm.trans he)⟩
    · intro hsyncing
      obtain ⟨e, he⟩ := herr (ne_valid_of_isSyncing hsyncing)
      exact ⟨e, (round_of_isSyncing hsyncing).symm.trans he⟩
  · intro h
    have hend {n : ℕ} {a : Answer σ} (hfirst : FirstAt (Decisive statusOf) answers n a)
        (hvalid : ∀ status, a = .ok status → statusOf status ≠ .valid) :
        ∃ e, round statusOf onInvalid onSyncing a = some (.err e) :=
      exists_round_eq_err hfirst.holds hvalid fun status hs => h n status (hs ▸ hfirst)
    refine ⟨fun n status hfirst hvalid => ?_, fun n a hfirst hvalid => ?_, ?_⟩
    · exact ⟨hfirst.poll_eq_none hnone le_rfl,
        (hfirst.poll_succ hnone).trans (round_of_valid hvalid)⟩
    · obtain ⟨e, he⟩ := hend hfirst hvalid
      exact ⟨hfirst.poll_eq_none hnone le_rfl, e, (hfirst.poll_succ hnone).trans he⟩
    · intro k text status hpanic
      -- Without a decisive answer every round is followed by another one.
      rcases exists_firstAt_or (Decisive statusOf) answers with ⟨n, a, hfirst⟩ | hopen
      · have hround : ∃ out, round statusOf onInvalid onSyncing a = some out ∧
            out ≠ .panicked text status := by
          by_cases hvalid : ∃ t, a = .ok t ∧ statusOf t = .valid
          · obtain ⟨t, rfl, ht⟩ := hvalid
            exact ⟨_, round_of_valid ht, nofun⟩
          · obtain ⟨e, he⟩ := hend hfirst fun t hs ht => hvalid ⟨t, hs, ht⟩
            exact ⟨_, he, nofun⟩
        obtain ⟨out, hout, hne⟩ := hround
        rcases hfirst.poll_cases hnone (by rw [hout]; rfl) k with hk | hk
        · rw [hk] at hpanic
          cases hpanic
        · exact hne (Option.some.inj (hout.symm.trans (hk.symm.trans hpanic)))
      · rw [poll_eq_none fun m _ b hb => hnone b (hopen m b hb)] at hpanic
        cases hpanic

/-- The `newPayload` functions of the first two versions wait through `SYNCING`. -/
theorem rejectInvalid_waits_iff (text : String) :
    WaitsForValid statusOf (poll (round statusOf (rejectInvalid text) none)) answers ↔
      ¬ FirstStatus statusOf PayloadStatusEnum.isSyncing answers := by
  rw [waitsForValid_iff]
  constructor
  · rintro h ⟨n, status, hfirst, hsyncing⟩
    obtain ⟨e, he⟩ := (h n status hfirst).2 hsyncing
    cases he
  · intro h n status hfirst
    exact ⟨fun _ => ⟨_, rfl⟩, fun hsyncing => (h ⟨n, status, hfirst, hsyncing⟩).elim⟩

/-- With errors for both statuses the wait is always right. -/
theorem rejectInvalid_rejectSyncing_waits (text : String) :
    WaitsForValid statusOf (poll (round statusOf (rejectInvalid text) rejectSyncing)) answers :=
  waitsForValid_iff.mpr fun _ _ _ => ⟨fun _ => ⟨_, rfl⟩, fun _ => ⟨_, rfl⟩⟩

/-- The first two `forkchoiceUpdated` functions panic at `INVALID`. -/
theorem panicked_rejectSyncing_waits_iff (text : String) :
    WaitsForValid statusOf (poll (round statusOf (.panicked text) rejectSyncing)) answers ↔
      ¬ FirstStatus statusOf PayloadStatusEnum.isInvalid answers := by
  rw [waitsForValid_iff]
  constructor
  · rintro h ⟨n, status, hfirst, hinvalid⟩
    obtain ⟨e, he⟩ := (h n status hfirst).1 hinvalid
    cases he
  · intro h n status hfirst
    exact ⟨fun hinvalid => (h ⟨n, status, hfirst, hinvalid⟩).elim, fun _ => ⟨_, rfl⟩⟩

/-- The third one panics at `INVALID` and waits through `SYNCING`. -/
theorem panicked_waits_iff (text : String) :
    WaitsForValid statusOf (poll (round statusOf (.panicked text) none)) answers ↔
      ¬ FirstStatus statusOf PayloadStatusEnum.isInvalid answers ∧
        ¬ FirstStatus statusOf PayloadStatusEnum.isSyncing answers := by
  rw [waitsForValid_iff]
  constructor
  · intro h
    refine ⟨?_, ?_⟩
    · rintro ⟨n, status, hfirst, hinvalid⟩
      obtain ⟨e, he⟩ := (h n status hfirst).1 hinvalid
      cases he
    · rintro ⟨n, status, hfirst, hsyncing⟩
      obtain ⟨e, he⟩ := (h n status hfirst).2 hsyncing
      cases he
  · rintro ⟨hinvalid, hsyncing⟩ n status hfirst
    exact ⟨fun hs => (hinvalid ⟨n, status, hfirst, hs⟩).elim,
      fun hs => (hsyncing ⟨n, status, hfirst, hs⟩).elim⟩

/-- When each of the seven functions ends as it should at the first decisive answer. -/
theorem engineWaits_iff (answers : Seq (Answer PayloadStatus))
    (updates : Seq (Answer ForkchoiceUpdated)) :
    (WaitsForValid PayloadStatus.status newPayloadV1Wait answers ↔
      ¬ FirstStatus PayloadStatus.status PayloadStatusEnum.isSyncing answers) ∧
    (WaitsForValid PayloadStatus.status newPayloadV2Wait answers ↔
      ¬ FirstStatus PayloadStatus.status PayloadStatusEnum.isSyncing answers) ∧
    WaitsForValid PayloadStatus.status newPayloadV3Wait answers ∧
    WaitsForValid PayloadStatus.status newPayloadV4Wait answers ∧
    (WaitsForValid ForkchoiceUpdated.status forkChoiceUpdatedV1Wait updates ↔
      ¬ FirstStatus ForkchoiceUpdated.status PayloadStatusEnum.isInvalid updates) ∧
    (WaitsForValid ForkchoiceUpdated.status forkChoiceUpdatedV2Wait updates ↔
      ¬ FirstStatus ForkchoiceUpdated.status PayloadStatusEnum.isInvalid updates) ∧
    (WaitsForValid ForkchoiceUpdated.status forkChoiceUpdatedV3Wait updates ↔
      ¬ FirstStatus ForkchoiceUpdated.status PayloadStatusEnum.isInvalid updates ∧
        ¬ FirstStatus ForkchoiceUpdated.status PayloadStatusEnum.isSyncing updates) :=
  ⟨rejectInvalid_waits_iff _, rejectInvalid_waits_iff _, rejectInvalid_rejectSyncing_waits _,
    rejectInvalid_rejectSyncing_waits _, panicked_rejectSyncing_waits_iff _,
    panicked_rejectSyncing_waits_iff _, panicked_waits_iff _⟩

/-- At `SYNCING` the first `newPayload` function asks again, and at `INVALID` the first
`forkchoiceUpdated` function panics. -/
theorem engineWaits_counterexample :
    ¬ WaitsForValid PayloadStatus.status newPayloadV1Wait
        (.ofList [.ok ⟨.syncing, none⟩]) ∧
      ¬ WaitsForValid ForkchoiceUpdated.status forkChoiceUpdatedV1Wait
        (.ofList [.ok ⟨⟨.invalid "bad block", none⟩, none⟩]) := by
  constructor
  · intro h
    have hfirst : FirstAt (Decisive PayloadStatus.status)
        (.ofList [.ok ⟨.syncing, none⟩]) 0 (.ok ⟨.syncing, none⟩) := ⟨rfl, nofun, nofun⟩
    obtain ⟨-, e, he⟩ := h.err 0 _ hfirst fun status hs => by
      cases hs
      nofun
    have hrun : newPayloadV1Wait 1 (.ofList [.ok ⟨.syncing, none⟩]) = none := rfl
    rw [hrun] at he
    cases he
  · intro h
    exact h.no_panic 1 "Invalid forkchoiceUpdatedV1: " ⟨⟨.invalid "bad block", none⟩, none⟩ rfl

end Contender.Engine
