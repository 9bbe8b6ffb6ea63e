import Contender.Data.Bars
import Contender.Data.Traverse
import Contender.Spammer.TxActor

/-!
# The chart of pending transactions

For each second between the first start and the last end the chart has the number of transactions
that are pending. A transaction without an end stays pending, but its end counts as zero when the
last second is looked for.

## Main results

* `showsPending_iff` — the chart is right exactly when each pending transaction is sent no later
  than in the second of the last end, and no transaction ends before it starts, but in the same
  second
-/

namespace Contender

/-- The transactions that are pending in each second, in the order of the seconds. -/
structure PendingTxsChart where
  pendingTxsPerSecond : List (ℕ × ℕ)
  deriving DecidableEq, Repr

namespace PendingTxsChart

/-- `min_timestamp_s`. -/
def minTimestampS (runTxs : List RunTx) : ℕ :=
  (runTxs.map fun tx => tx.startTimestampMs / 1000).foldl min (2 ^ 64 - 1)

/-- `max_timestamp_s`, where a missing end counts as zero. -/
def maxTimestampS (runTxs : List RunTx) : ℕ :=
  (runTxs.map fun tx => tx.endTimestampMs.getD 0 / 1000).foldl max 0

/-- The filter of one second. A missing end is the last timestamp there is. -/
def Pending (tMs tMsEnd : ℕ) (tx : RunTx) : Prop :=
  tx.startTimestampMs < tMsEnd ∧ tMs < tx.endTimestampMs.getD (2 ^ 64 - 1)

instance (tMs tMsEnd : ℕ) (tx : RunTx) : Decidable (Pending tMs tMsEnd tx) :=
  inferInstanceAs (Decidable (_ ∧ _))

/-- The entry of one second. -/
def entry (runTxs : List RunTx) (t : ℕ) : Option (ℕ × ℕ) := do
  let tMs ← mulU64 t 1000
  let tMsEnd ← addU64 tMs 1000
  return (t, runTxs.countP fun tx => Pending tMs tMsEnd tx)

/-- `PendingTxsChart::new`; `none` is a panic. -/
def new (runTxs : List RunTx) : Option PendingTxsChart := do
  -- one second of padding
  let first := minTimestampS runTxs - 1
  let stop ← addU64 (maxTimestampS runTxs) 1
  let pendingTxsPerSecond ← (List.range' first (stop - first)).mapM (entry runTxs)
  return ⟨pendingTxsPerSecond⟩

end PendingTxsChart

/-! ### What the chart is for -/

/-- The transaction has been sent and has not landed. -/
def RunTx.PendingAt (tx : RunTx) (ms : ℕ) : Prop :=
  tx.startTimestampMs ≤ ms ∧ ∀ endTimestampMs ∈ tx.endTimestampMs, ms < endTimestampMs

/-- The pending interval of the transaction overlaps the second. -/
def RunTx.Overlaps (tx : RunTx) (t : ℕ) : Prop := ∃ ms, tx.PendingAt ms ∧ ms / 1000 = t

/-- The transaction has no end, or one after its start. -/
def RunTx.IsPending (tx : RunTx) : Prop :=
  ∀ endTimestampMs ∈ tx.endTimestampMs, tx.startTimestampMs < endTimestampMs

open Classical in
/-- The chart has an entry for the second of each pending transaction, and its entries count the
transactions that are pending in their second. -/
def ShowsPending (runTxs : List RunTx) : Prop :=
  ∃ chart, PendingTxsChart.new runTxs = some chart ∧
    (∀ tx ∈ runTxs, tx.IsPending → tx.Overlaps (tx.startTimestampMs / 1000) ∧
      ∃ n, (tx.startTimestampMs / 1000, n) ∈ chart.pendingTxsPerSecond) ∧
    ∀ t n, (t, n) ∈ chart.pendingTxsPerSecond → n = runTxs.countP fun tx => tx.Overlaps t

/-- Each pending transaction is sent no later than in the second of some end, or in the very first
second. -/
def SentBeforeLastEnd (runTxs : List RunTx) : Prop :=
  ∀ tx ∈ runTxs, tx.IsPending → tx.startTimestampMs < 1000 ∨
    ∃ other ∈ runTxs, ∃ endTimestampMs ∈ other.endTimestampMs,
      tx.startTimestampMs / 1000 ≤ endTimestampMs / 1000

/-- A transaction that ends no later than it starts does so before the second of its start, or with
its beginning. -/
def NoReversedSecond (runTxs : List RunTx) : Prop :=
  ∀ tx ∈ runTxs, ∀ endTimestampMs ∈ tx.endTimestampMs, endTimestampMs ≤ tx.startTimestampMs →
    endTimestampMs ≤ tx.startTimestampMs / 1000 * 1000

theorem RunTx.IsPending.overlaps {tx : RunTx} (h : tx.IsPending) :
    tx.Overlaps (tx.startTimestampMs / 1000) :=
  ⟨tx.startTimestampMs, ⟨le_rfl, h⟩, rfl⟩

namespace PendingTxsChart

variable {runTxs : List RunTx} {tx : RunTx} {t : ℕ}

/-- A transaction that overlaps a second passes the filter of it. -/
theorem pending_of_overlaps (ht : t * 1000 < 2 ^ 64 - 1) (h : tx.Overlaps t) :
    Pending (t * 1000) (t * 1000 + 1000) tx := by
  obtain ⟨ms, ⟨hstart, hend⟩, rfl⟩ := h
  refine ⟨by omega, ?_⟩
  cases hstamp : tx.endTimestampMs with
  | none => exact ht
  | some endTimestampMs =>
    have := hend endTimestampMs hstamp
    simp only [Option.getD_some]
    omega

/-- The filter also passes a transaction that ends before it starts, in the same second. -/
theorem pending_iff (ht : t * 1000 < 2 ^ 64 - 1) :
    Pending (t * 1000) (t * 1000 + 1000) tx ↔ tx.Overlaps t ∨
      t = tx.startTimestampMs / 1000 ∧ ∃ endTimestampMs ∈ tx.endTimestampMs,
        endTimestampMs ≤ tx.startTimestampMs ∧ t * 1000 < endTimestampMs := by
  constructor
  · rintro ⟨hstart, hend⟩
    cases hstamp : tx.endTimestampMs with
    | none =>
      -- pending from the start on, or from the beginning of the second
      refine .inl ⟨max tx.startTimestampMs (t * 1000), ⟨le_max_left _ _, ?_⟩, by omega⟩
      rw [hstamp]
      nofun
    | some endTimestampMs =>
      rw [hstamp, Option.getD_some] at hend
      by_cases hle : endTimestampMs ≤ tx.startTimestampMs
      · exact .inr ⟨by omega, endTimestampMs, rfl, hle, hend⟩
      · refine .inl ⟨max tx.startTimestampMs (t * 1000), ⟨le_max_left _ _, ?_⟩, by omega⟩
        rw [hstamp]
        intro e he
        obtain rfl := Option.some.inj he
        omega
  · rintro (h | ⟨rfl, endTimestampMs, hstamp, -, hlt⟩)
    · exact pending_of_overlaps ht h
    · refine ⟨by omega, ?_⟩
      rw [Option.mem_def.mp hstamp]
      exact hlt

theorem minTimestampS_le (h : tx ∈ runTxs) : minTimestampS runTxs ≤ tx.startTimestampMs / 1000 :=
  (Bars.le_foldl_min_iff.mp (le_refl (minTimestampS runTxs))).2 _ (List.mem_map_of_mem h)

/-- The last second is that of an end, or the first second. -/
theorem le_maxTimestampS_iff : t ≤ maxTimestampS runTxs ↔ t = 0 ∨
    ∃ other ∈ runTxs, ∃ endTimestampMs ∈ other.endTimestampMs, t ≤ endTimestampMs / 1000 := by
  rcases Nat.eq_zero_or_pos t with rfl | hpos
  · exact iff_of_true (Nat.zero_le _) (.inl rfl)
  -- for a later second the zeros of missing ends do not matter
  have hbelow : maxTimestampS runTxs ≤ t - 1 ↔
      ∀ other ∈ runTxs, other.endTimestampMs.getD 0 / 1000 ≤ t - 1 := by
    rw [maxTimestampS, Bars.foldl_max_le_iff, List.forall_mem_map]
    simp only [Nat.zero_le, true_and]
  constructor
  · intro hle
    by_contra hnone
    push Not at hnone
    have := hbelow.mpr fun other hother => by
      cases hstamp : other.endTimestampMs with
      | none =>
        rw [Option.getD_none]
        omega
      | some endTimestampMs =>
        have := hnone.2 other hother endTimestampMs hstamp
        rw [Option.getD_some]
        omega
    omega
  · rintro (rfl | ⟨other, hother, endTimestampMs, hstamp, hle⟩)
    · exact absurd hpos (Nat.lt_irrefl 0)
    · by_contra hlt
      have := hbelow.mp (by omega) other hother
      rw [Option.mem_def.mp hstamp, Option.getD_some] at this
      omega

/-- The number of transactions that pass the filter of a second. -/
def pendingIn (runTxs : List RunTx) (t : ℕ) : ℕ :=
  runTxs.countP fun tx => Pending (t * 1000) (t * 1000 + 1000) tx

/-- The seconds that the chart has entries for. -/
def seconds (runTxs : List RunTx) : List ℕ :=
  List.range' (minTimestampS runTxs - 1)
    (maxTimestampS runTxs + 1 - (minTimestampS runTxs - 1))

theorem mem_seconds :
    t ∈ seconds runTxs ↔ minTimestampS runTxs - 1 ≤ t ∧ t ≤ maxTimestampS runTxs := by
  rw [seconds, List.mem_range'_1]
  omega

theorem entry_eq_some (ht : t * 1000 + 1000 < 2 ^ 64) :
    entry runTxs t = some (t, pendingIn runTxs t) := by
  have hstart : mulU64 t 1000 = some (t * 1000) :=
    mulU64_eq_some.mpr ⟨rfl, (Nat.le_add_right _ _).trans_lt ht⟩
  have hend : addU64 (t * 1000) 1000 = some (t * 1000 + 1000) := addU64_eq_some.mpr ⟨rfl, ht⟩
  simp only [entry, hstart, hend, Option.bind_eq_bind, Option.bind_some, Option.pure_def,
    pendingIn]

/-- The entries of the chart, for ends below 2⁵³. -/
theorem exists_new (hends : ∀ tx ∈ runTxs, ∀ endTimestampMs ∈ tx.endTimestampMs,
      endTimestampMs < 2 ^ 53) :
    ∃ chart, new runTxs = some chart ∧ ∀ t n, (t, n) ∈ chart.pendingTxsPerSecond ↔
      (minTimestampS runTxs - 1 ≤ t ∧ t ≤ maxTimestampS runTxs) ∧ t * 1000 < 2 ^ 53 ∧
        n = pendingIn runTxs t := by
  have hlast (t : ℕ) (ht : t ≤ maxTimestampS runTxs) : t * 1000 < 2 ^ 53 := by
    rcases le_maxTimestampS_iff.mp ht with rfl | ⟨other, hother, endTimestampMs, hstamp, hle⟩
    · decide
    · have := hends other hother endTimestampMs hstamp
      omega
  have hstop : addU64 (maxTimestampS runTxs) 1 = some (maxTimestampS runTxs + 1) := by
    have := hlast _ le_rfl
    exact addU64_eq_some.mpr ⟨rfl, by omega⟩
  have hentries : (seconds runTxs).mapM (entry runTxs) =
      some ((seconds runTxs).map fun t => (t, pendingIn runTxs t)) := by
    refine List.mapM_eq_some_map fun t ht => ?_
    -- no timestamp of the range overflows
    have hms := hlast t (mem_seconds.mp ht).2
    exact entry_eq_some ((Nat.add_lt_add_right hms 1000).trans (by decide))
  refine ⟨⟨(seconds runTxs).map fun t => (t, pendingIn runTxs t)⟩, ?_, fun t n => ?_⟩
  · rw [seconds] at hentries ⊢
    simp only [new, hstop, hentries, Option.bind_eq_bind, Option.bind_some, Option.pure_def]
  · rw [List.mem_map]
    constructor
    · rintro ⟨t, ht, heq⟩
      obtain ⟨rfl, rfl⟩ := Prod.mk.inj heq
      exact ⟨mem_seconds.mp ht, hlast t (mem_seconds.mp ht).2, rfl⟩
    · rintro ⟨hrange, -, rfl⟩
      exact ⟨t, mem_seconds.mpr hrange, rfl⟩

end PendingTxsChart

/-- A larger property with the same count has no more elements. -/
theorem of_countP_eq {α : Type*} {p q : α → Prop} [DecidablePred p] [DecidablePred q]
    {l : List α} (hle : ∀ a ∈ l, q a → p a)
    (heq : l.countP (fun a => p a) = l.countP fun a => q a) : ∀ a ∈ l, p a → q a := by
  induction l with
  | nil => nofun
  | cons b l ih =>
    obtain ⟨hb, hl⟩ := List.forall_mem_cons.mp hle
    have hmono : l.countP (fun a => q a) ≤ l.countP fun a => p a :=
      List.countP_mono_left fun a ha hq => by simpa using hl a ha (by simpa using hq)
    rw [List.countP_cons, List.countP_cons] at heq
    by_cases hp : p b
    · by_cases hq : q b
      · simp only [hp, hq, decide_true, if_true] at heq
        exact List.forall_mem_cons.mpr ⟨fun _ => hq, ih hl (by omega)⟩
      · simp only [hp, hq, decide_true, decide_false, if_true, Bool.false_eq_true,
          if_false] at heq
        omega
    · have hq : ¬ q b := fun hq => hp (hb hq)
      simp only [hp, hq, decide_false, Bool.false_eq_true, if_false] at heq
      exact List.forall_mem_cons.mpr ⟨fun h => (hp h).elim, ih hl (by omega)⟩

open PendingTxsChart in
/-- **No pending transaction is missing**, exactly when each is sent no later than in the second of
the last end and no transaction ends before its start but in the same second. -/
theorem showsPending_iff (runTxs : List RunTx)
    (hstamps : ∀ tx ∈ runTxs, tx.startTimestampMs < 2 ^ 53 ∧
      ∀ endTimestampMs ∈ tx.endTimestampMs, endTimestampMs < 2 ^ 53) :
    ShowsPending runTxs ↔ SentBeforeLastEnd runTxs ∧ NoReversedSecond runTxs := by
  classical
  obtain ⟨chart, hnew, hmem⟩ := exists_new fun tx htx => (hstamps tx htx).2
  have hfirst {tx : RunTx} (htx : tx ∈ runTxs) :
      minTimestampS runTxs - 1 ≤ tx.startTimestampMs / 1000 :=
    (Nat.sub_le _ _).trans (minTimestampS_le htx)
  constructor
  · rintro ⟨chart', hnew', hsent, hexact⟩
    obtain rfl := Option.some.inj (hnew.symm.trans hnew')
    refine ⟨fun tx htx hpending => ?_, fun tx htx endTimestampMs hstamp hle => ?_⟩
    · obtain ⟨-, n, hn⟩ := hsent tx htx hpending
      obtain ⟨⟨-, hlast⟩, -⟩ := (hmem _ _).mp hn
      rcases le_maxTimestampS_iff.mp hlast with hzero | hother
      · exact .inl (by omega)
      · exact .inr hother
    · -- the filter of the second of the start lets the transaction pass
      by_contra hlt
      have hlast : tx.startTimestampMs / 1000 ≤ maxTimestampS runTxs :=
        le_maxTimestampS_iff.mpr (.inr ⟨tx, htx, endTimestampMs, hstamp, by omega⟩)
      have hms : tx.startTimestampMs / 1000 * 1000 < 2 ^ 53 := by
        have := (hstamps tx htx).1
        omega
      have hcount := hexact _ _ ((hmem _ _).mpr ⟨⟨hfirst htx, hlast⟩, hms, rfl⟩)
      -- all that overlap the second pass, so with equal counts all that pass overlap it
      have hoverlaps := of_countP_eq (fun other _ => pending_of_overlaps (by omega)) hcount tx htx
        ((pending_iff (by omega)).mpr (.inr ⟨rfl, endTimestampMs, hstamp, hle, by omega⟩))
      obtain ⟨ms, ⟨hstart, hend⟩, -⟩ := hoverlaps
      have := hend endTimestampMs hstamp
      omega
  · rintro ⟨hsent, hreversed⟩
    refine ⟨chart, hnew, fun tx htx hpending => ⟨hpending.overlaps, ?_⟩, fun t n hn => ?_⟩
    · have hlast : tx.startTimestampMs / 1000 ≤ maxTimestampS runTxs := by
        rw [le_maxTimestampS_iff]
        rcases hsent tx htx hpending with hzero | hother
        · exact .inl (by omega)
        · exact .inr hother
      have hms : tx.startTimestampMs / 1000 * 1000 < 2 ^ 53 := by
        have := (hstamps tx htx).1
        omega
      exact ⟨_, (hmem _ _).mpr ⟨⟨hfirst htx, hlast⟩, hms, rfl⟩⟩
    · obtain ⟨-, hms, rfl⟩ := (hmem t n).mp hn
      -- the filter adds nothing, because no end lies inside the second of a later start
      rw [pendingIn]
      refine List.countP_congr fun tx htx => ?_
      simp only [decide_eq_true_eq]
      rw [pending_iff (by omega)]
      refine or_iff_left ?_
      rintro ⟨rfl, endTimestampMs, hstamp, hle, hlt⟩
      have := hreversed tx htx endTimestampMs hstamp hle
      omega

/-- A transaction with the given start and end. -/
def RunTx.between (startTimestampMs : ℕ) (endTimestampMs : Option ℕ) : RunTx where
  txHash := 0x1
  startTimestampMs := startTimestampMs
  endTimestampMs := endTimestampMs
  blockNumber := none
  gasUsed := none
  kind := none
  error := none
  flashblockLatencyMs := none
  flashblockIndex := none

theorem showsPending_landed : ShowsPending [.between 1000 (some 3500)] := by
  refine (showsPending_iff [.between 1000 (some 3500)] fun tx htx => ?_).mpr
    ⟨fun tx htx _ => .inr ⟨tx, htx, ?_⟩, fun tx htx endTimestampMs hstamp hle => ?_⟩
  all_goals obtain rfl := List.mem_singleton.mp htx
  · exact ⟨by decide, fun _ h => Option.some.inj h ▸ by decide⟩
  · exact ⟨3500, rfl, by decide⟩
  · obtain rfl : 3500 = endTimestampMs := Option.some.inj hstamp
    exact absurd hle (by decide)

/-- A transaction that is sent after the last end and never lands is missing. -/
theorem showsPending_counterexample :
    ¬ ShowsPending [.between 1000 (some 2000), .between 5000 none] := by
  have hrun : PendingTxsChart.new [.between 1000 (some 2000), .between 5000 none] =
      some ⟨[(0, 0), (1, 1), (2, 0)]⟩ := by decide +kernel
  rintro ⟨chart, hchart, hsent, -⟩
  obtain rfl := Option.some.inj (hrun.symm.trans hchart)
  obtain ⟨-, n, hn⟩ := hsent (.between 5000 none) (by simp) nofun
  have hseconds : 5 ∈ [(0, 0), (1, 1), (2, 0)].map Prod.fst := List.mem_map_of_mem hn
  exact absurd hseconds (by decide)

end Contender
