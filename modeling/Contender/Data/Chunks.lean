import Mathlib.Data.List.Basic

/-!
# Cutting a list into chunks

The chunks of a list have a fixed length, but for the last one, which may be
shorter. The elements of the first `p` chunks of length `n` are the first `p * n`
elements of the list.
-/

namespace List

variable {α : Type*}

/-- The consecutive chunks of length `n` of a list, for `n > 0`. -/
def chunksOf (n : Nat) (l : List α) : List (List α) :=
  (List.range ((l.length + n - 1) / n)).map fun i => (l.drop (i * n)).take n

theorem length_chunksOf (n : Nat) (l : List α) :
    (l.chunksOf n).length = (l.length + n - 1) / n := by
  simp [chunksOf]

/-- `n * p` elements fill `p` chunks. -/
theorem le_length_chunksOf {n p : Nat} {l : List α} (hn : 0 < n) (h : n * p ≤ l.length) :
    p ≤ (l.chunksOf n).length := by
  rw [length_chunksOf, Nat.le_div_iff_mul_le hn, Nat.mul_comm]
  omega

theorem getElem?_chunksOf {n i : Nat} {l : List α} (h : i < (l.chunksOf n).length) :
    (l.chunksOf n)[i]? = some ((l.drop (i * n)).take n) := by
  rw [length_chunksOf] at h
  simp [chunksOf, h]

/-- An element of chunk `i` stands at a position of the `i`-th stretch. -/
theorem mem_chunk_iff {n i : Nat} {l : List α} {a : α} :
    a ∈ (l.drop (i * n)).take n ↔ ∃ r < n, l[i * n + r]? = some a := by
  rw [List.mem_iff_getElem?]
  constructor
  · rintro ⟨r, hr⟩
    rw [List.getElem?_take] at hr
    split_ifs at hr with hlt
    exact ⟨r, hlt, by rwa [List.getElem?_drop] at hr⟩
  · rintro ⟨r, hlt, hr⟩
    exact ⟨r, by rw [List.getElem?_take, if_pos hlt, List.getElem?_drop, hr]⟩

/-- The elements of the first `p` chunks. -/
theorem exists_mem_chunk_iff {n p : Nat} {l : List α} {q : α → Prop} (hn : 0 < n)
    (h : n * p ≤ l.length) :
    (∃ i < p, ∃ chunk, (l.chunksOf n)[i]? = some chunk ∧ ∃ a ∈ chunk, q a) ↔
      ∃ j < n * p, ∃ a, l[j]? = some a ∧ q a := by
  have hlen := le_length_chunksOf hn h
  constructor
  · rintro ⟨i, hi, chunk, hchunk, a, ha, hq⟩
    rw [getElem?_chunksOf (by omega), Option.some.injEq] at hchunk
    subst hchunk
    obtain ⟨r, hr, hget⟩ := mem_chunk_iff.mp ha
    refine ⟨i * n + r, ?_, a, hget, hq⟩
    calc i * n + r < i * n + n := by omega
      _ = (i + 1) * n := (Nat.succ_mul i n).symm
      _ ≤ p * n := Nat.mul_le_mul_right n hi
      _ = n * p := Nat.mul_comm p n
  · rintro ⟨j, hj, a, hget, hq⟩
    have hi : j / n < p := Nat.div_lt_of_lt_mul hj
    refine ⟨j / n, hi, _, getElem?_chunksOf (by omega), a, ?_, hq⟩
    refine mem_chunk_iff.mpr ⟨j % n, Nat.mod_lt j hn, ?_⟩
    rw [Nat.mul_comm, Nat.div_add_mod]
    exact hget

/-- The first `m` chunks, position by position: the element at position `j` stands
at position `j % n` of chunk `j / n`. -/
theorem flatMap_range_zipIdx {β : Type*} {n : Nat} (hn : 0 < n) (f : Nat → Nat → α → β)
    (l : List α) (m : Nat) :
    ((List.range m).flatMap fun k => ((l.drop (k * n)).take n).zipIdx.map fun p => f k p.2 p.1) =
      (l.take (m * n)).zipIdx.map fun p => f (p.2 / n) (p.2 % n) p.1 := by
  induction m with
  | zero => simp
  | succ m ih =>
    rw [List.range_succ, List.flatMap_append, ih, Nat.succ_mul, List.take_add, List.zipIdx_append,
      List.map_append, List.flatMap_singleton]
    congr 1
    by_cases hlen : m * n ≤ l.length
    · rw [List.length_take, Nat.min_eq_left hlen, Nat.zero_add]
      conv_rhs => rw [List.zipIdx_eq_map_add, List.map_map]
      apply List.map_congr_left
      intro p hp
      obtain ⟨a, i⟩ := p
      have hi : i < n := by
        have := List.snd_lt_of_mem_zipIdx hp
        simp only [List.length_take] at this
        omega
      have hdiv : (m * n + i) / n = m := by
        rw [Nat.add_comm, Nat.add_mul_div_right _ _ hn, Nat.div_eq_of_lt hi, Nat.zero_add]
      have hmod : (m * n + i) % n = i := by
        rw [Nat.add_comm, Nat.add_mul_mod_self_right, Nat.mod_eq_of_lt hi]
      simp only [Function.comp_apply, hdiv, hmod]
    · rw [List.drop_eq_nil_of_le (by omega), List.take_nil, List.zipIdx_nil, List.zipIdx_nil]
      rfl

/-- What is computed chunk by chunk is computed position by position. -/
theorem flatMap_zipIdx_chunksOf {β : Type*} {n : Nat} (hn : 0 < n) (f : Nat → Nat → α → β)
    (l : List α) :
    ((l.chunksOf n).zipIdx.flatMap fun c => c.1.zipIdx.map fun p => f c.2 p.2 p.1) =
      l.zipIdx.map fun p => f (p.2 / n) (p.2 % n) p.1 := by
  have hall : l.length ≤ (l.length + n - 1) / n * n := by
    have := Nat.div_add_mod (l.length + n - 1) n
    have := Nat.mod_lt (l.length + n - 1) hn
    rw [Nat.mul_comm]
    omega
  have hchunks : (l.chunksOf n).zipIdx =
      (List.range ((l.length + n - 1) / n)).map fun k => ((l.drop (k * n)).take n, k) := by
    apply List.ext_getElem?
    intro k
    rw [chunksOf, List.getElem?_zipIdx, List.getElem?_map, List.getElem?_map, Option.map_map]
    by_cases hk : k < (l.length + n - 1) / n
    · simp [List.getElem?_range hk]
    · have hnone : (List.range ((l.length + n - 1) / n))[k]? = none :=
        List.getElem?_eq_none (by simpa using hk)
      rw [hnone, Option.map_none, Option.map_none]
  rw [hchunks, List.flatMap_map, flatMap_range_zipIdx hn, List.take_of_length_le hall]

/-- The chunks make up the list. -/
theorem flatten_chunksOf {n : Nat} (hn : 0 < n) (l : List α) : (l.chunksOf n).flatten = l := by
  have hall := flatMap_zipIdx_chunksOf hn (fun _ _ (a : α) => a) l
  have hleft : ((l.chunksOf n).zipIdx.flatMap fun c => c.1.zipIdx.map fun p => p.1) =
      (l.chunksOf n).flatten := by
    simp [List.zipIdx_map_fst, List.flatMap_def]
  rw [← hleft, hall]
  exact List.zipIdx_map_fst 0 l

theorem length_flatten_chunksOf {n : Nat} (hn : 0 < n) (l : List α) :
    (l.chunksOf n).flatten.length = l.length := by
  rw [flatten_chunksOf hn]

theorem mem_of_mem_chunksOf {n : Nat} {l chunk : List α} (h : chunk ∈ l.chunksOf n) :
    ∀ a ∈ chunk, a ∈ l := by
  obtain ⟨i, -, rfl⟩ := List.mem_map.mp h
  exact fun a ha => List.mem_of_mem_drop (List.mem_of_mem_take ha)

/-- The first chunk is the longest. -/
theorem length_le_of_mem_chunksOf {n : Nat} {l chunk first : List α} {chunks : List (List α)}
    (hchunks : l.chunksOf n = first :: chunks) (h : chunk ∈ l.chunksOf n) :
    chunk.length ≤ first.length := by
  have hlen : 0 < (l.chunksOf n).length := by
    rw [hchunks]
    exact Nat.succ_pos _
  have hfirst := getElem?_chunksOf hlen
  rw [hchunks, List.getElem?_cons_zero, Option.some.injEq] at hfirst
  obtain ⟨i, -, rfl⟩ := List.mem_map.mp h
  rw [hfirst]
  simp only [List.length_take, List.length_drop]
  omega

theorem chunksOf_map {β : Type*} (f : α → β) (n : Nat) (l : List α) :
    (l.map f).chunksOf n = (l.chunksOf n).map (List.map f) := by
  simp [chunksOf]

/-- The number of a chunk is the number of its first element, by the length. -/
theorem mul_lt_of_mem_zipIdx_chunksOf {n : Nat} (hn : 0 < n) {l : List α} {c : List α × Nat}
    (hc : c ∈ (l.chunksOf n).zipIdx) : c.2 * n < l.length := by
  have hlt := List.snd_lt_of_mem_zipIdx hc
  rw [length_chunksOf, Nat.add_zero, Nat.lt_div_iff_mul_lt hn] at hlt
  omega

/-- Chunk `k` is there, and is not empty, when its first element is. -/
theorem exists_mem_zipIdx_chunksOf {n : Nat} {l : List α} {j : Nat} (hn : 0 < n)
    (hj : j < l.length) : ∃ c ∈ (l.chunksOf n).zipIdx, c.2 = j / n ∧ c.1 ≠ [] := by
  have hk : j / n < (l.chunksOf n).length := by
    rw [length_chunksOf]
    apply Nat.lt_of_lt_of_le (Nat.lt_succ_self _)
    rw [Nat.le_div_iff_mul_le hn, Nat.succ_mul]
    have := Nat.div_mul_le_self j n
    omega
  have hstart : j / n * n < l.length := Nat.lt_of_le_of_lt (Nat.div_mul_le_self j n) hj
  refine ⟨((l.drop (j / n * n)).take n, j / n), ?_, rfl, ?_⟩
  · rw [List.mk_mem_zipIdx_iff_getElem?]
    exact getElem?_chunksOf hk
  · intro hnil
    have hlen := congrArg List.length hnil
    simp only [List.length_take, List.length_drop, List.length_nil] at hlen
    omega

/-- Lists that are not empty, and their first elements. -/
theorem forall₂_filterMap_head? {groups : List (List α)} (h : ∀ group ∈ groups, group ≠ []) :
    List.Forall₂ (fun a group => List.head? group = some a) (groups.filterMap head?) groups := by
  induction groups with
  | nil => exact .nil
  | cons group groups ih =>
    obtain ⟨hgroup, hgroups⟩ := forall_mem_cons.mp h
    obtain ⟨a, rest, rfl⟩ := exists_cons_of_ne_nil hgroup
    exact .cons rfl (ih hgroups)

theorem filterMap_head?_eq_flatten {groups : List (List α)}
    (h : ∀ group ∈ groups, ∃ a, group = [a]) :
    groups.filterMap head? = groups.flatten := by
  induction groups with
  | nil => rfl
  | cons group groups ih =>
    obtain ⟨⟨a, rfl⟩, hgroups⟩ := forall_mem_cons.mp h
    rw [flatten_cons, ← ih hgroups]
    rfl

end List
