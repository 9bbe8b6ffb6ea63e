import Contender.Engine.AuthProvider

/-!
# Replaying a segment of the chain

`replay_chain_segment` reads the blocks of a segment from the node, with the parent of the first
one. For each pair of neighbours it makes the second block the head of the chain, reads it once more
to recreate its payload, and sends that.

## Main results

* `replayChainSegment_calls` — a replay sends the payload of every block from the first one up to
  the one before the last one, in their order; one that fails has made the calls up to there
* `Replayed.payloadCall_version` — the payloads are sent by version 2 and 3 only
-/

namespace Contender.Engine

open EStateM (Triple)
open EngineM

/-- The block with its number, or an error that names the head. -/
def getBlock (node : Node) (blocknumHead blocknum : ℕ) : EngineM Block := do
  match ← ofAnswer (node.block (← get).calls blocknum) with
  | some blk => return blk
  | none => throw (.missingBlock blocknumHead)

namespace AuthProvider

variable (p : AuthProvider) (node : Node) (rounds : ℕ)

/-- One round of the loop. The sum is of less than `2 ^ 64` numbers below `2 ^ 64`, and does not
overflow. -/
def replayBlock (blockwin : Block × Block) : EngineM Unit := do
  let (prevBlock, currentBlock) := blockwin
  modify fun s => { s with gasUsed := s.gasUsed + currentBlock.header.gasUsed }
  let _ ← p.callFcuDefault node rounds prevBlock.header.hash currentBlock.header.hash none
  let payload ← blockToPayload node currentBlock.header.number
  -- there are no sidecars
  let versionedHashes := p.deriveBlobVersionedHashes currentBlock.transactions none
  let _ ← p.callNewPayload node rounds payload currentBlock.header.parentBeaconBlockRoot
    versionedHashes (some (currentBlock.header.requestsHash.getD 0))

/-- The blocks by their number, and the loop over the pairs of neighbours. -/
def replayChainSegment (startBlock : ℕ) (endBlock : Option ℕ) : EngineM ℕ := do
  -- the node is asked for its head also when the end is given
  let number ← ofAnswer (node.blockNumber (← get).calls)
  let blocknumHead := endBlock.getD number
  if blocknumHead ≤ startBlock then throw (.invalidBlockRange startBlock blocknumHead)
  if startBlock < 1 then throw (.invalidBlockStart startBlock)
  let blocks ← (List.range' (startBlock - 1) (blocknumHead - (startBlock - 1))).mapM
    (getBlock node blocknumHead)
  modify fun s => { s with gasUsed := 0 }
  (blocks.zip blocks.tail).forM (p.replayBlock node rounds)
  return (← get).gasUsed

end AuthProvider

/-! ### The calls of a replay -/

/-- A block that is executed behind its parent, and how the node gave it when it was read the
second time. -/
structure Replayed where
  parent : Block
  current : Block
  again : Block

namespace Replayed

variable (p : AuthProvider) (r : Replayed)

/-- The call that makes the block the head. -/
def headCall : EngineCall :=
  .forkchoiceUpdated p.messageVersion.forkchoice
    ⟨r.current.header.hash, r.parent.header.hash, r.parent.header.hash⟩ none

/-- The call that executes the block. -/
def payloadCall : Option EngineCall :=
  newPayloadCall r.again.toPayload r.current.header.parentBeaconBlockRoot
    (p.deriveBlobVersionedHashes r.current.transactions none)
    (some (r.current.header.requestsHash.getD 0))

def calls : List EngineCall := r.headCall p :: (r.payloadCall p).toList

def window : Block × Block := (r.parent, r.current)

end Replayed

/-- These blocks have been replayed since the state `s`. -/
structure HasReplayed (p : AuthProvider) (node : Node) (s : EngineState) (rs : List Replayed)
    (t : EngineState) : Prop where
  calls : t.calls = s.calls ++ rs.flatMap (·.calls p)
  gasUsed : t.gasUsed = s.gasUsed + (rs.map (·.current.header.gasUsed)).sum
  executed : ∀ r ∈ rs, (r.payloadCall p).isSome
  again : ForallPlaces (fun done r => node.block
    (s.calls ++ done.flatMap (·.calls p) ++ [r.headCall p]) r.current.header.number =
      .ok (some r.again)) rs

/-- The blocks before one of these pairs have been replayed, and that pair was not finished. -/
def StoppedAt (p : AuthProvider) (node : Node) (s : EngineState) (windows : List (Block × Block))
    (t : EngineState) : Prop :=
  ∃ (rs : List Replayed) (r : Replayed) (u : EngineState) (part : List EngineCall),
    rs.map Replayed.window ++ [r.window] <+: windows ∧ HasReplayed p node s rs u ∧
      t.calls = u.calls ++ part ∧ part <+: r.calls p

section Rounds

variable {s : EngineState} {p : AuthProvider} {node : Node} {rounds : ℕ}

theorem triple_callFcuDefault {currentHead newHead : B256} :
    Triple (· = s) (p.callFcuDefault node rounds currentHead newHead none)
      (· = s.after (.forkchoiceUpdated p.messageVersion.forkchoice
        ⟨newHead, currentHead, currentHead⟩ none))
      (fun t => t = s ∨ t = s.after (.forkchoiceUpdated p.messageVersion.forkchoice
        ⟨newHead, currentHead, currentHead⟩ none)) :=
  (triple_opParams.mono (fun _ h => h) fun _ h => .inl h).bind fun _ =>
    triple_callForkchoiceUpdated

theorem blockToPayload_run (number : ℕ) :
    blockToPayload node number s =
      match node.block s.calls number with
      | .ok (some blk) => .ok blk.toPayload s
      | .ok none => .error (.panicked "block") s
      | .error e => .error (.transportError e) s := by
  cases hblock : node.block s.calls number with
  | error e =>
    simp only [blockToPayload, EStateM.run_get_bind, hblock]
    rfl
  | ok block =>
    simp only [blockToPayload, EStateM.run_get_bind, hblock]
    cases block <;> rfl

theorem triple_blockToPayload_bind {β : Type} {number : ℕ} {f : ExecutionPayload → EngineM β}
    {Q E : EngineState → Prop} (hfail : E s)
    (h : ∀ blk, node.block s.calls number = .ok (some blk) →
      Triple (· = s) (f blk.toPayload) Q E) :
    Triple (· = s) (blockToPayload node number >>= f) Q E := by
  intro t ht
  rw [ht]
  simp only [Bind.bind, EStateM.bind, blockToPayload_run]
  cases hblock : node.block s.calls number with
  | error e => exact hfail
  | ok block =>
    cases block with
    | none => exact hfail
    | some blk => exact h blk hblock s rfl

/-- A round makes the block the head and executes it, or stops on the way. -/
theorem triple_replayBlock {parent current : Block} :
    Triple (· = s) (p.replayBlock node rounds (parent, current))
      (fun t => ∃ r : Replayed, r.parent = parent ∧ r.current = current ∧
        node.block (s.calls ++ [r.headCall p]) current.header.number = .ok (some r.again) ∧
        (r.payloadCall p).isSome ∧
        t = ⟨s.calls ++ r.calls p, s.gasUsed + current.header.gasUsed⟩)
      (fun t => ∃ r : Replayed, ∃ part, r.parent = parent ∧ r.current = current ∧
        t.calls = s.calls ++ part ∧ part <+: r.calls p) := by
  have hgas : Triple (· = s) (modify fun s => { s with
      gasUsed := s.gasUsed + current.header.gasUsed } : EngineM PUnit)
      (· = { s with gasUsed := s.gasUsed + current.header.gasUsed })
      (fun t => ∃ r : Replayed, ∃ part, r.parent = parent ∧ r.current = current ∧
        t.calls = s.calls ++ part ∧ part <+: r.calls p) :=
    Triple.update fun t ht => by rw [ht]
  refine hgas.bind fun _ => (triple_callFcuDefault.mono (fun _ h => h) ?_).bind fun _ => ?_
  · intro t ht
    rcases ht with rfl | rfl
    · exact ⟨⟨parent, current, current⟩, [], rfl, rfl, (List.append_nil _).symm, List.nil_prefix⟩
    · exact ⟨⟨parent, current, current⟩, _, rfl, rfl, rfl, List.prefix_append [_] _⟩
  refine triple_blockToPayload_bind ?_ fun again hagain => ?_
  · exact ⟨⟨parent, current, current⟩, _, rfl, rfl, rfl, List.prefix_append [_] _⟩
  refine (triple_callNewPayload.mono (fun _ h => h) ?_).bind fun _ => Triple.pure ?_ _
  · intro t ht
    rcases ht with rfl | ⟨call, hcall, rfl⟩
    · exact ⟨⟨parent, current, again⟩, _, rfl, rfl, rfl, List.prefix_append [_] _⟩
    · have hpayload : (Replayed.payloadCall p ⟨parent, current, again⟩) = some call := hcall
      refine ⟨⟨parent, current, again⟩, Replayed.calls p ⟨parent, current, again⟩, rfl, rfl, ?_,
        List.prefix_rfl⟩
      rw [Replayed.calls, hpayload, Option.toList_some]
      exact List.append_assoc s.calls _ _
  · rintro t ⟨call, hcall, rfl⟩
    have hpayload : (Replayed.payloadCall p ⟨parent, current, again⟩) = some call := hcall
    refine ⟨⟨parent, current, again⟩, rfl, rfl, hagain, by rw [hpayload]; rfl, ?_⟩
    rw [Replayed.calls, hpayload, Option.toList_some, EngineState.after, EngineState.after]
    dsimp only
    rw [List.append_assoc]
    rfl

theorem hasReplayed_nil : HasReplayed p node s [] s where
  calls := (List.append_nil _).symm
  gasUsed := rfl
  executed _ h := absurd h List.not_mem_nil
  again := .nil

theorem HasReplayed.concat {rs : List Replayed} {r : Replayed} {t : EngineState}
    (h : HasReplayed p node s rs t) (hsome : (r.payloadCall p).isSome)
    (hagain : node.block (t.calls ++ [r.headCall p]) r.current.header.number =
      .ok (some r.again)) :
    HasReplayed p node s (rs ++ [r])
      ⟨t.calls ++ r.calls p, t.gasUsed + r.current.header.gasUsed⟩ where
  calls := by
    rw [List.flatMap_append, List.flatMap_singleton, h.calls, List.append_assoc]
  gasUsed := by
    rw [List.map_append, List.sum_append, h.gasUsed, Nat.add_assoc]
    rfl
  executed r' hr' := by
    rcases List.mem_append.mp hr' with hmem | hmem
    · exact h.executed r' hmem
    · obtain rfl := List.mem_singleton.mp hmem
      exact hsome
  again := h.again.concat (h.calls ▸ hagain)

/-- The loop has replayed the blocks, or has come to one that it has not finished. -/
theorem triple_replayBlocks (windows : List (Block × Block)) :
    Triple (· = s) (windows.forM (p.replayBlock node rounds))
      (fun t => ∃ rs, rs.map Replayed.window = windows ∧ HasReplayed p node s rs t)
      (StoppedAt p node s windows) := by
  have hloop := Triple.forM (l := windows) (f := p.replayBlock node rounds)
    (I := fun done t => ∃ rs, rs.map Replayed.window = done ∧ HasReplayed p node s rs t)
    (E := StoppedAt p node s windows) ?_
  · intro t ht
    exact hloop t ⟨[], rfl, ht ▸ hasReplayed_nil⟩
  · rintro done ⟨parent, current⟩ rest hsplit u ⟨rs, rfl, hrs⟩
    refine (triple_replayBlock.mono ?_ ?_) u rfl
    · rintro t ⟨r, rfl, rfl, hagain, hsome, rfl⟩
      exact ⟨rs ++ [r], by rw [List.map_append]; rfl, hrs.concat hsome hagain⟩
    · rintro t ⟨r, part, rfl, rfl, hcalls, hpart⟩
      refine ⟨rs, r, u, part, ?_, hrs, hcalls, hpart⟩
      rw [hsplit]
      exact ⟨rest, (List.append_cons _ _ _).symm⟩

/-! ### Reading the blocks -/

variable (s node) in
theorem getBlock_run (head number : ℕ) :
    getBlock node head number s =
      match node.block s.calls number with
      | .ok (some blk) => .ok blk s
      | .ok none => .error (.missingBlock head) s
      | .error e => .error (.transportError e) s := by
  cases hblock : node.block s.calls number with
  | error e =>
    simp only [getBlock, EStateM.run_get_bind, hblock]
    rfl
  | ok block =>
    simp only [getBlock, EStateM.run_get_bind, hblock]
    cases block <;> rfl

variable (s node) in
/-- Reading makes no calls, and the blocks are those of the node. -/
theorem getBlocks_run (head : ℕ) (numbers : List ℕ) :
    (∃ blocks, numbers.mapM (getBlock node head) s = .ok blocks s ∧
      List.Forall₂ (fun number blk => node.block s.calls number = .ok (some blk)) numbers blocks) ∨
    ∃ e, numbers.mapM (getBlock node head) s = .error e s := by
  induction numbers with
  | nil => exact .inl ⟨[], rfl, .nil⟩
  | cons number numbers ih =>
    have hfirst := getBlock_run s node head number
    cases hblock : node.block s.calls number with
    | error e =>
      rw [hblock] at hfirst
      exact .inr ⟨_, by rw [List.mapM_cons]; exact EStateM.bind_eq_error.mpr (.inl hfirst)⟩
    | ok block =>
      rw [hblock] at hfirst
      cases block with
      | none =>
        exact .inr ⟨_, by rw [List.mapM_cons]; exact EStateM.bind_eq_error.mpr (.inl hfirst)⟩
      | some blk =>
        rcases ih with ⟨blocks, hrun, hblocks⟩ | ⟨e, hrun⟩
        · exact .inl ⟨blk :: blocks,
            EStateM.mapM_cons_eq_ok.mpr ⟨blk, s, blocks, hfirst, hrun, rfl⟩, .cons hblock hblocks⟩
        · refine .inr ⟨e, ?_⟩
          rw [List.mapM_cons]
          exact EStateM.bind_eq_error.mpr
            (.inr ⟨blk, s, hfirst, EStateM.bind_eq_error.mpr (.inl hrun)⟩)

/-! ### The segment -/

/-- The blocks from `first` up to the one before `last`, each behind its parent. -/
structure IsSegment (node : Node) (calls : List EngineCall) (first last : ℕ)
    (windows : List (Block × Block)) : Prop where
  length : windows.length = last - first
  parent : ∀ i (h : i < windows.length), node.block calls (first - 1 + i) = .ok (some windows[i].1)
  current : ∀ i (h : i < windows.length), node.block calls (first + i) = .ok (some windows[i].2)

/-- The neighbours among the blocks that have been read. -/
theorem isSegment_zip_tail {calls : List EngineCall} {first last : ℕ} {blocks : List Block}
    (hfirst : 1 ≤ first) (hlast : first < last)
    (h : List.Forall₂ (fun number blk => node.block calls number = .ok (some blk))
      (List.range' (first - 1) (last - (first - 1))) blocks) :
    IsSegment node calls first last (blocks.zip blocks.tail) := by
  have hlength : blocks.length = last - (first - 1) := by
    rw [← h.length_eq, List.length_range']
  have hblock : ∀ i (hi : i < blocks.length), node.block calls (first - 1 + i) =
      .ok (some blocks[i]) := by
    intro i hi
    have hi' : i < (List.range' (first - 1) (last - (first - 1))).length := by
      rw [h.length_eq]
      exact hi
    have hget := h.get hi' hi
    rw [List.get_eq_getElem, List.getElem_range', Nat.one_mul] at hget
    exact hget
  have hzip : (blocks.zip blocks.tail).length = last - first := by
    rw [List.length_zip, List.length_tail, hlength]
    omega
  refine ⟨hzip, fun i hi => ?_, fun i hi => ?_⟩
  · rw [List.getElem_zip]
    exact hblock i _
  · rw [List.getElem_zip, List.getElem_tail]
    rw [hzip] at hi
    have hnext := hblock (i + 1) (by omega)
    rwa [show first - 1 + (i + 1) = first + i by omega] at hnext

end Rounds

/-- Blocks are executed by version 2 and 3 of `engine_newPayload`, in every era. -/
theorem Replayed.payloadCall_version {p : AuthProvider} {r : Replayed} {call : EngineCall}
    (h : r.payloadCall p = some call) :
    (∃ payload withdrawals, call = .newPayloadV2 payload withdrawals) ∨
      ∃ payload hashes root, call = .newPayloadV3 payload hashes root := by
  simp only [Replayed.payloadCall, Block.toPayload] at h
  split at h
  · obtain ⟨root, -, rfl⟩ := Option.map_eq_some_iff.mp h
    exact .inr ⟨_, _, root, rfl⟩
  · exact .inl ⟨_, _, (Option.some.inj h).symm⟩

/-- A replay that ends well has made each block of the segment the head and has executed it, in
their order, and has counted the gas of these blocks; the last block of the range is not among
them. One that fails has made no call, or those of the blocks before one that it has not
finished. -/
theorem replayChainSegment_calls (p : AuthProvider) (node : Node) (rounds startBlock : ℕ)
    (endBlock : Option ℕ) (s : EngineState) :
    match p.replayChainSegment node rounds startBlock endBlock s with
    | .ok gasUsed t => ∃ number rs, node.blockNumber s.calls = .ok number ∧ 1 ≤ startBlock ∧
        startBlock < endBlock.getD number ∧
        IsSegment node s.calls startBlock (endBlock.getD number) (rs.map Replayed.window) ∧
        HasReplayed p node ⟨s.calls, 0⟩ rs t ∧ gasUsed = t.gasUsed
    | .error _ t => t = s ∨ ∃ number windows, node.blockNumber s.calls = .ok number ∧
        IsSegment node s.calls startBlock (endBlock.getD number) windows ∧
        StoppedAt p node ⟨s.calls, 0⟩ windows t := by
  simp only [AuthProvider.replayChainSegment, EStateM.run_get_bind]
  cases hnumber : node.blockNumber s.calls with
  | error e => exact .inl rfl
  | ok number =>
    simp only [ofAnswer, pure_bind]
    by_cases hhead : endBlock.getD number ≤ startBlock
    · rw [if_pos hhead]
      exact .inl rfl
    by_cases hstart : startBlock < 1
    · rw [if_neg hhead, if_pos hstart]
      exact .inl rfl
    rw [if_neg hhead, if_neg hstart]
    rcases getBlocks_run s node (endBlock.getD number)
      (List.range' (startBlock - 1) (endBlock.getD number - (startBlock - 1))) with
      ⟨blocks, hread, hblocks⟩ | ⟨e, hread⟩
    · have hsegment := isSegment_zip_tail (not_lt.mp hstart) (not_le.mp hhead) hblocks
      have hloop : Triple (· = ⟨s.calls, 0⟩)
        ((blocks.zip blocks.tail).forM (p.replayBlock node rounds)) _ _ := triple_replayBlocks _
      specialize hloop ⟨s.calls, 0⟩ rfl
      have hreset {f : PUnit → EngineM ℕ} :
          (modify (fun s => { s with gasUsed := 0 }) >>= f) s = f ⟨⟩ ⟨s.calls, 0⟩ := rfl
      cases hrun : (blocks.zip blocks.tail).forM (p.replayBlock node rounds) ⟨s.calls, 0⟩ with
      | ok _ t =>
        rw [hrun] at hloop
        obtain ⟨rs, hwindows, hrs⟩ := hloop
        rw [EStateM.bind_of_ok hread, hreset, EStateM.bind_of_ok hrun]
        exact ⟨number, rs, rfl, not_lt.mp hstart, not_le.mp hhead, hwindows ▸ hsegment, hrs, rfl⟩
      | error e t =>
        rw [hrun] at hloop
        rw [EStateM.bind_of_ok hread, hreset, EStateM.bind_of_error hrun]
        exact .inr ⟨number, _, rfl, hsegment, hloop⟩
    · rw [EStateM.bind_of_error hread]
      exact .inl rfl

end Contender.Engine
