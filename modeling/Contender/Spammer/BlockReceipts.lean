import Contender.Data.Traverse
import Contender.Spammer.FlushLoop

/-!
# The receipts of one block

What `process_block_receipts` answers when it succeeds: the confirmed hashes are
hashes of the snapshot in the snapshot's order, one row is committed for each of them
under the number of the block, and no transaction with a fetched receipt is left out.
-/

namespace Contender

/-- The hashes of a list of pending transactions. -/
def hashes (txs : List PendingRunTx) : List TxHash := txs.map PendingRunTx.txHash

/-- A transaction of the snapshot that has a receipt in the block. -/
def Chain.Included (chain : Chain) (blockNumber : Nat) (tx : PendingRunTx) : Prop :=
  ∃ receipt ∈ chain.receipts blockNumber, receipt.transactionHash = tx.txHash

/-- The answer covers every transaction of the snapshot that the block includes. -/
def ReceiptAnswer.Complete (answer : ReceiptAnswer) (chain : Chain) (blockNumber : Nat)
    (cacheSnapshot : List PendingRunTx) : Prop :=
  answer.allReceipts = true ∨
    ∀ tx ∈ cacheSnapshot, chain.Included blockNumber tx → tx.txHash ∈ answer.served

theorem PendingRunTx.toConfirmedRunTx_spec {tx : PendingRunTx} {receipt : Receipt}
    {blockNumber blockTimestamp : Nat} {row : RunTx}
    (h : tx.toConfirmedRunTx receipt blockNumber blockTimestamp = some row) :
    row.txHash = tx.txHash ∧ row.blockNumber = some blockNumber := by
  simp only [toConfirmedRunTx, Option.bind_eq_bind, Option.bind_eq_some_iff,
    Option.some.injEq] at h
  obtain ⟨_, _, _, _, _, _, _, _, rfl⟩ := h
  exact ⟨rfl, rfl⟩

/-- The confirmed hashes are hashes of the snapshot, in its order. -/
theorem confirmedIn_sublist (cacheSnapshot : List PendingRunTx) (receipts : List Receipt) :
    ((confirmedIn cacheSnapshot receipts).map fun c => c.1.txHash).Sublist
      (hashes cacheSnapshot) := by
  unfold confirmedIn hashes
  induction cacheSnapshot with
  | nil => exact List.Sublist.refl _
  | cons tx txs ih =>
    cases hfind : receipts.find? fun r => r.transactionHash = tx.txHash with
    | none =>
      rw [List.filterMap_cons_none (by rw [hfind]; rfl)]
      exact ih.cons _
    | some receipt =>
      rw [List.filterMap_cons_some (by rw [hfind]; rfl)]
      exact ih.cons_cons _

/-- A transaction of the snapshot with a fetched receipt is confirmed. -/
theorem mem_confirmedIn {cacheSnapshot : List PendingRunTx} {receipts : List Receipt}
    {tx : PendingRunTx} (htx : tx ∈ cacheSnapshot)
    (hreceipt : ∃ receipt ∈ receipts, receipt.transactionHash = tx.txHash) :
    tx.txHash ∈ (confirmedIn cacheSnapshot receipts).map fun c => c.1.txHash := by
  obtain ⟨receipt, hmem, hhash⟩ := hreceipt
  have hfound : (receipts.find? fun r => r.transactionHash = tx.txHash).isSome := by
    rw [List.find?_isSome]
    exact ⟨receipt, hmem, by simpa using hhash⟩
  obtain ⟨found, hfind⟩ := Option.isSome_iff_exists.mp hfound
  refine List.mem_map.mpr ⟨(tx, found), ?_, rfl⟩
  exact List.mem_filterMap.mpr ⟨tx, htx, by rw [hfind]; rfl⟩

/-- A complete answer fetches the receipt of every included transaction. -/
theorem ReceiptAnswer.Complete.fetched {answer : ReceiptAnswer} {chain : Chain}
    {blockNumber : Nat} {cacheSnapshot : List PendingRunTx}
    (complete : answer.Complete chain blockNumber cacheSnapshot) {tx : PendingRunTx}
    (htx : tx ∈ cacheSnapshot) (included : chain.Included blockNumber tx) :
    ∃ receipt ∈ answer.fetch chain blockNumber, receipt.transactionHash = tx.txHash := by
  obtain ⟨receipt, hmem, hhash⟩ := included
  refine ⟨receipt, ?_, hhash⟩
  unfold fetch
  split_ifs with hall
  · exact hmem
  · refine List.mem_filter.mpr ⟨hmem, ?_⟩
    have hserved := complete.resolve_left hall tx htx ⟨receipt, hmem, hhash⟩
    rw [hhash]
    exact decide_eq_true hserved

/-- **A processed block.** One row is committed for each confirmed hash, under the
number of the block. -/
theorem processBlockReceipts_confirmed {chain : Chain} {cacheSnapshot : List PendingRunTx}
    {blockNumber : Nat} {answer : ReceiptAnswer} {confirmed : List TxHash} {rows : List RunTx}
    (h : processBlockReceipts chain cacheSnapshot blockNumber answer = .confirmed confirmed rows) :
    confirmed.Sublist (hashes cacheSnapshot) ∧ rows.map RunTx.txHash = confirmed ∧
      (∀ row ∈ rows, row.blockNumber = some blockNumber) ∧
      (answer.Complete chain blockNumber cacheSnapshot →
        ∀ tx ∈ cacheSnapshot, chain.Included blockNumber tx → tx.txHash ∈ confirmed) := by
  unfold processBlockReceipts at h
  split_ifs at h with hempty
  · obtain ⟨rfl, rfl⟩ := Processed.confirmed.inj h
    refine ⟨List.nil_sublist _, rfl, by simp, fun _ tx htx => ?_⟩
    rw [hempty] at htx
    exact absurd htx List.not_mem_nil
  · cases hrows : (confirmedIn cacheSnapshot (answer.fetch chain blockNumber)).mapM fun c =>
        c.1.toConfirmedRunTx c.2 blockNumber (chain.timestamp blockNumber) with
    | none => simp [hrows] at h
    | some runTxs =>
      simp only [hrows] at h
      split_ifs at h
      obtain ⟨rfl, rfl⟩ := Processed.confirmed.inj h
      have hmatched := List.mapM_eq_some_iff.mp hrows
      refine ⟨confirmedIn_sublist _ _, ?_, fun row hrow => ?_, fun complete tx htx hin => ?_⟩
      · exact hmatched.map_eq fun c row hc => (PendingRunTx.toConfirmedRunTx_spec hc).1
      · obtain ⟨c, -, hc⟩ := hmatched.exists_of_mem_right hrow
        exact (PendingRunTx.toConfirmedRunTx_spec hc).2
      · exact mem_confirmedIn htx (complete.fetched htx hin)

end Contender
