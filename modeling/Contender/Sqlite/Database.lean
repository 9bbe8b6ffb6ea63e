import Contender.Data.Hex
import Contender.Data.SqlText
import Contender.Primitives

/-!
# The tables of the database

Rows are kept in the order of their ids. A column holds whatever value was inserted; it is
checked against the type the program asks for when it is read back, and fixed-width words
are written and read in hexadecimal.
-/

namespace Contender.SqliteDb

/-- Why a call does not answer: the statement fails or a column has another type, or a
conversion panics. -/
inductive Error
  | executeQuery
  | panic (message : Text)
  deriving DecidableEq, Repr

/-- A row of `run_txs`, without its id. -/
structure RunTxRow where
  runId : Sql.Value
  txHash : Sql.Value
  startTimestamp : Sql.Value
  endTimestamp : Sql.Value
  blockNumber : Sql.Value
  gasUsed : Sql.Value
  kind : Sql.Value
  error : Sql.Value
  flashblockLatency : Sql.Value
  flashblockIndex : Sql.Value
  deriving DecidableEq, Repr

/-- A row of `rpc_urls`. -/
structure RpcUrlRow where
  id : ℕ
  url : Text
  genesisHash : Text
  deriving DecidableEq, Repr

/-- A row of `named_txs`, without its id. -/
structure NamedTxRow where
  name : Text
  txHash : Text
  contractAddress : Option Text
  rpcUrlId : ℕ
  deriving DecidableEq, Repr

/-- The tables that the calls below read and write; of `runs` the ids. -/
structure Database where
  runs : List ℕ
  rpcUrls : List RpcUrlRow
  namedTxs : List NamedTxRow
  runTxs : List RunTxRow
  deriving DecidableEq, Repr

/-! ### Row ids -/

/-- The row id `INTEGER PRIMARY KEY` assigns: one more than the largest. -/
def nextId (ids : List ℕ) : ℕ := ids.foldr max 0 + 1

private theorem foldr_max_range (n b : ℕ) :
    ((List.range n).map (· + 1)).foldr max b = max b n := by
  induction n generalizing b with
  | zero => simp
  | succ n ih =>
    rw [List.range_succ, List.map_append, List.foldr_append, ih]
    simp only [List.map_cons, List.map_nil, List.foldr_cons, List.foldr_nil]
    omega

/-- Ids without gaps go on without a gap. -/
theorem nextId_range (n : ℕ) : nextId ((List.range n).map (· + 1)) = n + 1 := by
  rw [nextId, foldr_max_range, Nat.zero_max]

theorem le_foldr_max {ids : List ℕ} {n : ℕ} (h : n ∈ ids) : n ≤ ids.foldr max 0 := by
  induction ids with
  | nil => exact absurd h List.not_mem_nil
  | cons id ids ih =>
    rw [List.foldr_cons]
    rcases List.mem_cons.mp h with rfl | h
    · exact Nat.le_max_left _ _
    · exact (ih h).trans (Nat.le_max_right _ _)

theorem nextId_notMem (ids : List ℕ) : nextId ids ∉ ids := by
  intro h
  have hle := le_foldr_max h
  unfold nextId at hle
  omega

/-! ### Columns -/

/-- A column of type `u64`. -/
def getU64 : Sql.Value → Except Error ℕ
  | .integer n => .ok n
  | _ => .error .executeQuery

/-- A column of type `String`. -/
def getString : Sql.Value → Except Error Text
  | .text t => .ok t
  | _ => .error .executeQuery

/-- A column that may be `NULL`. -/
def getOption {α : Type} (get : Sql.Value → Except Error α) : Sql.Value → Except Error (Option α)
  | .null => .ok none
  | v => (get v).map some

theorem getU64_eq_ok {v : Sql.Value} {n : ℕ} : getU64 v = .ok n ↔ v = .integer n := by
  cases v <;> simp [getU64]

theorem getString_eq_ok {v : Sql.Value} {t : Text} : getString v = .ok t ↔ v = .text t := by
  cases v <;> simp [getString]

/-! ### Fixed-width words -/

/-- `encode_hex` of a word of that many hexadecimal digits. -/
def encodeHex (digits : ℕ) {w : ℕ} (word : BitVec w) : Text := Nat.paddedHex digits word.toNat

/-- `from_hex` of a word of that many hexadecimal digits. -/
def fromHex (digits w : ℕ) (text : Text) : Option (BitVec w) :=
  if (stripHexPrefix text).length = digits then
    (stripHexPrefix text).hexNumber?.map (BitVec.ofNat w)
  else none

/-- `Option::expect`. -/
def expect {α : Type} (message : String) : Option α → Except Error α
  | some a => .ok a
  | none => .error (.panic message.toList)

theorem stripHexPrefix_of_notMem {text : Text} (h : 'x' ∉ text) : stripHexPrefix text = text := by
  unfold stripHexPrefix
  split
  · simp at h
  · rfl

/-- A word comes back from its hexadecimal digits. -/
theorem fromHex_encodeHex {digits w : ℕ} (hdigits : 0 < digits) (hw : 2 ^ w = 16 ^ digits)
    (word : BitVec w) : fromHex digits w (encodeHex digits word) = some word := by
  have hx : 'x' ∉ encodeHex digits word := Nat.notMem_paddedHex (by decide) _ _
  have hlength : (encodeHex digits word).length = digits :=
    Nat.length_paddedHex hdigits (hw ▸ word.isLt)
  unfold fromHex
  rw [stripHexPrefix_of_notMem hx, if_pos hlength, encodeHex, Nat.hexNumber?_paddedHex]
  simp

end Contender.SqliteDb
