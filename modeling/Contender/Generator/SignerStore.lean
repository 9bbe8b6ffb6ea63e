import Contender.Data.Traverse
import Contender.Generator.RandSeed
import Contender.Scenario.Requests

/-!
# The accounts of an agent pool

`SignerStore::new` derives the keys of a pool from the base seed and the name of
the pool: it adds the number the name spells to the seed, and hashes the sum, the
sum plus one, and so on. Two pools therefore hash two intervals of numbers modulo
`2 ^ 256`, and have a key in common exactly when the intervals meet.
-/

namespace Contender

inductive AgentClass
  | deployer
  | setupSender
  | spammer
  deriving DecidableEq, Repr

structure SignerStore where
  signers : List PrivateKeySigner
  agentClass : AgentClass
  deriving DecidableEq, Repr

/-- The order of the group that keys are taken from. -/
def secp256k1Order : U256 := 0xFFFFFFFFFFFFFFFFFFFFFFFFFFFFFFFEBAAEDCE6AF48A03BBFD25E8CD0364141

/-- `PrivateKeySigner::from_bytes`: zero and numbers from the group order on are
no keys. -/
def signerFromBytes (addressOf : U256 → Address) (key : U256) : Option PrivateKeySigner :=
  if 0 < key ∧ key < secp256k1Order then some ⟨key, addressOf key⟩ else none

namespace SignerStore

/-- The seed of a pool. -/
def poolSeed (seed : RandSeed) (acctSeed : Text) : Option RandSeed :=
  (u256FromBeSlice (utf8 acctSeed)).map fun name => ⟨seed.asU256 + name⟩

/-- `SignerStore::new`. A name whose number does not fit and a value that is no
key panic. -/
def new (keccak256 : Bytes → U256) (addressOf : U256 → Address) (numSigners : Nat)
    (randSeeder : RandSeed) (acctSeed : Text) (agentClass : AgentClass) : Option SignerStore := do
  let seed ← poolSeed randSeeder acctSeed
  let prvKeys ← seed.seedValues keccak256 numSigners none none
  let signers ← prvKeys.mapM (signerFromBytes addressOf)
  return { signers, agentClass }

/-- What a pool hashes for its `i`-th key. -/
def hashInput (seed : RandSeed) (i : Nat) : Bytes := leBytes (seed.asU256 + BitVec.ofNat 256 i)

section Keys

variable {keccak256 : Bytes → U256} {addressOf : U256 → Address} {randSeeder : RandSeed}

/-- The values drawn without bounds are the hashes, up to the one hash that is
reduced to zero. -/
theorem seedValue_none_none (seed : RandSeed) (i : Nat)
    (h : 0 < seed.seedValue keccak256 none none i) :
    seed.seedValue keccak256 none none i = keccak256 (hashInput seed i) := by
  have hspan : RandSeed.upper none - RandSeed.lower none = BitVec.allOnes 256 := by decide
  have hvalue : seed.seedValue keccak256 none none i =
      keccak256 (hashInput seed i) % BitVec.allOnes 256 := by
    change keccak256 (hashInput seed i) % (RandSeed.upper none - RandSeed.lower none) + 0#256 = _
    rw [hspan, BitVec.add_zero]
  rw [hvalue] at h ⊢
  generalize keccak256 (hashInput seed i) = hash at h ⊢
  have hlt := hash.isLt
  have hpos : 0 < hash.toNat % (2 ^ 256 - 1) := by simpa [BitVec.lt_def] using h
  apply BitVec.eq_of_toNat_eq
  rw [BitVec.toNat_umod, BitVec.toNat_allOnes]
  apply Nat.mod_eq_of_lt
  -- only the largest hash is reduced, and it is reduced to zero
  by_contra hge
  have hall : hash.toNat = 2 ^ 256 - 1 := by omega
  rw [hall, Nat.mod_self] at hpos
  exact absurd hpos (by omega)

/-- The keys of a pool are the hashes of its interval. -/
theorem keys_of_new {numSigners : Nat} {acctSeed : Text} {agentClass : AgentClass}
    {store : SignerStore}
    (h : new keccak256 addressOf numSigners randSeeder acctSeed agentClass = some store) :
    ∃ seed, poolSeed randSeeder acctSeed = some seed ∧
      store.signers.map PrivateKeySigner.key =
        (List.range numSigners).map fun i => keccak256 (hashInput seed i) := by
  simp only [new, Option.bind_eq_bind, Option.bind_eq_some_iff] at h
  obtain ⟨seed, hseed, keys, hkeys, signers, hsigners, hstore⟩ := h
  obtain rfl := Option.some.inj hstore
  obtain ⟨-, rfl⟩ := RandSeed.seedValues_eq_some hkeys
  have hforall := List.mapM_eq_some_iff.mp hsigners
  rw [List.forall₂_map_left_iff] at hforall
  refine ⟨seed, hseed, hforall.map_eq fun i signer hi => ?_⟩
  unfold signerFromBytes at hi
  -- a signer exists, so the value was a key and not zero
  split_ifs at hi with hvalid
  obtain rfl := Option.some.inj hi
  exact seedValue_none_none seed i hvalid.1

/-! ### When two pools share no key -/

/-- The intervals of `n₁` numbers from `name₁` on and of `n₂` numbers from `name₂`
on, modulo `2 ^ 256`, do not meet. -/
def Apart (name₁ name₂ : U256) (n₁ n₂ : Nat) : Prop :=
  n₁ = 0 ∨ n₂ = 0 ∨ n₁ ≤ (name₂ - name₁).toNat ∧ n₂ ≤ 2 ^ 256 - (name₂ - name₁).toNat

instance (name₁ name₂ : U256) (n₁ n₂ : Nat) : Decidable (Apart name₁ name₂ n₁ n₂) :=
  inferInstanceAs (Decidable (_ ∨ _ ∨ _ ∧ _))

theorem add_eq_add_iff (base name₁ name₂ : U256) (i j : Nat) :
    base + name₁ + BitVec.ofNat 256 i = base + name₂ + BitVec.ofNat 256 j ↔
      i % 2 ^ 256 = ((name₂ - name₁).toNat + j) % 2 ^ 256 := by
  have hcancel : base + name₁ + BitVec.ofNat 256 i = base + name₂ + BitVec.ofNat 256 j ↔
      BitVec.ofNat 256 i = name₂ - name₁ + BitVec.ofNat 256 j := by
    rw [add_assoc, add_assoc, add_right_inj, sub_add_eq_add_sub, eq_sub_iff_add_eq']
  rw [hcancel, ← BitVec.toNat_inj, BitVec.toNat_add, BitVec.toNat_ofNat, BitVec.toNat_ofNat,
    Nat.add_mod_mod]

/-- Two pools hash no number in common exactly when their intervals are apart. -/
theorem apart_iff (base name₁ name₂ : U256) (n₁ n₂ : Nat) :
    Apart name₁ name₂ n₁ n₂ ↔
      ∀ i < n₁, ∀ j < n₂,
        base + name₁ + BitVec.ofNat 256 i ≠ base + name₂ + BitVec.ofNat 256 j := by
  simp only [Ne, add_eq_add_iff]
  have hd := (name₂ - name₁).isLt
  unfold Apart
  generalize (name₂ - name₁).toNat = d at hd ⊢
  constructor
  · rintro (h | h | ⟨h₁, h₂⟩) i hi j hj heq
    · omega
    · omega
    · rw [Nat.mod_eq_of_lt (by omega), Nat.mod_eq_of_lt (by omega)] at heq
      omega
  · intro h
    by_contra hapart
    simp only [not_or, not_and_or, Nat.not_le] at hapart
    obtain ⟨hn₁, hn₂, hshort | hshort⟩ := hapart
    · -- the second pool starts inside the interval of the first
      exact h d hshort 0 (by omega) (by rw [Nat.add_zero])
    · -- the first pool starts inside the interval of the second
      apply h 0 (by omega) (2 ^ 256 - d) hshort
      rw [Nat.add_sub_of_le (by omega), Nat.mod_self, Nat.zero_mod]

/-- The inputs a pool hashes for its keys. -/
def hashInputs (seed : RandSeed) (n : Nat) : Set Bytes :=
  {bytes | ∃ i < n, hashInput seed i = bytes}

/-- The seed of a pool is the base seed plus the number its name spells. -/
theorem poolSeed_eq_some {acctSeed : Text} {seed : RandSeed} :
    poolSeed randSeeder acctSeed = some seed ↔
      ∃ name, u256FromBeSlice (utf8 acctSeed) = some name ∧ ⟨randSeeder.asU256 + name⟩ = seed :=
  Option.map_eq_some_iff

/-- Two pools have no key in common exactly when the numbers their names spell
are far enough apart for the two signer counts. -/
theorem disjoint_iff_apart {name₁ name₂ : Text} {n₁ n₂ : Nat} {class₁ class₂ : AgentClass}
    {store₁ store₂ : SignerStore} {number₁ number₂ : U256}
    (h₁ : new keccak256 addressOf n₁ randSeeder name₁ class₁ = some store₁)
    (h₂ : new keccak256 addressOf n₂ randSeeder name₂ class₂ = some store₂)
    (hname₁ : u256FromBeSlice (utf8 name₁) = some number₁)
    (hname₂ : u256FromBeSlice (utf8 name₂) = some number₂)
    (hinj : Set.InjOn keccak256
      (hashInputs ⟨randSeeder.asU256 + number₁⟩ n₁ ∪ hashInputs ⟨randSeeder.asU256 + number₂⟩ n₂)) :
    (store₁.signers.map PrivateKeySigner.key).Disjoint
        (store₂.signers.map PrivateKeySigner.key) ↔
      Apart number₁ number₂ n₁ n₂ := by
  obtain ⟨seed₁, hseed₁, hkeys₁⟩ := keys_of_new h₁
  obtain ⟨seed₂, hseed₂, hkeys₂⟩ := keys_of_new h₂
  obtain ⟨_, heq₁, rfl⟩ := poolSeed_eq_some.mp hseed₁
  obtain ⟨_, heq₂, rfl⟩ := poolSeed_eq_some.mp hseed₂
  obtain rfl := Option.some.inj (heq₁.symm.trans hname₁)
  obtain rfl := Option.some.inj (heq₂.symm.trans hname₂)
  rw [hkeys₁, hkeys₂, apart_iff randSeeder.asU256]
  constructor
  -- a common number is hashed to a common key
  · intro hdisjoint i hi j hj heq
    refine hdisjoint (List.mem_map.mpr ⟨i, List.mem_range.mpr hi, rfl⟩)
      (List.mem_map.mpr ⟨j, List.mem_range.mpr hj, ?_⟩)
    exact congrArg (fun x => keccak256 (leBytes x)) heq.symm
  · intro hapart key hkey₁ hkey₂
    obtain ⟨i, hi, rfl⟩ := List.mem_map.mp hkey₁
    obtain ⟨j, hj, heq⟩ := List.mem_map.mp hkey₂
    rw [List.mem_range] at hi hj
    -- a common key comes from a common input
    have hinputs := hinj (.inr ⟨j, hj, rfl⟩) (.inl ⟨i, hi, rfl⟩) heq
    exact hapart i hi j hj (leBytes_injective hinputs).symm

end Keys

/-! ### Pools named by neighbouring letters -/

namespace Letters

/-- The Keccak hashes of the numbers 97, 98 and 99, which the letters `a`, `b` and
`c` spell. -/
def keccak256 (bytes : Bytes) : U256 :=
  if bytes = leBytes 97 then
    0x294587bf977c4010a60dbad811c63531f90f6ec512975bc6c9a93f8f361cad72
  else if bytes = leBytes 98 then
    0xec995820553be0dc441a61ecb354eb10205fcd3ada1c4bbcbae4980176294773
  else 0xd4ada26d51e415c51828a982c1cb067b85d0ac04798c4192814caa61b3fb5451

/-- The addresses of these keys. -/
def addressOf (key : U256) : Address :=
  if key = keccak256 (leBytes 97) then 0x0c80344ac65ae03f3e30473d5624b33419643bc4
  else if key = keccak256 (leBytes 98) then 0xd5b0acf4f0716a093cba36b3184644fcd7217079
  else 0x1ab647becd1c43adf0245a7e1f70864b0ea916bf

def signer (letter : U256) : PrivateKeySigner :=
  ⟨keccak256 (leBytes letter), addressOf (keccak256 (leBytes letter))⟩

theorem new_a :
    new keccak256 addressOf 2 ⟨0⟩ ['a'] .spammer =
      some ⟨[signer 97, signer 98], .spammer⟩ := by
  decide +kernel

theorem new_b : new keccak256 addressOf 1 ⟨0⟩ ['b'] .spammer = some ⟨[signer 98], .spammer⟩ := by
  decide +kernel

theorem new_c : new keccak256 addressOf 1 ⟨0⟩ ['c'] .spammer = some ⟨[signer 99], .spammer⟩ := by
  decide +kernel

theorem keccak256_injOn : Set.InjOn keccak256 {leBytes 97, leBytes 98, leBytes 99} := by
  have h₁ : keccak256 (leBytes 97) ≠ keccak256 (leBytes 98) := by decide +kernel
  have h₂ : keccak256 (leBytes 97) ≠ keccak256 (leBytes 99) := by decide +kernel
  have h₃ : keccak256 (leBytes 98) ≠ keccak256 (leBytes 99) := by decide +kernel
  rintro _ (rfl | rfl | rfl) _ (rfl | rfl | rfl) heq
  · rfl
  · exact absurd heq h₁
  · exact absurd heq h₂
  · exact absurd heq.symm h₁
  · rfl
  · exact absurd heq h₃
  · exact absurd heq.symm h₂
  · exact absurd heq.symm h₃
  · rfl

/-- What the pool of a letter hashes from the zero seed on. -/
theorem hashInputs_subset {letter : U256} {n : Nat}
    (h : ∀ i < n, letter + BitVec.ofNat 256 i ∈ [97#256, 98#256, 99#256]) :
    hashInputs ⟨0 + letter⟩ n ⊆ {leBytes 97, leBytes 98, leBytes 99} := by
  rintro _ ⟨i, hi, rfl⟩
  have hmem := h i hi
  have hinput : hashInput ⟨0 + letter⟩ i = leBytes (letter + BitVec.ofNat 256 i) := by
    rw [hashInput, zero_add]
  rw [hinput]
  simp only [List.mem_cons, List.not_mem_nil, or_false] at hmem
  rcases hmem with h | h | h <;> rw [h] <;> simp

/-- The second key of pool `a` is the first key of pool `b`. -/
theorem not_disjoint_of_neighbours :
    new keccak256 addressOf 2 ⟨0⟩ ['a'] .spammer = some ⟨[signer 97, signer 98], .spammer⟩ ∧
      new keccak256 addressOf 1 ⟨0⟩ ['b'] .spammer = some ⟨[signer 98], .spammer⟩ ∧
      Set.InjOn keccak256 (hashInputs ⟨0 + 97⟩ 2 ∪ hashInputs ⟨0 + 98⟩ 1) ∧
      ¬([signer 97, signer 98].map PrivateKeySigner.key).Disjoint
        ([signer 98].map PrivateKeySigner.key) := by
  refine ⟨new_a, new_b, keccak256_injOn.mono (Set.union_subset ?_ ?_), ?_⟩
  · exact hashInputs_subset (by decide)
  · exact hashInputs_subset (by decide)
  · exact fun h => h (List.mem_cons_of_mem _ List.mem_cons_self) List.mem_cons_self

/-- Two keys of pool `a` leave room for pool `c`. -/
theorem disjoint_of_room :
    ([signer 97, signer 98].map PrivateKeySigner.key).Disjoint
      ([signer 99].map PrivateKeySigner.key) := by
  have hinj : Set.InjOn keccak256 (hashInputs ⟨0 + 97⟩ 2 ∪ hashInputs ⟨0 + 99⟩ 1) :=
    keccak256_injOn.mono (Set.union_subset (hashInputs_subset (by decide))
      (hashInputs_subset (by decide)))
  exact (disjoint_iff_apart new_a new_c (by decide) (by decide) hinj).mpr (by decide)

end Letters

end SignerStore

end Contender
