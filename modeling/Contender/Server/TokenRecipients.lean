import Contender.Cli.Erc20
import Contender.Generator.SeedFile

/-!
# Who gets the tokens of a session

The server builds a session's scenario before the session has an id, and derives the recipients of
its tokens from the number of live sessions. The accounts that send the session's spam are derived
from its id, which is drawn at random.

## Main results

* `fundsSpammers_iff` — the spammers of a session get tokens only if its id is the number of
  sessions that were live when it was added
-/

namespace Contender

/-! ### The seed of a machine number -/

/-- `usize::to_be_bytes`. -/
def usizeBeBytes (n : ℕ) : Bytes := (List.range 8).reverse.map fun i => UInt8.ofNat (n / 256 ^ i)

theorem fromBeBytes_digits (n k : ℕ) :
    fromBeBytes ((List.range k).reverse.map fun i => UInt8.ofNat (n / 256 ^ i)) = n % 256 ^ k := by
  induction k with
  | zero => simp [fromBeBytes, Nat.mod_one]
  | succ k ih =>
    have hsplit : ((List.range (k + 1)).reverse.map fun i => UInt8.ofNat (n / 256 ^ i)) =
        [UInt8.ofNat (n / 256 ^ k)] ++
          (List.range k).reverse.map fun i => UInt8.ofNat (n / 256 ^ i) := by
      rw [List.range_succ, List.reverse_append, List.map_append]
      rfl
    have hdigit : fromBeBytes [UInt8.ofNat (n / 256 ^ k)] = n / 256 ^ k % 256 := by
      simp [fromBeBytes]
    rw [hsplit, fromBeBytes_append, hdigit, ih, List.length_map, List.length_reverse,
      List.length_range, Nat.mod_pow_succ]

/-- What the padding of eight bytes adds to a seed. -/
def usizePadding : ℕ := fromBeBytes (List.replicate 24 1)

theorem asU256_seedFromBytes_usize {n : ℕ} (hn : n < 2 ^ 64) :
    (RandSeed.seedFromBytes (usizeBeBytes n)).asU256 =
      BitVec.ofNat 256 (n * 2 ^ 192 + usizePadding) := by
  have hlength : (usizeBeBytes n).length = 8 := by
    rw [usizeBeBytes, List.length_map, List.length_reverse, List.length_range]
  have hvalue : fromBeBytes (usizeBeBytes n) = n := by
    rw [usizeBeBytes, fromBeBytes_digits]
    exact Nat.mod_eq_of_lt hn
  rw [RandSeed.seedFromBytes, RandSeed.fillBytes, if_pos (by rw [hlength]; decide), hlength,
    fromBeBytes_append, hvalue, List.length_replicate, Nat.add_comm, Nat.mul_comm]
  rfl

/-! ### The spammers of a session -/

/-- The seed that `add_session` gives to the builtin scenarios, with so many sessions in the
cache. -/
def sessionSeed (numSessions : ℕ) : RandSeed := .seedFromBytes (usizeBeBytes numSessions)

/-- The seed of `create_contender`. -/
def contenderSeed (id : ℕ) : RandSeed := .seedFromBytes (usizeBeBytes id)

/-- The number that the name of the pool spells. -/
def spammersNumber : ℕ := fromBeBytes (utf8 spammersPool)

/-- What is hashed for the `i`-th spammer from the seed of a machine number. -/
def spammerInput (x i : ℕ) : Bytes :=
  leBytes (BitVec.ofNat 256 (x * 2 ^ 192 + (usizePadding + spammersNumber) + i))

theorem offset_lt : usizePadding + spammersNumber < 2 ^ 191 := by decide

/-- Different machine numbers never have an input in common. -/
theorem spammerInput_inj {x y i j : ℕ} (hx : x < 2 ^ 64) (hy : y < 2 ^ 64) (hi : i < 2 ^ 64)
    (hj : j < 2 ^ 64) : spammerInput x i = spammerInput y j ↔ x = y ∧ i = j := by
  refine ⟨fun h => ?_, fun ⟨hxy, hij⟩ => by rw [hxy, hij]⟩
  have hoffset := offset_lt
  have hvalue := congrArg BitVec.toNat (leBytes_injective h)
  rw [BitVec.toNat_ofNat, BitVec.toNat_ofNat] at hvalue
  generalize usizePadding + spammersNumber = offset at hoffset hvalue
  rw [Nat.mod_eq_of_lt (by omega), Nat.mod_eq_of_lt (by omega)] at hvalue
  omega

theorem address_of_new {keccak256 : Bytes → U256} {addressOf : U256 → Address} {k : ℕ}
    {seed : RandSeed} {name : Text} {agentClass : AgentClass} {store : SignerStore}
    (h : SignerStore.new keccak256 addressOf k seed name agentClass = some store) :
    store.signers.map PrivateKeySigner.address =
      (store.signers.map PrivateKeySigner.key).map addressOf := by
  rw [List.map_map]
  refine List.map_congr_left fun signer hsigner => ?_
  obtain ⟨i, hi⟩ := List.getElem?_of_mem hsigner
  have haccount := SignerStore.account_of_new h hi
  obtain ⟨pool, -, hkey⟩ := Option.bind_eq_some_iff.mp haccount
  unfold signerFromBytes at hkey
  split_ifs at hkey
  obtain rfl := Option.some.inj hkey
  rfl

/-- The addresses of the pool of spammers from the seed of a machine number. -/
theorem addresses_of_new {keccak256 : Bytes → U256} {addressOf : U256 → Address} {x k : ℕ}
    {agentClass : AgentClass} {store : SignerStore} (hx : x < 2 ^ 64)
    (h : SignerStore.new keccak256 addressOf k (.seedFromBytes (usizeBeBytes x)) spammersPool
      agentClass = some store) :
    store.signers.map PrivateKeySigner.address =
      (List.range k).map fun i => addressOf (keccak256 (spammerInput x i)) := by
  obtain ⟨seed, hseed, hkeys⟩ := SignerStore.keys_of_new h
  obtain ⟨name, hname, rfl⟩ := SignerStore.poolSeed_eq_some.mp hseed
  have hnumber : u256FromBeSlice (utf8 spammersPool) = some (BitVec.ofNat 256 spammersNumber) :=
    if_pos (by decide)
  obtain rfl := Option.some.inj (hnumber.symm.trans hname)
  rw [address_of_new h, hkeys, List.map_map]
  refine List.map_congr_left fun i _ => ?_
  rw [Function.comp_apply, SignerStore.hashInput, asU256_seedFromBytes_usize hx, spammerInput,
    ← BitVec.ofNat_add, ← BitVec.ofNat_add, Nat.add_assoc (x * 2 ^ 192)]

/-- What is hashed for so many spammers. -/
def spammerInputs (x k : ℕ) : Set Bytes := {bytes | ∃ i < k, spammerInput x i = bytes}

/-- **Who gets the tokens.** A session that is added to `n` live sessions and gets the id `id` has
tokens for one of its spammers only if `id = n`, and for all of them only if they are no more than
ten as well. -/
theorem fundsSpammers_iff (keccak256 : Bytes → U256) (addressOf : U256 → Address)
    (addressToString : Address → Text) (testTokenHex : Text) (args : Erc20CliArgs) (n id : ℕ)
    (spec : AgentSpec) (iterate : PoolCounts → List (Sigma fun _ : Text => Nat × AgentClass))
    (scenario : Erc20Args) (agents : AssocMap Text SignerStore) (spammers : SignerStore)
    (hn : n < 2 ^ 64) (hid : id < 2 ^ 64) (hspec : spec.spamAccounts < 2 ^ 64)
    (hiterate : ∀ counts, (iterate counts).Perm counts.entries)
    (hscenario : Erc20Args.toBuiltinScenario keccak256 addressOf addressToString args
      ⟨none, sessionSeed n⟩ = some scenario)
    (hagents : (scenario.toTestConfig testTokenHex addressToString).plan.buildAgentStore keccak256
      addressOf iterate (contenderSeed id) spec = .ok agents)
    (hspammers : agents.lookup spammersPool = some spammers)
    (hinj : Set.InjOn (fun bytes => addressOf (keccak256 bytes))
      (spammerInputs id spec.spamAccounts ∪ spammerInputs n 10)) :
    ((∃ signer ∈ spammers.signers, signer.address ∈ scenario.fundRecipients) ↔ id = n) ∧
      ((∀ signer ∈ spammers.signers, signer.address ∈ scenario.fundRecipients) ↔
        id = n ∧ spec.spamAccounts ≤ 10) := by
  obtain ⟨funded, hfunded, rfl⟩ := Option.map_eq_some_iff.mp hscenario
  have hrecipients := addresses_of_new hn hfunded
  obtain ⟨hmem, hstore⟩ := PlanConfig.buildAgentStore_ok hiterate hagents spammersPool
  have hnew := hstore spammers hspammers
  rw [Erc20Args.accountsFor_spammers] at hmem hnew
  have hpos : 0 < spec.spamAccounts := hmem.mp (AList.lookup_isSome.mp (by rw [hspammers]; rfl))
  have haddresses := addresses_of_new hid hnew
  -- two accounts have one address only when they are the same
  have hsame {i j : ℕ} (hj : j < spec.spamAccounts) (hi : i < 10) :
      addressOf (keccak256 (spammerInput n i)) = addressOf (keccak256 (spammerInput id j)) ↔
        id = n ∧ j = i := by
    rw [← spammerInput_inj hid hn (by omega) (by omega)]
    constructor
    · exact fun h => hinj (.inl ⟨j, hj, rfl⟩) (.inr ⟨i, hi, rfl⟩) h.symm
    · exact fun h => by rw [h]
  have hfunds (j : ℕ) (hj : j < spec.spamAccounts) :
      addressOf (keccak256 (spammerInput id j)) ∈
        funded.signers.map PrivateKeySigner.address ↔ id = n ∧ j < 10 := by
    rw [hrecipients, List.mem_map]
    constructor
    · rintro ⟨i, hi, heq⟩
      rw [List.mem_range] at hi
      obtain ⟨hidn, rfl⟩ := (hsame hj hi).mp heq
      exact ⟨hidn, hi⟩
    · rintro ⟨hidn, hj10⟩
      exact ⟨j, List.mem_range.mpr hj10, (hsame hj hj10).mpr ⟨hidn, rfl⟩⟩
  have hforall (P : Address → Prop) : (∀ signer ∈ spammers.signers, P signer.address) ↔
      ∀ j < spec.spamAccounts, P (addressOf (keccak256 (spammerInput id j))) := by
    rw [← List.forall_mem_map (f := PrivateKeySigner.address), haddresses, List.forall_mem_map]
    exact forall_congr' fun j => by rw [List.mem_range]
  refine ⟨?_, ?_⟩
  · constructor
    · rintro ⟨signer, hsigner, hfund⟩
      by_contra hne
      exact (hforall (· ∉ funded.signers.map PrivateKeySigner.address)).mpr
        (fun j hj hmem => hne ((hfunds j hj).mp hmem).1) signer hsigner hfund
    · intro hidn
      by_contra hnone
      refine (hforall (· ∉ funded.signers.map PrivateKeySigner.address)).mp
        (fun signer hsigner hfund => hnone ⟨signer, hsigner, hfund⟩) 0 hpos ?_
      exact (hfunds 0 hpos).mpr ⟨hidn, by decide⟩
  · constructor
    · intro hall
      have hmem := (hforall (· ∈ funded.signers.map PrivateKeySigner.address)).mp hall
      have hlast := ((hfunds (spec.spamAccounts - 1) (by omega)).mp (hmem _ (by omega))).2
      exact ⟨((hfunds 0 hpos).mp (hmem 0 hpos)).1, by omega⟩
    · rintro ⟨hidn, hle⟩
      exact (hforall (· ∈ funded.signers.map PrivateKeySigner.address)).mpr
        fun j hj => (hfunds j hj).mpr ⟨hidn, by omega⟩

namespace FirstSession

/-- What is hashed for the admin of the session with id 5. -/
def adminInput : Bytes :=
  leBytes (BitVec.ofNat 256 (5 * 2 ^ 192 + usizePadding + fromBeBytes (utf8 "admin".toList)))

/-- The Keccak hashes for the first session of a server, which gets id 5, and the addresses of these
keys. -/
def hashes : List (Bytes × U256 × Address) :=
  [(spammerInput 0 0, 0x593bc672ccda565cf961abb3170d1d05b27a541c1b9c420de28b9580684a19da,
    0x79bcb86ff51077b7ab66585e9c81e39c81d23617),
   (spammerInput 0 1, 0x7d35fbb60c1b0ce7d8dba5d67b21309099fc150dbd4498c5a0706569d720369c,
    0x0f5bb3c3910c5e66afe49eacf67bfd581e694350),
   (spammerInput 0 2, 0x0e14b1cb944baa68429bcd4b49705f05b0648b62af1fce81221cf50e5ccd2423,
    0x3939fd05b7563fe21082d03cca81c1be6894a8eb),
   (spammerInput 0 3, 0xd0d0e22b05592d8263afe6f0e3af9dd1459e5bd48b4c2e10e4505ba9a6dce050,
    0x426c9ac48603b197219c3c20c957c0b1e4897d1b),
   (spammerInput 0 4, 0x9d57278f026e9504b8a882478f23138282d11667475692265f1ddefdce210fbd,
    0x91deaf5da3ce0e2bdef33bff5204f05343e3ef16),
   (spammerInput 0 5, 0x783664798b410bdc99d44adc495941efdfb771305f1ea073097ba5b69640f7ca,
    0x76f4e72b3146d31696b7068924ca46d9aff8e1af),
   (spammerInput 0 6, 0x26736be15086cf29ecece801df1188e50afe6896ed7b0fe1f2f2db9995e1a094,
    0x9f25045a411fce990bf24f2440b686f5ad82be15),
   (spammerInput 0 7, 0x7c6fb92ec2690c6d81892efdd5dbb688603537d74fb329579e87b71933c7ddd7,
    0xbc59142912084c81bc4fb9c806a5cd8e2791feea),
   (spammerInput 0 8, 0x0d7f3f3c0ba4a5cfbffb1a63f73867559d1d435b33ccec2a2444661068a936bb,
    0x748ed55bcaf0d58c17980e91bb67337c0efc4c56),
   (spammerInput 0 9, 0xc7f08ccd1f7e63948d3e171263b70546a53ff7f73e91e47b75341cd221285325,
    0xb101bd2c211ab6617b64c927124187dc4e5a55aa),
   (spammerInput 5 0, 0xef08fdcfbc257dae88e8d006b1490b678e9f949e71ca497586c613f5282ab49c,
    0x8a7e36e0873b81fd41505b54037eab65b0ee7ecd),
   (adminInput, 0x12544c9bfa6f196f3cf7095aa61193aa7a37ec93287d5c264102c94bfada0ab4,
    0x5666335a73bc53a1f5c6f261743de0c09c347510)]

def keccak256 (bytes : Bytes) : U256 := ((hashes.find? (·.1 = bytes)).map (·.2.1)).getD 0

def addressOf (key : U256) : Address := ((hashes.find? (·.2.1 = key)).map (·.2.2)).getD 0

theorem hashes_injOn : Set.InjOn (fun bytes => addressOf (keccak256 bytes))
    (spammerInputs 5 1 ∪ spammerInputs 0 10) := by
  have hnodup : ((hashes.map Prod.fst).map fun bytes => addressOf (keccak256 bytes)).Nodup := by
    decide +kernel
  have hfirst : ∀ i < 1, spammerInput 5 i ∈ hashes.map Prod.fst := by decide +kernel
  have hsecond : ∀ i < 10, spammerInput 0 i ∈ hashes.map Prod.fst := by decide +kernel
  have hmem : ∀ bytes ∈ spammerInputs 5 1 ∪ spammerInputs 0 10, bytes ∈ hashes.map Prod.fst := by
    rintro _ (⟨i, hi, rfl⟩ | ⟨i, hi, rfl⟩)
    · exact hfirst i hi
    · exact hsecond i hi
  exact fun x hx y hy heq => List.inj_on_of_nodup_map hnodup (hmem x hx) (hmem y hy) heq

def spec : AgentSpec := { spamAccounts := 1 }

/-- Its spammer gets no tokens. -/
theorem not_fundsSpammers : ∃ scenario agents spammers,
    Erc20Args.toBuiltinScenario keccak256 addressOf encodeHexAddress {} ⟨none, sessionSeed 0⟩ =
        some scenario ∧
      (scenario.toTestConfig [] encodeHexAddress).plan.buildAgentStore keccak256 addressOf
        AList.entries (contenderSeed 5) spec = .ok agents ∧
      agents.lookup spammersPool = some spammers ∧
      ¬∃ signer ∈ spammers.signers, signer.address ∈ scenario.fundRecipients := by
  have hfunded : (Erc20Args.toBuiltinScenario keccak256 addressOf encodeHexAddress {}
      ⟨none, sessionSeed 0⟩).map (·.fundRecipients.length) = some 10 := by decide +kernel
  obtain ⟨scenario, hscenario, hlength⟩ := Option.map_eq_some_iff.mp hfunded
  have hrecipients : scenario.fundRecipients ≠ [] := fun hnone => by
    rw [hnone] at hlength
    cases hlength
  have hbuilt := scenario.buildAgentStore_eq [] encodeHexAddress keccak256 addressOf AList.entries
    (contenderSeed 5) spec hrecipients
  have hspammer : ((addNewAgents keccak256 addressOf (contenderSeed 5)
      ([(["admin".toList], spec.createAccounts, AgentClass.deployer),
        (["admin".toList], spec.setupAccounts, AgentClass.setupSender),
        ([spammersPool], spec.spamAccounts, AgentClass.spammer)].foldl PoolCounts.addPools
          ∅).entries).bind fun agents => agents.lookup spammersPool).map (·.signers.length) =
      some 1 := by
    decide +kernel
  obtain ⟨spammers, hfound, -⟩ := Option.map_eq_some_iff.mp hspammer
  obtain ⟨agents, hagents, hspammers⟩ := Option.bind_eq_some_iff.mp hfound
  rw [hagents] at hbuilt
  have hiff := (fundsSpammers_iff keccak256 addressOf encodeHexAddress [] {} 0 5 spec AList.entries
    scenario agents spammers (by decide) (by decide) (by decide) (fun _ => .refl _) hscenario hbuilt
    hspammers hashes_injOn).1
  exact ⟨scenario, agents, spammers, hscenario, hbuilt, hspammers, hiff.not.mpr (by decide)⟩

end FirstSession

end Contender
