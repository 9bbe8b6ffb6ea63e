import Mathlib.Data.List.Perm.Basic
import Contender.Scenario.PrepareSpam

/-!
# Synchronizing the nonces

`sync_nonces` looks the nonce of every wallet and of the setCode signer up, each in a task of
its own. A task sends what the node answers through a channel, or ends with the error of the
node. The tasks are joined, the channel is closed, and its messages are written to the nonce
map.

Joining a task yields two results in one another: whether the task panicked, and what it
returned. Only the outer one is looked at, and not even that makes the call fail. A nonce whose
lookup fails keeps its old value, or stays missing, and `sync_nonces` returns `Ok`.

## Main results

* `NonceTasks.syncsAll_iff` — after a call that succeeds every nonce is the one the node
  answered exactly when each address has a lookup that was answered
-/

namespace Contender

/-- How the task of one address ends: with the node's answer, with the error it returns, or in
a panic. -/
inductive NonceLookup
  | answered (nonce : Nat)
  | failed (message : Text)
  | panicked
  deriving DecidableEq, Repr

namespace NonceLookup

/-- What the task sends through the channel. -/
def sent : NonceLookup → Option Nat
  | .answered nonce => some nonce
  -- `?` returns before the send
  | .failed _ => none
  | .panicked => none

/-- What `task.await` yields: the join of the task, and the result it returned. -/
def joined : NonceLookup → Except Text (Except ScenarioError Unit)
  | .answered _ => .ok (.ok ())
  | .failed message => .ok (.error (.rpc message))
  | .panicked => .error "panic".toList

end NonceLookup

/-- `all_addrs`: the wallets, and the setCode signer after them. -/
def syncAddresses (walletMap : AssocMap Address PrivateKeySigner) (setcodeSigner : Address) :
    List Address :=
  walletMap.keys ++ [setcodeSigner]

/-- The tasks of one call, in the order in which they end: one for each address. -/
structure NonceTasks (walletMap : AssocMap Address PrivateKeySigner) (setcodeSigner : Address) where
  lookups : List (Address × NonceLookup)
  perm : (lookups.map Prod.fst).Perm (syncAddresses walletMap setcodeSigner)

/-- Wait for one task. A join that fails is only logged. -/
def joinTask (task : Except Text (Except ScenarioError Unit)) : Except ScenarioError Unit :=
  match task with
  | .error _ => .ok ()
  -- the result of the task itself is dropped
  | .ok _ => .ok ()

namespace NonceTasks

variable {walletMap : AssocMap Address PrivateKeySigner} {setcodeSigner : Address}

/-- The messages of the channel when it is closed, in the order in which they were sent. The
channel has room for all of them (`length_channel_lt`), so no task waits to send. -/
def channel (tasks : NonceTasks walletMap setcodeSigner) : List (Address × Nat) :=
  tasks.lookups.filterMap fun task => task.2.sent.map fun nonce => (task.1, nonce)

/-- `sync_nonces`: join the tasks, then write what they have sent. -/
def syncNonces (tasks : NonceTasks walletMap setcodeSigner) (nonces : AssocMap Address Nat) :
    Except ScenarioError (AssocMap Address Nat) := do
  forM tasks.lookups fun task => joinTask task.2.joined
  return nonces.insertAll tasks.channel

/-- The capacity of the channel is one more than there are tasks. -/
theorem length_channel_lt (tasks : NonceTasks walletMap setcodeSigner) :
    tasks.channel.length < (syncAddresses walletMap setcodeSigner).length + 1 := by
  have hlength := tasks.perm.length_eq
  rw [List.length_map] at hlength
  exact Nat.lt_succ_of_le (hlength ▸ List.length_filterMap_le _ _)

/-- What the node answered for an address in this call. -/
def Answers (tasks : NonceTasks walletMap setcodeSigner) (address : Address) (nonce : Nat) : Prop :=
  (address, .answered nonce) ∈ tasks.lookups

/-- All or error: a call that returns `Ok` has written the node's answer for every wallet and for
the setCode signer, and nothing else. -/
def SyncsAll (tasks : NonceTasks walletMap setcodeSigner) (nonces : AssocMap Address Nat) : Prop :=
  ∀ synced, tasks.syncNonces nonces = .ok synced →
    (∀ address ∈ syncAddresses walletMap setcodeSigner,
      ∃ nonce, tasks.Answers address nonce ∧ synced.lookup address = some nonce) ∧
    ∀ address ∉ syncAddresses walletMap setcodeSigner,
      synced.lookup address = nonces.lookup address

variable (tasks : NonceTasks walletMap setcodeSigner) (nonces : AssocMap Address Nat)

theorem mem_channel {address : Address} {nonce : Nat} :
    (address, nonce) ∈ tasks.channel ↔ tasks.Answers address nonce := by
  unfold channel Answers
  rw [List.mem_filterMap]
  constructor
  · rintro ⟨⟨address', lookup⟩, hmem, hsent⟩
    cases lookup with
    | answered nonce' =>
      obtain ⟨rfl, rfl⟩ := Prod.mk.inj (Option.some.inj hsent)
      exact hmem
    | failed message => cases hsent
    | panicked => cases hsent
  · intro hmem
    exact ⟨_, hmem, rfl⟩

/-- No outcome of a task makes the call fail. -/
theorem syncNonces_eq_ok : tasks.syncNonces nonces = .ok (nonces.insertAll tasks.channel) := by
  have hjoin : ∀ lookups : List (Address × NonceLookup),
      (forM lookups fun task => joinTask task.2.joined) = .ok () := by
    intro lookups
    induction lookups with
    | nil => rfl
    | cons task lookups ih =>
      have htask : joinTask task.2.joined = .ok () := by
        cases task.2 <;> rfl
      rw [List.forM_cons, htask]
      exact ih
  unfold syncNonces
  rw [hjoin]
  rfl

/-- **All or error.** Exactly when each address has a lookup that the node answered. -/
theorem syncsAll_iff : tasks.SyncsAll nonces ↔
    ∀ address ∈ syncAddresses walletMap setcodeSigner, ∃ nonce, tasks.Answers address nonce := by
  constructor
  · intro hall address hmem
    obtain ⟨hwritten, -⟩ := hall _ (tasks.syncNonces_eq_ok nonces)
    obtain ⟨nonce, hanswered, -⟩ := hwritten address hmem
    exact ⟨nonce, hanswered⟩
  · intro hanswered synced hsynced
    obtain rfl := Except.ok.inj (hsynced.symm.trans (tasks.syncNonces_eq_ok nonces))
    refine ⟨fun address hmem => ?_, fun address hnot => ?_⟩
    · obtain ⟨nonce, hnonce⟩ := hanswered address hmem
      have hkey : address ∈ tasks.channel.map Prod.fst :=
        List.mem_map_of_mem (tasks.mem_channel.mpr hnonce)
      obtain ⟨written, hsent, hlookup⟩ := AList.exists_lookup_insertAll hkey nonces
      exact ⟨written, tasks.mem_channel.mp hsent, hlookup⟩
    · apply AList.lookup_insertAll_of_notMem
      -- only addresses of tasks are sent
      intro hkey
      obtain ⟨⟨address', nonce⟩, hsent, rfl⟩ := List.mem_map.mp hkey
      have htask := List.mem_map_of_mem (f := Prod.fst) (tasks.mem_channel.mp hsent)
      exact hnot (tasks.perm.mem_iff.mp htask)

end NonceTasks

namespace TwoWallets

def signer (address : Address) : PrivateKeySigner := ⟨0x1, address⟩

def wallets : AssocMap Address PrivateKeySigner :=
  (AList.singleton 0xa (signer 0xa)).insert 0xb (signer 0xb)

/-- The node answers for one wallet and for the setCode signer; the lookup of the other wallet
fails. -/
def oneFails : NonceTasks wallets 0xc where
  lookups := [(0xc, .answered 0), (0xa, .failed "timed out".toList), (0xb, .answered 7)]
  perm := by decide

/-- The nonces that were known before. -/
def known : AssocMap Address Nat := AList.singleton 0xa 3

theorem not_syncsAll_oneFails : ¬ oneFails.SyncsAll known := by
  intro hall
  obtain ⟨hwritten, -⟩ := hall _ rfl
  obtain ⟨nonce, hanswered, -⟩ := hwritten 0xa (by decide)
  have hnot : ∀ task ∈ oneFails.lookups, task.1 = 0xa → task.2.sent = none := by decide
  exact absurd (hnot _ hanswered rfl) (by simp [NonceLookup.sent])

end TwoWallets

end Contender
