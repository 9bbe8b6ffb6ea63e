import Contender.Generator.SetupPlan

/-!
# The nonces of the setup transactions

`load_txs(PlanType::Setup)` counts the nonce of each sender up as it makes its
requests, from the tracked nonce or else from the node's transaction count. When
the callback starts a task for every request, the tasks of a sender have
consecutive nonces, and the nonce map that is returned is one above the last of
them. Whether a task then sends its transaction does not enter.
-/

namespace Contender

open EStateM

namespace SetupM

variable {ε α : Type}

theorem ofExcept_eq_ok {wrap : ε → SetupError} {r : Except ε α} {a : α} {s t : SetupState} :
    ofExcept wrap r s = .ok a t ↔ r = .ok a ∧ s = t := by
  cases r <;> simp [ofExcept]

theorem ofGenerator_eq_ok {r : Except GeneratorError α} {a : α} {s t : SetupState} :
    ofGenerator r s = .ok a t ↔ r = .ok a ∧ s = t :=
  ofExcept_eq_ok

end SetupM

namespace Generator

open SetupM

variable {g : Generator} {env : SetupEnv} {s t : SetupState}

/-- The nonce a sender starts with: the tracked one, or the node's count. -/
def startNonce (g : Generator) (env : SetupEnv) (a : Address) : Option Nat :=
  (g.nonces.lookup a).or (env.transactionCount a).toOption

/-- The tasks started for a sender, in order. -/
def tasksOf (a : Address) (links : List (ChainLink Address NamedTxRequest)) :
    List (ChainLink Address NamedTxRequest) :=
  links.filter fun link => link.key = a

/-- The nonces of a sender: none is taken yet, or its tasks have consecutive ones
and the map holds the next one. -/
def NumberedFor (g : Generator) (env : SetupEnv) (s : SetupState) (a : Address) : Prop :=
  (tasksOf a s.chains.links = [] ∧ s.nextNonce.lookup a = g.nonces.lookup a) ∨
    ∃ n, startNonce g env a = some n ∧
      (tasksOf a s.chains.links).map (fun link => link.value.tx.nonce) =
        (List.range' n (tasksOf a s.chains.links).length).map some ∧
      s.nextNonce.lookup a = some (n + (tasksOf a s.chains.links).length)

/-- The invariant of the loops. -/
structure Numbered (g : Generator) (env : SetupEnv) (s : SetupState) : Prop where
  senders : ∀ link ∈ s.chains.links, link.value.tx.fromAddr = some link.key
  nonces : ∀ a, NumberedFor g env s a

/-! ### One request -/

/-- What taking a nonce does to the map: it is read from the map, or from the node
when the map has none, and the map gets the next one. -/
structure TookSetupNonce (env : SetupEnv) (sender : Address) (nonce : Nat)
    (before after : AssocMap Address Nat) : Prop where
  taken : before.lookup sender = some nonce ∨
    before.lookup sender = none ∧ env.transactionCount sender = .ok nonce
  lookup : ∀ a, after.lookup a = if a = sender then some (nonce + 1) else before.lookup a

/-- Counting up a nonce that the map has. -/
theorem countUp_took {sender : Address} {nonce : Nat}
    (h : (do
      let nonce ← ofGenerator (orError .panic ((← get).nextNonce.lookup sender))
      let next ← ofGenerator (orError .panic (addU64 nonce 1))
      modify fun s => { s with nextNonce := s.nextNonce.insert sender next }
      return nonce : SetupM Nat) s = .ok nonce t) :
    s.nextNonce.lookup sender = some nonce ∧
      t = { s with nextNonce := s.nextNonce.insert sender (nonce + 1) } := by
  simp only [bind_eq_ok, pure_eq_ok, get_eq_ok, modify_eq_ok, ofGenerator_eq_ok, orError_eq_ok] at h
  obtain ⟨_, _, ⟨rfl, rfl⟩, n, _, ⟨hn, rfl⟩, next, _, ⟨hnext, rfl⟩, _, _, rfl, rfl, rfl⟩ := h
  obtain ⟨rfl, -⟩ := addU64_eq_some.mp hnext
  exact ⟨hn, rfl⟩

theorem takeNonce_took {sender : Address} {nonce : Nat}
    (h : takeNonce env sender s = .ok nonce t) :
    TookSetupNonce env sender nonce s.nextNonce t.nextNonce ∧ t.chains = s.chains := by
  have hlookup : ∀ u : SetupState, ∀ a, (u.nextNonce.insert sender (nonce + 1)).lookup a =
      if a = sender then some (nonce + 1) else u.nextNonce.lookup a := by
    intro u a
    split_ifs with ha
    · rw [ha, AList.lookup_insert]
    · rw [AList.lookup_insert_ne ha]
  rw [takeNonce, run_get_bind] at h
  by_cases htracked : sender ∈ s.nextNonce
  · rw [if_neg (not_not.mpr htracked)] at h
    obtain ⟨hn, rfl⟩ := countUp_took h
    exact ⟨⟨.inl hn, hlookup s⟩, rfl⟩
  · rw [if_pos htracked] at h
    obtain ⟨count, _, hfetch, h⟩ := bind_eq_ok.mp h
    obtain ⟨hcount, rfl⟩ := ofExcept_eq_ok.mp hfetch
    obtain ⟨_, u, hu, h⟩ := bind_eq_ok.mp h
    obtain rfl := modify_eq_ok.mp hu
    obtain ⟨hn, rfl⟩ := countUp_took h
    -- the count that was fetched is the nonce that is taken
    rw [AList.lookup_insert] at hn
    obtain rfl := Option.some.inj hn
    refine ⟨⟨.inr ⟨AList.lookup_eq_none.mpr htracked, hcount⟩, fun a => ?_⟩, rfl⟩
    apply (hlookup _ a).trans
    split_ifs with ha
    · rfl
    · exact AList.lookup_insert_ne ha

/-- One round of the inner loop, when the callback starts a task. -/
structure Started (env : SetupEnv) (sender : Address) (nonce : Nat) (req : NamedTxRequest)
    (s t : SetupState) : Prop where
  sender_eq : req.tx.fromAddr = some sender
  nonce_eq : req.tx.nonce = some nonce
  took : TookSetupNonce env sender nonce s.nextNonce t.nextNonce
  chains : t.chains = s.chains.push sender req

/-- A callback that starts a task for every request it accepts. -/
def AlwaysStarts (env : SetupEnv) : Prop :=
  ∀ req started, env.onSetupStep req = .ok started → started = true

theorem setupTx_started (hstarts : AlwaysStarts env) {k : Nat} {step : FunctionCallDefinition}
    {idx : Nat} (h : g.setupTx env k step idx s = .ok () t) :
    ∃ sender nonce req, Started env sender nonce req s t := by
  simp only [setupTx, bind_eq_ok, get_eq_ok, ofGenerator_eq_ok, orError_eq_ok] at h
  obtain ⟨strict, _, ⟨-, rfl⟩, _, _, ⟨rfl, rfl⟩, tx, _, ⟨-, rfl⟩, sender, _, ⟨hfrom, rfl⟩, nonce, u,
    htake, started, _, hcall, h⟩ := h
  obtain ⟨hcallback, rfl⟩ := ofExcept_eq_ok.mp hcall
  obtain rfl := hstarts _ _ hcallback
  obtain ⟨htook, hchains⟩ := takeNonce_took htake
  simp only [if_true, bind_eq_ok, modify_eq_ok] at h
  obtain ⟨_, _, rfl, rfl⟩ := h
  refine ⟨sender, nonce, { tx := { tx with nonce := some nonce }, kind := step.kind }, hfrom, rfl,
    htook, ?_⟩
  rw [← hchains]

/-! ### The loops -/

theorem tasksOf_push (a sender : Address) (req : NamedTxRequest)
    (chains : KeyedChain Address NamedTxRequest) :
    ∃ link : ChainLink Address NamedTxRequest, link.value = req ∧
      tasksOf a (chains.push sender req).links =
        tasksOf a chains.links ++ if a = sender then [link] else [] := by
  refine ⟨{ key := sender, prev := chains.ends.lookup sender, value := req }, rfl, ?_⟩
  rw [tasksOf, KeyedChain.push, List.filter_append, ← tasksOf]
  congr 1
  by_cases ha : a = sender
  · simp [ha]
  · simp [ha, Ne.symm ha]

/-- The nonce that is taken is the start nonce, or follows that of the sender's
last task. -/
theorem NumberedFor.taken {sender : Address} {nonce : Nat} {after : AssocMap Address Nat}
    (h : NumberedFor g env s sender) (htook : TookSetupNonce env sender nonce s.nextNonce after) :
    ∃ n, startNonce g env sender = some n ∧
      (tasksOf sender s.chains.links).map (fun link => link.value.tx.nonce) =
        (List.range' n (tasksOf sender s.chains.links).length).map some ∧
      nonce = n + (tasksOf sender s.chains.links).length := by
  rcases h with ⟨hnone, hlookup⟩ | ⟨n, hn, hnonces, hlookup⟩
  · have htaken := htook.taken
    rw [hlookup] at htaken
    refine ⟨nonce, ?_, by rw [hnone]; rfl, by rw [hnone]; rfl⟩
    rcases htaken with htracked | ⟨huntracked, hcount⟩
    · rw [startNonce, htracked, Option.some_or]
    · rw [startNonce, huntracked, Option.none_or, hcount]
      rfl
  · rcases htook.taken with htracked | ⟨huntracked, -⟩
    · exact ⟨n, hn, hnonces, Option.some.inj (htracked.symm.trans hlookup)⟩
    · rw [hlookup] at huntracked
      cases huntracked

theorem Numbered.started (h : Numbered g env s) {sender : Address} {nonce : Nat}
    {req : NamedTxRequest} (hstarted : Started env sender nonce req s t) : Numbered g env t := by
  refine ⟨fun link hlink => ?_, fun a => ?_⟩
  · rw [hstarted.chains] at hlink
    rcases List.mem_append.mp hlink with hlink | hlink
    · exact h.senders link hlink
    · obtain rfl := List.mem_singleton.mp hlink
      exact hstarted.sender_eq
  · obtain ⟨link, hvalue, htasks⟩ := tasksOf_push a sender req s.chains
    rw [← hstarted.chains] at htasks
    unfold NumberedFor
    rw [htasks, hstarted.took.lookup a]
    by_cases ha : a = sender
    · subst ha
      obtain ⟨n, hn, hnonces, hnonce⟩ := (h.nonces a).taken hstarted.took
      right
      refine ⟨n, hn, ?_, ?_⟩
      · rw [if_pos rfl, List.map_append, hnonces, List.length_append, List.length_singleton,
          List.range'_concat, List.map_append, List.map_singleton, List.map_singleton, hvalue,
          hstarted.nonce_eq, hnonce, Nat.one_mul]
      · rw [if_pos rfl, if_pos rfl, List.length_append, List.length_singleton, hnonce,
          Nat.add_assoc]
    · rw [if_neg ha, if_neg ha, List.append_nil]
      exact h.nonces a

theorem Numbered.setupStep (hstarts : AlwaysStarts env) (h : Numbered g env s) {k : Nat}
    {step : FunctionCallDefinition} (hrun : g.setupStep env k step s = .ok () t) :
    Numbered g env t := by
  simp only [Generator.setupStep, bind_eq_ok, get_eq_ok, modify_eq_ok, ofGenerator_eq_ok] at hrun
  obtain ⟨_, _, ⟨rfl, rfl⟩, placeholderMap, _, ⟨-, rfl⟩, _, _, rfl, indices, _, ⟨-, rfl⟩, hloop⟩ :=
    hrun
  refine forM_ok_invariant (fun idx _ s t hs hidx => ?_) ?_ hloop
  · obtain ⟨sender, nonce, req, hstarted⟩ := setupTx_started hstarts hidx
    exact hs.started hstarted
  · exact ⟨h.senders, h.nonces⟩

/-- **Numbering.** When loading the setup transactions succeeds, the tasks of each
sender have consecutive nonces from its start nonce on, and the nonce map holds
the next ones. -/
theorem numbered_runLoadSetup (hstarts : AlwaysStarts env)
    (h : g.runLoadSetup env = .ok () t) : Numbered g env t := by
  refine forM_ok_invariant (fun p _ s t hs hstep => ?_) ?_ h
  · exact hs.setupStep hstarts hstep
  · exact ⟨fun link hlink => absurd hlink List.not_mem_nil, fun a => .inl ⟨rfl, rfl⟩⟩

end Generator

end Contender
