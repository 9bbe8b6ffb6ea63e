import Contender.Scenario.NonceTracking
import Contender.Scenario.PendingBatch

/-!
# Realigning local nonces with the node

When the node is ahead of the scenario, it rejects the transactions of a batch
whose nonce it has already seen. Each rejection asks for a shift of the sender's
nonce by one, on top of the advance that preparing the batch has made. This file
computes the nonce a sender ends with, and compares it with the nonce the node
expects next.
-/

namespace Contender

open EStateM ScenarioM TestScenario

/-! ### Summing the shifts -/

/-- How many of the shifts name `a`. -/
def shiftsFor (a : Address) (shifts : List (Address × Int)) : Nat :=
  shifts.countP fun shift => shift.1 = a

/-- The total collected for `a` so far. -/
def totalShift (adjustments : AssocMap Address Int) (a : Address) : Int :=
  (adjustments.lookup a).getD 0

theorem totalShift_insert (adjustments : AssocMap Address Int) (b : Address) (v : Int)
    (a : Address) :
    totalShift (adjustments.insert b v) a = if a = b then v else totalShift adjustments a := by
  by_cases h : a = b
  · subst h
    simp [totalShift]
  · simp [totalShift, AList.lookup_insert_ne h, h]

theorem addShift_one {adjustments : AssocMap Address Int} {b : Address}
    (hpos : 0 ≤ totalShift adjustments b) :
    addShift adjustments (b, 1) =
      if totalShift adjustments b + 1 < 2 ^ 31 then
        some (adjustments.insert b (totalShift adjustments b + 1))
      else none := by
  change (addI32 (totalShift adjustments b) 1).map (adjustments.insert b ·) = _
  have hlow : -2 ^ 31 ≤ totalShift adjustments b + 1 := by omega
  by_cases hfit : totalShift adjustments b + 1 < 2 ^ 31
  · rw [addI32, if_pos ⟨hlow, hfit⟩, if_pos hfit]
    rfl
  · rw [addI32, if_neg fun h => hfit h.2, if_neg hfit]
    rfl

theorem totalShift_insert_nonneg {adjustments : AssocMap Address Int}
    (hpos : ∀ a, 0 ≤ totalShift adjustments a) (b a : Address) :
    0 ≤ totalShift (adjustments.insert b (totalShift adjustments b + 1)) a := by
  rw [totalShift_insert]
  split_ifs
  · have := hpos b
    omega
  · exact hpos a

theorem shiftsFor_cons (a b : Address) (shift : Int) (shifts : List (Address × Int)) :
    shiftsFor a ((b, shift) :: shifts) = shiftsFor a shifts + if a = b then 1 else 0 := by
  simp [shiftsFor, List.countP_cons, eq_comm]

/-- Shifts by one overflow the `i32` total exactly when some address gets too
many of them. -/
theorem foldlM_addShift_isSome {shifts : List (Address × Int)} (hone : ∀ s ∈ shifts, s.2 = 1)
    {adjustments : AssocMap Address Int} (hpos : ∀ a, 0 ≤ totalShift adjustments a) :
    (∃ result, shifts.foldlM addShift adjustments = some result) ↔
      ∀ a, 0 < shiftsFor a shifts → totalShift adjustments a + shiftsFor a shifts < 2 ^ 31 := by
  -- along the shifts: a total only grows, and fails once it leaves `i32`
  induction shifts generalizing adjustments with
  | nil => simp [shiftsFor]
  | cons s shifts ih =>
    obtain ⟨b, shift⟩ := s
    obtain rfl : shift = 1 := hone _ List.mem_cons_self
    have hone' : ∀ s ∈ shifts, s.2 = 1 := fun s hs => hone s (List.mem_cons_of_mem _ hs)
    rw [List.foldlM_cons, addShift_one (hpos b)]
    by_cases hfit : totalShift adjustments b + 1 < 2 ^ 31
    · rw [if_pos hfit, Option.bind_eq_bind, Option.bind_some,
        ih hone' (totalShift_insert_nonneg hpos b)]
      apply forall_congr'
      intro a
      rw [shiftsFor_cons, totalShift_insert]
      split_ifs with hab
      · subst hab
        constructor
        · intro hrest _
          by_cases hnone : shiftsFor a shifts = 0
          · rw [hnone]
            exact hfit
          · have := hrest (by omega)
            push_cast
            omega
        · intro hrest _
          have := hrest (by omega)
          push_cast at this
          omega
      · simp
    · rw [if_neg hfit]
      refine ⟨fun ⟨_, h⟩ => by simp at h, fun h => absurd (h b ?_) ?_⟩
      · rw [shiftsFor_cons, if_pos rfl]
        omega
      · rw [shiftsFor_cons, if_pos rfl]
        push_cast
        omega

/-- The totals that shifts by one lead to. -/
theorem lookup_foldlM_addShift {shifts : List (Address × Int)} (hone : ∀ s ∈ shifts, s.2 = 1)
    {adjustments result : AssocMap Address Int} (hpos : ∀ a, 0 ≤ totalShift adjustments a)
    (h : shifts.foldlM addShift adjustments = some result) (a : Address) :
    result.lookup a =
      if shiftsFor a shifts = 0 then adjustments.lookup a
      else some (totalShift adjustments a + shiftsFor a shifts) := by
  induction shifts generalizing adjustments with
  | nil =>
    obtain rfl : adjustments = result := Option.some.inj h
    simp [shiftsFor]
  | cons s shifts ih =>
    obtain ⟨b, shift⟩ := s
    obtain rfl : shift = 1 := hone _ List.mem_cons_self
    rw [List.foldlM_cons, addShift_one (hpos b)] at h
    split_ifs at h with hfit
    · rw [ih (fun s hs => hone s (List.mem_cons_of_mem _ hs)) (totalShift_insert_nonneg hpos b) h,
        totalShift_insert, shiftsFor_cons]
      by_cases hab : a = b
      · subst hab
        by_cases hnone : shiftsFor a shifts = 0
        · simp [hnone]
        · rw [if_neg hnone, if_pos rfl, if_pos rfl, if_neg (Nat.succ_ne_zero _)]
          congr 1
          push_cast
          omega
      · simp [AList.lookup_insert_ne hab, hab]
    · simp at h

/-- Applying the adjustments moves each adjusted nonce once. -/
theorem lookup_applyAdjustments {adjustments : List (Sigma fun _ : Address => Int)}
    (hnodup : adjustments.NodupKeys) (nonces : AssocMap Address Nat) (a : Address) :
    (applyAdjustments adjustments nonces).lookup a =
      match adjustments.dlookup a with
      | some shift => some (shiftedNonce ((nonces.lookup a).getD 0) shift)
      | none => nonces.lookup a := by
  induction adjustments generalizing nonces with
  | nil => rfl
  | cons adjustment adjustments ih =>
    obtain ⟨b, shift⟩ := adjustment
    obtain ⟨hfresh, hrest⟩ := List.nodupKeys_cons.mp hnodup
    have hstep : applyAdjustments (⟨b, shift⟩ :: adjustments) nonces =
        applyAdjustments adjustments
          (nonces.insert b (shiftedNonce ((nonces.lookup b).getD 0) shift)) := rfl
    rw [hstep, ih hrest]
    by_cases hab : a = b
    · subst hab
      rw [List.dlookup_eq_none.mpr hfresh, List.dlookup_cons_eq]
      exact AList.lookup_insert _
    · rw [List.dlookup_cons_ne _ _ hab, AList.lookup_insert_ne hab]

/-! ### The shifts a rejecting node causes -/

/-- The node expects nonce `expected a` next from each sender `a`: it rejects a
transaction below it as too low, and accepts the others. -/
def RejectsBelow (env : Env) (expected : Address → Nat) (req : NamedTxRequest)
    (answer : Option Text) : Prop :=
  ∀ a nonce, req.tx.fromAddr = some a → req.tx.nonce = some nonce →
    (nonce < expected a →
      ∃ msg, answer = some msg ∧ saysNonceTooLow env msg ∧ ¬saysUnderpriced env msg) ∧
    (expected a ≤ nonce → answer = none)

theorem countP_lt_range' (n k c : Nat) :
    (List.range' n k).countP (fun nonce => nonce < c) = min k (c - n) := by
  induction k generalizing n with
  | zero => simp
  | succ k ih =>
    rw [List.range'_succ, List.countP_cons, ih]
    simp only [decide_eq_true_eq]
    split_ifs <;> omega

section Rejection

variable {env : Env} {expected : Address → Nat} {answer : NamedTxRequest → Option Text}

/-- A rejected transaction asks to shift its sender's nonce by one. -/
theorem message_of_rejectsBelow {req : NamedTxRequest} {a : Address} {nonce : Nat}
    (hanswer : RejectsBelow env expected req (answer req)) (hfrom : req.tx.fromAddr = some a)
    (hnonce : req.tx.nonce = some nonce) :
    (handleTxOutcome env req (answer req)).message =
      some (if nonce < expected a then .shiftNonce a 1 else .success) := by
  obtain ⟨hlow, hhigh⟩ := hanswer a nonce hfrom hnonce
  by_cases h : nonce < expected a
  · obtain ⟨msg, hmsg, hsays, hunderpriced⟩ := hlow h
    simp [handleTxOutcome, errorMessage, hmsg, hsays, hunderpriced, hfrom, h]
  · simp [handleTxOutcome, hhigh (Nat.le_of_not_lt h), h]

theorem mem_reportedMessages {reqs : List NamedTxRequest} (hprepared : ∀ req ∈ reqs, IsPrepared req)
    (hanswer : ∀ req ∈ reqs, RejectsBelow env expected req (answer req)) {message : SpamMessage}
    (hmem : message ∈ reportedMessages env answer reqs) :
    (∃ a, message = .shiftNonce a 1) ∨ message = .success := by
  obtain ⟨req, hreq, hmessage⟩ := List.mem_filterMap.mp hmem
  obtain ⟨hfrom, hnonce⟩ := hprepared req hreq
  obtain ⟨a, ha⟩ := Option.isSome_iff_exists.mp hfrom
  obtain ⟨nonce, hn⟩ := Option.isSome_iff_exists.mp hnonce
  rw [message_of_rejectsBelow (hanswer req hreq) ha hn, Option.some.injEq] at hmessage
  split_ifs at hmessage
  · exact .inl ⟨a, hmessage.symm⟩
  · exact .inr hmessage.symm

/-- A sender is shifted once for each of its transactions below the node's
nonce. -/
theorem shiftsFor_reportedMessages {reqs : List NamedTxRequest}
    (hprepared : ∀ req ∈ reqs, IsPrepared req)
    (hanswer : ∀ req ∈ reqs, RejectsBelow env expected req (answer req)) (a : Address) :
    shiftsFor a ((reportedMessages env answer reqs).filterMap SpamMessage.shift?) =
      (noncesOf a reqs).countP fun nonce => nonce < expected a := by
  induction reqs with
  | nil => rfl
  | cons req reqs ih =>
    have ih := ih (fun r hr => hprepared r (List.mem_cons_of_mem _ hr))
      (fun r hr => hanswer r (List.mem_cons_of_mem _ hr))
    obtain ⟨hfrom, hnonce⟩ := hprepared req List.mem_cons_self
    obtain ⟨b, hb⟩ := Option.isSome_iff_exists.mp hfrom
    obtain ⟨nonce, hn⟩ := Option.isSome_iff_exists.mp hnonce
    have hmessage := message_of_rejectsBelow (hanswer req List.mem_cons_self) hb hn
    have hhead : (reportedMessages env answer (req :: reqs)).filterMap SpamMessage.shift? =
        (if nonce < expected b then [(b, 1)] else []) ++
          (reportedMessages env answer reqs).filterMap SpamMessage.shift? := by
      simp only [reportedMessages, List.filterMap_cons, hmessage]
      split_ifs <;> rfl
    rw [hhead]
    by_cases hab : b = a
    · subst hab
      have hnonces : noncesOf b (req :: reqs) = nonce :: noncesOf b reqs := by
        simp [noncesOf, hb, hn]
      rw [hnonces, List.countP_cons, ← ih]
      by_cases hlow : nonce < expected b
      · simp [hlow, shiftsFor_cons]
      · simp [hlow]
    · have hnonces : noncesOf a (req :: reqs) = noncesOf a reqs := by
        simp [noncesOf, hb, hab]
      rw [hnonces, ← ih]
      have hba : ¬a = b := fun heq => hab heq.symm
      by_cases hlow : nonce < expected b
      · simp [hlow, shiftsFor_cons, hba]
      · simp [hlow]

/-! ### Collecting the batch -/

/-- Collecting the batch succeeds and leaves `a` at local nonce `next`. -/
def LeavesNonce (batch : PendingBatch) (prepared : TestScenario) (a : Address) (next : Nat) :
    Prop :=
  ∃ collected, collectPendingBatch batch prepared = .ok () collected ∧
    collected.nonces.lookup a = some next

/-- Without gas bumps, only the sums of the shifts decide how the nonces end. -/
theorem leavesNonce_iff {batch : PendingBatch} {prepared : TestScenario} {a : Address}
    {next : Nat} (hawaited : batch.awaited = .ok ()) (hgas : batch.addGas = []) :
    LeavesNonce batch prepared a next ↔
      ∃ adjustments, nonceAdjustments batch.shiftNonce = some adjustments ∧
        (applyAdjustments adjustments.entries prepared.nonces).lookup a = some next := by
  have hadder : gasAfterBumps prepared.gasPriceAdder batch.addGas =
      some prepared.gasPriceAdder := by
    rw [hgas]
    rfl
  simp only [LeavesNonce, collectPendingBatch, bind_eq_ok, ofExcept_eq_ok, get_eq_ok, okOr_eq_ok,
    modify_eq_ok, hawaited]
  constructor
  · rintro ⟨_, ⟨_, _, ⟨-, rfl⟩, _, _, ⟨rfl, rfl⟩, adder, _, ⟨-, rfl⟩, _, _, rfl, adjustments, _,
      ⟨hsum, rfl⟩, _, u, rfl, hrest⟩, hnext⟩
    obtain ⟨t, ht, hkeeps⟩ := takeBackGas_ok batch _
    obtain rfl : t = _ := (Result.ok.inj (ht.symm.trans hrest)).2
    exact ⟨adjustments, hsum, (congrArg (AList.lookup a) hkeeps).symm.trans hnext⟩
  · rintro ⟨adjustments, hsum, hnext⟩
    obtain ⟨t, ht, hkeeps⟩ := takeBackGas_ok batch
      { prepared with nonces := applyAdjustments adjustments.entries prepared.nonces }
    exact ⟨t, ⟨(), _, ⟨trivial, rfl⟩, _, _, ⟨rfl, rfl⟩, _, _, ⟨hadder, rfl⟩, (), _, rfl,
      adjustments, _, ⟨hsum, rfl⟩, (), _, rfl, ht⟩,
      (congrArg (AList.lookup a) hkeeps).trans hnext⟩

/-- The node's nonce `c` is one that the shifts of a batch of `k` transactions
from local nonce `n` on lead to: it is not ahead, it is ahead by twice the batch,
or the saturation of `u64` hides the difference. -/
def InStep (n k c : Nat) : Prop :=
  c = n ∨ c = n + 2 * k ∨ n + k = 2 ^ 64 - 1 ∨ c = 2 ^ 64 - 1 ∧ c ≤ n + 2 * k

instance (n k c : Nat) : Decidable (InStep n k c) :=
  inferInstanceAs (Decidable (_ ∨ _ ∨ _ ∨ _ ∧ _))

theorem satAddU64_eq_max_iff {n k c : Nat} (hk : 0 < k) (hnk : n + k < 2 ^ 64) (hc : c < 2 ^ 64)
    (hnc : n ≤ c) :
    satAddU64 (n + k) (min k (c - n)) = max c (n + k) ↔ InStep n k c := by
  unfold satAddU64 InStep
  omega

/-- How many transactions of `b` a node that expects `expected b` rejects. -/
def rejectedOf (scenario : TestScenario) (reqs : List NamedTxRequest) (expected : Address → Nat)
    (b : Address) : Nat :=
  min (sentBy b reqs) (expected b - (scenario.nonces.lookup b).getD 0)

/-- No authorization of one sender advances the nonce of another. -/
def SparesSenders (setcodeSigner : Address) (reqs : List NamedTxRequest) : Prop :=
  ∀ b, 0 < sentBy b reqs → ∀ req ∈ reqs, SparesNonce setcodeSigner b req.tx

section Batch

variable {reqs : List NamedTxRequest} {payloads : List ExecutionPayload}
  {scenario prepared : TestScenario} {batch : PendingBatch}

/-- What the node rejects of a prepared batch: for each sender the transactions
between its local nonce and the node's. -/
theorem shiftsFor_batch (hprepare : prepareSpam env (reqs.map .tx) scenario = .ok payloads prepared)
    (hspares : SparesSenders scenario.setcodeSigner.address reqs)
    (hanswer : ∀ req ∈ payloads.filterMap ExecutionPayload.single?,
      RejectsBelow env expected req (answer req))
    (hbatch : batch.Delivers
      (reportedMessages env answer (payloads.filterMap ExecutionPayload.single?))) :
    batch.addGas = [] ∧ (∀ shift ∈ batch.shiftNonce, shift.2 = 1) ∧
      (∀ b, shiftsFor b batch.shiftNonce = rejectedOf scenario reqs expected b) ∧
      ∀ b n, scenario.nonces.lookup b = some n → 0 < sentBy b reqs →
        prepared.nonces.lookup b = some (n + sentBy b reqs) ∧ n + sentBy b reqs < 2 ^ 64 := by
  -- the batch starts from the local nonces, and its payloads are the signed requests
  obtain ⟨gasPrice, blobGasPrice, u, signed, hsame, hsigned, rfl⟩ := prepareSpam_map_tx_ok hprepare
  have hsingle : (signed.map fun p => ExecutionPayload.signedTx p.1 p.2).filterMap
      ExecutionPayload.single? = signed.map Prod.snd := by
    rw [List.filterMap_map, ← List.filterMap_eq_map]
    rfl
  rw [hsingle] at hanswer hbatch
  have hprepared : ∀ req ∈ signed.map Prod.snd, IsPrepared req := by
    intro req hreq
    obtain ⟨p, hp, rfl⟩ := List.mem_map.mp hreq
    exact mapM_prepareSigned_prepared hsigned p hp
  have hstart : u.nonces = scenario.nonces := congrArg Prod.fst hsame
  have hspared : ∀ b, 0 < sentBy b reqs → ∀ req ∈ reqs, SparesNonce u.nonceState.2 b req.tx := by
    intro b hb
    rw [hsame]
    exact hspares b hb
  refine ⟨?_, ?_, fun b => ?_, fun b n hn hb => ?_⟩
  · -- no answer of such a node asks for more gas
    have hnone : (reportedMessages env answer (signed.map Prod.snd)).filterMap
        SpamMessage.bump? = [] := by
      rw [List.filterMap_eq_nil_iff]
      intro message hmem
      rcases mem_reportedMessages hprepared hanswer hmem with ⟨a, rfl⟩ | rfl <;> rfl
    exact List.perm_nil.mp (hnone ▸ hbatch.addGas)
  · intro shift hshift
    obtain ⟨message, hmem, hmessage⟩ := List.mem_filterMap.mp (hbatch.shiftNonce.mem_iff.mp hshift)
    rcases mem_reportedMessages hprepared hanswer hmem with ⟨a, rfl⟩ | rfl
    · obtain rfl : (a, (1 : Int)) = shift := Option.some.inj hmessage
      rfl
    · simp [SpamMessage.shift?] at hmessage
  · rw [shiftsFor, hbatch.shiftNonce.countP_eq, ← shiftsFor,
      shiftsFor_reportedMessages hprepared hanswer]
    by_cases hb : 0 < sentBy b reqs
    · obtain ⟨n, hn⟩ := mapM_prepareSigned_known hsigned (hspared b hb) hb
      rw [(mapM_prepareSigned_nonces hsigned (hspared b hb) hn).1, countP_lt_range', rejectedOf,
        ← hstart, hn]
      rfl
    -- who sends nothing is not shifted
    · have hzero : sentBy b reqs = 0 := by omega
      have hempty : (signed.map Prod.snd).filter (fun req => req.tx.fromAddr = some b) = [] := by
        rw [List.filter_eq_nil_iff, ← List.countP_eq_zero]
        exact (mapM_prepareSigned_senders hsigned b).trans hzero
      rw [noncesOf, hempty, rejectedOf, hzero]
      simp
  · obtain ⟨-, hlast, hlt⟩ := mapM_prepareSigned_nonces hsigned (hspared b hb) (hstart ▸ hn)
    exact ⟨hlast, hlt hb⟩

/-- Where a sender's nonce ends after a batch the node has rejected in part. -/
theorem leavesNonce_of_rejectsBelow
    (hprepare : prepareSpam env (reqs.map .tx) scenario = .ok payloads prepared)
    (hspares : SparesSenders scenario.setcodeSigner.address reqs)
    (hanswer : ∀ req ∈ payloads.filterMap ExecutionPayload.single?,
      RejectsBelow env expected req (answer req))
    (hbatch : batch.Delivers
      (reportedMessages env answer (payloads.filterMap ExecutionPayload.single?)))
    {a : Address} {n : Nat} (hn : scenario.nonces.lookup a = some n)
    (hsends : 0 < sentBy a reqs) (next : Nat) :
    LeavesNonce batch prepared a next ↔
      (∀ b, rejectedOf scenario reqs expected b < 2 ^ 31) ∧
        satAddU64 (n + sentBy a reqs) (rejectedOf scenario reqs expected a) = next := by
  obtain ⟨hgas, hone, hrejected, hlocal⟩ := shiftsFor_batch hprepare hspares hanswer hbatch
  obtain ⟨hlookup, hlt⟩ := hlocal a n hn hsends
  have hzero : ∀ b, totalShift ∅ b = 0 := fun _ => rfl
  have hpos : ∀ b, 0 ≤ totalShift ∅ b := fun b => (hzero b).ge
  have hfits : (∃ adjustments, nonceAdjustments batch.shiftNonce = some adjustments) ↔
      ∀ b, rejectedOf scenario reqs expected b < 2 ^ 31 := by
    rw [nonceAdjustments, foldlM_addShift_isSome hone hpos]
    apply forall_congr'
    intro b
    rw [hrejected, hzero]
    omega
  rw [leavesNonce_iff hbatch.awaited hgas, ← hfits]
  have hmoved : ∀ adjustments, nonceAdjustments batch.shiftNonce = some adjustments →
      (applyAdjustments adjustments.entries prepared.nonces).lookup a =
        some (satAddU64 (n + sentBy a reqs) (rejectedOf scenario reqs expected a)) := by
    intro adjustments hsum
    have htotal := lookup_foldlM_addShift hone hpos hsum a
    rw [hrejected, hzero] at htotal
    rw [lookup_applyAdjustments adjustments.nodupKeys, hlookup]
    change adjustments.entries.dlookup a = _ at htotal
    rw [htotal]
    by_cases hnone : rejectedOf scenario reqs expected a = 0
    · rw [if_pos hnone, hnone]
      have : satAddU64 (n + sentBy a reqs) 0 = n + sentBy a reqs := by
        unfold satAddU64
        omega
      rw [this]
      rfl
    · rw [if_neg hnone]
      simp [shiftedNonce]
  constructor
  · rintro ⟨adjustments, hsum, hnext⟩
    exact ⟨⟨adjustments, hsum⟩, Option.some.inj ((hmoved adjustments hsum).symm.trans hnext)⟩
  · rintro ⟨⟨adjustments, hsum⟩, rfl⟩
    exact ⟨adjustments, hsum, hmoved adjustments hsum⟩

/-- The local nonce of a sender ends at the nonce the node expects next exactly
when the node was in step with the batch and no sender had so many transactions
rejected that their sum overflows. -/
theorem realigned_iff_inStep
    (hprepare : prepareSpam env (reqs.map .tx) scenario = .ok payloads prepared)
    (hspares : SparesSenders scenario.setcodeSigner.address reqs)
    (hanswer : ∀ req ∈ payloads.filterMap ExecutionPayload.single?,
      RejectsBelow env expected req (answer req))
    (hbatch : batch.Delivers
      (reportedMessages env answer (payloads.filterMap ExecutionPayload.single?)))
    {a : Address} {n : Nat} (hn : scenario.nonces.lookup a = some n) (hsends : 0 < sentBy a reqs)
    (hahead : n ≤ expected a) (hexpected : expected a < 2 ^ 64) :
    LeavesNonce batch prepared a (max (expected a) (n + sentBy a reqs)) ↔
      (∀ b, rejectedOf scenario reqs expected b < 2 ^ 31) ∧
        InStep n (sentBy a reqs) (expected a) := by
  obtain ⟨-, -, -, hlocal⟩ := shiftsFor_batch hprepare hspares hanswer hbatch
  obtain ⟨-, hlt⟩ := hlocal a n hn hsends
  have hrejected : rejectedOf scenario reqs expected a =
      min (sentBy a reqs) (expected a - n) := by
    rw [rejectedOf, hn]
    rfl
  rw [leavesNonce_of_rejectsBelow hprepare hspares hanswer hbatch hn hsends, hrejected,
    satAddU64_eq_max_iff hsends hlt hexpected hahead]

end Batch

end Rejection

/-! ### A node ahead of the scenario -/

namespace Lagging

/-- A node and a wallet for transactions without call data; the hash is that of
the empty string, and a signed transaction is named by its nonce. -/
def env : Env where
  keccak256 _ := 0xc5d2460186f7233c927e7db2dcc703c0e500b653ca82273b7bfad8045d85a470
  toLowercase := List.map Char.toLower
  build tx _ := .ok (BitVec.ofNat 256 (tx.nonce.getD 0))
  node _ :=
    { getGasPrice := .ok 1000
      getBlobBaseFee := .ok 1
      getCodeAt := fun _ => .ok []
      estimateGas := fun _ => .ok 21000 }

def sender : Address := 7

def setcodeSigner : PrivateKeySigner := { key := 2, address := 8 }

/-- The sender's local nonce is 5. -/
def scenario : TestScenario where
  nonces := (AList.insert sender 5 ∅).insert setcodeSigner.address 0
  gasLimits := ∅
  signerMap := AList.insert sender { key := 1, address := sender } ∅
  setcodeSigner := setcodeSigner
  txType := .legacy
  chainId := 1
  gasPrice := some 1000
  gasPriceAdder := 0
  lastFetchedGasPrice := none
  lastFetchedBlobGasPrice := none
  hasBundleClient := false
  rpcCalls := 0

def request : NamedTxRequest where
  tx := { fromAddr := some sender, toKind := some (.call 9), gas := some 21000 }

/-- The request as it is sent with a nonce. -/
def sent (nonce : Nat) : NamedTxRequest where
  tx := { request.tx with nonce := some nonce, gasPrice := some 1000 }

def payloads : List ExecutionPayload := [.signedTx 5 (sent 5), .signedTx 6 (sent 6)]

def prepared : TestScenario :=
  { scenario with
    nonces := (scenario.nonces.insert sender 6).insert sender 7
    gasLimits := AList.insert (env.keccak256 []) 21000 ∅ }

theorem prepareSpam_two :
    prepareSpam env ([request, request].map .tx) scenario = .ok payloads prepared := rfl

/-- The node expects nonce `c` of every sender. -/
def answer (c : Nat) (req : NamedTxRequest) : Option Text :=
  if req.tx.nonce.getD 0 < c then some "Nonce too low: next nonce 6".toList else none

theorem sparesSenders_two : SparesSenders scenario.setcodeSigner.address [request, request] := by
  intro b _ req hreq _ hauth
  obtain rfl : req = request := by simpa using hreq
  exact absurd hauth (by decide)

theorem rejectsBelow_answer (c : Nat) :
    ∀ req ∈ payloads.filterMap ExecutionPayload.single?,
      RejectsBelow env (fun _ => c) req (answer c req) := by
  intro req _ a nonce _ hnonce
  simp only [answer, hnonce, Option.getD_some]
  refine ⟨fun hlow => ⟨_, if_pos hlow, by decide +kernel, by decide +kernel⟩, fun hhigh => ?_⟩
  exact if_neg (Nat.not_lt.mpr hhigh)

/-- The batch after the node has answered, when it expects nonce `c`. -/
def batch (c : Nat) : PendingBatch where
  awaited := .ok ()
  addGas := []
  shiftNonce := (reportedMessages env (answer c) (payloads.filterMap
    ExecutionPayload.single?)).filterMap SpamMessage.shift?
  successes := (reportedMessages env (answer c) (payloads.filterMap
    ExecutionPayload.single?)).count .success
  numPayloads := 2

theorem rejectedOf_two_lt (c : Nat) (b : Address) :
    rejectedOf scenario [request, request] (fun _ => c) b < 2 ^ 31 :=
  calc rejectedOf scenario [request, request] (fun _ => c) b
      ≤ sentBy b [request, request] := min_le_left _ _
    _ ≤ 2 := List.countP_le_length
    _ < 2 ^ 31 := by decide

/-- A node one ahead of the scenario rejects the first of two transactions, and
the local nonce ends one above the node's. -/
theorem not_realigned_of_one_ahead :
    prepareSpam env ([request, request].map .tx) scenario = .ok payloads prepared ∧
      SparesSenders scenario.setcodeSigner.address [request, request] ∧
      (∀ req ∈ payloads.filterMap ExecutionPayload.single?,
        RejectsBelow env (fun _ => 6) req (answer 6 req)) ∧
      (batch 6).Delivers
        (reportedMessages env (answer 6) (payloads.filterMap ExecutionPayload.single?)) ∧
      scenario.nonces.lookup sender = some 5 ∧ sentBy sender [request, request] = 2 ∧
      LeavesNonce (batch 6) prepared sender 8 ∧
      ¬LeavesNonce (batch 6) prepared sender (max 6 (5 + 2)) := by
  have hdelivers : (batch 6).Delivers
      (reportedMessages env (answer 6) (payloads.filterMap ExecutionPayload.single?)) :=
    ⟨rfl, by decide +kernel, .refl _, rfl⟩
  have hleaves := leavesNonce_of_rejectsBelow prepareSpam_two sparesSenders_two
    (rejectsBelow_answer 6) hdelivers (a := sender) (n := 5) (by decide +kernel)
    (by decide +kernel)
  refine ⟨prepareSpam_two, sparesSenders_two, rejectsBelow_answer 6, hdelivers,
    by decide +kernel, by decide +kernel, (hleaves 8).mpr ⟨rejectedOf_two_lt 6, by decide +kernel⟩,
    fun h => ?_⟩
  exact absurd ((hleaves 7).mp h).2 (by decide +kernel)

/-- A node four ahead rejects both transactions, and the local nonce catches up
with it. -/
theorem realigned_of_four_ahead : LeavesNonce (batch 9) prepared sender (max 9 (5 + 2)) := by
  have hdelivers : (batch 9).Delivers
      (reportedMessages env (answer 9) (payloads.filterMap ExecutionPayload.single?)) :=
    ⟨rfl, by decide +kernel, .refl _, rfl⟩
  have hiff := realigned_iff_inStep prepareSpam_two sparesSenders_two
    (rejectsBelow_answer 9) hdelivers (a := sender) (n := 5) (by decide +kernel)
    (by decide +kernel) (by decide) (by decide)
  exact hiff.mpr ⟨rejectedOf_two_lt 9, by decide +kernel⟩

end Lagging

end Contender
