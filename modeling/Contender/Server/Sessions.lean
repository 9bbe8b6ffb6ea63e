import Contender.Data.AssocMap
import Contender.Primitives

/-!
# The sessions of the server

A session holds a contender instance between two uses of it. A background task
that initializes the instance or spams with it takes the instance out of the
session first, so that the lock on the cache is not held meanwhile, and puts it
back when it is done. The cache is a map from session ids: `gen_id` draws an id
that no session in the cache has.
-/

namespace Contender.Server

abbrev SessionId := Nat

/-- A cancellation token, by its identity. -/
abbrev Token := Nat

/-- The parameters of a `spam` call; the run options are left out. -/
structure SpamParams where
  sessionId : SessionId
  deriving DecidableEq, Repr

inductive SessionStatus
  | initializing
  | ready
  | spamming (params : SpamParams)
  | failed (message : Text)
  deriving DecidableEq, Repr

def SessionStatus.IsSpamming : SessionStatus → Prop
  | .spamming _ => True
  | _ => False

instance (status : SessionStatus) : Decidable status.IsSpamming :=
  match status with
  | .spamming _ => isTrue trivial
  | .initializing | .ready | .failed _ => isFalse id

/-- A contender instance, by its own cancellation token. `funder` says whether it
has a funding account. -/
structure ContenderInstance where
  cancel : Token
  funder : Bool
  deriving DecidableEq, Repr

inductive SessionContender
  | uninit (contender : ContenderInstance)
  | init (contender : ContenderInstance)
  deriving DecidableEq, Repr

def SessionContender.inner : SessionContender → ContenderInstance
  | .uninit contender => contender
  | .init contender => contender

/-- `cancel` is the token of the session's contender instance. `cached` stands for
the agent store, the RPC client and the minimal balance, which are written
together. -/
structure ContenderSession where
  status : SessionStatus
  contender : Option SessionContender
  cancel : Token
  spamCancel : Option Token
  funder : Bool
  cached : Bool
  deriving DecidableEq, Repr

/-- The contender is in the session and can be taken for spamming. -/
def ContenderSession.HoldsInitialized (session : ContenderSession) : Prop :=
  ∃ c, session.contender = some (.init c)

instance (session : ContenderSession) : Decidable session.HoldsInitialized :=
  match h : session.contender with
  | some (.init c) => isTrue ⟨c, h⟩
  | some (.uninit _) => isFalse fun ⟨_, hc⟩ => nomatch h.symm.trans hc
  | none => isFalse fun ⟨_, hc⟩ => nomatch h.symm.trans hc

/-- `ContenderSession::new`. -/
def ContenderSession.new (contender : ContenderInstance) : ContenderSession where
  status := .initializing
  contender := some (.uninit contender)
  cancel := contender.cancel
  spamCancel := none
  funder := false
  cached := false

/-- The errors the calls return, with the id of the session they name. -/
inductive ContenderRpcError
  | sessionNotFound (id : SessionId)
  | sessionNotInitialized (id : SessionId)
  | sessionFailed (id : SessionId) (error : Text)
  | sessionBusy (id : SessionId)
  | sessionNotBusy (id : SessionId)
  deriving DecidableEq, Repr

abbrev ContenderSessionCache := AssocMap SessionId ContenderSession

namespace ContenderSessionCache

variable (cache : ContenderSessionCache)

/-- Change the session that `get_session_mut` finds. -/
def update (id : SessionId) (f : ContenderSession → ContenderSession) : ContenderSessionCache :=
  match cache.lookup id with
  | some session => cache.replace id (f session)
  | none => cache

def takeUninitialized (id : SessionId) : Option ContenderInstance × ContenderSessionCache :=
  match (cache.lookup id).bind ContenderSession.contender with
  | some (.uninit contender) =>
    (some contender, update cache id fun session => { session with contender := none })
  -- the other variant is put back
  | _ => (none, cache)

def takeInitialized (id : SessionId) : Option ContenderInstance × ContenderSessionCache :=
  match (cache.lookup id).bind ContenderSession.contender with
  | some (.init contender) =>
    (some contender, update cache id fun session => { session with contender := none })
  | _ => (none, cache)

def putInitialized (id : SessionId) (contender : ContenderInstance) : ContenderSessionCache :=
  update cache id fun session =>
    { session with
      contender := some (.init contender)
      funder := contender.funder
      cached := true }

variable {cache}

theorem lookup_update (cache : ContenderSessionCache) (id : SessionId)
    (f : ContenderSession → ContenderSession) (j : SessionId) :
    (update cache id f).lookup j =
      if j = id then (cache.lookup id).map f else cache.lookup j := by
  unfold update
  cases hlookup : cache.lookup id with
  | none =>
    by_cases hj : j = id
    · rw [if_pos hj, hj, hlookup, Option.map_none]
    · rw [if_neg hj]
  | some session =>
    rw [AList.lookup_replace, hlookup]
    rfl

theorem takeUninitialized_eq_some {id : SessionId} {c : ContenderInstance}
    {after : ContenderSessionCache} (h : takeUninitialized cache id = (some c, after)) :
    ∃ session, cache.lookup id = some session ∧ session.contender = some (.uninit c) ∧
      after = update cache id fun session => { session with contender := none } := by
  unfold takeUninitialized at h
  split at h
  case h_1 contender hcontender =>
    obtain ⟨session, hsession, hheld⟩ := Option.bind_eq_some_iff.mp hcontender
    obtain ⟨hc, rfl⟩ := Prod.mk.inj h
    obtain rfl := Option.some.inj hc
    exact ⟨session, hsession, hheld, rfl⟩
  case h_2 => exact nomatch (Prod.mk.inj h).1

theorem takeUninitialized_eq_none {id : SessionId} {after : ContenderSessionCache}
    (h : takeUninitialized cache id = (none, after)) : after = cache := by
  unfold takeUninitialized at h
  split at h
  case h_1 => exact nomatch (Prod.mk.inj h).1
  case h_2 => exact (Prod.mk.inj h).2.symm

/-- What `take_initialized` finds decides what it does. -/
theorem takeInitialized_of_init {id : SessionId} {session : ContenderSession}
    {c : ContenderInstance} (hsession : cache.lookup id = some session)
    (hc : session.contender = some (.init c)) :
    takeInitialized cache id =
      (some c, update cache id fun session => { session with contender := none }) := by
  unfold takeInitialized
  rw [hsession, Option.bind_some, hc]

theorem takeInitialized_of_none {id : SessionId} (hsession : cache.lookup id = none) :
    takeInitialized cache id = (none, cache) := by
  unfold takeInitialized
  rw [hsession, Option.bind_none]

end ContenderSessionCache

/-- `error_if_session_not_ready`. -/
def errorIfSessionNotReady (id : SessionId) (session : ContenderSession) :
    Except ContenderRpcError Unit :=
  match session.status with
  | .failed message => .error (.sessionFailed id message)
  | .spamming _ => .error (.sessionBusy id)
  | .ready => .ok ()
  | .initializing => .error (.sessionNotInitialized id)

/-- The checks of `fund_accounts`: any initialized session may be funded, also
while it spams. -/
def errorIfNotFundable (id : SessionId) (session : ContenderSession) :
    Except ContenderRpcError Unit :=
  match session.status with
  | .failed message => .error (.sessionFailed id message)
  | .ready | .spamming _ =>
    if session.funder ∧ session.cached then .ok () else .error (.sessionNotInitialized id)
  | .initializing => .error (.sessionNotInitialized id)

end Contender.Server
