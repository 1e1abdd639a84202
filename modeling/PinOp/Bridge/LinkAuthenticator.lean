import PinOp.Protocol.Messages

/-!
# The authenticator of links

A browser or a simulator links with a PIN of two digits. Five wrong PINs within a minute start a
cooldown, in which every attempt is refused; a right one is answered with a token. A call reads
the clock at most once, and what it read is an argument of it, as is what `randomBytes` gives.
-/

namespace PinOp.Bridge

open PinOp.Protocol

/-! ## Dates -/

/-- The time of a `Date`, in milliseconds, unless it is invalid. -/
abbrev Date := Option ℤ

def maxTime : ℤ := 8640000000000000

def newDate (time : ℤ) : Date :=
  if -maxTime ≤ time ∧ time ≤ maxTime then some time else none

theorem newDate_eq_some {time value : ℤ} (h : newDate time = some value) : value = time := by
  unfold newDate at h
  split at h
  · exact (Option.some.inj h).symm
  · cases h

/-! ## The authenticator -/

inductive LinkError where
  | invalidClock
  | cooldownDate
  | tokenIssueTime
  | tokenExpiration
  deriving DecidableEq, Repr

def LinkError.message : LinkError → String
  | .invalidClock => "LinkAuthenticator clock returned an invalid Date"
  | .cooldownDate => "LinkAuthenticator clock cannot produce a valid cooldown Date"
  | .tokenIssueTime => "Token issue time must be a valid Date"
  | .tokenExpiration => "Token expiration must be a valid Date"

/-- The roles that link with a PIN. -/
inductive LinkRole where
  | browser
  | simulator
  deriving DecidableEq, Repr

def LinkRole.toClientRole : LinkRole → ClientRole
  | .browser => .browser
  | .simulator => .simulator

/-- The bytes of two strings are compared, which are equal when the strings are. -/
def tokensEqual (left right : String) : Bool := left = right

/-- Only tokens with a valid expiration are made. -/
structure AuthorizedToken where
  sessionId : String
  role : ClientRole
  bridgeInstanceId : String
  value : String
  expiresAt : ℤ
  deriving DecidableEq, Repr

def tokenTtl : ℤ := 24 * 60 * 60 * 1000

def createAuthorizedToken (sessionId : String) (role : ClientRole) (bridgeInstanceId : String)
    (now : Date) (random : String) : Except LinkError AuthorizedToken :=
  match now with
  | none => .error .tokenIssueTime
  | some issuedAt =>
    match newDate (issuedAt + tokenTtl) with
    | none => .error .tokenExpiration
    | some expiresAt => .ok ⟨sessionId, role, bridgeInstanceId, random, expiresAt⟩

inductive TokenValidation where
  | accepted
  | rejected
  | instanceChanged
  deriving DecidableEq, Repr

inductive LinkAttempt where
  | accepted (sessionId : String) (bridgeInstanceId : String) (authToken : AuthorizedToken)
  | rejected
  | rateLimited (retryAt : ℤ)
  deriving DecidableEq, Repr

/-- What `PIN_PATTERN` accepts; the constructor throws on other strings. -/
structure LinkPin where
  value : String
  digits : value.toList.length = 2 ∧ value.toList.all Char.isDigit = true

def failureWindow : ℤ := 60000

def maxFailures : ℕ := 5

def cooldown : ℤ := 60000

/-- Bounds link churn for each role. -/
def maxActiveTokensPerRole : ℕ := 64

structure LinkAuthenticator where
  sessionId : String
  bridgeInstanceId : String
  pin : String
  tokens : List AuthorizedToken
  failures : List ℤ
  cooldownUntil : Option ℤ
  deriving DecidableEq, Repr

namespace LinkAuthenticator

def start (sessionId bridgeInstanceId : String) (pin : LinkPin) : LinkAuthenticator :=
  ⟨sessionId, bridgeInstanceId, pin.value, [], [], none⟩

variable (a : LinkAuthenticator)

def readNow (now : Date) : Except LinkError ℤ :=
  match now with
  | none => .error .invalidClock
  | some now => .ok now

def pruneFailures (now : ℤ) : LinkAuthenticator :=
  { a with failures := a.failures.filter fun failedAt => now - failureWindow ≤ failedAt }

def pruneExpiredTokens (now : ℤ) : LinkAuthenticator :=
  { a with tokens := a.tokens.filter fun token => now < token.expiresAt }

/-- The loop of `issueToken`: the oldest tokens of the role go until there is room for one. -/
def makeRoom (role : ClientRole) : ℕ → List AuthorizedToken → List AuthorizedToken
  | 0, tokens => tokens
  | activeForRole + 1, tokens =>
    if activeForRole + 1 < maxActiveTokensPerRole then tokens
    else
      match tokens.findIdx? fun token => token.role = role with
      | none => tokens
      | some oldestIndex => makeRoom role activeForRole (tokens.eraseIdx oldestIndex)

def issueToken (role : ClientRole) (now : ℤ) (random : String) :
    Except LinkError AuthorizedToken × LinkAuthenticator :=
  let a := a.pruneExpiredTokens now
  let activeForRole := a.tokens.countP fun token => token.role = role
  let a := { a with tokens := makeRoom role activeForRole a.tokens }
  match createAuthorizedToken a.sessionId role a.bridgeInstanceId (some now) random with
  | .error error => (.error error, a)
  | .ok token => (.ok token, { a with tokens := a.tokens ++ [token] })

def issueTrustedToken (now : Date) (random : String) :
    Except LinkError AuthorizedToken × LinkAuthenticator :=
  match readNow now with
  | .error error => (.error error, a)
  | .ok now => a.issueToken .ide now random

/-- Attempts are refused at this time. -/
def cooling (now : ℤ) : Bool := a.cooldownUntil.any fun deadline => now < deadline

/-- The authenticator that compares the PIN: a cooldown that is over is forgotten, with the
failures that led to it. -/
def ready (now : ℤ) : LinkAuthenticator :=
  match a.cooldownUntil with
  | none => a.pruneFailures now
  | some _ => { a with cooldownUntil := none, failures := [] }

/-- `attemptLink` from the comparison on. -/
def comparePin (now : ℤ) (pin : String) (role : LinkRole) (random : String) :
    Except LinkError LinkAttempt × LinkAuthenticator :=
  if !tokensEqual a.pin pin then
    if a.failures.length + 1 < maxFailures then
      (.ok .rejected, { a with failures := a.failures ++ [now] })
    else
      match newDate (now + cooldown) with
      | none => (.error .cooldownDate, a)
      | some deadline =>
        (.ok (.rateLimited deadline),
          { a with failures := a.failures ++ [now], cooldownUntil := some deadline })
  else
    match { a with failures := [] }.issueToken role.toClientRole now random with
    | (.error error, a) => (.error error, a)
    | (.ok authToken, a) => (.ok (.accepted a.sessionId a.bridgeInstanceId authToken), a)

def attemptLink (now : Date) (pin : String) (role : LinkRole) (random : String) :
    Except LinkError LinkAttempt × LinkAuthenticator :=
  match readNow now with
  | .error error => (.error error, a)
  | .ok attemptedAt =>
    match a.cooldownUntil with
    | some deadline =>
      if attemptedAt < deadline then
        (.ok (.rateLimited deadline), a.pruneFailures attemptedAt)
      else (a.ready attemptedAt).comparePin attemptedAt pin role random
    | none => (a.ready attemptedAt).comparePin attemptedAt pin role random

def validateToken (now : Date) (sessionId : String) (role : ClientRole) (token : String)
    (bridgeInstanceId : String) : Except LinkError TokenValidation × LinkAuthenticator :=
  match readNow now with
  | .error error => (.error error, a)
  | .ok now =>
    let a := a.pruneExpiredTokens now
    match a.tokens.find? fun candidate => tokensEqual candidate.value token with
    | none => (.ok .rejected, a)
    | some authorized =>
      if authorized.sessionId ≠ sessionId ∨ authorized.role ≠ role then (.ok .rejected, a)
      else if authorized.expiresAt ≤ now then (.ok .rejected, a)
      else if authorized.bridgeInstanceId = bridgeInstanceId then (.ok .accepted, a)
      else (.ok .instanceChanged, a)

def revokeToken (token : String) : LinkAuthenticator :=
  { a with tokens := a.tokens.filter fun authorized => !tokensEqual authorized.value token }

def revokeRole (role : ClientRole) : LinkAuthenticator :=
  { a with tokens := a.tokens.filter fun token => token.role ≠ role }

def revokeAll : LinkAuthenticator := { a with tokens := [] }

/-! ## Calls -/

inductive Call where
  | attemptLink (now : Date) (pin : String) (role : LinkRole) (random : String)
  | issueTrustedToken (now : Date) (random : String)
  | validateToken (now : Date) (sessionId : String) (role : ClientRole) (token : String)
    (bridgeInstanceId : String)
  | revokeToken (token : String)
  | revokeRole (role : ClientRole)
  | revokeAll
  deriving DecidableEq, Repr

inductive Answer where
  | attempt (result : Except LinkError LinkAttempt)
  | token (result : Except LinkError AuthorizedToken)
  | validation (result : Except LinkError TokenValidation)
  | nothing
  deriving DecidableEq, Repr

def perform : Call → Answer × LinkAuthenticator
  | .attemptLink now pin role random => (a.attemptLink now pin role random).map .attempt id
  | .issueTrustedToken now random => (a.issueTrustedToken now random).map .token id
  | .validateToken now sessionId role token bridgeInstanceId =>
    (a.validateToken now sessionId role token bridgeInstanceId).map .validation id
  | .revokeToken token => (.nothing, a.revokeToken token)
  | .revokeRole role => (.nothing, a.revokeRole role)
  | .revokeAll => (.nothing, a.revokeAll)

/-- What the call reads of the clock. -/
def Call.now : Call → Option Date
  | .attemptLink now _ _ _ => some now
  | .issueTrustedToken now _ => some now
  | .validateToken now _ _ _ _ => some now
  | _ => none

/-! ## What a call leaves alone -/

variable {a} {a' : LinkAuthenticator} {now : ℤ} {pin random : String} {role : LinkRole}

theorem issueToken_rest (a : LinkAuthenticator) (role : ClientRole) (now : ℤ) (random : String) :
    (a.issueToken role now random).2.pin = a.pin ∧
      (a.issueToken role now random).2.failures = a.failures ∧
      (a.issueToken role now random).2.cooldownUntil = a.cooldownUntil := by
  simp only [issueToken]
  split
  · exact ⟨rfl, rfl, rfl⟩
  · exact ⟨rfl, rfl, rfl⟩

/-- A token can be issued as long as its expiration is a valid `Date`. -/
theorem issueToken_ok (a : LinkAuthenticator) (role : ClientRole) (now : ℤ) (random : String)
    (h : (newDate (now + tokenTtl)).isSome = true) :
    ∃ token, (a.issueToken role now random).1 = .ok token := by
  obtain ⟨expiresAt, he⟩ := Option.isSome_iff_exists.mp h
  simp only [issueToken, createAuthorizedToken, he]
  exact ⟨_, rfl⟩

theorem ready_cooldownUntil (a : LinkAuthenticator) (now : ℤ) :
    (a.ready now).cooldownUntil = none := by
  unfold ready
  split
  · rename_i h
    exact h
  · rfl

theorem ready_rest (a : LinkAuthenticator) (now : ℤ) :
    (a.ready now).pin = a.pin ∧ (a.ready now).tokens = a.tokens := by
  unfold ready
  split
  · exact ⟨rfl, rfl⟩
  · exact ⟨rfl, rfl⟩

/-- Calls other than attempts leave the failures and the cooldown alone. -/
theorem perform_rest (a : LinkAuthenticator) (call : Call)
    (h : ∀ now pin role random, call ≠ .attemptLink now pin role random) :
    (a.perform call).2.pin = a.pin ∧ (a.perform call).2.failures = a.failures ∧
      (a.perform call).2.cooldownUntil = a.cooldownUntil := by
  cases call with
  | attemptLink now pin role random => exact absurd rfl (h now pin role random)
  | issueTrustedToken now random =>
    cases now with
    | none => exact ⟨rfl, rfl, rfl⟩
    | some now => exact issueToken_rest a .ide now random
  | validateToken now sessionId role token bridgeInstanceId =>
    cases now with
    | none => exact ⟨rfl, rfl, rfl⟩
    | some now =>
      simp only [perform, validateToken, readNow, Prod.map_snd, id]
      split
      · exact ⟨rfl, rfl, rfl⟩
      · repeat' split
        all_goals exact ⟨rfl, rfl, rfl⟩
  | revokeToken token => exact ⟨rfl, rfl, rfl⟩
  | revokeRole role => exact ⟨rfl, rfl, rfl⟩
  | revokeAll => exact ⟨rfl, rfl, rfl⟩

/-! ## What an attempt can do -/

/-- An attempt at a valid time, with its outcome. -/
inductive Attempted (a : LinkAuthenticator) (now : ℤ) (pin : String) :
    Except LinkError LinkAttempt → LinkAuthenticator → Prop
  | refused (deadline : ℤ) (hc : a.cooldownUntil = some deadline) (hlt : now < deadline) :
    Attempted a now pin (.ok (.rateLimited deadline)) (a.pruneFailures now)
  | rejected (hc : a.cooling now = false) (hpin : pin ≠ a.pin)
    (hf : (a.ready now).failures.length + 1 < maxFailures) :
    Attempted a now pin (.ok .rejected)
      { a.ready now with failures := (a.ready now).failures ++ [now] }
  | undated (hc : a.cooling now = false) (hpin : pin ≠ a.pin)
    (hf : maxFailures ≤ (a.ready now).failures.length + 1) :
    Attempted a now pin (.error .cooldownDate) (a.ready now)
  | limited (hc : a.cooling now = false) (hpin : pin ≠ a.pin)
    (hf : maxFailures ≤ (a.ready now).failures.length + 1) :
    Attempted a now pin (.ok (.rateLimited (now + cooldown)))
      { a.ready now with
        failures := (a.ready now).failures ++ [now]
        cooldownUntil := some (now + cooldown) }
  | right {result : Except LinkError LinkAttempt} {a' : LinkAuthenticator}
    (hc : a.cooling now = false) (hpin : pin = a.pin) (hfail : a'.failures = [])
    (hcool : a'.cooldownUntil = none)
    (hresult : ∀ attempt, result = .ok attempt → ∃ s b token, attempt = .accepted s b token)
    (hdated : (newDate (now + tokenTtl)).isSome = true → ∃ attempt, result = .ok attempt) :
    Attempted a now pin result a'

theorem comparePin_attempted (a : LinkAuthenticator) (now : ℤ) (pin : String) (role : LinkRole)
    (random : String) (hc : a.cooling now = false) :
    Attempted a now pin ((a.ready now).comparePin now pin role random).1
      ((a.ready now).comparePin now pin role random).2 := by
  have hpin := (ready_rest a now).1
  unfold comparePin
  split
  · rename_i hne
    have hne : pin ≠ a.pin := by
      rintro rfl
      simp [tokensEqual, hpin] at hne
    split
    · rename_i hf
      exact .rejected hc hne hf
    · rename_i hf
      split
      · exact .undated hc hne (by omega)
      · rename_i deadline hd
        rw [newDate_eq_some hd]
        exact .limited hc hne (by omega)
  · rename_i heq
    have heq : pin = a.pin := by
      simp only [tokensEqual, hpin, Bool.not_eq_true', decide_eq_false_iff_not, not_not] at heq
      exact heq.symm
    have hrest := issueToken_rest { a.ready now with failures := [] } role.toClientRole now random
    have hok := issueToken_ok { a.ready now with failures := [] } role.toClientRole now random
    rw [show ({ a.ready now with failures := [] } : LinkAuthenticator).cooldownUntil = none from
      ready_cooldownUntil a now] at hrest
    split
    · rename_i error a' he
      rw [he] at hrest hok
      refine .right hc heq hrest.2.1 hrest.2.2 (fun _ h => by cases h) fun h => ?_
      obtain ⟨token, ht⟩ := hok h
      cases ht
    · rename_i token a' he
      rw [he] at hrest
      refine .right hc heq hrest.2.1 hrest.2.2 (fun attempt h => ?_) fun _ => ⟨_, rfl⟩
      exact ⟨_, _, _, (Except.ok.inj h).symm⟩

theorem attemptLink_attempted (a : LinkAuthenticator) (now : ℤ) (pin : String) (role : LinkRole)
    (random : String) :
    Attempted a now pin (a.attemptLink (some now) pin role random).1
      (a.attemptLink (some now) pin role random).2 := by
  simp only [attemptLink, readNow]
  split
  · rename_i deadline hd
    split
    · rename_i hlt
      exact .refused deadline hd hlt
    · rename_i hge
      exact comparePin_attempted a now pin role random (by simp [cooling, hd, hge])
  · rename_i hn
    exact comparePin_attempted a now pin role random (by simp [cooling, hn])

end LinkAuthenticator

end PinOp.Bridge
