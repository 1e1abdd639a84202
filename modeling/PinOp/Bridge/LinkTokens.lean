import PinOp.Bridge.LinkAttempts

/-!
# The tokens that are live

All roles share one list of tokens. What becomes of one of them is told by the calls behind the one
that issued it: it may expire, be revoked, or be crowded out by newer tokens of its role. An issue
makes room before it makes the token, so that one that throws crowds out a token as well.
-/

namespace PinOp.Bridge

open PinOp.Lib PinOp.Protocol

namespace LinkAuthenticator

/-! ## What a call does to the tokens -/

/-- The token that the call gave out. -/
def Event.issued (e : Event) : Option AuthorizedToken :=
  match e.answer with
  | .attempt (.ok (.accepted _ _ token)) => some token
  | .token (.ok token) => some token
  | _ => none

/-- The role and the time for which the call makes room for a token. -/
def Event.issues (e : Event) : Option (ClientRole × ℤ) :=
  match e.call, e.answer with
  | .attemptLink (some now) _ role _, .attempt (.ok (.accepted _ _ _)) =>
    some (role.toClientRole, now)
  | .attemptLink (some now) _ role _, .attempt (.error .tokenExpiration) =>
    some (role.toClientRole, now)
  | .issueTrustedToken (some now) _, _ => some (.ide, now)
  | _, _ => none

def Call.revokes : Call → AuthorizedToken → Bool
  | .revokeToken value, token => tokensEqual token.value value
  | .revokeRole role, token => token.role = role
  | .revokeAll, _ => true
  | _, _ => false

/-- The tokens that stay where room is made for one of the role. -/
def room (a : LinkAuthenticator) (role : ClientRole) (now : ℤ) : List AuthorizedToken :=
  makeRoom role ((a.pruneExpiredTokens now).tokens.countP fun token => token.role = role)
    (a.pruneExpiredTokens now).tokens

inductive Touched (a : LinkAuthenticator) (e : Event) (a' : LinkAuthenticator) : Prop where
  | revoked (hissues : e.issues = none) (hissued : e.issued = none)
      (htokens : a'.tokens = a.tokens.filter fun token => !e.call.revokes token)
  | pruned (now : ℤ) (htime : e.time = some now) (hissues : e.issues = none)
      (hissued : e.issued = none) (hrevokes : ∀ token, e.call.revokes token = false)
      (htokens : a'.tokens = (a.pruneExpiredTokens now).tokens)
  | made (role : ClientRole) (now : ℤ) (htime : e.time = some now)
      (hissues : e.issues = some (role, now)) (hrole : ∀ token, e.issued = some token → token.role = role)
      (hrevokes : ∀ token, e.call.revokes token = false)
      (htokens : a'.tokens = a.room role now ++ e.issued.toList)

variable {a a' : LinkAuthenticator} {e : Event} {h later : Trace} {role : ClientRole} {now : ℤ}
  {token : AuthorizedToken} {sessionId bridgeInstanceId value : String} {linkPin : LinkPin}

/-- Nothing is issued and nothing is revoked. -/
theorem Touched.kept (hissues : e.issues = none) (hissued : e.issued = none)
    (hrevokes : ∀ token, e.call.revokes token = false) (htokens : a'.tokens = a.tokens) :
    Touched a e a' := by
  refine .revoked hissues hissued ?_
  rw [htokens]
  refine (List.filter_eq_self.2 fun token _ => ?_).symm
  rw [hrevokes token]
  rfl

/-- Room is made, and the token that is made is of the role. -/
theorem issueToken_cases (a : LinkAuthenticator) (role : ClientRole) (now : ℤ) (random : String) :
    a.issueToken role now random = (.error .tokenExpiration, { a with tokens := a.room role now }) ∨
      ∃ token, token.role = role ∧
        a.issueToken role now random = (.ok token, { a with tokens := a.room role now ++ [token] }) := by
  unfold issueToken createAuthorizedToken
  dsimp only
  split
  · rename_i error herror
    split at herror
    · cases herror
      exact .inl rfl
    · cases herror
  · rename_i token hok
    split at hok
    · cases hok
    · cases hok
      exact .inr ⟨_, rfl, rfl⟩

theorem ready_tokens (a : LinkAuthenticator) (now : ℤ) : (a.ready now).tokens = a.tokens :=
  (ready_rest a now).2

theorem comparePin_touched (pin : String) (linkRole : LinkRole) (random : String)
    (he : e.call = .attemptLink (some now) pin linkRole random)
    (hanswer : e.answer = .attempt ((a.ready now).comparePin now pin linkRole random).1) :
    Touched a e ((a.ready now).comparePin now pin linkRole random).2 := by
  have hrevokes : ∀ token, e.call.revokes token = false := by
    intro token
    rw [he]
    rfl
  have htime : e.time = some now := by
    rw [Event.time, he]
    rfl
  have hroom : ({ a.ready now with failures := [] } : LinkAuthenticator).room linkRole.toClientRole now =
      a.room linkRole.toClientRole now := by
    unfold room pruneExpiredTokens
    rw [ready_tokens]
  unfold comparePin at hanswer ⊢
  split at hanswer
  · rename_i hwrong
    rw [if_pos hwrong]
    split at hanswer
    · rename_i hfew
      rw [if_pos hfew]
      exact .kept (by rw [Event.issues, he, hanswer]) (by rw [Event.issued, hanswer]) hrevokes
        (ready_tokens a now)
    · rename_i hmany
      rw [if_neg hmany]
      split at hanswer
      · exact .kept (by rw [Event.issues, he, hanswer]) (by rw [Event.issued, hanswer]) hrevokes
          (ready_tokens a now)
      · exact .kept (by rw [Event.issues, he, hanswer]) (by rw [Event.issued, hanswer]) hrevokes
          (ready_tokens a now)
  · rename_i hright
    rw [if_neg hright]
    rcases issueToken_cases { a.ready now with failures := [] } linkRole.toClientRole now random with
      heq | ⟨token, hrole, heq⟩
    · rw [heq] at hanswer ⊢
      have hissued : e.issued = none := by rw [Event.issued, hanswer]
      refine .made linkRole.toClientRole now htime (by rw [Event.issues, he, hanswer]) ?_ hrevokes ?_
      · rw [hissued]
        exact fun _ h => by cases h
      · rw [hissued, ← hroom]
        exact (List.append_nil _).symm
    · rw [heq] at hanswer ⊢
      have hissued : e.issued = some token := by rw [Event.issued, hanswer]
      refine .made linkRole.toClientRole now htime (by rw [Event.issues, he, hanswer]) ?_ hrevokes ?_
      · rw [hissued]
        rintro _ ⟨⟩
        exact hrole
      · rw [hissued, ← hroom]
        rfl

theorem attemptLink_touched (pin : String) (linkRole : LinkRole) (random : String)
    (he : e.call = .attemptLink (some now) pin linkRole random)
    (hanswer : e.answer = .attempt (a.attemptLink (some now) pin linkRole random).1) :
    Touched a e (a.attemptLink (some now) pin linkRole random).2 := by
  simp only [attemptLink, readNow] at hanswer ⊢
  split at hanswer
  · split at hanswer
    · rename_i hlt
      rw [if_pos hlt]
      refine .kept (by rw [Event.issues, he, hanswer]) (by rw [Event.issued, hanswer]) ?_ rfl
      intro token
      rw [he]
      rfl
    · rename_i hge
      rw [if_neg hge]
      exact comparePin_touched pin linkRole random he hanswer
  · exact comparePin_touched pin linkRole random he hanswer

theorem validateToken_tokens (now : ℤ) (sessionId : String) (role : ClientRole) (value : String)
    (bridgeInstanceId : String) :
    (a.validateToken (some now) sessionId role value bridgeInstanceId).2 = a.pruneExpiredTokens now := by
  simp only [validateToken, readNow]
  split
  · rfl
  · split
    · rfl
    · split
      · rfl
      · split
        · rfl
        · rfl

/-- Each call touches the tokens in one of these ways. -/
theorem touched_of_step (hs : Step a e a') : Touched a e a' := by
  have hperform : (a.perform e.call).1 = e.answer ∧ (a.perform e.call).2 = a' := Prod.ext_iff.1 hs
  obtain ⟨hanswer, rfl⟩ := hperform
  cases he : e.call with
  | attemptLink now pin linkRole random =>
    rw [he] at hanswer
    cases now with
    | none =>
      refine .kept ?_ ?_ (fun token => by rw [he]; rfl) rfl
      · rw [Event.issues, he, ← hanswer]
      · rw [Event.issued, ← hanswer]
        rfl
    | some now => exact attemptLink_touched pin linkRole random he hanswer.symm
  | issueTrustedToken now random =>
    rw [he] at hanswer
    cases now with
    | none =>
      refine .kept ?_ ?_ (fun token => by rw [he]; rfl) rfl
      · rw [Event.issues, he]
      · rw [Event.issued, ← hanswer]
        rfl
    | some now =>
      have hissue : e.answer = .token (a.issueToken .ide now random).1 := hanswer.symm
      have hissues : e.issues = some (.ide, now) := by rw [Event.issues, he]
      have htime : e.time = some now := by
        rw [Event.time, he]
        rfl
      show Touched a e (a.issueToken .ide now random).2
      rcases issueToken_cases a .ide now random with heq | ⟨token, hrole, heq⟩
      · rw [heq] at hissue ⊢
        have hissued : e.issued = none := by rw [Event.issued, hissue]
        refine .made .ide now htime hissues ?_ (fun token => by rw [he]; rfl) ?_
        · rw [hissued]
          exact fun _ h => by cases h
        · rw [hissued]
          exact (List.append_nil _).symm
      · rw [heq] at hissue ⊢
        have hissued : e.issued = some token := by rw [Event.issued, hissue]
        refine .made .ide now htime hissues ?_ (fun token => by rw [he]; rfl) ?_
        · rw [hissued]
          rintro _ ⟨⟩
          exact hrole
        · rw [hissued]
          rfl
  | validateToken now sessionId role value bridgeInstanceId =>
    rw [he] at hanswer
    have hissues : e.issues = none := by rw [Event.issues, he]
    have hissued : e.issued = none := by rw [Event.issued, ← hanswer]; rfl
    have hrevokes : ∀ token, e.call.revokes token = false := fun token => by rw [he]; rfl
    cases now with
    | none => exact .kept hissues hissued hrevokes rfl
    | some now =>
      refine .pruned now (by rw [Event.time, he]; rfl) hissues hissued hrevokes ?_
      exact congrArg LinkAuthenticator.tokens
        (validateToken_tokens now sessionId role value bridgeInstanceId)
  | revokeToken value =>
    refine .revoked (by rw [Event.issues, he]) ?_ (by rw [he]; rfl)
    rw [he] at hanswer
    rw [Event.issued, ← hanswer]
    rfl
  | revokeRole role =>
    refine .revoked (by rw [Event.issues, he]) ?_ ?_
    · rw [he] at hanswer
      rw [Event.issued, ← hanswer]
      rfl
    · rw [he]
      show a.tokens.filter _ = a.tokens.filter _
      refine List.filter_congr fun token _ => ?_
      by_cases hrole : token.role = role
      · simp [Call.revokes, hrole]
      · simp [Call.revokes, hrole]
  | revokeAll =>
    refine .revoked (by rw [Event.issues, he]) ?_ ?_
    · rw [he] at hanswer
      rw [Event.issued, ← hanswer]
      rfl
    · rw [he]
      exact (List.filter_eq_nil_iff.2 fun token _ => by simp [Call.revokes]).symm

/-! ## The tokens of a role -/

/-- The tokens of the role, the oldest first. -/
def held (a : LinkAuthenticator) (role : ClientRole) : List AuthorizedToken :=
  a.tokens.filter fun token => token.role = role

theorem filter_eraseP (p : AuthorizedToken → Bool) (tokens : List AuthorizedToken) :
    (tokens.eraseP p).filter p = (tokens.filter p).drop 1 := by
  induction tokens with
  | nil => rfl
  | cons token rest ih =>
    by_cases hp : p token = true
    · rw [List.eraseP_cons_of_pos hp, List.filter_cons_of_pos hp]
      rfl
    · rw [List.eraseP_cons_of_neg hp, List.filter_cons_of_neg hp, List.filter_cons_of_neg hp, ih]

/-- Other tokens are left alone. -/
theorem filter_eraseP_of_disjoint {p q : AuthorizedToken → Bool}
    (hpq : ∀ token, p token = true → q token = false) (tokens : List AuthorizedToken) :
    (tokens.eraseP p).filter q = tokens.filter q := by
  induction tokens with
  | nil => rfl
  | cons token rest ih =>
    by_cases hp : p token = true
    · rw [List.eraseP_cons_of_pos hp, List.filter_cons_of_neg (by rw [hpq token hp]; simp)]
    · rw [List.eraseP_cons_of_neg hp, List.filter_cons, List.filter_cons, ih]

theorem makeRoom_succ (role : ClientRole) (n : ℕ) (tokens : List AuthorizedToken) :
    makeRoom role (n + 1) tokens = if n + 1 < maxActiveTokensPerRole then tokens
      else match tokens.findIdx? fun token => token.role = role with
        | none => tokens
        | some oldestIndex => makeRoom role n (tokens.eraseIdx oldestIndex) := rfl

/-- The loop takes the oldest tokens of the role, and nothing else. -/
theorem makeRoom_spec (role : ClientRole) (n : ℕ) :
    ∀ tokens : List AuthorizedToken, (tokens.filter fun token => token.role = role).length = n →
      ((makeRoom role n tokens).filter fun token => token.role = role) =
          (tokens.filter fun token => token.role = role).drop (n + 1 - maxActiveTokensPerRole) ∧
        (∀ other, other ≠ role → ((makeRoom role n tokens).filter fun token => token.role = other) =
          tokens.filter fun token => token.role = other) ∧
        (makeRoom role n tokens).Sublist tokens := by
  induction n with
  | zero => exact fun tokens _ => ⟨rfl, fun _ _ => rfl, List.Sublist.refl _⟩
  | succ n ih =>
    intro tokens hlength
    rw [makeRoom_succ]
    by_cases hfew : n + 1 < maxActiveTokensPerRole
    · rw [if_pos hfew, show n + 1 + 1 - maxActiveTokensPerRole = 0 by omega]
      exact ⟨rfl, fun _ _ => rfl, List.Sublist.refl _⟩
    · rw [if_neg hfew]
      have herase := @List.eraseP_eq_eraseIdx _ tokens fun token => token.role = role
      cases hfind : tokens.findIdx? fun token => token.role = role with
      | none =>
        rw [List.findIdx?_eq_none_iff] at hfind
        rw [List.filter_eq_nil_iff.2 fun token hmem => by simpa using hfind token hmem] at hlength
        cases hlength
      | some oldestIndex =>
        rw [hfind] at herase
        dsimp only at herase ⊢
        rw [← herase]
        have hfilter := filter_eraseP (fun token => token.role = role) tokens
        obtain ⟨hrole, hother, hsub⟩ := ih (tokens.eraseP fun token => token.role = role) (by
          rw [hfilter, List.length_drop, hlength]
          rfl)
        refine ⟨?_, ?_, hsub.trans List.eraseP_sublist⟩
        · rw [hrole, hfilter, List.drop_drop]
          congr 1
          omega
        · intro other hne
          rw [hother other hne]
          refine filter_eraseP_of_disjoint (fun token htoken => ?_) tokens
          have heq : token.role = role := of_decide_eq_true htoken
          exact decide_eq_false fun hsame => hne (hsame.symm.trans heq)

/-- A token that has not expired at this time. -/
def liveAt (now : ℤ) (token : AuthorizedToken) : Bool := now < token.expiresAt

theorem filter_comm (p q : AuthorizedToken → Bool) (tokens : List AuthorizedToken) :
    (tokens.filter p).filter q = (tokens.filter q).filter p := by
  rw [List.filter_filter, List.filter_filter]
  refine List.filter_congr fun token _ => ?_
  rw [Bool.and_comm]

theorem held_pruned (role : ClientRole) (now : ℤ) :
    (a.pruneExpiredTokens now).held role = (a.held role).filter (liveAt now) :=
  filter_comm _ _ _

/-- The oldest tokens of the role go, until at most 63 of them remain. -/
theorem held_room (role other : ClientRole) (now : ℤ) :
    ((a.room role now).filter fun token => token.role = other) =
      if role = other then
        ((a.held other).filter (liveAt now)).drop
          (((a.held other).filter (liveAt now)).length + 1 - maxActiveTokensPerRole)
      else (a.held other).filter (liveAt now) := by
  have hlength : ((a.pruneExpiredTokens now).tokens.filter fun token => token.role = role).length =
      (a.pruneExpiredTokens now).tokens.countP fun token => token.role = role :=
    List.countP_eq_length_filter.symm
  obtain ⟨hrole, hother, -⟩ := makeRoom_spec role _ (a.pruneExpiredTokens now).tokens hlength
  have hheld := held_pruned (a := a) role now
  unfold room
  by_cases hsame : role = other
  · subst hsame
    rw [if_pos rfl, hrole, ← hlength]
    show (held _ _).drop ((held _ _).length + 1 - _) = _
    rw [hheld]
  · rw [if_neg hsame, hother other fun h => hsame h.symm]
    exact held_pruned other now

/-! ## What the calls behind an issue leave of it -/

/-- The tokens that were given out in these calls and not revoked since, the oldest first. -/
def survivors : Trace → List AuthorizedToken
  | [] => []
  | t :: before => (survivors before).filter (fun token => !t.event.call.revokes token) ++
    t.event.issued.toList

/-- At an issue of the role, so many newer tokens of it are live that this one has to go. -/
def Crowded (role : ClientRole) (before : Trace) (e : Event) : Prop :=
  ∃ now, e.issues = some (role, now) ∧
    maxActiveTokensPerRole ≤
      ((survivors before).countP fun token => token.role = role ∧ now < token.expiresAt) + 1

/-- Nothing that was called since revoked the token, and it was not crowded out. -/
inductive Spared (token : AuthorizedToken) : Trace → Prop where
  | nil : Spared token []
  | cons {t : Transition LinkAuthenticator Event} {before : Trace} (hspared : Spared token before)
      (hrevokes : t.event.call.revokes token = false)
      (hcrowded : ¬Crowded token.role before t.event) : Spared token (t :: before)

/-- All tokens that were given out, the newest first. -/
def issuedIn (h : Trace) : List AuthorizedToken := h.filterMap fun t => t.event.issued

theorem issuedIn_none {t : Transition LinkAuthenticator Event} (ht : t.event.issued = none) :
    issuedIn (t :: h) = issuedIn h := List.filterMap_cons_none ht

theorem issuedIn_some {t : Transition LinkAuthenticator Event} (ht : t.event.issued = some token) :
    issuedIn (t :: h) = token :: issuedIn h := List.filterMap_cons_some ht

theorem sublist_made {tokens : List AuthorizedToken} {issued : Option AuthorizedToken} {h : Trace}
    (hsub : tokens.reverse.Sublist (issuedIn h)) {t : Transition LinkAuthenticator Event}
    (ht : t.event.issued = issued) :
    (tokens ++ issued.toList).reverse.Sublist (issuedIn (t :: h)) := by
  cases issued with
  | none =>
    rw [issuedIn_none ht]
    simpa using hsub
  | some token =>
    rw [issuedIn_some ht]
    simpa using hsub

/-- The tokens are kept in the order in which they were given out. -/
theorem tokens_sublist (hr : Run Step (start sessionId bridgeInstanceId linkPin) h a) :
    a.tokens.reverse.Sublist (issuedIn h) := by
  refine hr.invariant_history (P := fun h a => a.tokens.reverse.Sublist (issuedIn h))
    (List.Sublist.refl _) ?_
  intro h a e a' _ hsub hs
  cases touched_of_step hs with
  | revoked _ hissued htokens =>
    rw [issuedIn_none hissued, htokens]
    exact (List.filter_sublist.reverse).trans hsub
  | pruned now _ _ hissued _ htokens =>
    rw [issuedIn_none hissued, htokens]
    exact (List.filter_sublist.reverse).trans hsub
  | made role now _ _ _ _ htokens =>
    rw [htokens]
    refine sublist_made ?_ rfl
    have hroom : (a.room role now).Sublist (a.pruneExpiredTokens now).tokens :=
      (makeRoom_spec role _ _ List.countP_eq_length_filter.symm).2.2
    exact (hroom.trans List.filter_sublist).reverse.trans hsub

/-- Where the values that were given out differ, so do the ones of the tokens. -/
theorem nodup_tokens (hr : Run Step (start sessionId bridgeInstanceId linkPin) h a)
    (hdistinct : ((issuedIn h).map AuthorizedToken.value).Nodup) :
    (a.tokens.map AuthorizedToken.value).Nodup := by
  have hsub := ((tokens_sublist hr).map AuthorizedToken.value).nodup hdistinct
  rw [List.map_reverse, List.nodup_reverse] at hsub
  exact hsub

/-- No role has more than 64 tokens. -/
theorem held_le (hr : Run Step (start sessionId bridgeInstanceId linkPin) h a) (role : ClientRole) :
    (a.held role).length ≤ maxActiveTokensPerRole := by
  refine hr.invariant (P := fun a => (a.held role).length ≤ maxActiveTokensPerRole) (Nat.zero_le _) ?_
  intro a e a' hle hs
  have hfilter : ∀ p : AuthorizedToken → Bool, ((a.held role).filter p).length ≤ maxActiveTokensPerRole :=
    fun p => Nat.le_trans (List.length_filter_le p _) hle
  cases touched_of_step hs with
  | revoked _ _ htokens =>
    unfold held
    rw [htokens, filter_comm]
    exact hfilter _
  | pruned now _ _ _ _ htokens =>
    unfold held
    rw [htokens]
    show ((a.pruneExpiredTokens now).held role).length ≤ _
    rw [held_pruned]
    exact hfilter _
  | made other now _ _ hrole _ htokens =>
    unfold held
    rw [htokens, List.filter_append, held_room, List.length_append]
    by_cases hsame : other = role
    · have hone : (e.issued.toList.filter fun token => token.role = role).length ≤ 1 :=
        Nat.le_trans (List.length_filter_le _ _) (by cases e.issued <;> simp)
      have hmax : 0 < maxActiveTokensPerRole := by decide
      rw [if_pos hsame, List.length_drop]
      omega
    · have hnone : (e.issued.toList.filter fun token => token.role = role) = [] := by
        rw [List.filter_eq_nil_iff]
        intro token hmem
        rw [Option.mem_toList] at hmem
        simp [hrole token hmem, hsame]
      rw [if_neg hsame, hnone]
      have := hfilter (liveAt now)
      simpa using this

/-! ## One token -/

/-- The token is held, and the live ones behind it are the ones that were issued since. -/
def Kept (a : LinkAuthenticator) (later : Trace) (token : AuthorizedToken) : Prop :=
  ∃ front back, a.held token.role = front ++ token :: back ∧
    ∀ now, (∀ t ∈ later, ∀ time, t.event.time = some time → time ≤ now) →
      back.filter (liveAt now) =
        (survivors later).filter fun other => other.role = token.role ∧ now < other.expiresAt

theorem liveAt_of_le {now time : ℤ} (hle : time ≤ now) (hlive : liveAt now token = true) :
    liveAt time token = true := by
  unfold liveAt at hlive ⊢
  rw [decide_eq_true_eq] at hlive ⊢
  omega

theorem filter_liveAt {now time : ℤ} (hle : time ≤ now) (tokens : List AuthorizedToken) :
    (tokens.filter (liveAt time)).filter (liveAt now) = tokens.filter (liveAt now) := by
  rw [List.filter_filter]
  refine List.filter_congr fun token _ => ?_
  cases hlive : liveAt now token with
  | false => rfl
  | true => rw [liveAt_of_le hle hlive]; rfl

variable {t : Transition LinkAuthenticator Event}

theorem survivors_cons_of_not_revoking (hrevokes : ∀ token, t.event.call.revokes token = false) :
    survivors (t :: later) = survivors later ++ t.event.issued.toList := by
  have hall : (survivors later).filter (fun token => !t.event.call.revokes token) = survivors later :=
    List.filter_eq_self.2 fun token _ => by rw [hrevokes token]; rfl
  rw [survivors, hall]

/-- The newer tokens of the role that are live at an issue. -/
theorem kept_count {back : List AuthorizedToken}
    (hback : ∀ now, (∀ t ∈ later, ∀ time, t.event.time = some time → time ≤ now) →
      back.filter (liveAt now) =
        (survivors later).filter fun other => other.role = token.role ∧ now < other.expiresAt)
    (hnow : ∀ t ∈ later, ∀ time, t.event.time = some time → time ≤ now) :
    (back.filter (liveAt now)).length =
      (survivors later).countP fun other => other.role = token.role ∧ now < other.expiresAt := by
  rw [hback now hnow, List.countP_eq_length_filter]

/-- A call that spares the token keeps it. -/
theorem Kept.step (hk : Kept a later token) (ht : Touched a t.event a')
    (hordered : ∀ u ∈ later, t.event.notBefore u.event = true)
    (hlive : ∀ time, t.event.time = some time → time < token.expiresAt)
    (hrevokes : t.event.call.revokes token = false)
    (hcrowded : ¬Crowded token.role later t.event) : Kept a' (t :: later) token := by
  obtain ⟨front, back, hheld, hback⟩ := hk
  have hlater : ∀ {now}, (∀ u ∈ t :: later, ∀ time, u.event.time = some time → time ≤ now) →
      ∀ u ∈ later, ∀ time, u.event.time = some time → time ≤ now := fun h u hu =>
    h u (List.mem_cons_of_mem _ hu)
  have hbefore : ∀ time, t.event.time = some time →
      ∀ u ∈ later, ∀ time', u.event.time = some time' → time' ≤ time := by
    intro time htime u hu time' htime'
    have hnot := hordered u hu
    rw [Event.notBefore, htime, htime'] at hnot
    simpa using hnot
  cases ht with
  | revoked hissues hissued htokens =>
    refine ⟨front.filter fun other => !t.event.call.revokes other,
      back.filter fun other => !t.event.call.revokes other, ?_, ?_⟩
    · unfold held
      rw [htokens, filter_comm]
      show (a.held token.role).filter _ = _
      rw [hheld, List.filter_append, List.filter_cons_of_pos (by rw [hrevokes]; rfl)]
    · intro now hnow
      rw [filter_comm, hback now (hlater hnow), survivors, hissued]
      show _ = (_ ++ []).filter _
      rw [List.append_nil, filter_comm]
  | pruned time htime hissues hissued hnone htokens =>
    refine ⟨front.filter (liveAt time), back.filter (liveAt time), ?_, ?_⟩
    · unfold held
      rw [htokens]
      show (a.pruneExpiredTokens time).held token.role = _
      have htoken : liveAt time token = true := decide_eq_true (hlive time htime)
      rw [held_pruned, hheld, List.filter_append, List.filter_cons_of_pos htoken]
    · intro now hnow
      rw [filter_liveAt (hnow t List.mem_cons_self time htime), hback now (hlater hnow),
        survivors_cons_of_not_revoking hnone, hissued]
      rw [show (none : Option AuthorizedToken).toList = [] from rfl, List.append_nil]
  | made role time htime hissues hrole hnone htokens =>
    have htoken : liveAt time token = true := decide_eq_true (hlive time htime)
    have hpruned : (a.held token.role).filter (liveAt time) =
        front.filter (liveAt time) ++ token :: back.filter (liveAt time) := by
      rw [hheld, List.filter_append, List.filter_cons_of_pos htoken]
    have hsurvivors : ∀ now, time ≤ now → (∀ u ∈ later, ∀ time, u.event.time = some time → time ≤ now) →
        (back.filter (liveAt time)).filter (liveAt now) =
          (survivors later).filter fun other => other.role = token.role ∧ now < other.expiresAt := by
      intro now hle hnow
      rw [filter_liveAt hle, hback now hnow]
    by_cases hsame : role = token.role
    · subst hsame
      have hcount := kept_count hback (hbefore time htime)
      have hroom : (back.filter (liveAt time)).length + 1 < maxActiveTokensPerRole := by
        by_contra hmany
        exact hcrowded ⟨time, hissues, by omega⟩
      refine ⟨(front.filter (liveAt time)).drop
        ((front.filter (liveAt time) ++ token :: back.filter (liveAt time)).length + 1 -
          maxActiveTokensPerRole),
        back.filter (liveAt time) ++ t.event.issued.toList, ?_, ?_⟩
      · have hissued : (t.event.issued.toList.filter fun other => other.role = token.role) =
            t.event.issued.toList := by
          rw [List.filter_eq_self]
          intro other hmem
          rw [Option.mem_toList] at hmem
          exact decide_eq_true (hrole other hmem)
        unfold held
        rw [htokens, List.filter_append, held_room, if_pos rfl, hissued, hpruned,
          List.drop_append_of_le_length]
        · rw [List.append_assoc]
          rfl
        · rw [List.length_append, List.length_cons]
          omega
      · intro now hnow
        have hle := hnow t List.mem_cons_self time htime
        rw [List.filter_append, hsurvivors now hle (hlater hnow),
          survivors_cons_of_not_revoking hnone, List.filter_append]
        congr 1
        refine List.filter_congr fun other hmem => ?_
        rw [Option.mem_toList] at hmem
        simp [liveAt, hrole other hmem]
    · have hissued : (t.event.issued.toList.filter fun other => other.role = token.role) = [] := by
        rw [List.filter_eq_nil_iff]
        intro other hmem
        rw [Option.mem_toList] at hmem
        simp [hrole other hmem, hsame]
      refine ⟨front.filter (liveAt time), back.filter (liveAt time), ?_, ?_⟩
      · unfold held
        rw [htokens, List.filter_append, held_room, if_neg hsame, hissued, hpruned, List.append_nil]
      · intro now hnow
        have hle := hnow t List.mem_cons_self time htime
        have hnew : (t.event.issued.toList.filter fun other =>
            other.role = token.role ∧ now < other.expiresAt) = [] := by
          rw [List.filter_eq_nil_iff] at hissued ⊢
          intro other hmem hboth
          exact hissued other hmem (decide_eq_true (of_decide_eq_true hboth).1)
        rw [hsurvivors now hle (hlater hnow), survivors_cons_of_not_revoking hnone,
          List.filter_append, hnew, List.append_nil]

/-- What is gone does not come back. -/
theorem gone_step (hgone : token ∉ a.tokens) (ht : Touched a e a') (hissued : e.issued ≠ some token) :
    token ∉ a'.tokens := by
  intro hmem
  cases ht with
  | revoked _ _ htokens =>
    rw [htokens] at hmem
    exact hgone (List.mem_of_mem_filter hmem)
  | pruned now _ _ _ _ htokens =>
    rw [htokens] at hmem
    exact hgone (List.mem_of_mem_filter hmem)
  | made role now _ _ _ _ htokens =>
    rw [htokens] at hmem
    rcases List.mem_append.1 hmem with hmem | hmem
    · have hroom : (a.room role now).Sublist (a.pruneExpiredTokens now).tokens :=
        (makeRoom_spec role _ _ List.countP_eq_length_filter.symm).2.2
      exact hgone (List.mem_of_mem_filter (hroom.subset hmem))
    · exact hissued (Option.mem_toList.1 hmem)

/-- A call that revokes the token. -/
theorem revoked_step (ht : Touched a e a') (hrevokes : e.call.revokes token = true) :
    token ∉ a'.tokens := by
  intro hmem
  cases ht with
  | revoked _ _ htokens =>
    rw [htokens] at hmem
    have hnot := (List.mem_filter.1 hmem).2
    rw [hrevokes] at hnot
    cases hnot
  | pruned now _ _ _ hnone _ =>
    rw [hnone token] at hrevokes
    cases hrevokes
  | made role now _ _ _ hnone _ =>
    rw [hnone token] at hrevokes
    cases hrevokes

theorem not_mem_drop {front back : List AuthorizedToken} {n : ℕ} (hnot : token ∉ back)
    (hn : front.length + 1 ≤ n) : token ∉ (front ++ token :: back).drop n := by
  obtain ⟨more, rfl⟩ := Nat.exists_eq_add_of_le hn
  rw [Nat.add_assoc, List.drop_length_add_append, Nat.add_comm, List.drop_succ_cons]
  exact fun hmem => hnot (List.mem_of_mem_drop hmem)

/-- An issue at which the token is crowded out. -/
theorem crowded_step (hk : Kept a later token) (ht : Touched a t.event a')
    (hordered : ∀ u ∈ later, t.event.notBefore u.event = true) (hnodup : a.tokens.Nodup)
    (hcrowded : Crowded token.role later t.event) (hissued : t.event.issued ≠ some token) :
    token ∉ a'.tokens := by
  obtain ⟨front, back, hheld, hback⟩ := hk
  obtain ⟨now, hissues, hmany⟩ := hcrowded
  cases ht with
  | revoked hnone _ _ =>
    rw [hissues] at hnone
    cases hnone
  | pruned _ _ hnone _ _ _ =>
    rw [hissues] at hnone
    cases hnone
  | made role time htime hmade hrole _ htokens =>
    rw [hissues] at hmade
    cases hmade
    have hbefore : ∀ u ∈ later, ∀ time', u.event.time = some time' → time' ≤ now := by
      intro u hu time' htime'
      have hnot := hordered u hu
      rw [Event.notBefore, htime, htime'] at hnot
      simpa using hnot
    have hcount := kept_count hback hbefore
    intro hmem
    rw [htokens] at hmem
    rcases List.mem_append.1 hmem with hmem | hmem
    · -- all of the front goes, and the token with it
      have hnot : token ∉ back := by
        have hnodup : (front ++ token :: back).Nodup := hheld ▸ hnodup.filter _
        exact (List.nodup_cons.1 (List.nodup_append.1 hnodup).2.1).1
      have hroom : token ∈ (a.room token.role now).filter fun other => other.role = token.role :=
        List.mem_filter.2 ⟨hmem, decide_eq_true rfl⟩
      rw [held_room, if_pos rfl] at hroom
      have hlive : liveAt now token = true := (List.mem_filter.1 (List.mem_of_mem_drop hroom)).2
      rw [hheld, List.filter_append, List.filter_cons_of_pos hlive] at hroom
      refine not_mem_drop (fun hin => hnot (List.mem_of_mem_filter hin)) ?_ hroom
      rw [List.length_append, List.length_cons]
      omega
    · exact hissued (Option.mem_toList.1 hmem)

/-! ## Runs -/

/-- The clock never goes back. -/
def Ordered (h : Trace) : Prop := h.Pairwise fun newer older => newer.event.notBefore older.event = true

/-- No value was given out twice. -/
def Distinct (h : Trace) : Prop := ((issuedIn h).map AuthorizedToken.value).Nodup

theorem Distinct.tail (hd : Distinct (t :: h)) : Distinct h := by
  unfold Distinct at hd ⊢
  cases ht : t.event.issued with
  | none =>
    rw [issuedIn_none ht] at hd
    exact hd
  | some token =>
    rw [issuedIn_some ht, List.map_cons] at hd
    exact (List.nodup_cons.1 hd).2

theorem mem_issuedIn (hmem : t ∈ h) (ht : t.event.issued = some token) : token ∈ issuedIn h :=
  List.mem_filterMap.2 ⟨t, hmem, ht⟩

theorem Distinct.ne_issued (hd : Distinct (t :: h)) (hmem : token ∈ issuedIn h) :
    t.event.issued ≠ some token := by
  intro ht
  unfold Distinct at hd
  rw [issuedIn_some ht, List.map_cons] at hd
  exact (List.nodup_cons.1 hd).1 (List.mem_map_of_mem hmem)

theorem kept_issued (hs : Step a e a') (hissued : e.issued = some token) : Kept a' [] token := by
  cases touched_of_step hs with
  | revoked _ hnone _ =>
    rw [hissued] at hnone
    cases hnone
  | pruned _ _ _ hnone _ _ =>
    rw [hissued] at hnone
    cases hnone
  | made role now _ _ hrole _ htokens =>
    refine ⟨(a.room role now).filter fun other => other.role = token.role, [], ?_, fun _ _ => rfl⟩
    unfold held
    rw [htokens, List.filter_append, hissued]
    congr 1
    exact List.filter_cons_of_pos (decide_eq_true rfl)

/-- Behind its issue a token that does not expire is held as long as it is spared. -/
theorem spared_or_gone {issue : Transition LinkAuthenticator Event} {earlier : Trace}
    (hissued : issue.event.issued = some token) :
    ∀ {later : Trace} {a : LinkAuthenticator},
      Run Step (start sessionId bridgeInstanceId linkPin) (later ++ issue :: earlier) a →
      Ordered (later ++ issue :: earlier) → Distinct (later ++ issue :: earlier) →
      (∀ u ∈ later, ∀ time, u.event.time = some time → time < token.expiresAt) →
        Spared token later ∧ Kept a later token ∨ ¬Spared token later ∧ token ∉ a.tokens := by
  intro later
  induction later with
  | nil =>
    intro a hr _ _ _
    cases hr with
    | next _ hs => exact .inl ⟨.nil, kept_issued hs hissued⟩
  | cons t later ih =>
    intro a hr hordered hdistinct hlive
    obtain ⟨hbefore, hs, hend⟩ := (show Run Step _ ([] ++ t :: (later ++ issue :: earlier)) a from
      hr).split
    cases hend
    have htouched := touched_of_step hs
    have hnodup : t.pre.tokens.Nodup := (nodup_tokens hbefore hdistinct.tail).of_map
    have hnotBefore : ∀ u ∈ later, t.event.notBefore u.event = true := fun u hu =>
      List.rel_of_pairwise_cons hordered (List.mem_append_left _ hu)
    have hother : t.event.issued ≠ some token :=
      hdistinct.ne_issued (mem_issuedIn (List.mem_append_right _ List.mem_cons_self) hissued)
    rcases ih hbefore hordered.of_cons hdistinct.tail fun u hu => hlive u (List.mem_cons_of_mem _ hu) with
      ⟨hspared, hkept⟩ | ⟨hnot, hgone⟩
    · by_cases hrevokes : t.event.call.revokes token = true
      · refine .inr ⟨?_, revoked_step htouched hrevokes⟩
        intro hspared
        cases hspared with
        | cons _ hno _ =>
          rw [hrevokes] at hno
          cases hno
      · by_cases hcrowded : Crowded token.role later t.event
        · refine .inr ⟨?_, crowded_step hkept htouched hnotBefore hnodup hcrowded hother⟩
          intro hspared
          cases hspared with
          | cons _ _ hno => exact hno hcrowded
        · rw [Bool.not_eq_true] at hrevokes
          exact .inl ⟨.cons hspared hrevokes hcrowded, hkept.step htouched hnotBefore
            (hlive t List.mem_cons_self) hrevokes hcrowded⟩
    · refine .inr ⟨?_, gone_step hgone htouched hother⟩
      intro hspared
      cases hspared with
      | cons hspared _ _ => exact hnot hspared

/-- The call that validates a token answers that it is accepted. -/
def Event.accepts (e : Event) : Prop := e.answer = .validation (.ok .accepted)

/-- Accepted is what is held, unexpired, under these names. -/
theorem accepts_iff {date : Date} (hs : Step a e a')
    (hnodup : (a.tokens.map AuthorizedToken.value).Nodup)
    (hcall : e.call = .validateToken date sessionId role value bridgeInstanceId) :
    e.accepts ↔ ∃ now, date = some now ∧ ∃ token ∈ a.tokens, token.value = value ∧
      token.sessionId = sessionId ∧ token.role = role ∧
      token.bridgeInstanceId = bridgeInstanceId ∧ now < token.expiresAt := by
  have hanswer : e.answer = .validation (a.validateToken date sessionId role value bridgeInstanceId).1 := by
    have hperform := (Prod.ext_iff.1 hs).1
    rw [hcall] at hperform
    exact hperform.symm
  unfold Event.accepts
  rw [hanswer, Answer.validation.injEq]
  cases date with
  | none =>
    refine ⟨fun h => ?_, ?_⟩
    · cases h
    · rintro ⟨now, hnow, -⟩
      cases hnow
  | some now =>
    have hpruned : ((a.pruneExpiredTokens now).tokens.map AuthorizedToken.value).Nodup :=
      hnodup.sublist (List.filter_sublist.map _)
    simp only [validateToken, readNow]
    constructor
    · intro h
      split at h
      · cases h
      · rename_i token hfind
        have hmem := List.mem_filter.1 (List.mem_of_find?_eq_some hfind)
        have hvalue : token.value = value := by
          simpa [tokensEqual] using List.find?_some hfind
        split at h
        · cases h
        · rename_i hnames
          rw [not_or, not_not, not_not] at hnames
          split at h
          · cases h
          · split at h
            · rename_i hinstance
              exact ⟨now, rfl, token, hmem.1, hvalue, hnames.1, hnames.2, hinstance,
                of_decide_eq_true hmem.2⟩
            · cases h
    · rintro ⟨now, ⟨⟩, token, hmem, hvalue, rfl, rfl, rfl, hlive⟩
      have hin : token ∈ (a.pruneExpiredTokens now).tokens :=
        List.mem_filter.2 ⟨hmem, decide_eq_true hlive⟩
      have hfind : (a.pruneExpiredTokens now).tokens.find?
          (fun candidate => tokensEqual candidate.value value) = some token := by
        cases hfound : (a.pruneExpiredTokens now).tokens.find?
            (fun candidate => tokensEqual candidate.value value) with
        | none =>
          rw [List.find?_eq_none] at hfound
          exact absurd (decide_eq_true hvalue) (hfound token hin)
        | some other =>
          have hsame : other.value = value := by simpa [tokensEqual] using List.find?_some hfound
          exact congrArg some (List.inj_on_of_nodup_map hpruned (List.mem_of_find?_eq_some hfound) hin
            (hsame.trans hvalue.symm))
      rw [hfind]
      dsimp only
      rw [if_neg (by simp), if_neg (by omega), if_pos rfl]

/-- A token that is held was issued. -/
theorem issued_of_mem (hr : Run Step (start sessionId bridgeInstanceId linkPin) h a)
    (hmem : token ∈ a.tokens) : ∃ later t earlier, h = later ++ t :: earlier ∧
      t.event.issued = some token := by
  have hin := (tokens_sublist hr).subset (List.mem_reverse.2 hmem)
  obtain ⟨t, ht, hissued⟩ := List.mem_filterMap.1 hin
  obtain ⟨later, earlier, rfl⟩ := List.append_of_mem ht
  exact ⟨later, t, earlier, rfl, hissued⟩

/-- What a whole history tells of the tokens: one is accepted exactly while it is live, an issue of
one role leaves the live tokens of the others, and no role has more than 64. -/
structure TokensLive (h : Trace) (a : LinkAuthenticator) : Prop where
  accepted : ∀ after (t : Transition LinkAuthenticator Event) before date sessionId role value
      bridgeInstanceId, h = after ++ t :: before →
    t.event.call = .validateToken date sessionId role value bridgeInstanceId →
      (t.event.accepts ↔ ∃ now, date = some now ∧
        ∃ later issue earlier token, before = later ++ issue :: earlier ∧
          issue.event.issued = some token ∧ token.value = value ∧ token.sessionId = sessionId ∧
          token.role = role ∧ token.bridgeInstanceId = bridgeInstanceId ∧ now < token.expiresAt ∧
          Spared token later)
  others : ∀ t ∈ h, ∀ role now, t.event.issues = some (role, now) → ∀ token ∈ t.pre.tokens,
    token.role ≠ role → now < token.expiresAt → token ∈ t.post.tokens
  bounded : ∀ role, (a.tokens.countP fun token => token.role = role) ≤ maxActiveTokensPerRole

theorem token_accepted_while_live
    (hr : Run Step (start sessionId bridgeInstanceId linkPin) h a) (hordered : Ordered h)
    (hdistinct : Distinct h) : TokensLive h a := by
  refine ⟨?_, ?_, ?_⟩
  · intro after t before date session role value inst heq hcall
    subst heq
    obtain ⟨hbefore, hs, -⟩ := hr.split
    have hd : Distinct (t :: before) := by
      have hsub : (issuedIn (t :: before)).Sublist (issuedIn (after ++ t :: before)) :=
        (List.sublist_append_right after (t :: before)).filterMap _
      exact (hsub.map _).nodup hdistinct
    have ho : Ordered (t :: before) := (List.pairwise_append.1 hordered).2.1
    rw [accepts_iff hs (nodup_tokens hbefore hd.tail) hcall]
    have htimes : ∀ now, date = some now → ∀ token : AuthorizedToken, now < token.expiresAt →
        ∀ u ∈ before, ∀ time, u.event.time = some time → time < token.expiresAt := by
      intro now hdate token hlive u hu time htime
      have hnot := List.rel_of_pairwise_cons ho hu
      have hnow : t.event.time = some now := by
        rw [Event.time, hcall, hdate]
        rfl
      rw [Event.notBefore, hnow, htime] at hnot
      have hle : time ≤ now := by simpa using hnot
      omega
    constructor
    · rintro ⟨now, hdate, token, hmem, hvalue, hsession, hrole, hinst, hlive⟩
      obtain ⟨later, issue, earlier, rfl, hissued⟩ := issued_of_mem hbefore hmem
      refine ⟨now, hdate, later, issue, earlier, token, rfl, hissued, hvalue, hsession, hrole, hinst,
        hlive, ?_⟩
      rcases spared_or_gone hissued hbefore ho.of_cons hd.tail (fun u hu =>
        htimes now hdate token hlive u (List.mem_append_left _ hu)) with ⟨hspared, -⟩ | ⟨-, hgone⟩
      · exact hspared
      · exact absurd hmem hgone
    · rintro ⟨now, hdate, later, issue, earlier, token, rfl, hissued, hvalue, hsession, hrole, hinst,
        hlive, hspared⟩
      refine ⟨now, hdate, token, ?_, hvalue, hsession, hrole, hinst, hlive⟩
      rcases spared_or_gone hissued hbefore ho.of_cons hd.tail (fun u hu =>
        htimes now hdate token hlive u (List.mem_append_left _ hu)) with ⟨-, hkept⟩ | ⟨hnot, -⟩
      · obtain ⟨front, back, hheld, -⟩ := hkept
        have hin : token ∈ t.pre.held token.role := by
          rw [hheld]
          exact List.mem_append_right _ List.mem_cons_self
        exact List.mem_of_mem_filter hin
      · exact absurd hspared hnot
  · intro t ht role now hissues token hmem hne hlive
    obtain ⟨-, -, hs⟩ := hr.step_of_mem ht
    cases touched_of_step hs with
    | revoked hnone _ _ =>
      rw [hissues] at hnone
      cases hnone
    | pruned _ _ hnone _ _ _ =>
      rw [hissues] at hnone
      cases hnone
    | made other time _ hmade _ _ htokens =>
      rw [hissues] at hmade
      cases hmade
      rw [htokens]
      refine List.mem_append_left _ ?_
      have hin : token ∈ (t.pre.held token.role).filter (liveAt now) :=
        List.mem_filter.2 ⟨List.mem_filter.2 ⟨hmem, decide_eq_true rfl⟩, decide_eq_true hlive⟩
      have hroom := held_room (a := t.pre) role token.role now
      rw [if_neg fun h => hne h.symm] at hroom
      rw [← hroom] at hin
      exact List.mem_of_mem_filter hin
  · intro role
    rw [List.countP_eq_length_filter]
    exact held_le hr role

namespace TokenSample

def linked : LinkAuthenticator := start "s" "i" ⟨"42", by decide⟩

def link : Call := .attemptLink (some 0) "42" .browser "v"

def validate : Call := .validateToken (some 1) "s" .browser "v" "i"

def held : LinkAuthenticator := (linked.perform link).2

def last : LinkAuthenticator := (held.perform validate).2

def trace : Trace :=
  [⟨held, ⟨validate, (held.perform validate).1⟩, last⟩, ⟨linked, ⟨link, (linked.perform link).1⟩, held⟩]

end TokenSample

theorem token_accepted_while_live_sample : TokensLive TokenSample.trace TokenSample.last ∧
    ∃ t ∈ TokenSample.trace, t.event.accepts := by
  have hr : Run Step (start "s" "i" ⟨"42", by decide⟩) TokenSample.trace TokenSample.last :=
    .next (.next .start rfl) rfl
  refine ⟨token_accepted_while_live hr (by unfold Ordered; decide) (by unfold Distinct; decide), ?_⟩
  exact ⟨_, List.mem_cons_self, rfl⟩

end LinkAuthenticator

end PinOp.Bridge
