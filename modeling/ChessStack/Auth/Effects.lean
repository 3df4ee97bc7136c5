import ChessStack.Auth.Transactions
import ChessStack.Library.Interference

/-!
# What the sign-in transactions do

Library `Auth`. The effect of each call on the tables it commits to, how the tables may move on
under any number of calls, and when a transaction would slip a new token past a revocation.
-/

namespace ChessStack.Auth

open ChessStack.Library ChessStack.Library.ReadCommitted

/-! ### Statements -/

variable {d d' d'' : Tables} {now : Nat}

/-- A user is read from its row. -/
theorem user?_congr {id : Nat} (h : d.row? (.user id) = d'.row? (.user id)) :
    user? d id = user? d' id := by
  rw [user?, h, user?]

/-- An account token is read from its row. -/
theorem account?_congr {hash : String} (h : d.row? (.account hash) = d'.row? (.account hash)) :
    account? d hash = account? d' hash := by
  rw [account?, h, account?]

/-- A refresh token is read from its row. -/
theorem refresh?_congr {hash : String} (h : d.row? (.refresh hash) = d'.row? (.refresh hash)) :
    refresh? d hash = refresh? d' hash := by
  rw [refresh?, h, refresh?]

/-- `SELECT … FOR UPDATE` changes nothing. -/
theorem row?_of_locked {cond : Key → Row → Bool} (h : Rule.Updated cond id d d') :
    d'.row? = d.row? := by
  funext k
  rcases h k with h | ⟨row, hrow, -, hrow'⟩
  · exact h
  · exact hrow'.trans hrow.symm

section Updated

variable {cond : String → RefreshToken → Bool} {f : RefreshToken → RefreshToken}

/-- An update of refresh tokens leaves the users. -/
theorem user?_of_onRefresh (h : Rule.Updated (onRefresh cond) (setRefresh f) d d') :
    user? d' = user? d := by
  funext id
  apply user?_congr
  rcases h (.user id) with h | ⟨row, -, hcond, -⟩
  · exact h
  · cases hcond

/-- An update of refresh tokens leaves the account tokens. -/
theorem account?_of_onRefresh (h : Rule.Updated (onRefresh cond) (setRefresh f) d d') :
    account? d' = account? d := by
  funext hash
  apply account?_congr
  rcases h (.account hash) with h | ⟨row, -, hcond, -⟩
  · exact h
  · cases hcond

/-- A refresh token stays, or met the condition and was updated. -/
theorem refresh?_of_onRefresh (h : Rule.Updated (onRefresh cond) (setRefresh f) d d')
    (hash : String) : refresh? d' hash = refresh? d hash ∨
      ∃ t, refresh? d hash = some t ∧ cond hash t = true ∧ refresh? d' hash = some (f t) := by
  rcases h (.refresh hash) with h | ⟨row, hrow, hcond, hrow'⟩
  · exact .inl (refresh?_congr h)
  · obtain ⟨_, t, heq, rfl, ht⟩ := onRefresh_eq_true.mp hcond
    cases heq
    exact .inr ⟨t, refresh?_eq_some.mpr hrow, ht, refresh?_eq_some.mpr hrow'⟩

end Updated

section Updated

variable {cond : String → AccountToken → Bool} {f : AccountToken → AccountToken}

/-- An update of account tokens leaves the users. -/
theorem user?_of_onAccount (h : Rule.Updated (onAccount cond) (setAccount f) d d') :
    user? d' = user? d := by
  funext id
  apply user?_congr
  rcases h (.user id) with h | ⟨row, -, hcond, -⟩
  · exact h
  · cases hcond

/-- An update of account tokens leaves the refresh tokens. -/
theorem refresh?_of_onAccount (h : Rule.Updated (onAccount cond) (setAccount f) d d') :
    refresh? d' = refresh? d := by
  funext hash
  apply refresh?_congr
  rcases h (.refresh hash) with h | ⟨row, -, hcond, -⟩
  · exact h
  · cases hcond

/-- An account token stays, or met the condition and was updated. -/
theorem account?_of_onAccount (h : Rule.Updated (onAccount cond) (setAccount f) d d')
    (hash : String) : account? d' hash = account? d hash ∨
      ∃ t, account? d hash = some t ∧ cond hash t = true ∧ account? d' hash = some (f t) := by
  rcases h (.account hash) with h | ⟨row, hrow, hcond, hrow'⟩
  · exact .inl (account?_congr h)
  · obtain ⟨_, t, heq, rfl, ht⟩ := onAccount_eq_true.mp hcond
    cases heq
    exact .inr ⟨t, account?_eq_some.mpr hrow, ht, account?_eq_some.mpr hrow'⟩

end Updated

section Updated

variable {cond : Nat → UserRow → Bool} {f : UserRow → UserRow}

/-- An update of users leaves the account tokens. -/
theorem account?_of_onUser (h : Rule.Updated (onUser cond) (setUser f) d d') :
    account? d' = account? d := by
  funext hash
  apply account?_congr
  rcases h (.account hash) with h | ⟨row, -, hcond, -⟩
  · exact h
  · cases hcond

/-- An update of users leaves the refresh tokens. -/
theorem refresh?_of_onUser (h : Rule.Updated (onUser cond) (setUser f) d d') :
    refresh? d' = refresh? d := by
  funext hash
  apply refresh?_congr
  rcases h (.refresh hash) with h | ⟨row, -, hcond, -⟩
  · exact h
  · cases hcond

end Updated

/-! ### The effect of a call -/

/-- Some refresh tokens of a kind were revoked, nothing else happened to them. -/
def RevokedWhere (now : Nat) (sel : String → RefreshToken → Prop) (d d' : Tables) : Prop :=
  ∀ hash, refresh? d' hash = refresh? d hash ∨ ∃ t, refresh? d hash = some t ∧ sel hash t ∧
    t.revokedAt = none ∧ refresh? d' hash = some (t.revoke now)

/-- Every refresh token of a kind is revoked. -/
def AllRevoked (sel : RefreshToken → Prop) (d : Tables) : Prop :=
  ∀ hash t, refresh? d hash = some t → sel t → t.revokedAt.isSome

/-- The call consumed the token and some others of its user and purpose: all of them when no token
is issued meanwhile. -/
structure Consumed (now : Nat) (hash : String) (purpose : Purpose) (token : AccountToken)
    (full : Prop) (d d' : Tables) : Prop where
  found : account? d hash = some token
  purpose_eq : token.purpose = purpose
  unconsumed : token.consumedAt = none
  unexpired : now < token.expiresAt
  own : account? d' hash = some (token.consume now)
  rest : ∀ h, account? d' h = account? d h ∨ ∃ t, account? d h = some t ∧
    t.userId = token.userId ∧ t.purpose = purpose ∧ t.consumedAt = none ∧
    account? d' h = some (t.consume now)
  all : full → ∀ h t, account? d' h = some t → t.userId = token.userId → t.purpose = purpose →
    t.consumedAt.isSome

section Calls

variable (hashToken : String → String) (uuid : String → String) (refreshMaxAgeMs : Nat)

/-- What a call that commits a value has done. `covered` says that no transaction slipped a new
token past its revocation, `alone` that only account tokens were consumed meanwhile. -/
inductive Effect (covered alone : Prop) : (c : Call) → c.Result → Tables → Tables → Prop
  | issueAccountToken {d : Tables} {now userId : Nat} {purpose : Purpose} {ttlMs : Nat}
      {raw : String} : d.row? (.account (hashToken raw)) = none →
      Effect covered alone (.issueAccountToken now userId purpose ttlMs raw) () d
        (d.put (.account (hashToken raw)) (.account ⟨userId, purpose, now + ttlMs, none⟩))
  | verifyEmail {d d' : Tables} {now : Nat} {raw : String} {token : AccountToken}
      {user : UserRow} :
      Consumed now (hashToken raw) .emailVerification token alone d d' →
      user? d token.userId = some user →
      (∀ id, user? d' id = if id = token.userId then
        some { user with emailVerifiedAt := some (user.emailVerifiedAt.getD now) } else user? d id) →
      refresh? d' = refresh? d → Effect covered alone (.verifyEmail now raw) true d d'
  | resetPassword {d d' : Tables} {now : Nat} {raw hash : String} {token : AccountToken}
      {user : UserRow} :
      Consumed now (hashToken raw) .passwordReset token alone d d' →
      user? d token.userId = some user →
      (∀ id, user? d' id = if id = token.userId then
        some { user with passwordHash := hash, sessionVersion := user.sessionVersion + 1 }
        else user? d id) →
      RevokedWhere now (fun _ t ↦ t.userId = token.userId) d d' →
      (covered ∨ alone → AllRevoked (·.userId = token.userId) d') →
      Effect covered alone (.resetPassword now raw hash) true d d'
  | issueRefreshToken {d : Tables} {now userId : Nat} {raw : String} :
      d.row? (.refresh (hashToken raw)) = none →
      Effect covered alone (.issueRefreshToken now userId raw) () d (d.put (.refresh (hashToken raw))
        (.refresh ⟨userId, uuid (hashToken raw), now + refreshMaxAgeMs, none, none, none⟩))
  | reuse {d d' : Tables} {now date : Nat} {raw nextRaw : String} {old : RefreshToken} :
      refresh? d (hashToken raw) = some old → date < old.expiresAt → old.revokedAt = none →
      old.consumedAt.isSome → user? d' = user? d → account? d' = account? d →
      RevokedWhere now (fun _ t ↦ t.familyId = old.familyId) d d' →
      (covered → AllRevoked (·.familyId = old.familyId) d') →
      Effect covered alone (.rotateRefreshToken now date raw nextRaw) none d d'
  | rotate {d d' : Tables} {now date : Nat} {raw nextRaw : String} {old : RefreshToken}
      {user user' : UserRow} :
      refresh? d (hashToken raw) = some old → date < old.expiresAt → old.revokedAt = none →
      old.consumedAt = none → d.row? (.refresh (hashToken nextRaw)) = none →
      user? d old.userId = some user' → user.sessionVersion ≤ user'.sessionVersion →
      user? d' = user? d → account? d' = account? d →
      (∀ h, refresh? d' h = if h = hashToken nextRaw then
          some ⟨old.userId, old.familyId, now + refreshMaxAgeMs, none, none, none⟩
        else if h = hashToken raw then some (old.replace now (hashToken nextRaw))
        else refresh? d h) →
      Effect covered alone (.rotateRefreshToken now date raw nextRaw)
        (some ⟨nextRaw, old.userId, user⟩) d d'
  | revokeRefreshToken {d d' : Tables} {now : Nat} {raw : String} {value : Bool} :
      user? d' = user? d → account? d' = account? d →
      RevokedWhere now (fun hash _ ↦ hash = hashToken raw) d d' →
      Effect covered alone (.revokeRefreshToken now raw) value d d'
  | revokeAllForUser {d d' : Tables} {now userId : Nat} :
      user? d' = user? d → account? d' = account? d →
      RevokedWhere now (fun _ t ↦ t.userId = userId) d d' →
      (covered → AllRevoked (·.userId = userId) d') →
      Effect covered alone (.revokeAllForUser now userId) () d d'
  | logout {d d' : Tables} {now userId : Nat} {user : UserRow} :
      user? d userId = some user →
      (∀ id, user? d' id = if id = userId then
        some { user with sessionVersion := user.sessionVersion + 1 } else user? d id) →
      account? d' = account? d → RevokedWhere now (fun _ t ↦ t.userId = userId) d d' →
      (covered → AllRevoked (·.userId = userId) d') →
      Effect covered alone (.logout now userId) () d d'

/-! ### How the tables move on -/

/-- A refresh token some time later. -/
structure RefreshToken.Later (t t' : RefreshToken) : Prop where
  userId : t'.userId = t.userId
  familyId : t'.familyId = t.familyId
  expiresAt : t'.expiresAt = t.expiresAt
  consumed : t.consumedAt.isSome →
    t'.consumedAt = t.consumedAt ∧ t'.replacedByHash = t.replacedByHash
  revoked : t.revokedAt.isSome → t'.revokedAt = t.revokedAt

/-- An account token some time later. -/
structure AccountToken.Later (t t' : AccountToken) : Prop where
  userId : t'.userId = t.userId
  purpose : t'.purpose = t.purpose
  consumed : t.consumedAt.isSome → t'.consumedAt.isSome

/-- The tables some time later: a new refresh token is in a family that began meanwhile, or a token
of its family was not revoked. -/
structure Later (d d' : Tables) : Prop where
  users : ∀ id u, user? d id = some u →
    ∃ u', user? d' id = some u' ∧ u.sessionVersion ≤ u'.sessionVersion
  accounts : ∀ hash t, account? d hash = some t → ∃ t', account? d' hash = some t' ∧ t.Later t'
  refreshes : ∀ hash t, refresh? d hash = some t → ∃ t', refresh? d' hash = some t' ∧ t.Later t'
  minted : ∀ hash t', refresh? d' hash = some t' → refresh? d hash = none →
    (∃ root, t'.familyId = uuid root ∧ refresh? d root = none) ∨
      ∃ hash₀ t, refresh? d hash₀ = some t ∧ t.familyId = t'.familyId ∧ t.revokedAt = none

end Calls

/-- Only account tokens are consumed. -/
def Call.Consumes : Call → Prop
  | .verifyEmail .. | .resetPassword .. => True
  | _ => False

/-! ### Revocations under way -/

/-- An `UPDATE` that revokes refresh tokens. -/
def Revokes (cond : Key → Row → Bool) (set : Row → Row) : Prop :=
  ∃ hash t t', cond (.refresh hash) (.refresh t) = true ∧ set (.refresh t) = .refresh t' ∧
    t.revokedAt = none ∧ t'.revokedAt.isSome

/-- The transaction may still start an `UPDATE` that revokes refresh tokens. -/
def MayRevoke {R : Type} : Sql R → Prop
  | .commit _ | .rollback _ | .throw => False
  | .read next => ∃ d, MayRevoke (next d)
  | .update cond set next => Revokes cond set ∨ ∃ rows, MayRevoke (next rows)
  | .insert _ _ next => MayRevoke next

/-- The same from a point on. -/
def MayRevokeFrom {R : Type} : Point Key Row R → Prop
  | .stmt rest => MayRevoke rest
  | .sweep _ _ next _ _ => ∃ rows, MayRevoke (next rows)

/-- The transaction is one that revokes this token: a reuse detection in its family, or a logout,
reset or revocation of its user. What it has locked tells which family or user that is. -/
def Covers (hashToken : String → String) : Call → Writes Key Row → RefreshToken → Prop
  | .rotateRefreshToken _ date raw _, own, t =>
    ∃ old, own.head? = some (.refresh (hashToken raw), .refresh old) ∧ date < old.expiresAt ∧
      old.revokedAt = none ∧ old.consumedAt.isSome ∧ t.familyId = old.familyId
  | .logout .., own, t => ∃ row, (Key.user t.userId, row) ∈ own
  | .resetPassword .., own, t => ∃ row, (Key.user t.userId, row) ∈ own
  | .revokeAllForUser _ userId, _, t => t.userId = userId
  | _, _, _ => False

/-- Under the guard no rotation or login commits a new token while a transaction that revokes this
token has taken the snapshot of its `UPDATE`, which does not see it, and not ended. -/
def MintsInTime (hashToken : String → String) (s : State Key Row Call Call.Result) :
    Label Key Call → Prop
  | .commit i => ∀ hash t, refresh? (s.db.write (s.slots i).own) hash = some t →
      refresh? s.db hash = none → ∀ j, j ≠ i → ∀ c locks own point,
      s.slots j = .running c locks own point → ¬ MayRevokeFrom point → ¬ Covers hashToken c own t
  | _ => True

end ChessStack.Auth
