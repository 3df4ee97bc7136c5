import ChessStack.Auth.Store

/-!
# The sign-in transactions

Library `Auth`. The statements of `Chess-Backend/src/models/AuthToken.js` and of the routes of
`Chess-Backend/src/routes/auth.js` that run one transaction each. `now` is CURRENT_TIMESTAMP, the
start of the transaction.
-/

namespace ChessStack.Auth

open ChessStack.Library.ReadCommitted

/-- What `rotateRefreshToken` returns: the next token and the user's row. -/
structure Session where
  raw : String
  userId : Nat
  user : UserRow
  deriving DecidableEq, Repr

/-- The calls; those that draw a random token carry it. -/
inductive Call where
  | issueAccountToken (now : Nat) (userId : Nat) (purpose : Purpose) (ttlMs : Nat) (raw : String)
  | verifyEmail (now : Nat) (raw : String)
  | resetPassword (now : Nat) (raw hash : String)
  | issueRefreshToken (now : Nat) (userId : Nat) (raw : String)
  | rotateRefreshToken (now date : Nat) (raw nextRaw : String)
  | revokeRefreshToken (now : Nat) (raw : String)
  | revokeAllForUser (now : Nat) (userId : Nat)
  | logout (now : Nat) (userId : Nat)
  deriving DecidableEq, Repr

/-- What they return. -/
abbrev Call.Result : Call → Type
  | .verifyEmail .. | .resetPassword .. | .revokeRefreshToken .. => Bool
  | .rotateRefreshToken .. => Option Session
  | _ => Unit

/-- Statements of a transaction. -/
abbrev Sql (Result : Type) := Program Key Row Result

/-- `WHERE … AND revoked_at IS NULL`. -/
def unrevoked (cond : String → RefreshToken → Bool) : Key → Row → Bool :=
  onRefresh fun hash row ↦ cond hash row && row.revokedAt.isNone

/-- `WHERE … AND consumed_at IS NULL`. -/
def unconsumed (cond : String → AccountToken → Bool) : Key → Row → Bool :=
  onAccount fun hash row ↦ cond hash row && row.consumedAt.isNone

/-- `UPDATE refresh_tokens SET revoked_at=CURRENT_TIMESTAMP WHERE … AND revoked_at IS NULL`. -/
def revokeWhere {R : Type} (now : Nat) (cond : String → RefreshToken → Bool)
    (next : List Row → Sql R) : Sql R :=
  .update (unrevoked cond) (setRefresh (·.revoke now)) next

/-- `UPDATE account_tokens SET consumed_at=CURRENT_TIMESTAMP WHERE … AND consumed_at IS NULL`. -/
def consumeWhere {R : Type} (now : Nat) (cond : String → AccountToken → Bool)
    (next : List Row → Sql R) : Sql R :=
  .update (unconsumed cond) (setAccount (·.consume now)) next

/-- `UPDATE users SET … WHERE id=$1`, which must find the user. -/
def updateUser {R : Type} (userId : Nat) (set : UserRow → UserRow) (next : Sql R) : Sql R :=
  .update (onUser fun id _ ↦ id = userId) (setUser set) fun result ↦
    if result.length ≠ 1 then .throw else next

section Calls

variable (hashToken : String → String) (uuid : String → String) (refreshMaxAgeMs : Nat)

/-- `AuthToken.issueAccountToken`, `AuthToken.js:6–14`. -/
def issueAccountToken (now userId : Nat) (purpose : Purpose) (ttlMs : Nat) (raw : String) :
    Sql Unit :=
  .read fun d ↦ if (user? d userId).isNone then .throw else
    .insert (.account (hashToken raw)) (.account ⟨userId, purpose, now + ttlMs, none⟩) (.commit ())

/-- `AuthToken.consumeAccountToken`, `AuthToken.js:16–42`. -/
def consumeAccountToken (now : Nat) (raw : String) (purpose : Purpose)
    (callback : Nat → String → Sql Bool → Sql Bool) : Sql Bool :=
  .update (onAccount fun hash row ↦ hash = hashToken raw ∧ row.purpose = purpose ∧
      row.consumedAt.isNone ∧ now < row.expiresAt) id fun
    | [.account found] => callback found.userId (hashToken raw)
        (consumeWhere now (fun hash _ ↦ hash = hashToken raw) fun consumed ↦
          if consumed.length ≠ 1 then .throw else .commit true)
    | _ => .rollback false

/-- The callback of `POST /verify-email`, `auth.js:56–66`. -/
def verifyCallback (now userId : Nat) (tokenId : String) (next : Sql Bool) : Sql Bool :=
  updateUser userId
    (fun user ↦ { user with emailVerifiedAt := some (user.emailVerifiedAt.getD now) })
    (consumeWhere now (fun hash row ↦
      row.userId = userId ∧ row.purpose = .emailVerification ∧ hash ≠ tokenId) fun _ ↦ next)

/-- The callback of `POST /reset-password`, `auth.js:170–181`. -/
def resetCallback (hash : String) (now userId : Nat) (tokenId : String) (next : Sql Bool) :
    Sql Bool :=
  updateUser userId
    (fun user ↦ { user with passwordHash := hash, sessionVersion := user.sessionVersion + 1 })
    (revokeWhere now (fun _ row ↦ row.userId = userId) fun _ ↦
      consumeWhere now (fun hash row ↦
        row.userId = userId ∧ row.purpose = .passwordReset ∧ hash ≠ tokenId) fun _ ↦ next)

/-- `AuthToken.issueRefreshToken`, `AuthToken.js:44–52`. `uuid` is what `crypto.randomUUID` draws
for the family of this token. -/
def issueRefreshToken (now userId : Nat) (raw : String) : Sql Unit :=
  .read fun d ↦ if (user? d userId).isNone then .throw else
    .insert (.refresh (hashToken raw))
      (.refresh ⟨userId, uuid (hashToken raw), now + refreshMaxAgeMs, none, none, none⟩) (.commit ())

/-- `AuthToken.rotateRefreshToken`, `AuthToken.js:54–92`. `date` is `new Date()`. -/
def rotateRefreshToken (now date : Nat) (raw nextRaw : String) : Sql (Option Session) :=
  .update (onRefresh fun hash _ ↦ hash = hashToken raw) id fun
    | .refresh old :: _ =>
      if old.expiresAt ≤ date ∨ old.revokedAt.isSome then .rollback none
      else if old.consumedAt.isSome then
        revokeWhere now (fun _ row ↦ row.familyId = old.familyId) fun _ ↦ .commit none
      else
        .update (onRefresh fun hash row ↦ hash = hashToken raw && row.consumedAt.isNone)
          (setRefresh (·.replace now (hashToken nextRaw))) fun used ↦
          if used.length ≠ 1 then .throw else
            .insert (.refresh (hashToken nextRaw))
              (.refresh ⟨old.userId, old.familyId, now + refreshMaxAgeMs, none, none, none⟩)
              (.read fun d ↦ match user? d old.userId with
                | none => .throw
                | some user => .commit (some ⟨nextRaw, old.userId, user⟩))
    | _ => .rollback none

/-- `AuthToken.revokeRefreshToken`, `AuthToken.js:94–100`. -/
def revokeRefreshToken (now : Nat) (raw : String) : Sql Bool :=
  revokeWhere now (fun hash _ ↦ hash = hashToken raw) fun result ↦
    .commit (decide (result.length = 1))

/-- `AuthToken.revokeAllForUser`, `AuthToken.js:102–107`. -/
def revokeAllForUser (now userId : Nat) (next : Sql Unit) : Sql Unit :=
  revokeWhere now (fun _ row ↦ row.userId = userId) fun _ ↦ next

/-- The transaction of `POST /logout`, `auth.js:129–136`. -/
def logout (now userId : Nat) : Sql Unit :=
  updateUser userId (fun user ↦ { user with sessionVersion := user.sessionVersion + 1 })
    (revokeAllForUser now userId (.commit ()))

/-- The transaction of each call. -/
def transaction : (c : Call) → Sql c.Result
  | .issueAccountToken now userId purpose ttlMs raw =>
    issueAccountToken hashToken now userId purpose ttlMs raw
  | .verifyEmail now raw =>
    consumeAccountToken hashToken now raw .emailVerification (verifyCallback now)
  | .resetPassword now raw hash =>
    consumeAccountToken hashToken now raw .passwordReset (resetCallback hash now)
  | .issueRefreshToken now userId raw =>
    issueRefreshToken hashToken uuid refreshMaxAgeMs now userId raw
  | .rotateRefreshToken now date raw nextRaw =>
    rotateRefreshToken hashToken refreshMaxAgeMs now date raw nextRaw
  | .revokeRefreshToken now raw => revokeRefreshToken hashToken now raw
  | .revokeAllForUser now userId => revokeAllForUser now userId (.commit ())
  | .logout now userId => logout now userId

/-- Any number of these calls at once. -/
def tokens (start : Tables → Prop) (spawn : Call → Prop) : System Key Row Call Call.Result where
  prog := transaction hashToken uuid refreshMaxAgeMs
  start := start
  spawn := spawn

end Calls

/-- A run starts without refresh tokens. -/
def NoTokens (d : Tables) : Prop := ∀ hash, refresh? d hash = none

/-! ### Requests -/

/-- What `signAccessToken`, `tokens.js:13–19`, puts into an access token and `activeSession`
reads. -/
structure Access where
  id : Nat
  sessionVersion : Nat
  deriving DecidableEq, Repr

/-- `activeSession`, `middleware/auth.js:5–11`. -/
def activeSession (d : Tables) (payload : Access) : Bool :=
  (user? d payload.id).any fun user ↦
    user.emailVerifiedAt.isSome && user.sessionVersion == payload.sessionVersion

/-- The cookies of a request. -/
structure Cookies where
  access : Option Access
  refresh : Option String
  deriving DecidableEq, Repr

/-- `authMiddleware`, `middleware/auth.js:13–25`: whether the request goes through. -/
def authMiddleware (d : Tables) (cookies : Cookies) : Bool :=
  match cookies.access with
  | none => false
  | some payload => activeSession d payload

end ChessStack.Auth
