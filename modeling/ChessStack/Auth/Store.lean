import ChessStack.Library.ReadCommitted

/-!
# The tables of sign-in

Library `Auth`. `Database/migrations/001_init.sql` and `006_security_integrity.sql`: users,
account_tokens and refresh_tokens. A token row is found by its `token_hash`, which is unique; its
`id` stands for the same row.
-/

namespace ChessStack.Auth

open ChessStack.Library.ReadCommitted

/-- The CHECK on account_tokens.purpose. -/
inductive Purpose where
  | emailVerification
  | passwordReset
  deriving DecidableEq, Repr

/-- A row of `users`. -/
structure UserRow where
  username : String
  email : String
  passwordHash : String
  sessionVersion : Nat
  emailVerifiedAt : Option Nat
  deriving DecidableEq, Repr

/-- A row of `account_tokens`. -/
structure AccountToken where
  userId : Nat
  purpose : Purpose
  expiresAt : Nat
  consumedAt : Option Nat
  deriving DecidableEq, Repr

/-- A row of `refresh_tokens`. -/
structure RefreshToken where
  userId : Nat
  familyId : String
  expiresAt : Nat
  consumedAt : Option Nat
  replacedByHash : Option String
  revokedAt : Option Nat
  deriving DecidableEq, Repr

/-- The keys of the three tables. -/
inductive Key where
  | user (id : Nat)
  | account (tokenHash : String)
  | refresh (tokenHash : String)
  deriving DecidableEq, Repr

/-- The rows of the three tables. -/
inductive Row where
  | user (row : UserRow)
  | account (row : AccountToken)
  | refresh (row : RefreshToken)
  deriving DecidableEq, Repr

/-- The three tables. -/
abbrev Tables := Store Key Row

/-- The user of a row of `users`. -/
def Row.user? : Row → Option UserRow
  | .user row => some row
  | _ => none

/-- The token of a row of `account_tokens`. -/
def Row.account? : Row → Option AccountToken
  | .account row => some row
  | _ => none

/-- The token of a row of `refresh_tokens`. -/
def Row.refresh? : Row → Option RefreshToken
  | .refresh row => some row
  | _ => none

/-- A user by id. -/
def user? (d : Tables) (id : Nat) : Option UserRow := (d.row? (.user id)).bind Row.user?

/-- An account token by hash. -/
def account? (d : Tables) (hash : String) : Option AccountToken :=
  (d.row? (.account hash)).bind Row.account?

/-- A refresh token by hash. -/
def refresh? (d : Tables) (hash : String) : Option RefreshToken :=
  (d.row? (.refresh hash)).bind Row.refresh?

/-! ### Conditions and changes -/

/-- A condition on users. -/
def onUser (cond : Nat → UserRow → Bool) : Key → Row → Bool
  | .user id, .user row => cond id row
  | _, _ => false

/-- A condition on account tokens. -/
def onAccount (cond : String → AccountToken → Bool) : Key → Row → Bool
  | .account hash, .account row => cond hash row
  | _, _ => false

/-- A condition on refresh tokens. -/
def onRefresh (cond : String → RefreshToken → Bool) : Key → Row → Bool
  | .refresh hash, .refresh row => cond hash row
  | _, _ => false

/-- An update of users. -/
def setUser (f : UserRow → UserRow) : Row → Row
  | .user row => .user (f row)
  | row => row

/-- An update of account tokens. -/
def setAccount (f : AccountToken → AccountToken) : Row → Row
  | .account row => .account (f row)
  | row => row

/-- An update of refresh tokens. -/
def setRefresh (f : RefreshToken → RefreshToken) : Row → Row
  | .refresh row => .refresh (f row)
  | row => row

/-- `SET consumed_at=CURRENT_TIMESTAMP`. -/
def AccountToken.consume (now : Nat) (row : AccountToken) : AccountToken :=
  { row with consumedAt := some now }

/-- `SET revoked_at=CURRENT_TIMESTAMP`. -/
def RefreshToken.revoke (now : Nat) (row : RefreshToken) : RefreshToken :=
  { row with revokedAt := some now }

/-- `SET consumed_at=CURRENT_TIMESTAMP, replaced_by_hash=$2`. -/
def RefreshToken.replace (now : Nat) (next : String) (row : RefreshToken) : RefreshToken :=
  { row with consumedAt := some now, replacedByHash := some next }

/-- A refresh token and its row. -/
theorem refresh?_eq_some {d : Tables} {hash : String} {row : RefreshToken} :
    refresh? d hash = some row ↔ d.row? (.refresh hash) = some (.refresh row) := by
  rw [refresh?, Option.bind_eq_some_iff]
  refine ⟨fun ⟨r, hr, hrow⟩ ↦ ?_, fun h ↦ ⟨_, h, rfl⟩⟩
  cases r with
  | refresh row' =>
    cases hrow
    exact hr
  | user _ => cases hrow
  | account _ => cases hrow

/-- An account token and its row. -/
theorem account?_eq_some {d : Tables} {hash : String} {row : AccountToken} :
    account? d hash = some row ↔ d.row? (.account hash) = some (.account row) := by
  rw [account?, Option.bind_eq_some_iff]
  refine ⟨fun ⟨r, hr, hrow⟩ ↦ ?_, fun h ↦ ⟨_, h, rfl⟩⟩
  cases r with
  | account row' =>
    cases hrow
    exact hr
  | user _ => cases hrow
  | refresh _ => cases hrow

/-- A user and its row. -/
theorem user?_eq_some {d : Tables} {id : Nat} {row : UserRow} :
    user? d id = some row ↔ d.row? (.user id) = some (.user row) := by
  rw [user?, Option.bind_eq_some_iff]
  refine ⟨fun ⟨r, hr, hrow⟩ ↦ ?_, fun h ↦ ⟨_, h, rfl⟩⟩
  cases r with
  | user row' =>
    cases hrow
    exact hr
  | account _ => cases hrow
  | refresh _ => cases hrow

/-- Only users meet a condition on users. -/
theorem onUser_eq_true {cond : Nat → UserRow → Bool} {k : Key} {row : Row} :
    onUser cond k row = true ↔ ∃ id u, k = .user id ∧ row = .user u ∧ cond id u = true := by
  constructor
  · intro h
    cases k <;> cases row <;> simp_all [onUser]
  · rintro ⟨id, u, rfl, rfl, h⟩
    exact h

/-- Only account tokens meet a condition on account tokens. -/
theorem onAccount_eq_true {cond : String → AccountToken → Bool} {k : Key} {row : Row} :
    onAccount cond k row = true ↔
      ∃ hash t, k = .account hash ∧ row = .account t ∧ cond hash t = true := by
  constructor
  · intro h
    cases k <;> cases row <;> simp_all [onAccount]
  · rintro ⟨hash, t, rfl, rfl, h⟩
    exact h

/-- Only refresh tokens meet a condition on refresh tokens. -/
theorem onRefresh_eq_true {cond : String → RefreshToken → Bool} {k : Key} {row : Row} :
    onRefresh cond k row = true ↔
      ∃ hash t, k = .refresh hash ∧ row = .refresh t ∧ cond hash t = true := by
  constructor
  · intro h
    cases k <;> cases row <;> simp_all [onRefresh]
  · rintro ⟨hash, t, rfl, rfl, h⟩
    exact h

end ChessStack.Auth
