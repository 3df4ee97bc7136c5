import ChessStack.Auth.Family
import ChessStack.Library.Solo

/-!
# Account tokens

Library `Auth`. A verification or reset token is accepted once, a reset closes the other reset
tokens of its user, and a call that does not return true changes nothing.
-/

namespace ChessStack.Auth

open ChessStack.Library ChessStack.Library.ReadCommitted

/-- The outcome accepted the token, which was there before. -/
def Accepted (hashToken : String → String) (purpose : Purpose) (token : AccountToken)
    (hash : String) : Outcome Key Row Call Call.Result → Prop
  | .committed (.verifyEmail _ raw) _ before _ =>
    purpose = .emailVerification ∧ hashToken raw = hash ∧ account? before hash = some token
  | .committed (.resetPassword _ raw _) _ before _ =>
    purpose = .passwordReset ∧ hashToken raw = hash ∧ account? before hash = some token
  | _ => False

/-- The accounts after a token was accepted. -/
def acceptedAccounts (now : Nat) (purpose : Purpose) (token : AccountToken) (d : Tables)
    (hash : String) : Option AccountToken :=
  (account? d hash).map fun t ↦
    if t.userId = token.userId ∧ t.purpose = purpose ∧ t.consumedAt = none then t.consume now else t

/-- What a call that accepts a token does: it consumes all tokens of the user and purpose, and a
reset changes the password, ends the sessions and revokes every refresh token. -/
inductive Accepts (hashToken : String → String) : (c : Call) → c.Result → Tables → Tables → Prop
  | verifyEmail {d d' : Tables} {now : Nat} {raw : String} {token : AccountToken} {user : UserRow} :
      account? d (hashToken raw) = some token → token.purpose = .emailVerification →
      token.consumedAt = none → now < token.expiresAt → user? d token.userId = some user →
      (∀ hash, account? d' hash = acceptedAccounts now .emailVerification token d hash) →
      (∀ id, user? d' id = if id = token.userId then
        some { user with emailVerifiedAt := some (user.emailVerifiedAt.getD now) } else user? d id) →
      (∀ hash, refresh? d' hash = refresh? d hash) →
      Accepts hashToken (.verifyEmail now raw) true d d'
  | resetPassword {d d' : Tables} {now : Nat} {raw hash : String} {token : AccountToken}
      {user : UserRow} :
      account? d (hashToken raw) = some token → token.purpose = .passwordReset →
      token.consumedAt = none → now < token.expiresAt → user? d token.userId = some user →
      (∀ hash, account? d' hash = acceptedAccounts now .passwordReset token d hash) →
      (∀ id, user? d' id = if id = token.userId then
        some { user with passwordHash := hash, sessionVersion := user.sessionVersion + 1 }
        else user? d id) →
      (∀ hash, refresh? d' hash = (refresh? d hash).map fun t ↦
        if t.userId = token.userId ∧ t.revokedAt = none then t.revoke now else t) →
      Accepts hashToken (.resetPassword now raw hash) true d d'

/-- What an outcome of `consumeAccountToken` says. -/
def ConsumeOutcome (hashToken : String → String) : Outcome Key Row Call Call.Result → Prop
  | .committed c value before after => Accepts hashToken c value before after
  | .returned c value _ => Declined c value
  | .failed .. => True

section Effects

variable {hashToken uuid : String → String} {refreshMaxAgeMs now : Nat} {covered : Prop}
  {d d' : Tables}

/-- A consuming call with nobody issuing leaves no token of the user and purpose. -/
theorem Consumed.accounts {hash : String} {purpose : Purpose} {token : AccountToken} {full : Prop}
    (h : Consumed now hash purpose token full d d') (hfull : full) (h₀ : String) :
    account? d' h₀ = acceptedAccounts now purpose token d h₀ := by
  rw [acceptedAccounts]
  rcases h.rest h₀ with hsame | ⟨t, ht, huser, hpurpose, hlive, hset⟩
  · rw [hsame]
    cases ht : account? d h₀ with
    | none => rfl
    | some t =>
      rw [Option.map_some, if_neg]
      rintro ⟨huser, hpurpose, hlive⟩
      have hconsumed := h.all hfull h₀ t (hsame.trans ht) huser hpurpose
      rw [hlive] at hconsumed
      cases hconsumed
  · rw [hset, ht, Option.map_some, if_pos ⟨huser, hpurpose, hlive⟩]

private theorem RevokedWhere.refreshes {userId : Nat}
    (h : RevokedWhere now (fun _ t ↦ t.userId = userId) d d')
    (hall : AllRevoked (·.userId = userId) d') (hash : String) :
    refresh? d' hash = (refresh? d hash).map fun t ↦
      if t.userId = userId ∧ t.revokedAt = none then t.revoke now else t := by
  rcases h hash with hsame | ⟨t, ht, huser, hlive, hset⟩
  · rw [hsame]
    cases ht : refresh? d hash with
    | none => rfl
    | some t =>
      rw [Option.map_some, if_neg]
      rintro ⟨huser, hlive⟩
      have hrevoked := hall hash t (hsame.trans ht) huser
      rw [hlive] at hrevoked
      cases hrevoked
  · rw [hset, ht, Option.map_some, if_pos ⟨huser, hlive⟩]

private theorem accepts_of_effect {c : Call} {value : c.Result} (hc : c.Consumes)
    (h : Effect hashToken uuid refreshMaxAgeMs covered True c value d d') :
    Accepts hashToken c value d d' := by
  cases h with
  | verifyEmail hconsumed huser hset hrefresh =>
    exact .verifyEmail hconsumed.found hconsumed.purpose_eq hconsumed.unconsumed
      hconsumed.unexpired huser (hconsumed.accounts trivial) hset (congrFun hrefresh)
  | resetPassword hconsumed huser hset hrows hall =>
    exact .resetPassword hconsumed.found hconsumed.purpose_eq hconsumed.unconsumed
      hconsumed.unexpired huser (hconsumed.accounts trivial) hset
      (hrows.refreshes (hall (.inr trivial)))
  | issueAccountToken => exact hc.elim
  | issueRefreshToken => exact hc.elim
  | reuse => exact hc.elim
  | rotate => exact hc.elim
  | revokeRefreshToken => exact hc.elim
  | revokeAllForUser => exact hc.elim
  | logout => exact hc.elim

end Effects

/-! ### Runs -/

section Runs

variable {p : Params} {log : Log} {d d' : Tables} {hashToken uuid : String → String}

/-- Accepted tokens are spent, with all others of their user and purpose, and were accepted once. -/
structure Spent (hashToken : String → String) (log : Log) (d : Tables) : Prop where
  found : ∀ e ∈ log, ∀ purpose token hash, Accepted hashToken purpose token hash e →
    ∃ t, account? d hash = some t ∧ token.Later t ∧ token.purpose = purpose
  closed : ∀ e ∈ log, ∀ purpose token hash, Accepted hashToken purpose token hash e →
    ∀ h t, account? d h = some t → t.userId = token.userId → t.purpose = purpose →
      t.consumedAt.isSome
  once : log.Pairwise fun e e' ↦ ∀ purpose token hash token' hash',
    Accepted hashToken purpose token hash e → Accepted hashToken purpose token' hash' e' →
      token.userId ≠ token'.userId
  single : log.Pairwise fun e e' ↦ ∀ purpose token purpose' token' hash,
    Accepted hashToken purpose token hash e → ¬ Accepted hashToken purpose' token' hash e'

private theorem Spent.append {e : Outcome Key Row Call Call.Result} (h : Spent hashToken log d)
    (hlater : Later uuid d d') (hnew : NoneNew d d')
    (hlast : ∀ purpose token hash, Accepted hashToken purpose token hash e →
      account? d hash = some token ∧ token.purpose = purpose ∧ token.consumedAt = none ∧
        ∀ h t, account? d' h = some t → t.userId = token.userId → t.purpose = purpose →
          t.consumedAt.isSome) : Spent hashToken (log ++ [e]) d' where
  found e' he' purpose token hash ha := by
    rcases List.mem_append.mp he' with he' | he'
    · obtain ⟨t, ht, hl, hpurpose⟩ := h.found e' he' purpose token hash ha
      obtain ⟨t', ht', hl'⟩ := hlater.accounts hash t ht
      exact ⟨t', ht', hl.trans hl', hpurpose⟩
    · obtain rfl := List.mem_singleton.mp he'
      obtain ⟨ht, hpurpose, -⟩ := hlast purpose token hash ha
      obtain ⟨t', ht', hl⟩ := hlater.accounts hash token ht
      exact ⟨t', ht', hl, hpurpose⟩
  closed e' he' purpose token hash ha h₀ t' ht' huser hpurpose := by
    rcases List.mem_append.mp he' with he' | he'
    · obtain ⟨t, ht⟩ := Option.ne_none_iff_exists'.mp fun hn ↦ by
        rw [hnew.1 h₀ hn] at ht'
        cases ht'
      obtain ⟨t₁, ht₁, hl⟩ := hlater.accounts h₀ t ht
      obtain rfl := Option.some.inj (ht'.symm.trans ht₁)
      exact hl.consumed (h.closed e' he' purpose token hash ha h₀ t ht
        (hl.userId.symm.trans huser) (hl.purpose.symm.trans hpurpose))
    · obtain rfl := List.mem_singleton.mp he'
      exact (hlast purpose token hash ha).2.2.2 h₀ t' ht' huser hpurpose
  once := by
    refine List.pairwise_append.mpr ⟨h.once, by simp, ?_⟩
    intro e₁ he₁ e₂ he₂ purpose token hash token' hash' ha ha' heq
    obtain rfl := List.mem_singleton.mp he₂
    obtain ⟨ht, hpurpose, hlive, -⟩ := hlast purpose token' hash' ha'
    have hconsumed := h.closed e₁ he₁ purpose token hash ha hash' token' ht heq.symm hpurpose
    rw [hlive] at hconsumed
    cases hconsumed
  single := by
    refine List.pairwise_append.mpr ⟨h.single, by simp, ?_⟩
    intro e₁ he₁ e₂ he₂ purpose token purpose' token' hash ha ha'
    obtain rfl := List.mem_singleton.mp he₂
    obtain ⟨ht', -, hlive, -⟩ := hlast purpose' token' hash ha'
    obtain ⟨t, ht, hl, hpurpose⟩ := h.found e₁ he₁ purpose token hash ha
    obtain rfl := Option.some.inj (ht'.symm.trans ht)
    have hconsumed := h.closed e₁ he₁ purpose token hash ha hash token' ht hl.userId
      (hl.purpose.trans hpurpose)
    rw [hlive] at hconsumed
    cases hconsumed

private theorem spent_of_trace {start : Tables → Prop} (halone : p.Alone)
    (h : p.rule.Trace (p.system start) log d) : Spent p.hashToken log d := by
  induction h with
  | start => exact ⟨nofun, nofun, .nil, .nil⟩
  | committed _ _ hpost ih =>
    obtain ⟨hlater, hnew⟩ := commit_sound hpost
    refine ih.append hlater (hnew halone) fun purpose token hash ha ↦ ?_
    obtain ⟨hspawn, heffect⟩ := hpost
    cases heffect with
    | verifyEmail hconsumed =>
      obtain ⟨rfl, rfl, ht⟩ := ha
      obtain rfl := Option.some.inj (ht.symm.trans hconsumed.found)
      exact ⟨ht, hconsumed.purpose_eq, hconsumed.unconsumed, hconsumed.all halone⟩
    | resetPassword hconsumed =>
      obtain ⟨rfl, rfl, ht⟩ := ha
      obtain rfl := Option.some.inj (ht.symm.trans hconsumed.found)
      exact ⟨ht, hconsumed.purpose_eq, hconsumed.unconsumed, hconsumed.all halone⟩
    | issueAccountToken => exact ha.elim
    | issueRefreshToken => exact ha.elim
    | reuse => exact ha.elim
    | rotate => exact ha.elim
    | revokeRefreshToken => exact ha.elim
    | revokeAllForUser => exact ha.elim
    | logout => exact ha.elim
  | returned _ _ _ ih =>
    exact ih.append (Later.refl _ : Later p.uuid _ _) ⟨fun _ h ↦ h, fun _ h ↦ h⟩
      fun _ _ _ ha ↦ ha.elim
  | failed _ ih =>
    exact ih.append (Later.refl _ : Later p.uuid _ _) ⟨fun _ h ↦ h, fun _ h ↦ h⟩
      fun _ _ _ ha ↦ ha.elim

private theorem outcomes_of_trace {start : Tables → Prop} (halone : p.Alone)
    (h : p.rule.Trace (p.system start) log d) : ∀ e ∈ log, ConsumeOutcome p.hashToken e := by
  have happend : ∀ log e, (∀ e ∈ log, ConsumeOutcome p.hashToken e) →
      ConsumeOutcome p.hashToken e → ∀ e' ∈ log ++ [e], ConsumeOutcome p.hashToken e' := by
    intro log e hlog he e' he'
    rcases List.mem_append.mp he' with he' | he'
    · exact hlog e' he'
    · exact List.mem_singleton.mp he' ▸ he
  induction h with
  | start => exact nofun
  | committed _ _ hpost ih =>
    refine happend _ _ ih ?_
    have heffect := hpost.2
    rw [eq_true halone] at heffect
    exact accepts_of_effect (halone _ hpost.1) heffect
  | returned _ _ hback ih => exact happend _ _ ih hback
  | failed _ ih => exact happend _ _ ih trivial

end Runs

/-! ### A usable token -/

/-- A token that `consumeAccountToken` finds, of a user who exists. -/
structure Usable (hash : String) (purpose : Purpose) (now : Nat) (token : AccountToken)
    (user : UserRow) (d : Tables) : Prop where
  found : account? d hash = some token
  purpose_eq : token.purpose = purpose
  unconsumed : token.consumedAt = none
  unexpired : now < token.expiresAt
  user : user? d token.userId = some user

section Usable

variable {hashToken : String → String} {hash : String} {purpose : Purpose} {now : Nat}
  {token : AccountToken} {user : UserRow} {d : Tables} {own : Writes Key Row}

private theorem consumeRest_run (hrow : (d.write own).row? (.account hash) = some (.account token))
    (hlive : token.consumedAt = none) :
    ∃ d', (consumeRest now hash token purpose true).run d own = .committed true d' := by
  rw [consumeRest, consumeWhere, Program.run, consumeWhere, Program.run]
  rw [Store.found_single (.account hash) (.account token)]
  · exact ⟨_, rfl⟩
  · intro k row hk
    obtain ⟨h, t, rfl, rfl, hcond⟩ := onAccount_eq_true.mp hk
    simp only [Bool.and_eq_true, decide_eq_true_eq] at hcond
    rw [hcond.1]
  · rw [Store.write_append, Store.row?_write_of_not_mem, hrow]
    intro w hw heq
    obtain ⟨w', hw', rfl⟩ := List.mem_map.mp hw
    obtain ⟨h, t, hkey, -, hcond⟩ := onAccount_eq_true.mp (Store.mem_found hw').2
    cases hkey.symm.trans heq
    simp at hcond
  · simp [unconsumed, onAccount, hlive]

private theorem updateUser_run (user : UserRow) {set : UserRow → UserRow} {next : Sql Bool}
    {userId : Nat}
    (hrow : (d.write own).row? (.user userId) = some (.user user)) :
    (updateUser userId set next).run d own = next.run d (own ++ [(.user userId, .user (set user))]) := by
  rw [updateUser, Program.run, Store.found_single (.user userId) (.user user)]
  · rfl
  · intro k row hk
    obtain ⟨id, u, rfl, rfl, hid⟩ := onUser_eq_true.mp hk
    rw [decide_eq_true_eq.mp hid]
  · exact hrow
  · simp [onUser]

private theorem consumeAccountToken_run {raw : String}
    {callback : Nat → String → Sql Bool → Sql Bool}
    (h : Usable (hashToken raw) purpose now token user d) :
    (consumeAccountToken hashToken now raw purpose callback).run d [] =
      (callback token.userId (hashToken raw)
        (consumeWhere now (fun hash _ ↦ hash = hashToken raw) fun consumed ↦
          if consumed.length ≠ 1 then .throw else .commit true)).run d
        [(.account (hashToken raw), .account token)] := by
  rw [consumeAccountToken, Program.run,
    Store.found_single (.account (hashToken raw)) (.account token)]
  · rfl
  · intro k row hk
    obtain ⟨h, t, rfl, rfl, hcond⟩ := onAccount_eq_true.mp hk
    simp only [Bool.decide_and, Bool.and_eq_true, decide_eq_true_eq] at hcond
    rw [hcond.1]
  · exact account?_eq_some.mp h.found
  · simp [onAccount, h.purpose_eq, h.unconsumed, h.unexpired]

private theorem verifyEmail_run {raw : String}
    (h : Usable (hashToken raw) .emailVerification now token user d) :
    ∃ d', (consumeAccountToken hashToken now raw .emailVerification (verifyCallback now)).run d []
      = .committed true d' := by
  have huser := user?_eq_some.mp h.user
  rw [consumeAccountToken_run h, verifyCallback, updateUser_run user]
  · apply consumeRest_run _ h.unconsumed
    simp [Store.write, Store.row?_put]
  · rwa [Store.row?_write_of_not_mem]
    simp

private theorem resetPassword_run {raw : String} (hash : String)
    (h : Usable (hashToken raw) .passwordReset now token user d) :
    ∃ d', (consumeAccountToken hashToken now raw .passwordReset (resetCallback hash now)).run d []
      = .committed true d' := by
  have huser := user?_eq_some.mp h.user
  rw [consumeAccountToken_run h, resetCallback, updateUser_run user, revokeWhere,
    Program.run]
  · apply consumeRest_run _ h.unconsumed
    rw [Store.write_append, Store.row?_write_of_not_mem]
    · simp [Store.write, Store.row?_put]
    · intro w hw heq
      obtain ⟨w', hw', rfl⟩ := List.mem_map.mp hw
      obtain ⟨h, t, hkey, -⟩ := onRefresh_eq_true.mp (Store.mem_found hw').2
      cases hkey.symm.trans heq
  · rwa [Store.row?_write_of_not_mem]
    simp

end Usable

/-! ### Single use -/

/-- In every interleaving of `consumeAccountToken` calls, aborted or not: the tables change only
where a call returns true, and then as `Accepts` says; no token is accepted twice, and after a reset
no other reset token of its user; and a token that is still usable is accepted when it is presented
again. -/
theorem account_tokens_single_use (hashToken uuid : String → String) (refreshMaxAgeMs : Nat)
    {s : State Key Row Call Call.Result}
    (hs : (tokens hashToken uuid refreshMaxAgeMs (fun _ ↦ True) Call.Consumes).machine.Reachable s) :
    (∃ d, Linked d s.log s.db) ∧ (∀ e ∈ s.log, ConsumeOutcome hashToken e) ∧
    s.log.Pairwise (fun e e' ↦ ∀ purpose token purpose' token' hash,
      Accepted hashToken purpose token hash e → ¬ Accepted hashToken purpose' token' hash e') ∧
    s.log.Pairwise (fun e e' ↦ ∀ token hash token' hash',
      Accepted hashToken .passwordReset token hash e →
      Accepted hashToken .passwordReset token' hash' e' → token.userId ≠ token'.userId) ∧
    ((∀ i, s.slots i = .idle) → ∀ now raw token user,
      (∀ hash, Usable (hashToken raw) .passwordReset now token user s.db → ∃ s' d',
        (tokens hashToken uuid refreshMaxAgeMs (fun _ ↦ True) Call.Consumes).machine.Steps s s' ∧
        s'.log = s.log ++ [.committed (.resetPassword now raw hash) true s.db d']) ∧
      (Usable (hashToken raw) .emailVerification now token user s.db → ∃ s' d',
        (tokens hashToken uuid refreshMaxAgeMs (fun _ ↦ True) Call.Consumes).machine.Steps s s' ∧
        s'.log = s.log ++ [.committed (.verifyEmail now raw) true s.db d'])) := by
  have halone : Params.Alone ⟨hashToken, uuid, refreshMaxAgeMs, False, Call.Consumes⟩ :=
    fun _ hc ↦ hc
  have hkept := Rule.kept
    (tokens_sound ⟨hashToken, uuid, refreshMaxAgeMs, False, Call.Consumes⟩ fun _ ↦ True)
    (fun _ _ _ _ _ _ _ _ _ _ h ↦ h.elim) (hs.restrict fun _ _ ↦ trivial)
  have hspent := spent_of_trace halone hkept.trace
  obtain ⟨d, -, hlinked⟩ := linked_of_reachable hs
  refine ⟨⟨d, hlinked⟩, outcomes_of_trace halone hkept.trace, hspent.single, ?_, ?_⟩
  · exact hspent.once.imp fun h token hash token' hash' ha ha' ↦
      h .passwordReset token hash token' hash' ha ha'
  intro hidle now raw token user
  constructor
  · intro hash husable
    obtain ⟨d', hrun⟩ := resetPassword_run hash husable
    have hsteps := call_steps (S := tokens hashToken uuid refreshMaxAgeMs (fun _ ↦ True)
      Call.Consumes) (c := .resetPassword now raw hash) hidle 0 trivial
    have hlog : (s.ended (.resetPassword now raw hash) ((consumeAccountToken hashToken now raw
        .passwordReset (resetCallback hash now)).run s.db [])).log =
        s.log ++ [.committed (.resetPassword now raw hash) true s.db d'] := by
      rw [hrun]
      rfl
    exact ⟨_, d', hsteps, hlog⟩
  · intro husable
    obtain ⟨d', hrun⟩ := verifyEmail_run husable
    have hsteps := call_steps (S := tokens hashToken uuid refreshMaxAgeMs (fun _ ↦ True)
      Call.Consumes) (c := .verifyEmail now raw) hidle 0 trivial
    have hlog : (s.ended (.verifyEmail now raw) ((consumeAccountToken hashToken now raw
        .emailVerification (verifyCallback now)).run s.db [])).log =
        s.log ++ [.committed (.verifyEmail now raw) true s.db d'] := by
      rw [hrun]
      rfl
    exact ⟨_, d', hsteps, hlog⟩

/-- Tables with a user, two reset tokens and a verification token. -/
def threeTokens : Tables :=
  ((oneUser.put (.account "r") (.account ⟨1, .passwordReset, 10, none⟩)).put (.account "r2")
    (.account ⟨1, .passwordReset, 10, none⟩)).put (.account "v")
      (.account ⟨1, .emailVerification, 10, none⟩)

/-- The state after the first reset. -/
def afterReset : State Key Row Call Call.Result :=
  (State.atRest threeTokens).ended (.resetPassword 1 "r" "g")
    ((consumeAccountToken id 1 "r" .passwordReset (resetCallback "g" 1)).run threeTokens [])

/-- After a reset the other reset token is spent, and the verification token is accepted. -/
theorem account_tokens_single_use_afterReset :
    (∃ d, afterReset.log = [.committed (.resetPassword 1 "r" "g") true threeTokens d]) ∧
    ((account? afterReset.db "r2").any fun token ↦ token.consumedAt.isSome) = true ∧
    ∃ s d', (tokens id id 1000 (fun _ ↦ True) Call.Consumes).machine.Steps afterReset s ∧
      s.log = afterReset.log ++ [.committed (.verifyEmail 2 "v") true afterReset.db d'] := by
  have hinit : (tokens id id 1000 (fun _ ↦ True) Call.Consumes).machine.Reachable
      (.atRest threeTokens) := .init ⟨trivial, rfl, fun _ ↦ rfl⟩
  have hreset : (tokens id id 1000 (fun _ ↦ True) Call.Consumes).machine.Reachable afterReset :=
    hinit.steps (call_steps (c := Call.resetPassword 1 "r" "g") (fun _ ↦ rfl) 0 trivial)
  have husable : Usable (id "r") .passwordReset 1 ⟨1, .passwordReset, 10, none⟩
      ⟨"ann", "ann@chess.test", "h", 0, some 0⟩ threeTokens := by
    constructor <;> decide +kernel
  obtain ⟨d, hrun⟩ := resetPassword_run "g" husable
  refine ⟨⟨d, ?_⟩, by decide +kernel, ?_⟩
  · rw [afterReset, hrun]
    rfl
  · refine ((account_tokens_single_use id id 1000 hreset).2.2.2.2 ?_ 2 "v"
      ⟨1, .emailVerification, 10, none⟩ ⟨"ann", "ann@chess.test", "g", 1, some 0⟩).2
      (by constructor <;> decide +kernel)
    rw [afterReset, hrun]
    exact fun _ ↦ rfl

end ChessStack.Auth
