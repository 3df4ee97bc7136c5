import ChessStack.Auth.Effects

/-!
# The sign-in transactions in any interleaving

Library `Auth`. Every call keeps its effect whatever the others do between its statements; the runs
are those of `tokens`, with the guard `MintsInTime` or without it.
-/

namespace ChessStack.Auth

open ChessStack.Library ChessStack.Library.ReadCommitted

section Later

variable {uuid : String → String} {d d' d'' : Tables}

/-- A token is later than itself. -/
theorem RefreshToken.Later.refl (t : RefreshToken) : t.Later t :=
  ⟨rfl, rfl, rfl, fun _ ↦ ⟨rfl, rfl⟩, fun _ ↦ rfl⟩

private theorem RefreshToken.Later.trans {t t' t'' : RefreshToken} (h : t.Later t')
    (h' : t'.Later t'') :
    t.Later t'' where
  userId := h'.userId.trans h.userId
  familyId := h'.familyId.trans h.familyId
  expiresAt := h'.expiresAt.trans h.expiresAt
  consumed ht := by
    obtain ⟨hconsumed, hreplaced⟩ := h.consumed ht
    obtain ⟨hconsumed', hreplaced'⟩ := h'.consumed (hconsumed ▸ ht)
    exact ⟨hconsumed'.trans hconsumed, hreplaced'.trans hreplaced⟩
  revoked ht := (h'.revoked (h.revoked ht ▸ ht)).trans (h.revoked ht)

/-- What was revoked stays revoked. -/
theorem RefreshToken.Later.isSome {t t' : RefreshToken} (h : t.Later t')
    (ht : t.revokedAt.isSome) : t'.revokedAt.isSome := h.revoked ht ▸ ht

private theorem RefreshToken.Later.unrevoked {t t' : RefreshToken} (h : t.Later t')
    (ht : t'.revokedAt = none) : t.revokedAt = none := by
  by_contra hne
  have hsome := h.isSome (Option.isSome_iff_ne_none.mpr hne)
  rw [ht] at hsome
  cases hsome

/-- A live token may be revoked. -/
theorem RefreshToken.later_revoke {now : Nat} {t : RefreshToken} (h : t.revokedAt = none) :
    t.Later (t.revoke now) :=
  ⟨rfl, rfl, rfl, fun _ ↦ ⟨rfl, rfl⟩, by simp [h]⟩

/-- A token that was not consumed may be replaced. -/
theorem RefreshToken.later_replace {now : Nat} {next : String} {t : RefreshToken}
    (h : t.consumedAt = none) : t.Later (t.replace now next) :=
  ⟨rfl, rfl, rfl, by simp [h], fun _ ↦ rfl⟩

/-- A token is later than itself. -/
theorem AccountToken.Later.refl (t : AccountToken) : t.Later t := ⟨rfl, rfl, id⟩

/-- Later than later is later. -/
theorem AccountToken.Later.trans {t t' t'' : AccountToken} (h : t.Later t') (h' : t'.Later t'') :
    t.Later t'' :=
  ⟨h'.userId.trans h.userId, h'.purpose.trans h.purpose, fun ht ↦ h'.consumed (h.consumed ht)⟩

/-- A token may be consumed. -/
theorem AccountToken.later_consume {now : Nat} (t : AccountToken) : t.Later (t.consume now) :=
  ⟨rfl, rfl, fun _ ↦ rfl⟩

/-- Tables are later than themselves. -/
theorem Later.refl (d : Tables) : Later uuid d d where
  users _ u h := ⟨u, h, Nat.le_refl _⟩
  accounts _ t h := ⟨t, h, .refl t⟩
  refreshes _ t h := ⟨t, h, .refl t⟩
  minted _ _ h h' := by
    rw [h] at h'
    cases h'

/-- No row goes away. -/
theorem Later.absent (h : Later uuid d d') {hash : String} (hnone : refresh? d' hash = none) :
    refresh? d hash = none := by
  cases hold : refresh? d hash with
  | none => rfl
  | some t =>
    obtain ⟨t', ht', -⟩ := h.refreshes hash t hold
    rw [hnone] at ht'
    cases ht'

/-- Later than later is later. -/
theorem Later.trans (h : Later uuid d d') (h' : Later uuid d' d'') : Later uuid d d'' where
  users id u hu := by
    obtain ⟨u', hu', hle⟩ := h.users id u hu
    obtain ⟨u'', hu'', hle'⟩ := h'.users id u' hu'
    exact ⟨u'', hu'', Nat.le_trans hle hle'⟩
  accounts hash t ht := by
    obtain ⟨t', ht', hlater⟩ := h.accounts hash t ht
    obtain ⟨t'', ht'', hlater'⟩ := h'.accounts hash t' ht'
    exact ⟨t'', ht'', hlater.trans hlater'⟩
  refreshes hash t ht := by
    obtain ⟨t', ht', hlater⟩ := h.refreshes hash t ht
    obtain ⟨t'', ht'', hlater'⟩ := h'.refreshes hash t' ht'
    exact ⟨t'', ht'', hlater.trans hlater'⟩
  minted hash t'' ht'' hnone := by
    have hmid : ∀ hash₀ t', refresh? d' hash₀ = some t' → t'.familyId = t''.familyId →
        t'.revokedAt = none → (∃ root, t''.familyId = uuid root ∧ refresh? d root = none) ∨
          ∃ hash₁ t, refresh? d hash₁ = some t ∧ t.familyId = t''.familyId ∧
            t.revokedAt = none := by
      intro hash₀ t' ht' hfamily hrevoked
      rw [← hfamily]
      cases hold : refresh? d hash₀ with
      | none => exact h.minted hash₀ t' ht' hold
      | some t =>
        obtain ⟨t₁, ht₁, hlater⟩ := h.refreshes hash₀ t hold
        obtain rfl := Option.some.inj (ht'.symm.trans ht₁)
        exact .inr ⟨hash₀, t, hold, hlater.familyId.symm, hlater.unrevoked hrevoked⟩
    cases hnew : refresh? d' hash with
    | some t' =>
      obtain ⟨t₁, ht₁, hlater⟩ := h'.refreshes hash t' hnew
      obtain rfl := Option.some.inj (ht''.symm.trans ht₁)
      rw [hlater.familyId]
      exact h.minted hash t' hnew hnone
    | none =>
      rcases h'.minted hash t'' ht'' hnew with ⟨root, hroot, habsent⟩ | ⟨hash₀, t', ht', hfam, hrev⟩
      · exact .inl ⟨root, hroot, h.absent habsent⟩
      · exact hmid hash₀ t' ht' hfam hrev

end Later

/-! ### The rule -/

section Covers

variable {hashToken : String → String} {c : Call} {own own' : Writes Key Row} {t t' : RefreshToken}

/-- Which tokens a transaction revokes depends on their user and family. -/
theorem Covers.later (h : Covers hashToken c own t') (hlater : t.Later t') :
    Covers hashToken c own t := by
  cases c with
  | rotateRefreshToken now date raw nextRaw =>
    obtain ⟨old, hown, hdate, hrevoked, hconsumed, hfamily⟩ := h
    exact ⟨old, hown, hdate, hrevoked, hconsumed, hlater.familyId ▸ hfamily⟩
  | logout now userId =>
    obtain ⟨row, hrow⟩ := h
    exact ⟨row, hlater.userId ▸ hrow⟩
  | resetPassword now raw hash =>
    obtain ⟨row, hrow⟩ := h
    exact ⟨row, hlater.userId ▸ hrow⟩
  | revokeAllForUser now userId => exact hlater.userId.symm.trans h
  | issueAccountToken => exact h
  | verifyEmail => exact h
  | issueRefreshToken => exact h
  | revokeRefreshToken => exact h

/-- A transaction goes on revoking what it has begun to. -/
theorem Covers.mono (h : Covers hashToken c own t) (hpre : own <+: own') :
    Covers hashToken c own' t := by
  obtain ⟨rest, rfl⟩ := hpre
  cases c with
  | rotateRefreshToken now date raw nextRaw =>
    obtain ⟨old, hown, hrest⟩ := h
    exact ⟨old, by rw [List.head?_append, hown, Option.some_or], hrest⟩
  | logout now userId =>
    obtain ⟨row, hrow⟩ := h
    exact ⟨row, List.mem_append_left _ hrow⟩
  | resetPassword now raw hash =>
    obtain ⟨row, hrow⟩ := h
    exact ⟨row, List.mem_append_left _ hrow⟩
  | revokeAllForUser now userId => exact h
  | issueAccountToken => exact h
  | verifyEmail => exact h
  | issueRefreshToken => exact h
  | revokeRefreshToken => exact h

end Covers

/-- A value that a call returns without a commit. -/
def Declined : (c : Call) → c.Result → Prop
  | .verifyEmail .., value => value = false
  | .resetPassword .., value => value = false
  | .rotateRefreshToken .., value => value = none
  | _, _ => True

/-- What the runs depend on: the token functions, whether the guard holds and which calls are made. -/
structure Params where
  hashToken : String → String
  uuid : String → String
  refreshMaxAgeMs : Nat
  guarded : Prop
  spawn : Call → Prop

/-- Only account tokens are consumed. -/
def Params.Alone (p : Params) : Prop := ∀ c, p.spawn c → c.Consumes

/-- No token is issued. -/
def NoneNew (d d' : Tables) : Prop :=
  (∀ hash, account? d hash = none → account? d' hash = none) ∧
    ∀ hash, refresh? d hash = none → refresh? d' hash = none

/-- Every call has its effect, the tables move on, and under the guard no new token slips past a
revocation. -/
def Params.rule (p : Params) : Rule Key Row Call Call.Result where
  inv _ := True
  rely d d' := Later p.uuid d d' ∧ (p.Alone → NoneNew d d')
  allow c own point d d' := p.guarded → ¬ MayRevokeFrom point → ∀ hash t,
    refresh? d' hash = some t → refresh? d hash = none → ¬ Covers p.hashToken c own t
  post c value d d' := p.spawn c ∧
    Effect p.hashToken p.uuid p.refreshMaxAgeMs p.guarded p.Alone c value d d'
  back c value _ := Declined c value
  refl d := ⟨.refl d, fun _ ↦ ⟨fun _ h ↦ h, fun _ h ↦ h⟩⟩
  trans _ _ _ h h' := ⟨h.1.trans h'.1, fun hp ↦
    ⟨fun hash hn ↦ (h'.2 hp).1 hash ((h.2 hp).1 hash hn),
      fun hash hn ↦ (h'.2 hp).2 hash ((h.2 hp).2 hash hn)⟩⟩
  allow_refl _ _ _ _ _ _ _ _ h h' := by
    rw [h] at h'
    cases h'
  allow_trans c own point d d' d'' hrely hrely' h h' hg hpast hash t'' ht'' hnone hcovers := by
    cases hmid : refresh? d' hash with
    | none => exact h' hg hpast hash t'' ht'' hmid hcovers
    | some t' =>
      obtain ⟨t, ht, hlater⟩ := hrely'.1.refreshes hash t' hmid
      obtain rfl := Option.some.inj (ht''.symm.trans ht)
      exact h hg hpast hash t' hmid hnone (hcovers.later hlater)

/-! ### No new tokens -/

/-- No new refresh token of a kind. -/
def Closed (sel : RefreshToken → Prop) (d d' : Tables) : Prop :=
  ∀ hash t, refresh? d' hash = some t → sel t → refresh? d hash ≠ none

section Programs

variable {p : Params} {c : Call} {d d' d'' : Tables} {locks : List Key} {own : Writes Key Row}
  {now : Nat} {sel : RefreshToken → Prop}

private theorem Closed.refl (d : Tables) : Closed sel d d := by
  intro hash t ht _
  rw [ht]
  exact Option.some_ne_none t

/-- What a sweep has closed stays closed. -/
theorem Closed.trans (hlater : Later p.uuid d' d'')
    (hsel : ∀ t t' : RefreshToken, t.Later t' → sel t' → sel t) (h : Closed sel d d')
    (h' : Closed sel d' d'') : Closed sel d d'' := by
  intro hash t'' ht'' hs
  obtain ⟨t', ht'⟩ := Option.ne_none_iff_exists'.mp (h' hash t'' ht'' hs)
  obtain ⟨t, ht, hl⟩ := hlater.refreshes hash t' ht'
  obtain rfl := Option.some.inj (ht''.symm.trans ht)
  exact h hash t' ht' (hsel _ _ hl hs)

/-- Fewer tokens to close. -/
theorem Closed.mono {sel' : RefreshToken → Prop} (h : Closed sel' d d')
    (hsel : ∀ t, sel t → sel' t) : Closed sel d d' :=
  fun hash t ht hs ↦ h hash t ht (hsel t hs)

/-- Past its snapshot, a transaction that the guard protects sees no new token it should revoke. -/
theorem closed_env {point : Point Key Row c.Result} (h : p.rule.Env c locks own point d d')
    (hg : p.guarded) (hpast : ¬ MayRevokeFrom point) : Closed (Covers p.hashToken c own) d d' :=
  fun hash t ht hcovers hnone ↦ h.allow hg hpast hash t ht hnone hcovers

/-- A sweep closes the tokens it selects. -/
theorem closed_sweep {cond : Key → Row → Bool} {set : Row → Row} {next : List Row → Sql c.Result}
    {x y : Rule.Sweep Key Row} {l : Writes Key Row} (h : p.rule.Swept c cond set next x y l)
    (hg : p.guarded) (hpast : ∀ rows, ¬ MayRevoke (next rows)) :
    Closed (Covers p.hashToken c x.own) x.db y.db := by
  have hmoved := h.moved
  generalize y.db = d at hmoved
  induction hmoved with
  | refl => exact .refl _
  | tail _ hstep ih =>
    obtain ⟨z, hown, henv⟩ := hstep
    refine ih.trans henv.rely.1 (fun _ _ hl hc ↦ hc.later hl) fun hash t ht hcovers ↦ ?_
    exact closed_env henv hg (fun ⟨rows, hrows⟩ ↦ hpast rows hrows) hash t ht (hcovers.mono hown)

/-! ### The statements -/

/-- The revoking `UPDATE` of a transaction that had not written refresh tokens. -/
theorem sweep_revokes {cond : String → RefreshToken → Bool} {next : List Row → Sql c.Result}
    {y : Rule.Sweep Key Row} {l : Writes Key Row}
    (h : p.rule.Swept c (unrevoked cond) (setRefresh (·.revoke now)) next
      ⟨d, locks, own, (d.write own).targets (unrevoked cond), []⟩ y l)
    (htodo : y.todo = []) (hbase : refresh? (d.write own) = refresh? d)
    (hd : Agree y.locks y.db d') (hbase' : refresh? (d'.write own) = refresh? d') :
    user? (d'.write y.own) = user? (d'.write own) ∧
      account? (d'.write y.own) = account? (d'.write own) ∧
      (∀ hash, refresh? (d'.write y.own) hash = refresh? d' hash ∨
        ∃ t, refresh? d' hash = some t ∧ cond hash t = true ∧ t.revokedAt = none ∧
          refresh? (d'.write y.own) hash = some (t.revoke now)) ∧
      (∀ sel : RefreshToken → Prop, (∀ t t' : RefreshToken, t.Later t' → sel t' → sel t) →
        (∀ hash t, sel t → cond hash t = true) → Later p.uuid d d' → Closed sel d d' →
        AllRevoked sel (d'.write y.own)) := by
  have hupdated := h.updated hd
  have hwrote : ∀ hash, refresh? (d'.write y.own) hash = refresh? d' hash ∨
      ∃ t, refresh? d' hash = some t ∧ cond hash t = true ∧ t.revokedAt = none ∧
        refresh? (d'.write y.own) hash = some (t.revoke now) := by
    intro hash
    have hrow := refresh?_of_onRefresh hupdated hash
    simpa [hbase', and_assoc] using hrow
  refine ⟨user?_of_onRefresh hupdated, account?_of_onRefresh hupdated, hwrote, ?_⟩
  intro sel hsel hcond hlater hclosed hash t ht hs
  by_contra hlive
  have hnone : t.revokedAt = none := by simpa using hlive
  have hsame : refresh? d' hash = some t := by
    rcases hwrote hash with hsame | ⟨t', -, -, -, hnew⟩
    · exact hsame.symm.trans ht
    · obtain rfl := Option.some.inj (ht.symm.trans hnew)
      cases hnone
  obtain ⟨t₀, ht₀⟩ := Option.ne_none_iff_exists'.mp (hclosed hash t hsame hs)
  obtain ⟨t', ht', hl⟩ := hlater.refreshes hash t₀ ht₀
  obtain rfl := Option.some.inj (hsame.symm.trans ht')
  have htarget : Key.refresh hash ∈ (d.write own).targets (unrevoked cond) := by
    refine Store.mem_targets.mpr ⟨.refresh t₀, refresh?_eq_some.mp (hbase ▸ ht₀), ?_⟩
    simp [unrevoked, onRefresh, hcond hash t₀ (hsel _ _ hl hs), hl.unrevoked hnone]
  have hfull := (h.full htodo hd htarget).2 (.refresh t) (refresh?_eq_some.mp (hbase' ▸ hsame))
    (by simp [unrevoked, onRefresh, hcond hash t hs, hnone])
  have hrevoked := congrArg RefreshToken.revokedAt
    (Option.some.inj (ht.symm.trans (refresh?_eq_some.mpr hfull)))
  rw [hnone] at hrevoked
  cases hrevoked

/-- The consuming `UPDATE` of a transaction. -/
theorem sweep_consumes {cond : String → AccountToken → Bool} {next : List Row → Sql c.Result}
    {y : Rule.Sweep Key Row} {l : Writes Key Row}
    (h : p.rule.Swept c (unconsumed cond) (setAccount (·.consume now)) next
      ⟨d, locks, own, (d.write own).targets (unconsumed cond), []⟩ y l)
    (htodo : y.todo = []) (hd : Agree y.locks y.db d') :
    user? (d'.write y.own) = user? (d'.write own) ∧
      refresh? (d'.write y.own) = refresh? (d'.write own) ∧
      (∀ hash, account? (d'.write y.own) hash = account? (d'.write own) hash ∨
        ∃ t, account? (d'.write own) hash = some t ∧ cond hash t = true ∧ t.consumedAt = none ∧
          account? (d'.write y.own) hash = some (t.consume now)) ∧
      (∀ hash t, account? (d'.write own) hash = some t → cond hash t = true →
        t.consumedAt = none → Key.account hash ∈ (d.write own).targets (unconsumed cond) →
        account? (d'.write y.own) hash = some (t.consume now)) := by
  have hupdated := h.updated hd
  refine ⟨user?_of_onAccount hupdated, refresh?_of_onAccount hupdated, ?_, ?_⟩
  · intro hash
    have hrow := account?_of_onAccount hupdated hash
    simpa [and_assoc] using hrow
  · intro hash t ht hcond hnone htarget
    have hfull := (h.full htodo hd htarget).2 (.account t) (account?_eq_some.mp ht)
      (by simp [unconsumed, onAccount, hcond, hnone])
    exact account?_eq_some.mpr hfull

/-- `updateUser` goes on when it has found the user. -/
theorem ok_updateUser {userId : Nat} {set : UserRow → UserRow} {next : Sql c.Result}
    (h : ∀ (y : Rule.Sweep Key Row) (u : UserRow), Later p.uuid d y.db → (∀ d', Agree y.locks y.db d' → Agree locks d d') →
      y.own = own ++ [(.user userId, .user (set u))] →
      (∀ d', Agree y.locks y.db d' → user? (d'.write own) userId = some u ∧
        (∀ id, user? (d'.write y.own) id =
          if id = userId then some (set u) else user? (d'.write own) id) ∧
        account? (d'.write y.own) = account? (d'.write own) ∧
        refresh? (d'.write y.own) = refresh? (d'.write own)) →
      p.rule.Ok c next y.db y.locks y.own) :
    p.rule.Ok c (updateUser userId set next) d locks own := by
  refine Rule.ok_update fun d₁ y l henv hs htodo ↦ ?_
  have hsingle : l = [] ∨ ∃ row, l = [(.user userId, row)] := by
    refine hs.single fun k row hk ↦ ?_
    obtain ⟨id, u, rfl, rfl, hid⟩ := onUser_eq_true.mp hk
    rw [decide_eq_true_eq.mp hid]
  rw [hs.got]
  rcases hsingle with rfl | ⟨row, rfl⟩
  · trivial
  · obtain ⟨-, -, hlock, hcond, hrow⟩ := hs.rows _ (List.mem_singleton_self _)
    obtain ⟨id, u, hid, rfl, -⟩ := onUser_eq_true.mp hcond
    cases hid
    refine h y u (henv.rely.1.trans hs.rely.1) (fun d' hd' k hk ↦ ?_) hs.own fun d' hd' ↦ ?_
    · exact (henv.agree k hk).trans (hs.agree_of hd' k hk)
    · have hupdated := hs.updated hd'
      refine ⟨user?_eq_some.mpr ?_, fun id ↦ ?_, account?_of_onUser hupdated,
        refresh?_of_onUser hupdated⟩
      · exact (Store.row?_write_congr (hd' _ hlock) own).symm.trans hrow
      · rw [hs.own, Store.write_append, user?]
        change ((Store.put _ _ _).row? _).bind Row.user? = _
        rw [Store.row?_put]
        simp only [Key.user.injEq]
        split <;> rfl

end Programs

end ChessStack.Auth
