import ChessStack.Auth.Rule

/-!
# Every sign-in call keeps the rule

Library `Auth`. One lemma for each transaction, and what holds of every run.
-/

namespace ChessStack.Auth

open ChessStack.Library ChessStack.Library.ReadCommitted

section Programs

variable {p : Params} {c : Call} {d : Tables} {locks : List Key} {own : Writes Key Row} {now : Nat}

/-! ### Issuing -/

/-- A transaction that inserts one row for an existing user. -/
theorem ok_issue {userId : Nat} {k : Key} {row : Row} {value : c.Result}
    (hpost : ∀ d : Tables, d.row? k = none → p.rule.post c value d (d.put k row)) :
    p.rule.Ok c (.read fun d ↦ if (user? d userId).isNone then .throw else
      .insert k row (.commit value)) d [] [] := by
  intro d₁ _
  dsimp only
  split
  · trivial
  · intro d₂ _ hnew d₃ henv
    exact hpost d₃ ((henv.agree k List.mem_cons_self).symm.trans hnew)

/-! ### Refresh tokens -/

/-- The row that a transaction has locked with its `SELECT … FOR UPDATE`. -/
structure Locked (k : Key) (row : Row) (d : Tables) (locks : List Key) (own : Writes Key Row) :
    Prop where
  wrote : own = [(k, row)]
  found : ∀ d', Agree locks d d' → d'.row? k = some row
  same : ∀ d', Agree locks d d' → (d'.write own).row? = d'.row?

private theorem tables_of_same {d d' : Tables} (h : d'.row? = d.row?) :
    user? d' = user? d ∧ account? d' = account? d ∧ refresh? d' = refresh? d := by
  refine ⟨?_, ?_, ?_⟩ <;> funext x
  · exact user?_congr (congrFun h _)
  · exact account?_congr (congrFun h _)
  · exact refresh?_congr (congrFun h _)

/-- A transaction that begins by locking one row. -/
theorem ok_select {cond : Key → Row → Bool} {next : List Row → Sql c.Result} (k₀ : Key)
    (hk : ∀ k row, cond k row = true → k = k₀)
    (hnone : ∀ y : Rule.Sweep Key Row, p.rule.Ok c (next []) y.db y.locks y.own)
    (hsome : ∀ (y : Rule.Sweep Key Row) (row : Row), cond k₀ row = true →
      Locked k₀ row y.db y.locks y.own → p.rule.Ok c (next [row]) y.db y.locks y.own) :
    p.rule.Ok c (.update cond id next) d [] [] := by
  refine Rule.ok_update fun d₁ y l _ hs _ ↦ ?_
  rw [hs.got]
  rcases hs.single hk with rfl | ⟨row, rfl⟩
  · exact hnone y
  · obtain ⟨-, -, hlock, hcond, hrow⟩ := hs.rows _ (List.mem_singleton_self _)
    refine hsome y row hcond ⟨hs.own, fun d' hd' ↦ ?_, fun d' hd' ↦ ?_⟩
    · exact (hd' _ hlock).symm.trans hrow
    · exact row?_of_locked (hs.updated hd')

/-- A single revoking `UPDATE` that commits. -/
theorem ok_revoke {cond : String → RefreshToken → Bool} {value : List Row → c.Result}
    (hsame : ∀ d', Agree locks d d' → refresh? (d'.write own) = refresh? d')
    (hpost : ∀ d' own' got, Agree locks d d' →
      user? (d'.write own') = user? (d'.write own) →
      account? (d'.write own') = account? (d'.write own) →
      RevokedWhere now (fun hash t ↦ cond hash t = true) d' (d'.write own') →
      (∀ sel : RefreshToken → Prop, (∀ t t' : RefreshToken, t.Later t' → sel t' → sel t) →
        (∀ hash t, sel t → cond hash t = true) → (∀ t, sel t → Covers p.hashToken c own t) →
        p.guarded → AllRevoked sel (d'.write own')) →
      p.rule.post c (value got) d' (d'.write own')) :
    p.rule.Ok c (revokeWhere now cond fun rows ↦ .commit (value rows)) d locks own := by
  refine Rule.ok_update fun d₁ y l henv hs htodo d₂ henv₂ ↦ ?_
  have hd₂ : Agree locks d d₂ := fun k hk ↦ (henv.agree k hk).trans (hs.agree_of henv₂.agree k hk)
  obtain ⟨husers, haccounts, hrows, hall⟩ :=
    sweep_revokes hs htodo (hsame d₁ henv.agree) henv₂.agree (hsame d₂ hd₂)
  have hlater : Later p.uuid d₁ d₂ := hs.rely.1.trans henv₂.rely.1
  refine hpost d₂ y.own y.got hd₂ husers haccounts hrows ?_
  intro sel hsel hcond hcovers hg
  refine hall sel hsel hcond hlater (Closed.trans henv₂.rely.1 hsel ?_ ?_)
  · exact fun hash t ht hs' ↦ closed_sweep hs hg (fun _ hnext ↦ hnext) hash t ht (hcovers t hs')
  · intro hash t ht hs'
    exact closed_env henv₂ hg id hash t ht ((hcovers t hs').mono (hs.own ▸ List.prefix_append _ _))

private theorem ok_reuse {date : Nat} {raw nextRaw : String} {old : RefreshToken}
    (hspawn : p.spawn (.rotateRefreshToken now date raw nextRaw))
    (h : Locked (.refresh (p.hashToken raw)) (.refresh old) d locks own) (hdate : date < old.expiresAt)
    (hrevoked : old.revokedAt = none) (hconsumed : old.consumedAt.isSome) :
    p.rule.Ok (.rotateRefreshToken now date raw nextRaw)
      (revokeWhere now (fun _ row ↦ row.familyId = old.familyId) fun _ ↦ .commit none) d locks
      own := by
  refine ok_revoke (fun d' hd' ↦ (tables_of_same (h.same d' hd')).2.2) ?_
  intro d' own' _ hd' husers haccounts hrows hall
  obtain ⟨huser, haccount, -⟩ := tables_of_same (h.same d' hd')
  refine ⟨hspawn, .reuse (refresh?_eq_some.mpr (h.found d' hd')) hdate hrevoked hconsumed (husers.trans huser)
    (haccounts.trans haccount) (by simpa using hrows) fun hg ↦ ?_⟩
  refine hall _ (fun _ _ hl hf ↦ hl.familyId ▸ hf) (fun _ t ht ↦ decide_eq_true ht) ?_ hg
  exact fun t ht ↦ ⟨old, by rw [h.wrote, List.head?_cons], hdate, hrevoked, hconsumed, ht⟩

/-- The user that a rotation reads does not lose sessions before it commits. -/
theorem ok_session {date : Nat} {raw nextRaw : String} {old : RefreshToken}
    (hpost : ∀ d' user user', Agree locks d d' → user? d' old.userId = some user' →
      user.sessionVersion ≤ user'.sessionVersion →
      p.rule.post (.rotateRefreshToken now date raw nextRaw) (some ⟨nextRaw, old.userId, user⟩) d'
        (d'.write own))
    (huser : ∀ d', user? (d'.write own) = user? d') :
    p.rule.Ok (.rotateRefreshToken now date raw nextRaw) (.read fun d ↦
      match user? d old.userId with
      | none => .throw
      | some user => .commit (some ⟨nextRaw, old.userId, user⟩)) d locks own := by
  intro d₁ henv
  dsimp only
  rw [huser d₁]
  cases hfound : user? d₁ old.userId with
  | none => trivial
  | some user =>
    intro d₂ henv₂
    obtain ⟨user', huser', hle⟩ := henv₂.rely.1.users _ _ hfound
    exact hpost d₂ user user' (fun k hk ↦ (henv.agree k hk).trans (henv₂.agree k hk)) huser' hle

private theorem ok_rotate {date : Nat} {raw nextRaw : String} {old : RefreshToken}
    (hspawn : p.spawn (.rotateRefreshToken now date raw nextRaw))
    (h : Locked (.refresh (p.hashToken raw)) (.refresh old) d locks own) (hdate : date < old.expiresAt)
    (hrevoked : old.revokedAt = none) (hconsumed : old.consumedAt = none) :
    p.rule.Ok (.rotateRefreshToken now date raw nextRaw)
      (.update (onRefresh fun hash row ↦ hash = p.hashToken raw && row.consumedAt.isNone)
        (setRefresh (·.replace now (p.hashToken nextRaw))) fun used ↦
        if used.length ≠ 1 then .throw else
          .insert (.refresh (p.hashToken nextRaw))
            (.refresh ⟨old.userId, old.familyId, now + p.refreshMaxAgeMs, none, none, none⟩)
            (.read fun d ↦ match user? d old.userId with
              | none => .throw
              | some user => .commit (some ⟨nextRaw, old.userId, user⟩))) d locks own := by
  refine Rule.ok_update fun d₁ y l henv hs htodo ↦ ?_
  have hsingle : l = [] ∨ ∃ row, l = [(.refresh (p.hashToken raw), row)] := by
    refine hs.single fun k row hk ↦ ?_
    obtain ⟨hash, t, rfl, rfl, hcond⟩ := onRefresh_eq_true.mp hk
    simp only [Bool.and_eq_true, decide_eq_true_eq] at hcond
    rw [hcond.1]
  rw [hs.got]
  rcases hsingle with rfl | ⟨row, rfl⟩
  · trivial
  intro d₂ henv₂ hnew
  have hown : y.own ++ [(Key.refresh (p.hashToken nextRaw), Row.refresh
      ⟨old.userId, old.familyId, now + p.refreshMaxAgeMs, none, none, none⟩)] =
      [(.refresh (p.hashToken raw), .refresh old),
        (.refresh (p.hashToken raw), setRefresh (·.replace now (p.hashToken nextRaw)) row),
        (.refresh (p.hashToken nextRaw), .refresh
          ⟨old.userId, old.familyId, now + p.refreshMaxAgeMs, none, none, none⟩)] := by
    rw [hs.own, h.wrote]
    rfl
  have hrow : row = .refresh old := by
    obtain ⟨-, -, hlock, hcond, hrow⟩ := hs.rows _ (List.mem_singleton_self _)
    have hd₁ : Agree locks d y.db := fun k hk ↦ (henv.agree k hk).trans (hs.agree k hk)
    rw [congrFun (h.same _ hd₁) _, h.found _ hd₁] at hrow
    exact (Option.some.inj hrow).symm
  subst hrow
  rw [hown]
  have huser : ∀ d' : Tables, user? (d'.write
      [(.refresh (p.hashToken raw), .refresh old),
        (.refresh (p.hashToken raw), .refresh (old.replace now (p.hashToken nextRaw))),
        (.refresh (p.hashToken nextRaw), .refresh
          ⟨old.userId, old.familyId, now + p.refreshMaxAgeMs, none, none, none⟩)]) = user? d' :=
    fun d' ↦ funext fun id ↦ user?_congr (Store.row?_write_of_not_mem (by simp))
  refine ok_session (fun d₃ user user' hd₃ huser' hle ↦ ?_) huser
  have hlater : Agree y.locks y.db d₃ := fun k hk ↦
    (henv₂.agree k hk).trans (hd₃ k (List.mem_cons_of_mem _ hk))
  have hd₃' : Agree locks d d₃ := fun k hk ↦ (henv.agree k hk).trans (hs.agree_of hlater k hk)
  have hne : p.hashToken nextRaw ≠ p.hashToken raw := by
    intro heq
    rw [hs.own, h.wrote, heq] at hnew
    simp [Store.write, Store.row?_put] at hnew
  have hfresh : d₃.row? (.refresh (p.hashToken nextRaw)) = none := by
    rw [← hd₃ _ List.mem_cons_self, ← hnew, Store.row?_write_of_not_mem]
    rw [hs.own, h.wrote]
    simpa using hne.symm
  refine ⟨hspawn, .rotate (refresh?_eq_some.mpr (h.found d₃ hd₃')) hdate hrevoked hconsumed hfresh
    huser' hle (huser d₃) (funext fun hash ↦ account?_congr (Store.row?_write_of_not_mem (by simp))) fun hash ↦ ?_⟩
  simp only [refresh?, Store.write, List.foldl, Store.row?_put, Key.refresh.injEq]
  by_cases hnext : hash = p.hashToken nextRaw
  · simp [hnext, Row.refresh?]
  · by_cases hraw : hash = p.hashToken raw
    · simp [hraw, hne.symm, Row.refresh?, setRefresh]
    · simp [hnext, hraw]

private theorem ok_rotateRefreshToken {date : Nat} {raw nextRaw : String}
    (hspawn : p.spawn (.rotateRefreshToken now date raw nextRaw)) :
    p.rule.Ok (.rotateRefreshToken now date raw nextRaw)
      (rotateRefreshToken p.hashToken p.refreshMaxAgeMs now date raw nextRaw) d [] [] := by
  refine ok_select (.refresh (p.hashToken raw)) (fun k row hk ↦ ?_) (fun y _ _ ↦ rfl)
    fun y row hcond hlocked ↦ ?_
  · obtain ⟨hash, t, rfl, rfl, hhash⟩ := onRefresh_eq_true.mp hk
    rw [decide_eq_true_eq.mp hhash]
  obtain ⟨hash, old, -, rfl, -⟩ := onRefresh_eq_true.mp hcond
  change p.rule.Ok (.rotateRefreshToken now date raw nextRaw)
    (if old.expiresAt ≤ date ∨ old.revokedAt.isSome then _ else
      if old.consumedAt.isSome then _ else _) _ _ _
  split
  · exact fun _ _ ↦ rfl
  · next hlive =>
    simp only [not_or, Nat.not_le, Bool.not_eq_true, Option.isSome_eq_false_iff,
      Option.isNone_iff_eq_none] at hlive
    split
    · next hconsumed => exact ok_reuse hspawn hlocked hlive.1 hlive.2 hconsumed
    · next hconsumed =>
      exact ok_rotate hspawn hlocked hlive.1 hlive.2 (by simpa using hconsumed)

private theorem ok_revokeRefreshToken {raw : String}
    (hspawn : p.spawn (.revokeRefreshToken now raw)) :
    p.rule.Ok (.revokeRefreshToken now raw) (revokeRefreshToken p.hashToken now raw) d [] [] := by
  refine ok_revoke (fun _ _ ↦ rfl) ?_
  intro d' own' _ _ husers haccounts hrows _
  exact ⟨hspawn, .revokeRefreshToken husers haccounts (by simpa using hrows)⟩

private theorem ok_revokeAllForUser {userId : Nat}
    (hspawn : p.spawn (.revokeAllForUser now userId)) :
    p.rule.Ok (.revokeAllForUser now userId) (revokeAllForUser now userId (.commit ())) d [] [] := by
  refine ok_revoke (fun _ _ ↦ rfl) ?_
  intro d' own' _ _ husers haccounts hrows hall
  refine ⟨hspawn, .revokeAllForUser husers haccounts (by simpa using hrows) fun hg ↦ ?_⟩
  exact hall _ (fun _ _ hl hu ↦ hl.userId ▸ hu) (fun _ t ht ↦ decide_eq_true ht)
    (fun _ ht ↦ ht) hg

private theorem ok_logout {userId : Nat} (hspawn : p.spawn (.logout now userId)) :
    p.rule.Ok (.logout now userId) (logout now userId) d [] [] := by
  refine ok_updateUser fun y u _ _ hown hread ↦ ok_revoke (fun d' hd' ↦ ?_) ?_
  · exact (hread d' hd').2.2.2
  · intro d' own' _ hd' husers haccounts hrows hall
    obtain ⟨huser, hset, haccount, -⟩ := hread d' hd'
    refine ⟨hspawn, .logout huser (fun id ↦ ?_) (haccounts.trans haccount)
      (by simpa using hrows) fun hg ↦ ?_⟩
    · rw [husers]
      exact hset id
    · refine hall _ (fun _ _ hl hu ↦ hl.userId ▸ hu) (fun _ t ht ↦ decide_eq_true ht) ?_ hg
      rintro t rfl
      exact ⟨_, by rw [hown]; exact List.mem_append_right _ (List.mem_singleton_self _)⟩

/-! ### Account tokens -/

private theorem not_mayRevoke_consumeWhere {R : Type} {cond : String → AccountToken → Bool}
    {next : List Row → Sql R} (h : ∀ rows, ¬ MayRevoke (next rows)) :
    ¬ MayRevoke (consumeWhere now cond next) := by
  rintro (⟨hash, t, t', hcond, -⟩ | ⟨rows, hrows⟩)
  · cases hcond
  · exact h rows hrows

/-- The end of both callbacks and of `consumeAccountToken`: the other tokens of the user and
purpose, then the token itself. -/
def consumeRest {R : Type} (now : Nat) (hash : String) (token : AccountToken) (purpose : Purpose)
    (value : R) : Sql R :=
  consumeWhere now (fun h row ↦ row.userId = token.userId ∧ row.purpose = purpose ∧ h ≠ hash)
    fun _ ↦ consumeWhere now (fun h _ ↦ h = hash) fun consumed ↦
      if consumed.length ≠ 1 then .throw else .commit value

/-- No new token slips into the kind that the transaction revokes until it commits. -/
theorem closed_consumeRest {cond cond' : String → AccountToken → Bool} {value : c.Result}
    {d₁ d₂ d₃ : Tables} {y₁ y₂ : Rule.Sweep Key Row} {l₁ l₂ : Writes Key Row}
    (henv₁ : p.rule.Env c locks own (.stmt (consumeWhere now cond fun _ ↦
      consumeWhere now cond' fun consumed ↦ if consumed.length ≠ 1 then .throw else .commit value))
      d d₁)
    (hs₁ : p.rule.Swept c (unconsumed cond) (setAccount (·.consume now)) (fun _ ↦
      consumeWhere now cond' fun consumed ↦ if consumed.length ≠ 1 then .throw else .commit value)
      ⟨d₁, locks, own, (d₁.write own).targets (unconsumed cond), []⟩ y₁ l₁)
    (henv₂ : p.rule.Env c y₁.locks y₁.own (.stmt (consumeWhere now cond' fun consumed ↦
      if consumed.length ≠ 1 then .throw else .commit value)) y₁.db d₂)
    (hs₂ : p.rule.Swept c (unconsumed cond') (setAccount (·.consume now)) (fun consumed ↦
      if consumed.length ≠ 1 then .throw else .commit value)
      ⟨d₂, y₁.locks, y₁.own, (d₂.write y₁.own).targets (unconsumed cond'), []⟩ y₂ l₂)
    (henv₃ : p.rule.Env c y₂.locks y₂.own (.stmt (.commit value)) y₂.db d₃) (hg : p.guarded) :
    Closed (Covers p.hashToken c own) d d₃ := by
  have hlast : ∀ rows : List Row, ¬ MayRevoke (R := c.Result)
      (if rows.length ≠ 1 then .throw else .commit value) := by
    intro rows
    split <;> exact id
  have hsel : ∀ t t' : RefreshToken, t.Later t' → Covers p.hashToken c own t' →
      Covers p.hashToken c own t := fun _ _ hl hc ↦ hc.later hl
  have hown₁ : own <+: y₁.own := hs₁.own ▸ List.prefix_append _ _
  have hown₂ : own <+: y₂.own := hown₁.trans (hs₂.own ▸ List.prefix_append _ _)
  have h₁ := closed_env henv₁ hg
    (not_mayRevoke_consumeWhere fun _ ↦ not_mayRevoke_consumeWhere hlast)
  have h₂ := closed_sweep hs₁ hg fun _ ↦ not_mayRevoke_consumeWhere hlast
  have h₃ := (closed_env henv₂ hg (not_mayRevoke_consumeWhere hlast)).mono
    fun t ht ↦ Covers.mono ht hown₁
  have h₄ := (closed_sweep hs₂ hg hlast).mono fun t ht ↦ Covers.mono ht hown₁
  have h₅ := (closed_env henv₃ hg id).mono fun t ht ↦ Covers.mono ht hown₂
  exact (((h₁.trans hs₁.rely.1 hsel h₂).trans henv₂.rely.1 hsel h₃).trans hs₂.rely.1 hsel
    h₄).trans henv₃.rely.1 hsel h₅

private theorem ok_consumeRest {hash : String} {token : AccountToken} {purpose : Purpose}
    {value : c.Result} (hfound : ∀ d', Agree locks d d' → account? d' hash = some token)
    (hsame : ∀ d', Agree locks d d' → account? (d'.write own) = account? d')
    (hpurpose : token.purpose = purpose) (hlive : token.consumedAt = none)
    (hdate : now < token.expiresAt)
    (hpost : ∀ d' own', Agree locks d d' → p.rule.rely d d' →
      (p.guarded → Closed (Covers p.hashToken c own) d d') →
      Consumed now hash purpose token p.Alone d' (d'.write own') →
      user? (d'.write own') = user? (d'.write own) →
      refresh? (d'.write own') = refresh? (d'.write own) →
      p.rule.post c value d' (d'.write own')) :
    p.rule.Ok c (consumeRest now hash token purpose value) d locks own := by
  refine Rule.ok_update fun d₁ y₁ l₁ henv₁ hs₁ htodo₁ ↦ ?_
  refine Rule.ok_update fun d₂ y₂ l₂ henv₂ hs₂ htodo₂ ↦ ?_
  have hsingle : l₂ = [] ∨ ∃ row, l₂ = [(.account hash, row)] := by
    refine hs₂.single fun k row hk ↦ ?_
    obtain ⟨h, t, rfl, rfl, hcond⟩ := onAccount_eq_true.mp hk
    simp only [Bool.and_eq_true, decide_eq_true_eq] at hcond
    rw [hcond.1]
  rw [hs₂.got]
  rcases hsingle with rfl | ⟨row, rfl⟩
  · trivial
  intro d₃ henv₃
  have hd₂ : Agree y₁.locks y₁.db d₃ :=
    fun k hk ↦ (henv₂.agree k hk).trans (hs₂.agree_of henv₃.agree k hk)
  have hd : Agree locks d d₃ := fun k hk ↦ (henv₁.agree k hk).trans (hs₁.agree_of hd₂ k hk)
  obtain ⟨husers₁, hrefreshes₁, hrows₁, hfull₁⟩ := sweep_consumes hs₁ htodo₁ hd₂
  obtain ⟨husers₂, hrefreshes₂, hrows₂, hfull₂⟩ := sweep_consumes hs₂ htodo₂ henv₃.agree
  rw [hsame d₃ hd] at hrows₁ hfull₁
  -- the first UPDATE passes the token over, the second finds it
  have hmid : account? (d₃.write y₁.own) hash = some token := by
    rcases hrows₁ hash with h | ⟨t, -, hcond, -⟩
    · exact h.trans (hfound d₃ hd)
    · simp at hcond
  have hown : account? (d₃.write y₂.own) hash = some (token.consume now) :=
    hfull₂ hash token hmid (by simp) hlive (hs₂.rows _ (List.mem_singleton_self _)).1
  have hrest : ∀ h, h ≠ hash → account? (d₃.write y₂.own) h = account? (d₃.write y₁.own) h := by
    intro h hne
    rcases hrows₂ h with h' | ⟨t, -, hcond, -⟩
    · exact h'
    · exact absurd (decide_eq_true_eq.mp hcond) hne
  have hrely : p.rule.rely d₁ d₃ := p.rule.trans _ _ _ hs₁.rely
    (p.rule.trans _ _ _ henv₂.rely (p.rule.trans _ _ _ hs₂.rely henv₃.rely))
  refine hpost d₃ y₂.own hd (p.rule.trans _ _ _ henv₁.rely hrely) (fun hg ↦ ?_)
    ⟨hfound d₃ hd, hpurpose, hlive, hdate, hown, fun h ↦ ?_, fun hp h t ht huser hpurp ↦ ?_⟩
    (husers₂.trans husers₁) (hrefreshes₂.trans hrefreshes₁)
  · exact closed_consumeRest henv₁ hs₁ henv₂ hs₂ henv₃ hg
  · by_cases hne : h = hash
    · subst hne
      exact .inr ⟨token, hfound d₃ hd, rfl, hpurpose, hlive, hown⟩
    · rw [hrest h hne]
      refine (hrows₁ h).imp_right ?_
      rintro ⟨t, ht, hcond, hnone, hset⟩
      simp only [Bool.decide_and, decide_eq_true_eq, Bool.and_eq_true] at hcond
      exact ⟨t, ht, hcond.1, hcond.2.1, hnone, hset⟩
  · by_contra hunconsumed
    have hnone : t.consumedAt = none := by simpa using hunconsumed
    have hne : h ≠ hash := by
      rintro rfl
      rw [hown] at ht
      cases ht
      cases hnone
    rw [hrest h hne] at ht
    have hsame₃ : account? d₃ h = some t := by
      rcases hrows₁ h with h' | ⟨t', -, -, -, hset⟩
      · exact h'.symm.trans ht
      · obtain rfl := Option.some.inj (ht.symm.trans hset)
        cases hnone
    -- the row was in the snapshot of the first UPDATE, which did not consume it
    obtain ⟨t₀, ht₀⟩ := Option.ne_none_iff_exists'.mp fun hnew ↦ by
      have habsent := (hrely.2 hp).1 h hnew
      rw [hsame₃] at habsent
      cases habsent
    obtain ⟨t', ht', hlater⟩ := hrely.1.accounts h t₀ ht₀
    obtain rfl := Option.some.inj (hsame₃.symm.trans ht')
    have hnone₀ : t₀.consumedAt = none := by
      by_contra hsome
      have hconsumed := hlater.consumed (Option.isSome_iff_ne_none.mpr hsome)
      rw [hnone] at hconsumed
      cases hconsumed
    have htarget : Key.account h ∈ (d₁.write own).targets (unconsumed fun h row ↦
        row.userId = token.userId ∧ row.purpose = purpose ∧ h ≠ hash) := by
      refine Store.mem_targets.mpr ⟨.account t₀, account?_eq_some.mp ?_, ?_⟩
      · rw [hsame d₁ henv₁.agree]
        exact ht₀
      · simp [unconsumed, onAccount, hnone₀, hne, ← hlater.userId, ← hlater.purpose, huser, hpurp]
    have hset := hfull₁ h t hsame₃ (by simp [huser, hpurp, hne]) hnone htarget
    have hconsumed := congrArg AccountToken.consumedAt (Option.some.inj (ht.symm.trans hset))
    rw [hnone] at hconsumed
    cases hconsumed

/-- What the first SELECT of `consumeAccountToken` has found. -/
theorem usable_of_found {raw : String} {purpose : Purpose} {row : Row}
    (h : onAccount (fun hash row ↦ hash = p.hashToken raw ∧ row.purpose = purpose ∧
      row.consumedAt.isNone ∧ now < row.expiresAt) (.account (p.hashToken raw)) row = true) :
    ∃ token, row = .account token ∧ token.purpose = purpose ∧ token.consumedAt = none ∧
      now < token.expiresAt := by
  obtain ⟨hash, token, -, rfl, hcond⟩ := onAccount_eq_true.mp h
  simp only [Bool.decide_and, Bool.and_eq_true, decide_eq_true_eq] at hcond
  exact ⟨token, rfl, hcond.2.1, by simpa using hcond.2.2.1, hcond.2.2.2⟩

private theorem ok_verifyEmail {raw : String} (hspawn : p.spawn (.verifyEmail now raw)) :
    p.rule.Ok (.verifyEmail now raw)
      (consumeAccountToken p.hashToken now raw .emailVerification (verifyCallback now)) d [] [] := by
  refine ok_select (.account (p.hashToken raw)) (fun k row hk ↦ ?_) (fun y _ _ ↦ rfl)
    fun y row hcond hlocked ↦ ?_
  · obtain ⟨hash, t, rfl, rfl, hhash⟩ := onAccount_eq_true.mp hk
    simp only [Bool.decide_and, Bool.and_eq_true, decide_eq_true_eq] at hhash
    rw [hhash.1]
  obtain ⟨token, rfl, hpurpose, hlive, hdate⟩ := usable_of_found hcond
  refine ok_updateUser fun y' u hlater hagree hown hread ↦ ?_
  refine ok_consumeRest (fun d' hd' ↦ ?_) (fun d' hd' ↦ ?_) hpurpose hlive hdate ?_
  · exact account?_eq_some.mpr (hlocked.found d' (hagree d' hd'))
  · rw [(hread d' hd').2.2.1]
    exact (tables_of_same (hlocked.same d' (hagree d' hd'))).2.1
  · intro d' own' hd' _ _ hconsumed husers hrefreshes
    obtain ⟨huser, hset, -, hrefresh⟩ := hread d' hd'
    obtain ⟨hbase, -, hbase'⟩ := tables_of_same (hlocked.same d' (hagree d' hd'))
    rw [hbase] at huser hset
    refine ⟨hspawn, .verifyEmail hconsumed huser (fun id ↦ ?_) ?_⟩
    · rw [husers]
      exact hset id
    · exact hrefreshes.trans (hrefresh.trans hbase')

private theorem ok_resetPassword {raw hash : String}
    (hspawn : p.spawn (.resetPassword now raw hash)) :
    p.rule.Ok (.resetPassword now raw hash)
      (consumeAccountToken p.hashToken now raw .passwordReset (resetCallback hash now)) d [] [] := by
  refine ok_select (.account (p.hashToken raw)) (fun k row hk ↦ ?_) (fun y _ _ ↦ rfl)
    fun y row hcond hlocked ↦ ?_
  · obtain ⟨hash, t, rfl, rfl, hhash⟩ := onAccount_eq_true.mp hk
    simp only [Bool.decide_and, Bool.and_eq_true, decide_eq_true_eq] at hhash
    rw [hhash.1]
  obtain ⟨token, rfl, hpurpose, hlive, hdate⟩ := usable_of_found hcond
  refine ok_updateUser fun y₁ u _ hagree hown hread ↦ ?_
  -- the UPDATE that revokes, then the account tokens
  have hbase : ∀ d', Agree y₁.locks y₁.db d' → account? (d'.write y₁.own) = account? d' ∧
      refresh? (d'.write y₁.own) = refresh? d' := by
    intro d' hd'
    obtain ⟨-, haccount, hrefresh⟩ := tables_of_same (hlocked.same d' (hagree d' hd'))
    obtain ⟨-, -, haccount', hrefresh'⟩ := hread d' hd'
    exact ⟨haccount'.trans haccount, hrefresh'.trans hrefresh⟩
  refine Rule.ok_update fun d₁ y₂ l henv hs htodo ↦ ?_
  have hlater : ∀ d', Agree y₂.locks y₂.db d' → Agree y₁.locks y₁.db d' :=
    fun d' hd' k hk ↦ (henv.agree k hk).trans (hs.agree_of hd' k hk)
  have hrevokes := fun d' (hd' : Agree y₂.locks y₂.db d') ↦ sweep_revokes hs htodo
    (hbase d₁ henv.agree).2 hd' (hbase d' (hlater d' hd')).2
  refine ok_consumeRest (fun d' hd' ↦ ?_) (fun d' hd' ↦ ?_) hpurpose hlive hdate ?_
  · exact account?_eq_some.mpr (hlocked.found d' (hagree d' (hlater d' hd')))
  · exact (hrevokes d' hd').2.1.trans (hbase d' (hlater d' hd')).1
  · intro d' own' hd' hrely hclosed hconsumed husers hrefreshes
    obtain ⟨husers', -, hrows, hall⟩ := hrevokes d' hd'
    obtain ⟨huser, hset, -, -⟩ := hread d' (hlater d' hd')
    rw [(tables_of_same (hlocked.same d' (hagree d' (hlater d' hd')))).1] at huser hset
    refine ⟨hspawn, .resetPassword hconsumed huser (fun id ↦ ?_) (fun h ↦ ?_) fun hg ↦ ?_⟩
    · rw [husers, husers']
      exact hset id
    · rw [hrefreshes]
      simpa using hrows h
    · rw [AllRevoked, hrefreshes]
      have hrely' : p.rule.rely d₁ d' := p.rule.trans _ _ _ hs.rely hrely
      refine hall _ (fun _ _ hl hu ↦ hl.userId ▸ hu) (fun _ t ht ↦ decide_eq_true ht) hrely'.1 ?_
      rcases hg with hg | halone
      · have hcovers : ∀ t, t.userId = token.userId →
            Covers p.hashToken (.resetPassword now raw hash) y₁.own t := by
          rintro t ht
          exact ⟨_, by rw [hown, ht]; exact List.mem_append_right _ (List.mem_singleton_self _)⟩
        have hpast : ∀ rows : List Row, ¬ MayRevoke
            (consumeRest now (p.hashToken raw) token .passwordReset true) :=
          fun _ ↦ not_mayRevoke_consumeWhere fun _ ↦ not_mayRevoke_consumeWhere fun _ ↦ by
            split <;> exact id
        refine ((closed_sweep hs hg hpast).mono hcovers).trans hrely.1
          (fun _ _ hl hu ↦ hl.userId ▸ hu) ((hclosed hg).mono fun t ht ↦ ?_)
        exact (hcovers t ht).mono (hs.own ▸ List.prefix_append _ _)
      · intro h t ht _ hnone
        rw [(hrely'.2 halone).2 h hnone] at ht
        cases ht

end Programs

/-! ### The tables move on -/

section Later

variable {uuid : String → String} {d d' : Tables} {now : Nat}

private theorem RevokedWhere.later {sel : String → RefreshToken → Prop}
    (h : RevokedWhere now sel d d')
    {hash : String} {t : RefreshToken} (ht : refresh? d hash = some t) :
    ∃ t', refresh? d' hash = some t' ∧ t.Later t' := by
  rcases h hash with hsame | ⟨t₀, ht₀, -, hnone, hset⟩
  · exact ⟨t, hsame.trans ht, .refl t⟩
  · obtain rfl := Option.some.inj (ht.symm.trans ht₀)
    exact ⟨_, hset, RefreshToken.later_revoke hnone⟩

private theorem RevokedWhere.absent {sel : String → RefreshToken → Prop}
    (h : RevokedWhere now sel d d')
    {hash : String} (ht : refresh? d hash = none) : refresh? d' hash = none := by
  rcases h hash with hsame | ⟨t₀, ht₀, -⟩
  · exact hsame.trans ht
  · rw [ht] at ht₀
    cases ht₀

private theorem Consumed.later {hash : String} {purpose : Purpose} {token : AccountToken}
    {full : Prop}
    (h : Consumed now hash purpose token full d d') {h₀ : String} {t : AccountToken}
    (ht : account? d h₀ = some t) : ∃ t', account? d' h₀ = some t' ∧ t.Later t' := by
  rcases h.rest h₀ with hsame | ⟨t₀, ht₀, -, -, -, hset⟩
  · exact ⟨t, hsame.trans ht, .refl t⟩
  · obtain rfl := Option.some.inj (ht.symm.trans ht₀)
    exact ⟨_, hset, AccountToken.later_consume t⟩

private theorem Consumed.absent {hash : String} {purpose : Purpose} {token : AccountToken}
    {full : Prop}
    (h : Consumed now hash purpose token full d d') {h₀ : String} (ht : account? d h₀ = none) :
    account? d' h₀ = none := by
  rcases h.rest h₀ with hsame | ⟨t₀, ht₀, -⟩
  · exact hsame.trans ht
  · rw [ht] at ht₀
    cases ht₀

/-- The tables after a change of users that keeps the session versions, of account tokens and of
refresh tokens, without a new refresh token. -/
theorem later_of_parts
    (husers : ∀ id u, user? d id = some u →
      ∃ u', user? d' id = some u' ∧ u.sessionVersion ≤ u'.sessionVersion)
    (haccounts : ∀ hash t, account? d hash = some t → ∃ t', account? d' hash = some t' ∧ t.Later t')
    (hrefreshes : ∀ hash t, refresh? d hash = some t → ∃ t', refresh? d' hash = some t' ∧ t.Later t')
    (hnew : ∀ hash, refresh? d hash = none → refresh? d' hash = none) : Later uuid d d' where
  users := husers
  accounts := haccounts
  refreshes := hrefreshes
  minted hash t' ht' hnone := by
    rw [hnew hash hnone] at ht'
    cases ht'

private theorem users_of_eq (h : user? d' = user? d) : ∀ id u, user? d id = some u →
    ∃ u', user? d' id = some u' ∧ u.sessionVersion ≤ u'.sessionVersion :=
  fun _ u hu ↦ ⟨u, h ▸ hu, Nat.le_refl _⟩

private theorem users_of_set {userId : Nat} {user user' : UserRow}
    (huser : user? d userId = some user)
    (hle : user.sessionVersion ≤ user'.sessionVersion)
    (h : ∀ id, user? d' id = if id = userId then some user' else user? d id) :
    ∀ id u, user? d id = some u →
      ∃ u', user? d' id = some u' ∧ u.sessionVersion ≤ u'.sessionVersion := by
  intro id u hu
  rw [h id]
  split
  · next hid =>
    subst hid
    obtain rfl := Option.some.inj (hu.symm.trans huser)
    exact ⟨user', rfl, hle⟩
  · exact ⟨u, hu, Nat.le_refl _⟩

private theorem accounts_of_eq (h : account? d' = account? d) : ∀ hash t, account? d hash = some t →
    ∃ t', account? d' hash = some t' ∧ t.Later t' := fun _ t ht ↦ ⟨t, h ▸ ht, .refl t⟩

private theorem refreshes_of_eq (h : refresh? d' = refresh? d) :
    ∀ hash t, refresh? d hash = some t →
    ∃ t', refresh? d' hash = some t' ∧ t.Later t' := fun _ t ht ↦ ⟨t, h ▸ ht, .refl t⟩

variable {hashToken : String → String} {refreshMaxAgeMs : Nat} {covered alone : Prop} {c : Call}
  {value : c.Result}

/-- A new account token leaves the rest alone. -/
theorem tables_putAccount (hash : String) (token : AccountToken) :
    user? (d.put (.account hash) (.account token)) = user? d ∧
      refresh? (d.put (.account hash) (.account token)) = refresh? d ∧
      ∀ h, account? (d.put (.account hash) (.account token)) h =
        if h = hash then some token else account? d h := by
  refine ⟨?_, ?_, fun h ↦ ?_⟩
  · funext id
    simp [user?, Store.row?_put]
  · funext h
    simp [refresh?, Store.row?_put]
  · simp only [account?, Store.row?_put, Key.account.injEq]
    split <;> rfl

/-- A new refresh token leaves the rest alone. -/
theorem tables_putRefresh (hash : String) (token : RefreshToken) :
    user? (d.put (.refresh hash) (.refresh token)) = user? d ∧
      account? (d.put (.refresh hash) (.refresh token)) = account? d ∧
      ∀ h, refresh? (d.put (.refresh hash) (.refresh token)) h =
        if h = hash then some token else refresh? d h := by
  refine ⟨?_, ?_, fun h ↦ ?_⟩
  · funext id
    simp [user?, Store.row?_put]
  · funext h
    simp [account?, Store.row?_put]
  · simp only [refresh?, Store.row?_put, Key.refresh.injEq]
    split <;> rfl

/-- Every call moves the tables on. -/
theorem later_of_effect
    (h : Effect hashToken uuid refreshMaxAgeMs covered alone c value d d') : Later uuid d d' := by
  cases h with
  | @issueAccountToken _ now userId purpose ttlMs raw hnew =>
    obtain ⟨husers, hrefreshes, haccounts⟩ := tables_putAccount (d := d) (hashToken raw)
      ⟨userId, purpose, now + ttlMs, none⟩
    refine later_of_parts (users_of_eq husers) (fun h t ht ↦ ⟨t, ?_, .refl t⟩)
      (refreshes_of_eq hrefreshes) fun h hn ↦ (congrFun hrefreshes h).trans hn
    rw [haccounts, if_neg, ht]
    rintro rfl
    rw [account?, hnew] at ht
    cases ht
  | verifyEmail hconsumed huser hset hrefresh =>
    exact later_of_parts (users_of_set huser (by exact Nat.le_refl _) hset) (fun _ _ ↦ hconsumed.later)
      (refreshes_of_eq hrefresh) fun hash hn ↦ (congrFun hrefresh hash).trans hn
  | resetPassword hconsumed huser hset hrows _ =>
    exact later_of_parts (users_of_set huser (by exact Nat.le_succ _) hset) (fun _ _ ↦ hconsumed.later)
      (fun _ _ ↦ hrows.later) fun _ ↦ hrows.absent
  | @issueRefreshToken _ now userId raw hnew =>
    obtain ⟨husers, haccounts, hrefreshes⟩ := tables_putRefresh (d := d) (hashToken raw)
      ⟨userId, uuid (hashToken raw), now + refreshMaxAgeMs, none, none, none⟩
    have hnone : refresh? d (hashToken raw) = none := by rw [refresh?, hnew, Option.bind_none]
    refine ⟨users_of_eq husers, accounts_of_eq haccounts, fun h t ht ↦ ⟨t, ?_, .refl t⟩,
      fun h t' ht' hn ↦ .inl ⟨hashToken raw, ?_, hnone⟩⟩
    · rw [hrefreshes, if_neg, ht]
      rintro rfl
      rw [hnone] at ht
      cases ht
    · rw [hrefreshes] at ht'
      split at ht'
      · cases ht'
        rfl
      · rw [hn] at ht'
        cases ht'
  | reuse _ _ _ _ husers haccounts hrows _ =>
    exact later_of_parts (users_of_eq husers) (accounts_of_eq haccounts) (fun _ _ ↦ hrows.later)
      fun _ ↦ hrows.absent
  | @rotate _ _ now date raw nextRaw old user user' hfound hdate hrevoked hlive hnew huser hle
      husers haccounts hrows =>
    have hnone : refresh? d (hashToken nextRaw) = none := by rw [refresh?, hnew, Option.bind_none]
    refine ⟨users_of_eq husers, accounts_of_eq haccounts, fun h t ht ↦ ?_, fun h t' ht' hn ↦ ?_⟩
    · rw [hrows]
      split
      · next heq =>
        rw [heq, hnone] at ht
        cases ht
      split
      · next heq =>
        obtain rfl := Option.some.inj (hfound.symm.trans (heq ▸ ht))
        exact ⟨_, rfl, RefreshToken.later_replace hlive⟩
      · exact ⟨t, ht, .refl t⟩
    · rw [hrows] at ht'
      split at ht'
      · cases ht'
        exact .inr ⟨_, old, hfound, rfl, hrevoked⟩
      split at ht'
      · next heq =>
        rw [heq, hfound] at hn
        cases hn
      · rw [hn] at ht'
        cases ht'
  | revokeRefreshToken husers haccounts hrows =>
    exact later_of_parts (users_of_eq husers) (accounts_of_eq haccounts) (fun _ _ ↦ hrows.later)
      fun _ ↦ hrows.absent
  | revokeAllForUser husers haccounts hrows _ =>
    exact later_of_parts (users_of_eq husers) (accounts_of_eq haccounts) (fun _ _ ↦ hrows.later)
      fun _ ↦ hrows.absent
  | logout huser hset haccounts hrows _ =>
    exact later_of_parts (users_of_set huser (by exact Nat.le_succ _) hset) (accounts_of_eq haccounts)
      (fun _ _ ↦ hrows.later) fun _ ↦ hrows.absent

end Later

/-! ### Every run -/

variable {p : Params}

/-- A commit keeps what the others rely on. -/
theorem commit_sound {c : Call} {value : c.Result} {d d' : Tables}
    (h : p.rule.post c value d d') : p.rule.rely d d' := by
  refine ⟨later_of_effect h.2, fun halone ↦ ?_⟩
  obtain ⟨hspawn, heffect⟩ := h
  have hconsumes := halone c hspawn
  cases heffect with
  | verifyEmail hconsumed _ _ hrefresh =>
    exact ⟨fun _ ↦ hconsumed.absent, fun hash hn ↦ (congrFun hrefresh hash).trans hn⟩
  | resetPassword hconsumed _ _ hrows _ => exact ⟨fun _ ↦ hconsumed.absent, fun _ ↦ hrows.absent⟩
  | issueAccountToken => exact hconsumes.elim
  | issueRefreshToken => exact hconsumes.elim
  | reuse => exact hconsumes.elim
  | rotate => exact hconsumes.elim
  | revokeRefreshToken => exact hconsumes.elim
  | revokeAllForUser => exact hconsumes.elim
  | logout => exact hconsumes.elim

/-- The machine that a rule of these parameters is about. -/
def Params.system (p : Params) (start : Tables → Prop) : System Key Row Call Call.Result :=
  tokens p.hashToken p.uuid p.refreshMaxAgeMs start p.spawn

/-- Every call keeps the rule. -/
theorem tokens_sound (p : Params) (start : Tables → Prop) : p.rule.Sound (p.system start) where
  start _ _ := trivial
  commit _ _ _ _ _ h := ⟨trivial, commit_sound h⟩
  spawn c hc d _ := by
    cases c with
    | issueAccountToken now userId purpose ttlMs raw =>
      exact ok_issue fun d hnew ↦ ⟨hc, .issueAccountToken hnew⟩
    | verifyEmail now raw => exact ok_verifyEmail hc
    | resetPassword now raw hash => exact ok_resetPassword hc
    | issueRefreshToken now userId raw =>
      exact ok_issue fun d hnew ↦ ⟨hc, .issueRefreshToken hnew⟩
    | rotateRefreshToken now date raw nextRaw => exact ok_rotateRefreshToken hc
    | revokeRefreshToken now raw => exact ok_revokeRefreshToken hc
    | revokeAllForUser now userId => exact ok_revokeAllForUser hc
    | logout now userId => exact ok_logout hc

end ChessStack.Auth
