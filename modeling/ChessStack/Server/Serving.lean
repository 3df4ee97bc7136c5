import ChessStack.Server.Authority

/-!
# Serving the requests of the handlers

Library `Server`. Whatever a function of `Chess-Backend/src/socket/gameSocket.js` may ask for can
be served at any moment: the tables and the votes stay in order, and what the other functions
count on stays true.
-/

namespace ChessStack.Server

open ChessStack.Chess ChessStack.Js ChessStack.Library ChessStack.Store

variable {js : ChessJs} {at_ : js.Game → Position → Prop} {D : Deployment} {d d' : Db}

/-! ### What a call does to the seats -/

/-- How the row of a game after a call comes from the tables before it: its seats are as they
were, the call has claimed the black one, or the game is new. -/
inductive RowFrom (d : Db) (call : Call js) (value : Result js call) (id : Nat) (row' : GameRow) :
    Prop
  | kept {row : GameRow} : d.game? id = some row → row'.blackUsername = row.blackUsername →
      (row.blackUsername = none → row'.status = row.status) → RowFrom d call value id row'
  | claimed {row : GameRow} {user : SocketUser} {seated : GameRow} : d.game? id = some row →
      row.blackUsername = none → row.status = .inProgress → row'.status = .inProgress →
      row'.blackUsername.isSome → (⟨call, value⟩ : (c : Call js) × Result js c) =
        ⟨.claimBlack id user, some seated⟩ → RowFrom d call value id row'
  | created : d.game? id = none → row'.status = .inProgress → RowFrom d call value id row'

/-- One row of the tables is replaced. -/
theorem rowFrom_update {call : Call js} {value : Result js call} {gameId : Nat} {old new : GameRow}
    (hgame : ∀ id, d'.game? id = if id = gameId then some new else d.game? id)
    (hold : d.game? gameId = some old) (hname : new.blackUsername = old.blackUsername)
    (hstatus : old.blackUsername = none → new.status = old.status) (id : Nat) (row' : GameRow)
    (hrow' : d'.game? id = some row') : RowFrom d call value id row' := by
  rw [hgame] at hrow'
  split at hrow'
  · next heq =>
    obtain rfl := Option.some.inj hrow'
    exact .kept (heq ▸ hold) hname hstatus
  · exact .kept hrow' rfl fun _ ↦ rfl

/-- The seats after any call a function may make. -/
theorem rowFrom_of_run {c : Caller} {call : Call js} {log : List (Event js)}
    {value : Result js call} (hok : DbOk js at_ D.accounts d) (hpre : CallPre js D c call d log)
    (hrun : backend.run (prog js D.computeNewRatings call) d = some (value, d')) (id : Nat)
    (row' : GameRow) (hrow' : d'.game? id = some row') : RowFrom d call value id row' := by
  cases call with
  | create newId roomId user now =>
    obtain ⟨hfresh, -, rfl, rfl⟩ := create_run hrun
    rw [game?_putGame] at hrow'
    split at hrow'
    · next heq =>
      obtain rfl := Option.some.inj hrow'
      exact .created (heq ▸ hfresh) rfl
    · exact .kept hrow' rfl fun _ ↦ rfl
  | claimBlack gameId user =>
    obtain ⟨-, rfl, -⟩ | ⟨row, hrow, hactive, hfree, hsome, rfl⟩ := claimBlack_run hrun
    · exact .kept hrow' rfl fun _ ↦ rfl
    · rw [game?_putGame] at hrow'
      split at hrow'
      · next heq =>
        obtain rfl := Option.some.inj hrow'
        have hkey := Db.id_of_game? hrow
        have hid : id = gameId := heq.trans hkey
        obtain ⟨seated, rfl⟩ := Option.isSome_iff_exists.mp hsome
        subst hid
        exact .claimed hrow hfree hactive hactive rfl rfl
      · exact .kept hrow' rfl fun _ ↦ rfl
  | persistMove gameId sender player requested =>
    obtain ⟨-, rfl⟩ | ⟨row, chess, persisted, rfl, hs⟩ := persistMoveAtomic_run hrun
    · exact .kept hrow' rfl fun _ ↦ rfl
    · exact rowFrom_update hs.game? hs.found rfl (fun _ ↦ rfl) id row' hrow'
  | finalize room result winnerColor now =>
    obtain ⟨-, -, rfl⟩ | ⟨row, white, -, black, -, _, _, hseats, -, -, hs⟩ :=
      finalize_cases hok hpre.game.1 hrun
    · exact .kept hrow' rfl fun _ ↦ rfl
    · refine rowFrom_update hs.game? hs.found rfl (fun hnone ↦ ?_) id row' hrow'
      rw [hseats.blackName] at hnone
      cases hnone
  | rematch gameId roomId white black newId now =>
    obtain ⟨old, new, hnew, -⟩ := rematch_run hrun
    rw [hnew.after, game?_putGame, game?_putGame, game?_putGame] at hrow'
    have hid : new.id = newId := by rw [hnew.created]
    split at hrow'
    · next heq =>
      obtain rfl := Option.some.inj hrow'
      refine .created ?_ (by rw [hnew.created])
      rw [heq, hid]
      exact hnew.fresh
    · split at hrow'
      · next heq =>
        obtain rfl := Option.some.inj hrow'
        have hkey := Db.id_of_game? hnew.found
        have hid : id = gameId := heq.trans hkey
        have hold : d.game? id = some old := hid ▸ hnew.found
        exact .kept hold rfl fun _ ↦ rfl
      · exact .kept hrow' rfl fun _ ↦ rfl
  | abandonMany gameId => exact hpre.origin.elim

/-! ### The tables -/

section Tables

variable {c : Caller} {call : Call js} {log : List (Event js)} {value : Result js call}

/-- A commit takes the tables onward. -/
theorem commit_onward (hjs : js.Follows at_) (hok : TablesOk D at_ d)
    (hpre : CallPre js D c call d log)
    (hrun : backend.run (prog js D.computeNewRatings call) d = some (value, d')) :
    Onward d d' ∧ RoomsOnward d d' :=
  ⟨((gameProtocol_sound hjs).commit call d value d' hok.rows hpre.game hrun).2,
    (@roomProtocol_sound js D.accounts D.computeNewRatings |>.commit call d value d' hok.holders
      hpre.rooms hrun).2⟩

private theorem TablesOk.commit (hjs : js.Follows at_) (hok : TablesOk D at_ d)
    (hpre : CallPre js D c call d log)
    (hrun : backend.run (prog js D.computeNewRatings call) d = some (value, d')) :
    TablesOk D at_ d' where
  rows := ((gameProtocol_sound hjs).commit call d value d' hok.rows hpre.game hrun).1
  holders := (@roomProtocol_sound js D.accounts D.computeNewRatings |>.commit call d value d' hok.holders
    hpre.rooms hrun).1
  vacant id row' hrow' hnone := by
    rcases rowFrom_of_run hok.rows hpre hrun id row' hrow' with
      ⟨hrow, hname, hstatus⟩ | ⟨-, -, -, -, hsome, -⟩ | ⟨-, hactive⟩
    · rw [hname] at hnone
      exact (hstatus hnone).trans (hok.vacant _ _ hrow hnone)
    · rw [hnone] at hsome
      cases hsome
    · exact hactive

end Tables

/-! ### The votes -/

/-- No command puts a user into a set twice. -/
theorem VoteCommand.apply_nodup {voters : List Nat} (h : voters.Nodup) (command : VoteCommand) :
    (command.apply voters).Nodup := by
  cases command with
  | sadd gameId user => exact h.insert
  | addLocal gameId user => exact h.insert
  | srem gameId user => exact h.erase user
  | del gameId => exact List.nodup_nil
  | expire gameId => exact h
  | scard gameId => exact h

/-- Who is in the set after a command was in it, or has been added. -/
theorem VoteCommand.mem_apply {voters : List Nat} {command : VoteCommand} {userId : Nat}
    (h : userId ∈ command.apply voters) :
    userId ∈ voters ∨ command.Adds command.gameId userId := by
  cases command with
  | sadd gameId user =>
    rcases List.mem_insert_iff.mp h with rfl | hmem
    · exact Or.inr (Or.inl rfl)
    · exact Or.inl hmem
  | addLocal gameId user =>
    rcases List.mem_insert_iff.mp h with rfl | hmem
    · exact Or.inr (Or.inr rfl)
    · exact Or.inl hmem
  | srem gameId user => exact Or.inl (List.mem_of_mem_erase h)
  | del gameId => cases h
  | expire gameId => exact Or.inl h
  | scard gameId => exact Or.inl h

/-- One more event of the votes. -/
theorem votersOf_append (log : List (Event js)) (e : Event js) (store gameId : Nat) :
    votersOf D (log ++ [e]) store gameId = e.voters D store gameId (votersOf D log store gameId) := by
  rw [votersOf, List.foldl_append]
  rfl

/-- The vote sets after a request. -/
theorem serve_votes {c : Caller} {fetched : List Nat} {o o' : Outside} {r : Await js}
    {a : Answer js r} (hserve : o.serve D c.process fetched r = some (a, o')) (arrived : Bool)
    (store gameId : Nat) : o'.votes store gameId =
      (Event.served c r a arrived o o' : Event js).voters D store gameId (o.votes store gameId) := by
  cases r with
  | tick =>
    obtain ⟨-, rfl⟩ := Prod.mk.inj (Option.some.inj hserve)
    rfl
  | snapshot roomId =>
    obtain ⟨-, rfl⟩ := Prod.mk.inj (Option.some.inj hserve)
    rfl
  | presence roomId =>
    obtain ⟨-, rfl⟩ := Prod.mk.inj (Option.some.inj hserve)
    rfl
  | call call =>
    obtain ⟨⟨value, db⟩, -, heq⟩ := Option.map_eq_some_iff.mp hserve
    obtain ⟨-, rfl⟩ := Prod.mk.inj heq
    rfl
  | vote command =>
    obtain ⟨-, rfl⟩ := Prod.mk.inj (Option.some.inj hserve)
    change Function.update o.votes _ (Function.update (o.votes _) _ _) store gameId = ite _ _ _
    by_cases hstore : Outside.storeOf D c.process = store
    · subst hstore
      rw [Function.update_self]
      by_cases hgame : command.gameId = gameId
      · subst hgame
        rw [Function.update_self, if_pos ⟨rfl, rfl⟩]
      · rw [Function.update_of_ne (Ne.symm hgame), if_neg (fun h ↦ hgame h.2)]
    · rw [Function.update_of_ne (Ne.symm hstore), if_neg (fun h ↦ hstore h.1)]

/-! ### The tables after any request -/

section Serve

variable {c : Caller} {fetched : List Nat} {o o' : Outside} {r : Await js} {a : Answer js r}
  {log : List (Event js)}

/-- A request is a call that has committed, or leaves the tables alone. -/
theorem serve_db (hserve : o.serve D c.process fetched r = some (a, o')) :
    (∃ call value, (⟨r, a⟩ : (r : Await js) × Answer js r) = ⟨.call call, some value⟩ ∧
      backend.run (prog js D.computeNewRatings call) o.db = some (value, o'.db)) ∨
    (∀ call, r ≠ .call call) ∧ o'.db = o.db := by
  cases r with
  | call call =>
    obtain ⟨⟨value, db⟩, hrun, heq⟩ := Option.map_eq_some_iff.mp hserve
    obtain ⟨rfl, rfl⟩ := Prod.mk.inj heq
    exact Or.inl ⟨call, value, rfl, hrun⟩
  | tick =>
    obtain ⟨-, rfl⟩ := Prod.mk.inj (Option.some.inj hserve)
    exact Or.inr ⟨fun _ h ↦ by (cases h), rfl⟩
  | snapshot roomId =>
    obtain ⟨-, rfl⟩ := Prod.mk.inj (Option.some.inj hserve)
    exact Or.inr ⟨fun _ h ↦ by (cases h), rfl⟩
  | presence roomId =>
    obtain ⟨-, rfl⟩ := Prod.mk.inj (Option.some.inj hserve)
    exact Or.inr ⟨fun _ h ↦ by (cases h), rfl⟩
  | vote command =>
    obtain ⟨-, rfl⟩ := Prod.mk.inj (Option.some.inj hserve)
    exact Or.inr ⟨fun _ h ↦ by (cases h), rfl⟩

private theorem serve_tables (hjs : js.Follows at_) (hok : TablesOk D at_ o.db)
    (hpre : AwaitPre D c r o.db log) (hserve : o.serve D c.process fetched r = some (a, o')) :
    TablesOk D at_ o'.db ∧ Onward o.db o'.db ∧ RoomsOnward o.db o'.db := by
  obtain ⟨call, value, heq, hrun⟩ | ⟨-, heq⟩ := serve_db hserve
  · cases heq
    exact ⟨hok.commit hjs hpre hrun, commit_onward hjs hok hpre hrun⟩
  · rw [heq]
    exact ⟨hok, Onward.refl _, RoomsOnward.refl _⟩

/-- The black seat of a row after a request: as it was, claimed by the request, or the row is
new. -/
theorem serve_seat (hok : TablesOk D at_ o.db) (hpre : AwaitPre D c r o.db log)
    (hserve : o.serve D c.process fetched r = some (a, o')) (arrived : Bool) {id : Nat}
    {row' : GameRow} (hrow' : o'.db.game? id = some row') :
    (∃ row, o.db.game? id = some row ∧ row'.blackUsername = row.blackUsername) ∨
      (∃ user, Granted [Event.served c r a arrived o o'] c id user) ∨ o.db.game? id = none := by
  obtain ⟨call, value, heq, hrun⟩ | ⟨-, heq⟩ := serve_db hserve
  · cases heq
    rcases rowFrom_of_run hok.rows hpre hrun id row' hrow' with
      ⟨hrow, hname, -⟩ | ⟨-, -, -, -, -, hcall⟩ | ⟨hnone, -⟩
    · exact Or.inl ⟨_, hrow, hname⟩
    · cases hcall
      exact Or.inr (Or.inl ⟨_, _, _, _, _, List.mem_singleton_self _⟩)
    · exact Or.inr (Or.inr hnone)
  · exact Or.inl ⟨row', heq ▸ hrow', rfl⟩

/-- A seat that a request has granted is taken after it. -/
theorem serve_granted (hserve : o.serve D c.process fetched r = some (a, o')) {arrived : Bool}
    {c' : Caller} {gameId : Nat} {user : SocketUser}
    (h : Granted [Event.served c r a arrived o o'] c' gameId user) :
    ∃ row, o'.db.game? gameId = some row ∧ row.blackUsername.isSome := by
  obtain ⟨seated, arrived', before, after, hmem⟩ := h
  cases List.mem_singleton.mp hmem
  obtain ⟨⟨value, db⟩, hrun, heq⟩ := Option.map_eq_some_iff.mp hserve
  obtain ⟨hvalue, rfl⟩ := Prod.mk.inj heq
  obtain rfl := Option.some.inj hvalue
  obtain ⟨hnone, -⟩ | ⟨row, hrow, -, -, -, hdb⟩ := claimBlack_run hrun
  · cases hnone
  · refine ⟨{ row with blackUserId := some user.id, blackUsername := some user.username }, ?_, rfl⟩
    change db.game? gameId = _
    rw [hdb, game?_putGame, if_pos (Db.id_of_game? hrow).symm]

end Serve

/-! ### The world after any request -/

section Recorded

variable {c c' : Caller} {fetched : List Nat} {w : World js} {o : Outside} {r : Await js}
  {a : Answer js r} {gameId : Nat}

private theorem Granted.of_append {log : List (Event js)} {e : Event js} {user : SocketUser}
    (h : Granted (log ++ [e]) c gameId user) : Granted log c gameId user ∨ Granted [e] c gameId user := by
  obtain ⟨row, arrived, before, after, hmem⟩ := h
  rcases List.mem_append.mp hmem with hold | hnew
  · exact Or.inl ⟨row, arrived, before, after, hold⟩
  · exact Or.inr ⟨row, arrived, before, after, hnew⟩

/-- Who is in a vote set after a request sits in the game and has voted for it. -/
theorem voters_served {log : List (Event js)} {o o' : Outside} (hpre : AwaitPre D c r o.db log)
    (hvoters : ∀ store gameId, ∀ userId ∈ o.votes store gameId,
      SeatedIn o.db gameId userId ∧ Voted log gameId userId)
    (hserve : o.serve D c.process fetched r = some (a, o')) (arrived : Bool) (store : Nat)
    {userId : Nat} (hmem : userId ∈ o'.votes store gameId) : SeatedIn o.db gameId userId ∧
      Voted (log ++ [.served c r a arrived o o']) gameId userId := by
  have hold : userId ∈ o.votes store gameId → SeatedIn o.db gameId userId ∧
      Voted (log ++ [.served c r a arrived o o']) gameId userId := by
    intro hmem
    obtain ⟨hseated, hvoted⟩ := hvoters store gameId userId hmem
    exact ⟨hseated, hvoted.mono fun e he ↦ List.mem_append_left _ he⟩
  rw [serve_votes hserve arrived] at hmem
  cases r with
  | vote command =>
    change userId ∈ ite _ _ _ at hmem
    split at hmem
    · next hkey =>
      rcases command.mem_apply hmem with hmem | hadds
      · exact hold hmem
      · rw [hkey.2] at hadds
        obtain ⟨haccepts, hseated, -⟩ := hpre.1 gameId userId hadds
        exact ⟨hseated, c, command, _, _, _, _, haccepts, hadds,
          List.mem_append_right _ (List.mem_singleton_self _)⟩
    · exact hold hmem
  | tick => exact hold hmem
  | snapshot roomId => exact hold hmem
  | presence roomId => exact hold hmem
  | call call => exact hold hmem

/-- Whatever a function may ask for can be served. -/
theorem WorldOk.recorded (hjs : js.Follows at_) (hw : WorldOk D at_ w)
    (hpre : AwaitPre D c r w.outside.db w.log)
    (hserve : w.outside.serve D c.process fetched r = some (a, o)) (arrived : Bool) :
    WorldOk D at_ (w.recorded c r a arrived o) ∧ Onward w.outside.db o.db ∧
      RoomsOnward w.outside.db o.db := by
  obtain ⟨htables, hon, hrooms⟩ := serve_tables hjs hw.tables hpre hserve
  have hlog : ∀ e ∈ w.log, e ∈ (w.recorded c r a arrived o).log :=
    fun e he ↦ List.mem_append_left _ he
  have hnew : ∀ e ∈ [Event.served c r a arrived w.outside o], e ∈ (w.recorded c r a arrived o).log :=
    fun e he ↦ List.mem_append_right _ he
  refine ⟨⟨htables, hw.coherent, fun process ref href ↦ ?_, hw.users, ?_, ?_, ?_, ?_, ?_, ?_, ?_⟩, hon,
    hrooms⟩
  · exact (hw.objects process ref href).onward hon fun _ _ h ↦ h
  · funext store gameId
    change o.votes store gameId = votersOf D (w.log ++ [_]) store gameId
    rw [votersOf_append, ← hw.votes]
    exact serve_votes hserve arrived store gameId
  · intro store gameId userId hmem
    obtain ⟨hseated, hvoted⟩ := voters_served hpre hw.voters hserve arrived store hmem
    exact ⟨hseated.onward hon, hvoted⟩
  · exact hw.log.snoc ⟨⟨_, hserve⟩, hw.votes, hpre, hw.tables, hw.voters, hw.past, hw.granted⟩
  · intro c' r' a' arrived' before after hmem
    rcases List.mem_append.mp hmem with hold | hfresh
    · exact (hw.past _ _ _ _ _ _ hold).trans hon
    · cases List.mem_singleton.mp hfresh
      exact hon
  · intro c' gameId user hgranted
    rcases hgranted.of_append with hold | hfresh
    · obtain ⟨row, hrow, hsome⟩ := hw.granted c' gameId user hold
      obtain ⟨row', hrow', honward⟩ := hon gameId row hrow
      exact ⟨row', hrow', by rw [(honward.black hsome).2]; exact hsome⟩
    · exact serve_granted hserve hfresh
  · intro gameId hvacant row' hrow' hsome
    rcases serve_seat hw.tables hpre hserve arrived hrow' with
      ⟨row, hrow, hname⟩ | ⟨user, hgranted⟩ | hnone
    · have hold : SawVacant w.log gameId := by
        obtain ⟨c₀, r₀, a₀, arrived₀, before, after, row₀, hmem, hrow₀, hfree⟩ := hvacant
        rcases List.mem_append.mp hmem with hmem | hmem
        · exact ⟨c₀, r₀, a₀, arrived₀, before, after, row₀, hmem, hrow₀, hfree⟩
        · cases List.mem_singleton.mp hmem
          rw [hrow] at hrow₀
          rw [hname, Option.some.inj hrow₀, hfree] at hsome
          cases hsome
      obtain ⟨c', user, hgranted⟩ := hw.filled gameId hold row hrow (hname ▸ hsome)
      exact ⟨c', user, hgranted.mono hlog⟩
    · exact ⟨c, user, hgranted.mono hnew⟩
    · obtain ⟨c₀, r₀, a₀, arrived₀, before, after, row₀, hmem, hrow₀, -⟩ := hvacant
      have hfound : ∃ row, w.outside.db.game? gameId = some row := by
        rcases List.mem_append.mp hmem with hmem | hmem
        · obtain ⟨row, hrow, -⟩ := hw.past _ _ _ _ _ _ hmem gameId row₀ hrow₀
          exact ⟨row, hrow⟩
        · cases List.mem_singleton.mp hmem
          exact ⟨row₀, hrow₀⟩
      obtain ⟨row, hrow⟩ := hfound
      rw [hnone] at hrow
      cases hrow
  · intro c' m hmem socket user roomId newId now horigin gameId
    rcases List.mem_append.mp hmem with hold | hfresh
    · obtain ⟨hjoins, hblack⟩ := hw.told c' m hold socket user roomId newId now horigin gameId
      exact ⟨fun h ↦ (hjoins h).onward hon, fun h ↦ (hblack h).onward hon⟩
    · cases List.mem_singleton.mp hfresh

end Recorded

end ChessStack.Server
