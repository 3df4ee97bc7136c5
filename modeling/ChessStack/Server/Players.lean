import ChessStack.Server.Seated

/-!
# Who can change a game

Library `Server`. In every run of the processes of `Chess-Backend/src/socket/gameSocket.js` a game
is changed only by its players: whatever else happens, the tables say of it what they said before,
but for the black seat of a waiting game, which another user takes.
-/

namespace ChessStack.Server

open ChessStack.Chess ChessStack.Js ChessStack.Library ChessStack.Store

/-- The tables say the same of the game. -/
structure SameGame (d d' : Db) (id : Nat) : Prop where
  row : d'.game? id = d.game? id
  moves : d'.movesOf id = d.movesOf id
  scores : d'.scoresOfGame id = d.scoresOfGame id

private theorem SameGame.refl (d : Db) (id : Nat) : SameGame d d id := ⟨rfl, rfl, rfl⟩

/-- The events by which a player changes its game. -/
def Packet.IsPlayers : Packet → Prop
  | .makeMove _ _ | .gameOver _ | .resign _ | .leaveRoom _ | .acceptRematch _ => True
  | .createRoom _ | .joinRoom _ | .requestRematch _ => False

private theorem Packet.Plays.isPlayers {packet : Packet} (h : packet.Plays) : packet.IsPlayers := by
  cases packet with
  | makeMove roomId move => trivial
  | gameOver roomId => trivial
  | resign roomId => trivial
  | leaveRoom roomId => trivial
  | _ => exact h.elim

/-! ### What a call leaves alone -/

section Calls

variable {js : ChessJs} {at_ : js.Game → Position → Prop} {D : Deployment} {d d' : Db} {c : Caller}
  {log : List (Event js)}

/-- The game a call is about. -/
def Call.gameId : Call js → Option Nat
  | .create .. => none
  | .claimBlack gameId _ | .persistMove gameId .. | .rematch gameId .. | .abandonMany gameId =>
    some gameId
  | .finalize room .. => some room.gameId

private theorem movesOf_putGame (d : Db) (row : GameRow) (id : Nat) :
    (d.apply (.putGame row)).movesOf id = d.movesOf id := by
  rw [Db.movesOf_apply]
  exact List.append_nil _

private theorem scoresOfGame_putGame (d : Db) (row : GameRow) (id : Nat) :
    (d.apply (.putGame row)).scoresOfGame id = d.scoresOfGame id := by
  rw [Db.scoresOfGame_apply]
  exact List.append_nil _

/-- A new version of another game's row. -/
theorem sameGame_putGame {row : GameRow} {id : Nat} (hne : id ≠ row.id) :
    SameGame d (d.apply (.putGame row)) id :=
  ⟨by rw [game?_putGame, if_neg hne], movesOf_putGame d row id, scoresOfGame_putGame d row id⟩

/-- A call changes no game but its own. -/
theorem call_sameGame {call : Call js} {value : Result js call} (hok : DbOk js at_ D.accounts d)
    (hpre : CallPre js D c call d log)
    (hrun : backend.run (prog js D.computeNewRatings call) d = some (value, d')) {id : Nat}
    {row : GameRow} (hrow : d.game? id = some row) (hne : call.gameId ≠ some id) :
    SameGame d d' id := by
  cases call with
  | create newId roomId user now =>
    obtain ⟨hfresh, -, rfl, rfl⟩ := create_run hrun
    refine sameGame_putGame fun heq ↦ ?_
    rw [show newId = id from heq.symm, hrow] at hfresh
    cases hfresh
  | claimBlack gameId user =>
    obtain ⟨-, rfl, -⟩ | ⟨old, hold, -, -, -, rfl⟩ := claimBlack_run hrun
    · exact .refl _ _
    · exact sameGame_putGame fun heq ↦ hne (congrArg some ((Db.id_of_game? hold).symm.trans heq.symm))
  | persistMove gameId sender player requested =>
    have hother : id ≠ gameId := fun heq ↦ hne (congrArg some heq.symm)
    obtain ⟨-, rfl⟩ | ⟨old, chess, persisted, rfl, hs⟩ := persistMoveAtomic_run hrun
    · exact .refl _ _
    · refine ⟨by rw [hs.game?, if_neg hother], by rw [hs.movesOf, if_neg hother, List.append_nil], ?_⟩
      rw [hs.after, Db.scoresOfGame_apply, Db.scoresOfGame_apply]
      exact (List.append_nil _).trans (List.append_nil _)
  | finalize room result winnerColor now =>
    have hother : id ≠ room.gameId := fun heq ↦ hne (congrArg some heq.symm)
    obtain ⟨-, -, rfl⟩ | ⟨old, white, -, black, -, _, _, -, -, -, hs⟩ :=
      finalize_cases hok hpre.game.1 hrun
    · exact .refl _ _
    · exact ⟨by rw [hs.game?, if_neg hother], hs.movesOf id,
        by rw [hs.scoresOfGame, if_neg hother, List.append_nil]⟩
  | rematch gameId roomId white black newId now =>
    obtain ⟨old, new, hnew, -⟩ := rematch_run hrun
    have hold : id ≠ old.id := fun heq ↦
      hne (congrArg some ((Db.id_of_game? hnew.found).symm.trans heq.symm))
    have hfresh : id ≠ new.id := by
      rw [hnew.created]
      rintro rfl
      have hnone := hnew.fresh
      rw [hrow] at hnone
      cases hnone
    rw [hnew.after]
    exact ⟨by rw [game?_putGame, if_neg hfresh, game?_putGame, if_neg hfresh, game?_putGame, if_neg hold],
      by rw [movesOf_putGame, movesOf_putGame, movesOf_putGame],
      by rw [scoresOfGame_putGame, scoresOfGame_putGame, scoresOfGame_putGame]⟩
  | abandonMany gameId => exact hpre.origin.elim

private theorem user?_putGame (d : Db) (row : GameRow) (id : Nat) :
    (d.apply (.putGame row)).user? id = d.user? id := by
  rw [Db.user?_apply]
  exact Option.map_id'

/-- Only a finalization changes ratings, those of the players of its game. -/
theorem call_ratings {call : Call js} {value : Result js call} (hok : DbOk js at_ D.accounts d)
    (hpre : CallPre js D c call d log)
    (hrun : backend.run (prog js D.computeNewRatings call) d = some (value, d')) (userId : Nat) :
    d'.user? userId = d.user? userId ∨ ∃ room result winnerColor now,
      call = .finalize room result winnerColor now ∧ SeatedIn d room.gameId userId := by
  cases call with
  | create newId roomId user now =>
    obtain ⟨-, -, rfl, rfl⟩ := create_run hrun
    exact Or.inl (user?_putGame _ _ _)
  | claimBlack gameId user =>
    obtain ⟨-, rfl, -⟩ | ⟨old, -, -, -, -, rfl⟩ := claimBlack_run hrun
    · exact Or.inl rfl
    · exact Or.inl (user?_putGame _ _ _)
  | persistMove gameId sender player requested =>
    obtain ⟨-, rfl⟩ | ⟨old, chess, persisted, rfl, hs⟩ := persistMoveAtomic_run hrun
    · exact Or.inl rfl
    · rw [hs.after, Db.user?_apply, user?_putGame]
      exact Or.inl Option.map_id'
  | finalize room result winnerColor now =>
    obtain ⟨-, -, rfl⟩ | ⟨old, white, -, black, -, whiteUser, blackUser, hseats, hwhite, hblack, hs⟩ :=
      finalize_cases hok hpre.game.1 hrun
    · exact Or.inl rfl
    by_cases hw : userId = whiteUser.id
    · exact Or.inr ⟨_, _, _, _, rfl, old, hs.found, Or.inl (by rw [hseats.whiteId, hw, hwhite])⟩
    by_cases hb : userId = blackUser.id
    · exact Or.inr ⟨_, _, _, _, rfl, old, hs.found,
        Or.inr ⟨by rw [hseats.blackId, hb, hblack], by rw [hseats.blackName]; rfl⟩⟩
    · refine Or.inl ?_
      rw [hs.user?]
      cases huser : d.user? userId with
      | none => rfl
      | some user =>
        have hid : user.id = userId := Db.id_of_user? huser
        have hsame : ∀ id elo, id ≠ userId → (Change.setElo id elo).user user = user :=
          fun id elo hne ↦ if_neg fun heq : user.id = id ↦ hne (heq.symm.trans hid)
        rw [Option.map_some, hsame _ _ (Ne.symm hw), hsame _ _ (Ne.symm hb)]
  | rematch gameId roomId white black newId now =>
    obtain ⟨old, new, hnew, -⟩ := rematch_run hrun
    rw [hnew.after, user?_putGame, user?_putGame, user?_putGame]
    exact Or.inl rfl
  | abandonMany gameId => exact hpre.origin.elim

/-- How a call changes its game: for a player of it, or to fill its black seat. -/
theorem call_changes {call : Call js} {value : Result js call}
    (hpre : CallPre js D c call d log)
    (hrun : backend.run (prog js D.computeNewRatings call) d = some (value, d')) {row : GameRow}
    {id : Nat} (hrow : d.game? id = some row) (hgame : call.gameId = some id) :
    (∃ socket user packet newId now, c.origin = .event socket user packet newId now ∧
      packet.IsPlayers ∧ SeatedIn d id user.id) ∨ SameGame d d' id ∨
    ∃ socket user roomId newId now, c.origin = .event socket user (.joinRoom roomId) newId now ∧
      row.blackUsername = none ∧ row.status = .inProgress ∧ row.whiteUserId ≠ some user.id ∧
      d'.game? id = some
        { row with blackUserId := some user.id, blackUsername := some user.username } ∧
      d'.movesOf id = d.movesOf id ∧ d'.scoresOfGame id = d.scoresOfGame id := by
  cases call with
  | create newId roomId user now => cases hgame
  | claimBlack gameId user =>
    obtain rfl := Option.some.inj hgame
    obtain ⟨socket, roomId, newId, now, horigin⟩ := hpre.origin
    obtain ⟨-, rfl, -⟩ | ⟨old, hold, hactive, hfree, -, rfl⟩ := claimBlack_run hrun
    · exact Or.inr (Or.inl (.refl _ _))
    rw [hrow] at hold
    obtain rfl := Option.some.inj hold
    obtain ⟨-, row', hrow', hne⟩ := hpre.game
    rw [hrow] at hrow'
    obtain rfl := Option.some.inj hrow'
    refine Or.inr (Or.inr ⟨socket, user, roomId, newId, now, horigin, hfree, hactive, hne, ?_,
      movesOf_putGame _ _ _, scoresOfGame_putGame _ _ _⟩)
    rw [game?_putGame, if_pos (Db.id_of_game? hrow).symm]
  | persistMove gameId sender player requested =>
    obtain rfl := Option.some.inj hgame
    obtain ⟨socket, roomId, move, newId, now, horigin, hseated⟩ := hpre.origin
    exact Or.inl ⟨socket, sender, _, newId, now, horigin, trivial, hseated⟩
  | finalize room result winnerColor now =>
    obtain rfl := Option.some.inj hgame
    obtain ⟨socket, user, packet, newId, now', horigin, hplays, hseated⟩ := hpre.origin
    exact Or.inl ⟨socket, user, packet, newId, now', horigin, hplays.isPlayers, hseated⟩
  | rematch gameId roomId white black newId now =>
    obtain rfl := Option.some.inj hgame
    obtain ⟨userId, ⟨socket, user, roomId', newId', now', horigin, rfl⟩, hseated⟩ := hpre.origin
    exact Or.inl ⟨socket, user, _, newId', now', horigin, trivial, hseated⟩
  | abandonMany gameId => exact hpre.origin.elim

/-- Which calls make a game: its black seat is free, or a rematch fills it at once. -/
theorem call_creates {call : Call js} {value : Result js call} (hok : DbOk js at_ D.accounts d)
    (hpre : CallPre js D c call d log)
    (hrun : backend.run (prog js D.computeNewRatings call) d = some (value, d')) {id : Nat}
    {row' : GameRow} (hnone : d.game? id = none) (hrow' : d'.game? id = some row') :
    (∃ roomId user now, call = .create id roomId user now ∧ row'.whiteUserId = some user.id ∧
      row'.blackUsername = none) ∨
    ∃ gameId roomId white black now old, call = .rematch gameId roomId white black id now ∧
      d.game? gameId = some old ∧ old.status = .finished ∧ row'.status = .inProgress ∧
      row'.blackUserId = black.userId ∧ row'.blackUserId ≠ row'.whiteUserId := by
  have hold : ∀ gameId row, d.game? gameId = some row → id ≠ gameId := by
    rintro gameId row hrow rfl
    rw [hnone] at hrow
    cases hrow
  cases call with
  | create newId roomId user now =>
    obtain ⟨-, -, rfl, rfl⟩ := create_run hrun
    rw [game?_putGame] at hrow'
    split at hrow'
    · next heq =>
      obtain rfl := Option.some.inj hrow'
      exact Or.inl ⟨roomId, user, now, by rw [heq], rfl, rfl⟩
    · rw [hnone] at hrow'
      cases hrow'
  | rematch gameId roomId white black newId now =>
    obtain ⟨old, new, hnew, -⟩ := rematch_run hrun
    obtain ⟨user, -, user', -, hwhite, hblack, hdistinct⟩ := hpre.game
    have hid : new.id = newId := by rw [hnew.created]
    rw [hnew.after, game?_putGame, game?_putGame, game?_putGame] at hrow'
    split at hrow'
    · next heq =>
      obtain rfl := Option.some.inj hrow'
      refine Or.inr ⟨gameId, roomId, white, black, now, old, by rw [heq, hid], hnew.found,
        hnew.finished, by rw [hnew.created], by rw [hnew.created], ?_⟩
      rw [hnew.created]
      dsimp only
      rw [hwhite.1, hblack.1]
      exact fun heq ↦ hdistinct (Option.some.inj heq).symm
    · split at hrow'
      · next heq =>
        have hkey : old.id = gameId := Db.id_of_game? hnew.found
        exact absurd (heq.trans hkey) (hold _ _ hnew.found)
      · rw [hnone] at hrow'
        cases hrow'
  | claimBlack gameId user =>
    obtain ⟨-, rfl, -⟩ | ⟨row, hrow, -, -, -, rfl⟩ := claimBlack_run hrun
    · rw [hnone] at hrow'
      cases hrow'
    · rw [game?_putGame, if_neg ((Db.id_of_game? hrow).symm ▸ hold _ _ hrow), hnone] at hrow'
      cases hrow'
  | persistMove gameId sender player requested =>
    obtain ⟨-, rfl⟩ | ⟨row, chess, persisted, rfl, hs⟩ := persistMoveAtomic_run hrun
    · rw [hnone] at hrow'
      cases hrow'
    · rw [hs.game?, if_neg (hold _ _ hs.found), hnone] at hrow'
      cases hrow'
  | finalize room result winnerColor now =>
    obtain ⟨-, -, rfl⟩ | ⟨row, white, -, black, -, _, _, -, -, -, hs⟩ :=
      finalize_cases hok hpre.game.1 hrun
    · rw [hnone] at hrow'
      cases hrow'
    · rw [hs.game?, if_neg (hold _ _ hs.found), hnone] at hrow'
      cases hrow'
  | abandonMany gameId => exact hpre.origin.elim

end Calls

/-! ### What a step leaves alone -/

section World

variable {js : ChessJs} {at_ : js.Game → Position → Prop} {D : Deployment} {w w' : World js}

/-- Nothing has been served, and what has happened stays in the log. -/
structure World.Local (w w' : World js) : Prop where
  outside : w'.outside = w.outside
  log : w.log <+: w'.log

private theorem exec_local (c : Caller) (code : RoomCode js) (w : World js) :
    w.Local (code.exec (World.host c) w).1 := by
  induction code generalizing w with
  | look k ih => exact ih _ w
  | store f k ih =>
    have h := ih (World.setMemory w c.process (f (w.memory c.process)))
    exact ⟨h.outside, h.log⟩
  | tell m k ih =>
    have h := ih (w.say (.told c m))
    exact ⟨h.outside, (List.prefix_append _ _).trans h.log⟩
  | done => exact ⟨rfl, List.prefix_rfl⟩
  | throw text => exact ⟨rfl, List.prefix_rfl⟩
  | await r k => exact ⟨rfl, List.prefix_rfl⟩

namespace World

private theorem Local.refl (w : World js) : w.Local w := ⟨rfl, List.prefix_rfl⟩

private theorem Local.trans {w'' : World js} (h : w.Local w') (h' : w'.Local w'') : w.Local w'' :=
  ⟨h'.outside.trans h.outside, h.log.trans h'.log⟩

private theorem tell_local (w : World js) (j : Nat) (m : Message js) : w.Local (w.tell j m) :=
  ⟨rfl, List.prefix_append _ _⟩

private theorem reject_local (w : World js) (j room : Nat) (text : String) :
    w.Local (w.reject j room text) := by
  unfold World.reject
  split
  · split
    · exact ⟨rfl, List.prefix_rfl⟩
    · exact ⟨rfl, List.prefix_append _ _⟩
  · exact ⟨rfl, List.prefix_rfl⟩
  · exact ⟨rfl, List.prefix_rfl⟩

private theorem run_local (w : World js) (j : Nat) (code : RoomCode js) :
    w.Local (w.run j code) := by
  refine (exec_local (w.jobs j).caller code w).trans ?_
  unfold World.run
  generalize (code.exec (World.host (w.jobs j).caller) w).1 = w₁
  unfold World.rest
  split
  · exact ⟨rfl, List.prefix_rfl⟩
  · exact reject_local _ _ _ _
  · exact ⟨rfl, List.prefix_rfl⟩

private theorem roomTask_local (w : World js) (j room : Nat) : w.Local (w.roomTask j room) := by
  change w.Local (ite ((w.memory (w.jobs j).caller.process).draining = true) _ _)
  split
  · exact reject_local _ _ _ _
  · exact ⟨rfl, List.prefix_rfl⟩

private theorem handle_local {process socket newId now : Nat} {user : SocketUser} {packet : Packet}
    (hst : w.handle process socket user packet newId now = some w') : w.Local w' := by
  have hcreate : ∀ (w : World js) origin phase, w.Local (w.create process origin phase) :=
    fun _ _ _ ↦ ⟨rfl, List.prefix_rfl⟩
  have hsubmit : ∀ roomId, w.Local (w.submit process (.event socket user packet newId now) socket
      packet roomId) := by
    intro roomId
    unfold World.submit
    dsimp only
    split
    · exact (hcreate w _ _).trans (roomTask_local _ _ _)
    · refine (hcreate w (.event socket user packet newId now) .settled).trans ?_
      unfold World.absent
      split
      · exact tell_local _ _ _
      · exact tell_local _ _ _
      · exact .refl _
  cases packet with
  | createRoom roomId =>
    change (if _ then some _ else none) = _ at hst
    split at hst
    · obtain rfl := Option.some.inj hst
      exact (hcreate w _ _).trans (run_local _ _ _)
    · cases hst
  | joinRoom roomId =>
    obtain rfl := Option.some.inj hst
    unfold World.joinRoom
    dsimp only
    split
    · exact (hcreate w _ _).trans (tell_local _ _ _)
    · split
      · exact hcreate w _ _
      · split
        · exact hcreate w _ _
        · next name _ _ _ _ _ =>
          have hrun := run_local ((w.setMemory process { w.memory process with
            hydrating := (w.memory process).hydrating.set name w.created }).create process
              (.hydration name) .settled) w.created (hydrateRoom w.created name)
          exact ⟨hrun.outside, hrun.log⟩
  | requestRematch roomId =>
    unfold World.handle at hst
    dsimp only at hst
    split at hst
    · split at hst
      · obtain rfl := Option.some.inj hst
        exact (hcreate w _ _).trans (tell_local _ _ _)
      · obtain rfl := Option.some.inj hst
        exact hcreate w _ _
    · obtain rfl := Option.some.inj hst
      exact hcreate w _ _
  | _ =>
    obtain rfl := Option.some.inj hst
    exact hsubmit _

private theorem proceed_local {j : Nat} (hst : w.proceed D j = some w') : w.Local w' := by
  unfold World.proceed at hst
  dsimp only at hst
  split at hst
  · obtain rfl := Option.some.inj hst
    exact roomTask_local _ _ _
  · split at hst
    · obtain rfl := Option.some.inj hst
      exact roomTask_local _ _ _
    · split at hst
      · obtain rfl := Option.some.inj hst
        exact ⟨rfl, List.prefix_append _ _⟩
      · cases hst
    · cases hst
  · split at hst
    · split at hst
      · obtain rfl := Option.some.inj hst
        exact run_local _ _ _
      · cases hst
    · cases hst
  · obtain rfl := Option.some.inj hst
    exact run_local _ _ _
  · split at hst
    · obtain rfl := Option.some.inj hst
      exact ⟨rfl, List.prefix_append _ _⟩
    · cases hst
    · cases hst
  · cases hst
  · cases hst
  · cases hst

end World

/-- The step serves a call of a function. -/
def World.Commits (D : Deployment) (w : World js) (l : World.Label) (w' : World js) : Prop :=
  ∃ j reply call k value arrived, l = .perform j reply ∧
    (w.jobs j).phase = .waiting (.await (.call call) k) ∧ backend.run
      (prog js D.computeNewRatings call) w.outside.db = some (value, w'.outside.db) ∧
    w'.log = w.log ++ [.served (w.jobs j).caller (.call call) (some value) arrived w.outside
      w'.outside]

/-- No other step changes the tables. What has happened stays in the log. -/
theorem step_tables (hjs : js.Follows at_) (hw : WorldOk D at_ w) {l : World.Label}
    (hst : w.next D l = some w') :
    (w'.outside.db = w.outside.db ∨ w.Commits D l w') ∧ w.log <+: w'.log := by
  cases l with
  | connect s process user =>
    change (if _ then some _ else none) = _ at hst
    split at hst
    · obtain rfl := Option.some.inj hst
      exact ⟨Or.inl rfl, List.prefix_rfl⟩
    · cases hst
  | packet s packet newId now =>
    obtain ⟨connection, hs, hst⟩ := Option.bind_eq_some_iff.mp hst
    split at hst
    · have h := World.handle_local hst
      exact ⟨Or.inl (congrArg Outside.db h.outside), h.log⟩
    · cases hst
  | disconnect s =>
    obtain ⟨connection, hs, hst⟩ := Option.bind_eq_some_iff.mp hst
    split at hst
    · obtain rfl := Option.some.inj hst
      unfold World.hangUp
      split
      · next room hroom =>
        have h := World.roomTask_local ((w.setSocket s { connection with connected := false }).create
          connection.process (.disconnect s) .settled) w.created room
        exact ⟨Or.inl (congrArg Outside.db h.outside), h.log⟩
      · exact ⟨Or.inl rfl, List.prefix_rfl⟩
    · cases hst
  | proceed j =>
    have h := World.proceed_local hst
    exact ⟨Or.inl (congrArg Outside.db h.outside), h.log⟩
  | perform j reply =>
    have hserved : ∀ (r : Await js) (k : Answer js r → RoomCode js) (a : Answer js r)
        (fetched : List Nat) (arrived : Bool), (w.jobs j).phase = .waiting (.await r k) →
        w.outside.serve D (w.jobs j).caller.process fetched r = some (a, w'.outside) →
        w'.log = w.log ++ [.served (w.jobs j).caller r a arrived w.outside w'.outside] →
        (w'.outside.db = w.outside.db ∨ w.Commits D (.perform j reply) w') ∧ w.log <+: w'.log := by
      intro r k a fetched arrived hphase hserve hlog
      refine ⟨?_, hlog ▸ List.prefix_append _ _⟩
      obtain ⟨call, value, heq, hrun⟩ | ⟨-, heq⟩ := serve_db hserve
      · cases heq
        exact Or.inr ⟨j, reply, call, k, value, arrived, rfl, hphase, hrun, hlog⟩
      · exact Or.inl heq
    change w.perform D j reply = _ at hst
    unfold World.perform at hst
    split at hst
    · next r k hphase =>
      split at hst
      · split at hst
        · next answer o hserve =>
          obtain rfl := Option.some.inj hst
          exact hserved r k answer _ true hphase hserve rfl
        · cases hst
      · split at hst
        · next answer o failed hserve hfailed =>
          obtain rfl := Option.some.inj hst
          exact hserved r k answer _ false hphase hserve rfl
        · cases hst
      · split at hst
        · obtain rfl := Option.some.inj hst
          exact ⟨Or.inl rfl, List.prefix_rfl⟩
        · cases hst
    · cases hst
  | evaporate store gameId =>
    obtain rfl := Option.some.inj hst
    exact ⟨Or.inl rfl, List.prefix_append _ _⟩
  | sigterm process =>
    obtain rfl := Option.some.inj hst
    exact ⟨Or.inl rfl, List.prefix_rfl⟩
  | drain process budget =>
    change (if _ then some _ else none) = _ at hst
    split at hst
    · obtain rfl := Option.some.inj hst
      exact ⟨Or.inl rfl, List.prefix_rfl⟩
    · cases hst
  | drained process =>
    obtain ⟨drain, -, hst⟩ := Option.bind_eq_some_iff.mp hst
    split at hst
    · obtain rfl := Option.some.inj hst
      exact ⟨Or.inl rfl, List.prefix_rfl⟩
    · cases hst
  | timeout process =>
    obtain ⟨drain, -, hst⟩ := Option.bind_eq_some_iff.mp hst
    split at hst
    · obtain rfl := Option.some.inj hst
      exact ⟨Or.inl rfl, List.prefix_rfl⟩
    · cases hst
  | crash process =>
    obtain rfl := Option.some.inj hst
    unfold World.loseVotes
    split
    · exact ⟨Or.inl rfl, List.prefix_rfl⟩
    · exact ⟨Or.inl rfl, List.prefix_append _ _⟩
  | restart process =>
    change (if _ then none else Option.map _ _) = _ at hst
    split at hst
    · cases hst
    · obtain ⟨⟨m, d⟩, hbooted, rfl⟩ := Option.map_eq_some_iff.mp hst
      obtain ⟨-, hsame, -⟩ := rebuild_ok hjs hw.tables.rows hbooted (fun _ ↦ findRecoverable_rows)
        ⟨Memory.coherent_empty, fun _ h ↦ by (cases h)⟩
      exact ⟨Or.inl hsame, List.prefix_rfl⟩

namespace World

/-- The step serves a request made for an event by which a player of the game changes it. -/
def ByPlayer (w : World js) (l : Label) (gameId : Nat) : Prop :=
  ∃ j reply socket user packet newId now, l = .perform j reply ∧
    (w.jobs j).caller.origin = .event socket user packet newId now ∧ packet.IsPlayers ∧
    w.SocketIs socket user ∧ SeatedIn w.outside.db gameId user.id

/-- The step gives the free black seat of a waiting game to another user, who joins. -/
def FillsSeat (w : World js) (l : Label) (w' : World js) (row : GameRow) : Prop :=
  ∃ j reply socket user roomId newId now, l = .perform j reply ∧
    (w.jobs j).caller.origin = .event socket user (.joinRoom roomId) newId now ∧
    w.SocketIs socket user ∧ row.blackUsername = none ∧ row.status = .inProgress ∧
    row.whiteUserId ≠ some user.id ∧ w'.outside.db.game? row.id = some
      { row with blackUserId := some user.id, blackUsername := some user.username } ∧
    w'.outside.db.movesOf row.id = w.outside.db.movesOf row.id ∧
    w'.outside.db.scoresOfGame row.id = w.outside.db.scoresOfGame row.id

/-- The step makes a game: a room is created by its user, who plays White, or a player of a
finished game accepts a rematch. -/
def MakesGame (w : World js) (l : Label) (row : GameRow) : Prop :=
  ∃ j reply socket user packet newId now, l = .perform j reply ∧
    (w.jobs j).caller.origin = .event socket user packet newId now ∧ w.SocketIs socket user ∧
    ((∃ roomId, packet = .createRoom roomId ∧ row.whiteUserId = some user.id ∧
        row.blackUsername = none) ∨
      ∃ roomId gameId old, packet = .acceptRematch roomId ∧ SeatedIn w.outside.db gameId user.id ∧
        w.outside.db.game? gameId = some old ∧ old.status = .finished)

end World

/-- What a function that waits asks for is allowed. -/
theorem SystemOk.asks {own : Nat → Option Nat} (h : SystemOk D at_ own w) {j : Nat} {r : Await js}
    {k : Answer js r → RoomCode js} (hphase : (w.jobs j).phase = .waiting (.await r k)) :
    AwaitPre D (w.jobs j).caller r w.outside.db w.log := by
  have hok := h.functions j
  unfold FunctionOk at hok
  rw [hphase] at hok
  exact hok.2.1

/-- Every change of a game, of its moves and scores and of ratings is made while an event of a
player of that game is handled, but for the black seat of a waiting game, which another user takes
by joining. New games are made by creating a room, or by accepting a rematch of a finished game. -/
theorem only_players_change_games (hjs : js.Follows at_) {l : World.Label}
    (hw : (processes js D).Reachable w) (hst : (processes js D).step w l w') :
    (∀ gameId row, w.outside.db.game? gameId = some row →
      SameGame w.outside.db w'.outside.db gameId ∨ w.ByPlayer l gameId ∨ w.FillsSeat l w' row) ∧
    (∀ gameId row, w.outside.db.game? gameId = none → w'.outside.db.game? gameId = some row →
      w.MakesGame l row) ∧
    ∀ userId, w'.outside.db.user? userId = w.outside.db.user? userId ∨
      ∃ gameId, SeatedIn w.outside.db gameId userId ∧ w.ByPlayer l gameId := by
  obtain ⟨own, hok⟩ := (systemOk_invariant hjs).reachable hw
  rcases (step_tables hjs hok.world hst).1 with
    hsame | ⟨j, reply, call, k, value, arrived, rfl, hphase, hrun, -⟩
  · rw [hsame]
    refine ⟨fun gameId row _ ↦ Or.inl (.refl _ _), fun gameId row hnone hrow ↦ ?_,
      fun userId ↦ Or.inl rfl⟩
    rw [hnone] at hrow
    cases hrow
  have hpre : CallPre js D (w.jobs j).caller call w.outside.db w.log := hok.asks hphase
  have htables := hok.world.tables.rows
  refine ⟨fun gameId row hrow ↦ ?_, fun gameId row hnone hrow ↦ ?_, fun userId ↦ ?_⟩
  · by_cases hgame : call.gameId = some gameId
    · rcases call_changes hpre hrun hrow hgame with
        ⟨socket, user, packet, newId, now, horigin, hpacket, hseated⟩ | hsame |
        ⟨socket, user, roomId, newId, now, horigin, hfree, hactive, hne, hseat, hmoves, hscores⟩
      · exact Or.inr (Or.inl ⟨j, reply, socket, user, packet, newId, now, rfl, horigin, hpacket,
          hok.sent j _ _ _ _ _ horigin, hseated⟩)
      · exact Or.inl hsame
      · obtain rfl := Db.id_of_game? hrow
        exact Or.inr (Or.inr ⟨j, reply, socket, user, roomId, newId, now, rfl, horigin,
          hok.sent j _ _ _ _ _ horigin, hfree, hactive, hne, hseat, hmoves, hscores⟩)
    · exact Or.inl (call_sameGame htables hpre hrun hrow hgame)
  · rcases call_creates htables hpre hrun hnone hrow with
      ⟨name, user, now', rfl, hwhite, hblack⟩ |
      ⟨gameId', name, white, black, now', old, rfl, hold, hfinished, -⟩
    · obtain ⟨socket, roomId, newId, now, horigin⟩ := hpre.origin
      exact ⟨j, reply, socket, user, _, newId, now, rfl, horigin, hok.sent j _ _ _ _ _ horigin,
        Or.inl ⟨roomId, rfl, hwhite, hblack⟩⟩
    · obtain ⟨userId, ⟨socket, user, roomId, newId, now, horigin, rfl⟩, hseated⟩ := hpre.origin
      exact ⟨j, reply, socket, user, _, newId, now, rfl, horigin, hok.sent j _ _ _ _ _ horigin,
        Or.inr ⟨roomId, gameId', old, rfl, hseated, hold, hfinished⟩⟩
  · rcases call_ratings htables hpre hrun userId with hsame | ⟨room, result, winner, now, rfl, hseated⟩
    · exact Or.inl hsame
    · obtain ⟨socket, user, packet, newId, now', horigin, hplays, hseated'⟩ := hpre.origin
      exact Or.inr ⟨room.gameId, hseated, j, reply, socket, user, packet, newId, now', rfl, horigin,
        hplays.isPlayers, hok.sent j _ _ _ _ _ horigin, hseated'⟩

end World

/-- Both have joined, and White's first move is about to be stored. -/
def whiteMoves : List World.Label :=
  [World.Label.connect 1 0 ada, .connect 2 0 ben, .packet 1 (.createRoom "ABCDEFG") 1 0] ++
    turns 0 1 ++ [World.Label.packet 2 (.joinRoom "ABCDEFG") 0 0, .proceed 1, .proceed 1] ++
    turns 1 4 ++
    [World.Label.packet 1 (.makeMove "ABCDEFG" (moveRequest "f2" "f3")) 0 60000, .proceed 2] ++
    turns 2 2

private theorem moves_run : ((whiteMoves.foldlM (World.next twoPlayers)
    (World.start twoUsers : World reference)).any fun w ↦ (w.outside.db.game? 1).isSome &&
      (w.next twoPlayers (.perform 2 (.arrives []))).any fun w' ↦
        (w.outside.db.movesOf 1).length != (w'.outside.db.movesOf 1).length) = true := by
  decide +kernel

/-- A player's move changes the game. -/
theorem only_players_change_games_move : ∃ w w' : World reference,
    (processes reference twoPlayers).Reachable w ∧
      (processes reference twoPlayers).step w (.perform 2 (.arrives [])) w' ∧
      w'.outside.db.movesOf 1 ≠ w.outside.db.movesOf 1 ∧
      w.ByPlayer (.perform 2 (.arrives [])) 1 := by
  obtain ⟨w, hw, hfacts⟩ := (Option.any_eq_true _ _).mp moves_run
  obtain ⟨hsome, hstep⟩ := Bool.and_eq_true_iff.mp hfacts
  obtain ⟨w', hst, hlength⟩ := (Option.any_eq_true _ _).mp hstep
  obtain ⟨row, hrow⟩ := Option.isSome_iff_exists.mp hsome
  have hne : w'.outside.db.movesOf 1 ≠ w.outside.db.movesOf 1 := by
    intro heq
    rw [heq, bne_self_eq_false] at hlength
    cases hlength
  have hinit : (processes reference twoPlayers).Reachable (World.start twoUsers) :=
    .init ⟨twoUsers, fresh_twoUsers, rfl⟩
  have hreach := hinit.foldlM (fun _ _ _ h ↦ h) hw
  refine ⟨w, w', hreach, hst, hne, ?_⟩
  rcases (only_players_change_games reference_follows hreach hst).1 1 row hrow with
    hsame | hplayer | ⟨_, _, _, _, _, _, _, -, -, -, -, -, -, -, hmoves, -⟩
  · exact absurd hsame.moves hne
  · exact hplayer
  · rw [Db.id_of_game? hrow] at hmoves
    exact absurd hmoves hne

end ChessStack.Server
