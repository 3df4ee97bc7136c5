import ChessStack.Server.Players

/-!
# The black seat

Library `Server`. In every run of the processes of `Chess-Backend/src/socket/gameSocket.js` the
black seat of a game is given away once, however many users join on however many processes with
whatever room objects in their caches, and rematches among them.
-/

namespace ChessStack.Server

open ChessStack.Chess ChessStack.Js ChessStack.Library ChessStack.Store

section

variable {js : ChessJs}

/-- How the black seat of a row was filled: a join was given the free seat of a game in progress,
or a rematch made the game with both seats taken. -/
inductive Filled (log : List (Event js)) (gameId : Nat) (row : GameRow) : Prop
  | claimed {c : Caller} {user : SocketUser} {seated old : GameRow} {arrived : Bool}
      {before after : Outside} :
      Event.served c (.call (.claimBlack gameId user)) (some (some seated)) arrived before after ∈ log →
      (∃ socket roomId newId now, c.origin = .event socket user (.joinRoom roomId) newId now) →
      before.db.game? gameId = some old → old.status = .inProgress → old.blackUsername = none →
      old.whiteUserId ≠ some user.id → row.blackUserId = some user.id → Filled log gameId row
  | rematched {c : Caller} {oldId now : Nat} {roomId : Option String} {white black : Player}
      {value new : GameRow} {arrived : Bool} {before after : Outside} :
      Event.served c (.call (.rematch oldId roomId white black gameId now)) (some value) arrived
        before after ∈ log →
      before.db.game? gameId = none → after.db.game? gameId = some new → new.status = .inProgress →
      new.blackUserId ≠ new.whiteUserId → row.blackUserId = new.blackUserId → Filled log gameId row

/-- A join of the user has been told that its user plays Black in the game. -/
def ToldBlack (log : List (Event js)) (gameId : Nat) (user : SocketUser) : Prop :=
  ∃ c m socket roomId newId now, c.origin = .event socket user (.joinRoom roomId) newId now ∧
    Event.told c m ∈ log ∧ m.JoinsBlack gameId user

variable {at_ : js.Game → Position → Prop} {D : Deployment} {w w' : World js} {gameId : Nat}
  {row row' : GameRow}

private theorem Filled.mono {log log' : List (Event js)} (h : Filled log gameId row)
    (hlog : ∀ e ∈ log, e ∈ log') (hsame : row'.blackUserId = row.blackUserId) :
    Filled log' gameId row' := by
  cases h with
  | claimed hmem horigin hbefore hactive hfree hne hrow =>
    exact .claimed (hlog _ hmem) horigin hbefore hactive hfree hne (hsame.trans hrow)
  | rematched hmem hnone hafter hactive hne hrow =>
    exact .rematched (hlog _ hmem) hnone hafter hactive hne (hsame.trans hrow)

/-- A step fills the black seat of a row as `Filled` says, or it was taken before. -/
theorem Filled.step (hjs : js.Follows at_) {own : Nat → Option Nat} (hok : SystemOk D at_ own w)
    (hfilled : ∀ gameId row, w.outside.db.game? gameId = some row → row.blackUsername.isSome →
      Filled w.log gameId row) {l : World.Label} (hst : w.next D l = some w')
    (hrow' : w'.outside.db.game? gameId = some row') (hsome : row'.blackUsername.isSome) :
    Filled w'.log gameId row' := by
  obtain ⟨htables, hlog⟩ := step_tables hjs hok.world hst
  have hmono : ∀ e ∈ w.log, e ∈ w'.log := fun e he ↦ hlog.subset he
  rcases htables with hsame | ⟨j, reply, call, k, value, arrived, rfl, hphase, hrun, hlog'⟩
  · rw [hsame] at hrow'
    exact (hfilled gameId row' hrow' hsome).mono hmono rfl
  have hpre : CallPre js D (w.jobs j).caller call w.outside.db w.log := hok.asks hphase
  have hserved : Event.served (w.jobs j).caller (.call call) (some value) arrived w.outside
      w'.outside ∈ w'.log := by
    rw [hlog']
    exact List.mem_append_right _ (List.mem_singleton_self _)
  rcases rowFrom_of_run hok.world.tables.rows hpre hrun gameId row' hrow' with
    @⟨old, hold, hname, -⟩ | @⟨old, user, seated, hold, hfree, hactive, -, -, hcall⟩ | ⟨hnone, -⟩
  · obtain ⟨row'', hrow'', hon⟩ := (commit_onward hjs hok.world.tables hpre hrun).1 _ _ hold
    rw [hrow'] at hrow''
    obtain rfl := Option.some.inj hrow''
    rw [hname] at hsome
    exact (hfilled gameId old hold hsome).mono hmono (hon.black hsome).1
  · cases hcall
    obtain ⟨socket, roomId, newId, now, horigin⟩ := hpre.origin
    obtain ⟨-, white, hwhite, hne⟩ := hpre.game
    obtain ⟨hnone, -⟩ | ⟨found, hfound, -, -, -, hafter⟩ := claimBlack_run hrun
    · cases hnone
    rw [hold] at hwhite hfound
    obtain rfl := Option.some.inj hwhite
    obtain rfl := Option.some.inj hfound
    rw [hafter, game?_putGame, if_pos (Db.id_of_game? hold).symm] at hrow'
    obtain rfl := Option.some.inj hrow'
    exact .claimed hserved ⟨socket, roomId, newId, now, horigin⟩ hold hactive hfree hne rfl
  · rcases call_creates hok.world.tables.rows hpre hrun hnone hrow' with
      ⟨name, user, now, rfl, -, hfree⟩ | ⟨oldId, roomId, white, black, now, old, rfl, -, -, hactive, -, hne⟩
    · rw [hfree] at hsome
      cases hsome
    · exact .rematched hserved hnone hrow' hactive hne rfl

private theorem filled_of_reachable (hjs : js.Follows at_) (hw : (processes js D).Reachable w) :
    ∀ gameId row, w.outside.db.game? gameId = some row → row.blackUsername.isSome →
      Filled w.log gameId row := by
  have hinv : (processes js D).Invariant fun w ↦ (∃ own, SystemOk D at_ own w) ∧
      ∀ gameId row, w.outside.db.game? gameId = some row → row.blackUsername.isSome →
        Filled w.log gameId row := by
    constructor
    · intro w hinit
      refine ⟨(systemOk_invariant hjs).init w hinit, fun gameId row hrow ↦ ?_⟩
      obtain ⟨d, hd, rfl⟩ := hinit
      change d.game? gameId = some row at hrow
      unfold Db.game? at hrow
      rw [hd.games] at hrow
      cases hrow
    · rintro w l w' ⟨hok, hfilled⟩ hst
      refine ⟨(systemOk_invariant hjs).step w l w' hok hst, fun gameId row hrow hsome ↦ ?_⟩
      obtain ⟨own, hok⟩ := hok
      exact Filled.step hjs hok hfilled hst hrow hsome
  exact (hinv.reachable hw).2

/-- What a run does to the tables. -/
theorem onward_of_steps (hjs : js.Follows at_) (hw : (processes js D).Reachable w)
    (hrun : (processes js D).Steps w w') : Onward w.outside.db w'.outside.db := by
  induction hrun with
  | refl => exact Onward.refl _
  | @step w₁ w₂ l hsteps hst ih =>
    obtain ⟨own, hok⟩ := (systemOk_invariant hjs).reachable (hw.steps hsteps)
    rcases (step_tables hjs hok.world hst).1 with
      hsame | ⟨j, reply, call, k, value, arrived, rfl, hphase, hcommit, -⟩
    · rw [hsame]
      exact ih
    · have hpre : CallPre js D (w₁.jobs j).caller call w₁.outside.db w₁.log := hok.asks hphase
      exact ih.trans (commit_onward hjs hok.world.tables hpre hcommit).1

/-- A seat that is given away was free. -/
theorem WorldOk.grant_free (hw : WorldOk D at_ w) {past future : List (Event js)} {c : Caller}
    {user : SocketUser} {seated : GameRow} {arrived : Bool} {before after : Outside}
    (hlog : w.log = past ++ .served c (.call (.claimBlack gameId user)) (some (some seated)) arrived
      before after :: future) : ∀ c' user', ¬ Granted past c' gameId user' := by
  intro c' user' hgranted
  have hentry : ServedOk D at_ past c _ _ before after := hw.log.entry hlog
  obtain ⟨fetched, hserve⟩ := hentry.served
  obtain ⟨row, hrow, hsome⟩ := hentry.granted c' gameId user' hgranted
  obtain ⟨⟨value, db⟩, hrun, heq⟩ := Option.map_eq_some_iff.mp hserve
  obtain ⟨hvalue, -⟩ := Prod.mk.inj heq
  obtain rfl := Option.some.inj hvalue
  obtain ⟨hnone, -⟩ | ⟨old, hold, -, hfree, -⟩ := claimBlack_run hrun
  · cases hnone
  · rw [hrow] at hold
    obtain rfl := Option.some.inj hold
    rw [hfree] at hsome
    cases hsome

/-- A seat is given away once. -/
theorem WorldOk.granted_unique (hw : WorldOk D at_ w) {c c' : Caller} {user user' : SocketUser}
    (h : Granted w.log c gameId user) (h' : Granted w.log c' gameId user') :
    c = c' ∧ user = user' := by
  obtain ⟨seated, arrived, before, after, hmem⟩ := h
  obtain ⟨seated', arrived', before', after', hmem'⟩ := h'
  obtain ⟨past, future, hlog⟩ := List.append_of_mem hmem
  rw [hlog] at hmem'
  rcases List.mem_append.mp hmem' with hpast | hrest
  · exact absurd ⟨seated', arrived', before', after', hpast⟩ (hw.grant_free hlog c' user')
  · rcases List.mem_cons.mp hrest with heq | hfuture
    · cases heq
      exact ⟨rfl, rfl⟩
    · obtain ⟨past', future', hsplit⟩ := List.append_of_mem hfuture
      have hlog' : w.log = (past ++ .served c (.call (.claimBlack gameId user)) (some (some seated))
          arrived before after :: past') ++ .served c' (.call (.claimBlack gameId user'))
            (some (some seated')) arrived' before' after' :: future' := by
        rw [hlog, hsplit, List.append_assoc, List.cons_append]
      exact absurd ⟨seated, arrived, before, after, List.mem_append_right _ List.mem_cons_self⟩
        (hw.grant_free hlog' c user)

/-- Whom joins have told that they play Black has the black seat. -/
theorem WorldOk.toldBlack (hw : WorldOk D at_ w) {user : SocketUser}
    (h : ToldBlack w.log gameId user) : PlaysBlack w.outside.db gameId user.id := by
  obtain ⟨c, m, socket, roomId, newId, now, horigin, hmem, hjoins⟩ := h
  exact (hw.told c m hmem socket user roomId newId now horigin gameId).2 hjoins

/-- A join that was given the seat, got the reply and has come to its end has been told. -/
theorem SystemOk.told {own : Nat → Option Nat} (hok : SystemOk D at_ own w) {c : Caller}
    {user : SocketUser} {seated : GameRow} {before after : Outside}
    (hmem : Event.served c (.call (.claimBlack gameId user)) (some (some seated)) true before after ∈
      w.log) (hphase : (w.jobs c.job).phase = .settled) : ToldBlack w.log gameId user := by
  obtain ⟨-, hcaller⟩ := hok.served _ _ _ _ _ _ hmem
  have hend := hok.functions c.job
  unfold FunctionOk at hend
  rw [hphase, hcaller] at hend
  obtain ⟨m, hm, hjoins⟩ := hend.2 gameId user seated before after hmem
  obtain ⟨past, future, hlog⟩ := List.append_of_mem hmem
  have hentry : ServedOk D at_ past c _ _ before after := hok.world.log.entry hlog
  obtain ⟨socket, roomId, newId, now, horigin⟩ := hentry.pre.origin
  exact ⟨c, m, socket, roomId, newId, now, horigin, hm, hjoins⟩

/-- The black seat of a game is given away once: in every run it stays with whom it was given to,
who was given it in a game in progress and does not play White. Of the joins for it one is given
it, and told, and no other user is told that it plays Black. No room object seats anybody that the
tables do not. -/
theorem black_seat_awarded_once (hjs : js.Follows at_) (hw : (processes js D).Reachable w)
    (hrun : (processes js D).Steps w w') :
    (∀ gameId row, w.outside.db.game? gameId = some row → row.blackUsername.isSome →
      ∃ row', w'.outside.db.game? gameId = some row' ∧ row'.blackUserId = row.blackUserId ∧
        row'.blackUsername = row.blackUsername) ∧
    (∀ gameId row, w'.outside.db.game? gameId = some row → row.blackUsername.isSome →
      Filled w'.log gameId row ∧ row.blackUserId ≠ row.whiteUserId) ∧
    (∀ gameId c c' user user', Granted w'.log c gameId user → Granted w'.log c' gameId user' →
      c = c' ∧ user = user') ∧
    (∀ gameId c user seated before after, Event.served c (.call (.claimBlack gameId user))
      (some (some seated)) true before after ∈ w'.log → (w'.jobs c.job).phase = .settled →
      ToldBlack w'.log gameId user) ∧
    (∀ gameId user user', ToldBlack w'.log gameId user → ToldBlack w'.log gameId user' →
      user.id = user'.id) ∧
    ∀ process ref, ref < (w'.memory process).allocated →
      ∃ row, w'.outside.db.game? ((w'.memory process).objects ref).gameId = some row ∧
        ∀ seat ∈ ((w'.memory process).objects ref).players, seat.player ∈ playersOf row := by
  have hw' := hw.steps hrun
  obtain ⟨own, hok⟩ := (systemOk_invariant hjs).reachable hw'
  refine ⟨fun gameId row hrow hsome ↦ ?_, fun gameId row hrow hsome ↦ ⟨?_, ?_⟩,
    fun gameId c c' user user' ↦ hok.world.granted_unique, ?_, fun gameId user user' h h' ↦ ?_,
    fun process ref href ↦ (hok.world.objects process ref href).seats⟩
  · obtain ⟨row', hrow', hon⟩ := onward_of_steps hjs hw hrun gameId row hrow
    exact ⟨row', hrow', hon.black hsome⟩
  · exact filled_of_reachable hjs hw' gameId row hrow hsome
  · obtain ⟨white, -, black, -, hseats⟩ := (hok.world.tables.rows.rows _ _ hrow).seats hsome
    rw [hseats.blackId, hseats.whiteId]
    exact fun heq ↦ hseats.distinct (Option.some.inj heq).symm
  · exact fun gameId c user seated before after hmem hphase ↦ hok.told hmem hphase
  · obtain ⟨row, hrow, hid, -⟩ := hok.world.toldBlack h
    obtain ⟨row', hrow', hid', -⟩ := hok.world.toldBlack h'
    rw [hrow] at hrow'
    obtain rfl := Option.some.inj hrow'
    exact Option.some.inj (hid.symm.trans hid')

end

/-! ### Two users join at once -/

private theorem cyd_id : 0 < 3 := by decide

/-- The third account. -/
def cyd : SocketUser := ⟨3, "cyd", cyd_id, by decide, by decide⟩

/-- One server for three accounts, which keeps the votes itself. -/
def threePlayers : Deployment := ⟨equalRatings, [ada, ben, cyd], .localBackend⟩

/-- Their tables before the first game. -/
def threeUsers : Db :=
  { twoUsers with
    users := ⟨[⟨1, "ada", 1200⟩, ⟨2, "ben", 1200⟩, ⟨3, "cyd", 1200⟩], by decide⟩ }

private theorem fresh_threeUsers : Fresh [ada, ben, cyd] threeUsers where
  games := rfl
  moves := rfl
  scores := rfl
  userAchievements := rfl
  achievements := rfl
  users := by
    intro user huser
    simp only [List.mem_cons, List.not_mem_nil, or_false] at huser
    rcases huser with rfl | rfl | rfl <;> decide

/-- White creates a room, and two users, on two processes, find its black seat free. -/
def race : List World.Label :=
  [World.Label.connect 1 0 ada, .connect 2 0 ben, .connect 3 1 cyd,
    .packet 1 (.createRoom "ABCDEFG") 1 0] ++ turns 0 1 ++
    [World.Label.packet 2 (.joinRoom "ABCDEFG") 0 0, .proceed 1, .proceed 1,
      .packet 3 (.joinRoom "ABCDEFG") 0 0] ++ turns 2 2 ++
    [World.Label.proceed 3, .proceed 3] ++ turns 1 2 ++ turns 3 2

/-- Both claims are served, and both joins come to their end. -/
def raceEnds : List World.Label :=
  [World.Label.perform 1 (.arrives []), .perform 3 (.arrives []), .proceed 1, .proceed 3] ++
    turns 1 1 ++ [World.Label.proceed 3]

/-- The function was given the black seat of the game, and has its reply. -/
def Event.grants {js : ChessJs} (job gameId : Nat) : Event js → Bool
  | .served c (.call (.claimBlack gameId' _)) (some (some _)) true _ _ =>
    c.job == job && gameId' == gameId
  | _ => false

private theorem Event.grants_iff {js : ChessJs} {job gameId : Nat} {e : Event js}
    (h : e.grants job gameId = true) : ∃ c user seated before after, c.job = job ∧
      e = .served c (.call (.claimBlack gameId user)) (some (some seated)) true before after := by
  unfold Event.grants at h
  split at h
  · next c gameId' user seated before after =>
    rw [Bool.and_eq_true, beq_iff_eq, beq_iff_eq] at h
    obtain ⟨hjob, rfl⟩ := h
    exact ⟨c, user, seated, before, after, hjob, rfl⟩
  · cases h

private theorem race_run : ((race.foldlM (World.next threePlayers)
    (World.start threeUsers : World reference)).any fun w ↦
      (w.outside.db.game? 1).any (·.blackUsername.isNone) &&
      (raceEnds.foldlM (World.next threePlayers) w).any fun w' ↦
        w'.log.any (Event.grants 1 1) && match (w'.jobs 1).phase with
          | .settled => true
          | _ => false) = true := by
  decide +kernel

/-- Two users join at once, and one of them is granted the seat. -/
theorem black_seat_awarded_once_race : ∃ w w' : World reference,
    (processes reference threePlayers).Reachable w ∧ (processes reference threePlayers).Steps w w' ∧
      (w.outside.db.game? 1).any (·.blackUsername.isNone) = true ∧
      ∃ user, ToldBlack w'.log 1 user ∧ ∀ user', ToldBlack w'.log 1 user' → user'.id = user.id := by
  obtain ⟨w, hw, hfacts⟩ := (Option.any_eq_true _ _).mp race_run
  obtain ⟨hfree, hends⟩ := Bool.and_eq_true_iff.mp hfacts
  obtain ⟨w', hw', hfacts⟩ := (Option.any_eq_true _ _).mp hends
  obtain ⟨hgrants, hsettled⟩ := Bool.and_eq_true_iff.mp hfacts
  have hinit : (processes reference threePlayers).Reachable (World.start threeUsers) :=
    .init ⟨threeUsers, fresh_threeUsers, rfl⟩
  have hreach := hinit.foldlM (fun _ _ _ h ↦ h) hw
  have hsteps : (processes reference threePlayers).Steps w w' :=
    Machine.Steps.foldlM (fun _ _ _ h ↦ h) hw'
  obtain ⟨-, -, -, htold, hsame, -⟩ := black_seat_awarded_once reference_follows hreach hsteps
  obtain ⟨e, he, hgrant⟩ := List.any_eq_true.mp hgrants
  obtain ⟨c, user, seated, before, after, hjob, rfl⟩ := Event.grants_iff hgrant
  have hphase : (w'.jobs c.job).phase = .settled := by
    rw [hjob]
    split at hsettled
    · next hphase => exact hphase
    · cases hsettled
  have hbest := htold 1 c user seated before after he hphase
  exact ⟨w, w', hreach, hsteps, hfree, user, hbest, fun user' h ↦ hsame 1 user' user h hbest⟩

end ChessStack.Server
