import ChessStack.Server.Minding

/-!
# Quiet rooms

Library `Server`. Between any two steps of the processes every finished room that lingers in a
cache has a function that sees to it, so when no function is left for a room nothing lingers.
-/

namespace ChessStack.Server

open ChessStack.Chess ChessStack.Js ChessStack.Library ChessStack.Store

section

variable {js : ChessJs}

/-- The function has come to its end. -/
def Phase.Over : Phase js → Prop
  | .settled | .dead => True
  | _ => False

namespace World

/-- The memory a function works on. -/
def memoryOf (w : World js) (j : Nat) : Memory js := w.memory (w.jobs j).caller.process

/-- The room a function works on. -/
def roomIdOf (w : World js) (j : Nat) : Option String :=
  match (w.jobs j).caller.origin with
  | .hydration roomId => some roomId
  | _ => (w.jobs j).room.map fun room ↦ ((w.memoryOf j).objects room).id

/-- The rules for a function. -/
def upkeep (w : World js) (j : Nat) :
    Upkeep (Memory js) (Await js) (Answer js) (Message js) (String × Nat) :=
  Server.upkeep (w.jobs j).caller (w.roomIdOf j)

/-- The function is a task or a hydration for the room id that runs or is queued, or a join on its
way to one. A join whose hydration has failed with an exception has failed with it. -/
def Busy (w : World js) (j : Nat) (roomId : String) : Prop :=
  match (w.jobs j).phase with
  | .fetched room | .caught room _ => ((w.memoryOf j).objects room).id = roomId
  | .fetching hydration => (w.jobs hydration).caller.origin = .hydration roomId ∧
      ((w.jobs hydration).phase.Over → (w.memoryOf j).hydrated hydration ≠ none)
  | .queued | .waiting _ | .turn _ => w.roomIdOf j = some roomId
  | .settled | .dead => False

/-- No function of the process is busy with the room id. -/
def Quiet (w : World js) (process : Nat) (roomId : String) : Prop :=
  ∀ j, (w.jobs j).caller.process = process → ¬ w.Busy j roomId

/-- The function sees to the finished room object. -/
def Guards (w : World js) (j : Nat) (key : String × Nat) : Prop :=
  match (w.jobs j).phase with
  | .fetched room | .caught room _ => ((w.memoryOf j).objects room).id = key.1
  | .fetching hydration => (w.jobs hydration).caller.origin = .hydration key.1 ∧
      (w.jobs hydration).caller.process = (w.jobs j).caller.process ∧
      (w.memoryOf j).hydrated hydration = some (some key.2)
  | .queued => (w.jobs j).caller.origin.isJoin = true ∧ w.roomIdOf j = some key.1
  | .waiting c => w.roomIdOf j = some key.1 ∧ c.BoundAwait (w.upkeep j) key (w.memoryOf j)
  | .turn c => w.roomIdOf j = some key.1 ∧ c.Bound (w.upkeep j) key (w.memoryOf j)
  | .settled | .dead => False

/-- Who guards a room is busy with it. -/
theorem Guards.busy {w : World js} {j : Nat} {key : String × Nat} (h : w.Guards j key) :
    w.Busy j key.1 := by
  unfold Guards at h
  unfold Busy
  split at h
  · exact h
  · exact h
  · exact ⟨h.1, fun _ hnone ↦ by rw [h.2.2] at hnone; cases hnone⟩
  · exact h.2
  · exact h.1
  · exact h.1
  · exact h
  · exact h

/-- Who guards a room is not over. -/
theorem Guards.not_over {w : World js} {j : Nat} {key : String × Nat} (h : w.Guards j key) :
    ¬ (w.jobs j).phase.Over := by
  intro hover
  unfold Guards at h
  cases hphase : (w.jobs j).phase with
  | settled =>
    rw [hphase] at h
    exact h
  | dead =>
    rw [hphase] at h
    exact h
  | _ =>
    rw [hphase] at hover
    exact hover

end World

end

/-! ### The condition -/

section

variable {js : ChessJs}

/-- How a request comes back without an answer. -/
def World.Reply.Faulty : World.Reply → Prop
  | .arrives _ => False
  | .lost | .fails => True

/-- The turns after which somebody sees to every finished room. `Admits` leaves three kinds of
turn out; besides, the snapshot query of a join does not fail while a finished room lingers
under its id. -/
def World.Tidy (w : World js) : World.Label → Prop
  | .proceed j => ∀ c, (w.jobs j).phase = .turn c →
      Admits (w.jobs j).caller.origin (w.memoryOf j) c
  | .perform j reply => (w.jobs j).caller.origin.isJoin = true → reply.Faulty →
      ∀ roomId k, (w.jobs j).phase = .waiting (.await (.snapshot roomId) k) →
        ∀ ref, ¬ (w.memoryOf j).Lingers (roomId, ref)
  | _ => True

/-! ### The invariant -/

/-- A function minds what it leaves. -/
def World.JobOk (w : World js) (j : Nat) : Prop :=
  (∀ room, (w.jobs j).room = some room → room < (w.memoryOf j).allocated ∨ (w.jobs j).phase.Over) ∧
  match (w.jobs j).phase with
  | .fetched room | .caught room _ =>
    (w.jobs j).caller.origin.isJoin = true ∧ room < (w.memoryOf j).allocated
  | .fetching _ => (w.jobs j).caller.origin.isJoin = true
  | .queued => (w.jobs j).caller.origin.isHydration = false ∧ (w.jobs j).room.isSome
  | .waiting c => ((w.jobs j).caller.origin.isJoin = true → (w.jobs j).room.isSome) ∧
      c.WillingAwait (w.upkeep j) (w.memoryOf j)
  | .turn c => ((w.jobs j).caller.origin.isJoin = true → (w.jobs j).room.isSome) ∧
      (w.upkeep j).waits (w.memoryOf j) ∧ c.Willing (w.upkeep j) (w.memoryOf j)
  | .settled | .dead => True

/-- What holds between any two steps. -/
structure World.Tended (w : World js) : Prop where
  coherent : ∀ process, (w.memory process).Coherent
  callers : ∀ j, (w.jobs j).caller.job = j
  unborn : ∀ j, w.created ≤ j → (w.jobs j).phase.Over ∧
    ∀ process, (w.memory process).hydrated j = none
  jobs : ∀ j, w.JobOk j
  awaited : ∀ h roomId, (w.jobs h).caller.origin = .hydration roomId → ¬ (w.jobs h).phase.Over →
    ∃ j, (w.jobs j).caller.process = (w.jobs h).caller.process ∧ (w.jobs j).phase = .fetching h
  debts : ∀ process, (w.memory process).draining = false → ∀ key,
    (w.memory process).Lingers key → ∃ j, (w.jobs j).caller.process = process ∧ w.Guards j key
  idle : ∀ process, (w.memory process).listening = false → ∀ j,
    (w.jobs j).caller.process = process → (w.jobs j).phase.Over
  sockets : ∀ s connection, w.sockets s = some connection → connection.connected = true →
    (w.memory connection.process).listening = true

/-! ### Frames -/

/-- Only the function and the memory of its process have changed. -/
structure World.Moves (w w' : World js) (j : Nat) : Prop where
  created : w'.created = w.created
  sockets : w'.sockets = w.sockets
  jobs : ∀ j' ≠ j, w'.jobs j' = w.jobs j'
  caller : (w'.jobs j).caller = (w.jobs j).caller
  memory : ∀ process ≠ (w.jobs j).caller.process, w'.memory process = w.memory process
  does : (w.memoryOf j).Does j (w'.memoryOf j)

namespace World

variable {w w' : World js} {j j' : Nat} {key : String × Nat}

/-- A function keeps its caller. -/
theorem Moves.callers (h : w.Moves w' j) (j' : Nat) : (w'.jobs j').caller = (w.jobs j').caller := by
  rcases eq_or_ne j' j with rfl | hne
  · exact h.caller
  · rw [h.jobs j' hne]

private theorem Moves.memories (h : w.Moves w' j) (process : Nat) :
    (w.memory process).Does j (w'.memory process) := by
  rcases eq_or_ne process (w.jobs j).caller.process with rfl | hne
  · have hdoes := h.does
    rw [memoryOf, memoryOf, h.caller] at hdoes
    exact hdoes
  · rw [h.memory process hne]
    exact .refl j _

private theorem Moves.memoriesOf (h : w.Moves w' j) (j' : Nat) :
    (w.memoryOf j').Does j (w'.memoryOf j') := by
  rw [memoryOf, memoryOf, h.callers]
  exact h.memories _

/-- A function whose room object exists keeps its room. -/
theorem roomIdOf_grows (hcaller : (w'.jobs j').caller = (w.jobs j').caller)
    (hroom : (w'.jobs j').room = (w.jobs j').room) (hgrows : (w.memoryOf j').Grows (w'.memoryOf j'))
    (hplaced : ∀ room, (w.jobs j').room = some room → room < (w.memoryOf j').allocated) :
    w'.roomIdOf j' = w.roomIdOf j' := by
  unfold roomIdOf
  rw [hcaller, hroom]
  split
  · rfl
  · cases hr : (w.jobs j').room with
    | none => rfl
    | some room => rw [Option.map_some, Option.map_some, hgrows.ids room (hplaced room hr)]

private theorem upkeep_waits {m m' : Memory js} (hwaits : (w.upkeep j).waits m)
    (hlater : (w.upkeep j).later m m') : (w.upkeep j).waits m' :=
  fun hh ↦ hlater.2.trans (hwaits hh)

/-- A function that is left alone still minds what it leaves. -/
theorem JobOk.keep (hok : w.JobOk j') (hjob : w'.jobs j' = w.jobs j')
    (hgrows : (w.memoryOf j').Grows (w'.memoryOf j'))
    (hleft : (w'.memoryOf j').hydrated (w.jobs j').caller.job =
      (w.memoryOf j').hydrated (w.jobs j').caller.job) :
    w'.JobOk j' ∧ ((w.jobs j').phase.Over ∨ w'.roomIdOf j' = w.roomIdOf j') := by
  have hlater : (w.upkeep j').later (w.memoryOf j') (w'.memoryOf j') := ⟨hgrows, hleft⟩
  have hplaced : (w.jobs j').phase.Over ∨ w'.roomIdOf j' = w.roomIdOf j' := by
    by_cases hover : (w.jobs j').phase.Over
    · exact Or.inl hover
    · refine Or.inr (roomIdOf_grows (by rw [hjob]) (by rw [hjob]) hgrows fun room hroom ↦ ?_)
      exact (hok.1 room hroom).resolve_right hover
  refine ⟨⟨fun room hroom ↦ ?_, ?_⟩, hplaced⟩
  · rw [hjob] at hroom ⊢
    exact (hok.1 room hroom).imp_left fun hlt ↦ Nat.lt_of_lt_of_le hlt hgrows.allocated
  · obtain ⟨-, hok⟩ := hok
    rw [hjob]
    have hupkeep : (w.jobs j').phase.Over ∨ w'.upkeep j' = w.upkeep j' :=
      hplaced.imp_right fun hroom ↦ by rw [upkeep, upkeep, hjob, hroom]
    split at hok
    · exact ⟨hok.1, Nat.lt_of_lt_of_le hok.2 hgrows.allocated⟩
    · exact ⟨hok.1, Nat.lt_of_lt_of_le hok.2 hgrows.allocated⟩
    · exact hok
    · exact hok
    · next c hphase =>
      rw [hupkeep.resolve_left (by rw [hphase]; exact id)]
      exact ⟨hok.1, hok.2.later (upkeep_lawful _ _) (fun _ _ ↦ upkeep_waits) hlater⟩
    · next c hphase =>
      rw [hupkeep.resolve_left (by rw [hphase]; exact id)]
      exact ⟨hok.1, upkeep_waits hok.2.1 hlater, hok.2.2.later (upkeep_lawful _ _) hlater⟩
    · trivial
    · trivial

/-- A function that is left alone still sees to what it saw to. -/
theorem Guards.keep (hg : w.Guards j' key) (hok : w.JobOk j') (hjob : w'.jobs j' = w.jobs j')
    (hgrows : (w.memoryOf j').Grows (w'.memoryOf j'))
    (hleft : (w'.memoryOf j').hydrated (w.jobs j').caller.job =
      (w.memoryOf j').hydrated (w.jobs j').caller.job)
    (hfetched : ∀ h ref, (w.jobs j').phase = .fetching h →
      (w.jobs h).caller.origin.isHydration = true →
      (w.jobs h).caller.process = (w.jobs j').caller.process →
      (w.memoryOf j').hydrated h = some (some ref) →
        (w'.jobs h).caller = (w.jobs h).caller ∧ (w'.memoryOf j').hydrated h = some (some ref)) :
    w'.Guards j' key := by
  have hlater : (w.upkeep j').later (w.memoryOf j') (w'.memoryOf j') := ⟨hgrows, hleft⟩
  have hplaced := (hok.keep hjob hgrows hleft).2
  have hupkeep : (w.jobs j').phase.Over ∨ w'.upkeep j' = w.upkeep j' :=
    hplaced.imp_right fun hroom ↦ by rw [upkeep, upkeep, hjob, hroom]
  obtain ⟨-, hok⟩ := hok
  unfold Guards at hg ⊢
  rw [hjob]
  split at hg
  · next room hphase =>
    rw [hphase] at hok
    rw [← hg, hgrows.ids room hok.2]
  · next room text hphase =>
    rw [hphase] at hok
    rw [← hg, hgrows.ids room hok.2]
  · next hydration hphase =>
    obtain ⟨horigin, hprocess, hsome⟩ := hg
    obtain ⟨hcaller, hsome'⟩ := hfetched hydration _ hphase (by rw [horigin]; rfl) hprocess hsome
    rw [hcaller]
    exact ⟨horigin, hprocess, hsome'⟩
  · next hphase =>
    exact ⟨hg.1, (hplaced.resolve_left (by rw [hphase]; exact id)).trans hg.2⟩
  · next c hphase =>
    have hlive : ¬ (w.jobs j').phase.Over := by
      rw [hphase]
      exact id
    rw [hupkeep.resolve_left hlive, hplaced.resolve_left hlive]
    exact ⟨hg.1, hg.2.later (upkeep_lawful _ _) hlater⟩
  · next c hphase =>
    have hlive : ¬ (w.jobs j').phase.Over := by
      rw [hphase]
      exact id
    rw [hupkeep.resolve_left hlive, hplaced.resolve_left hlive]
    exact ⟨hg.1, hg.2.later (upkeep_lawful _ _) hlater⟩
  · exact hg
  · exact hg

/-- The other functions mind what they leave after a step of one. -/
theorem Moves.jobOk (h : w.Moves w' j) (hcallers : ∀ j, (w.jobs j).caller.job = j) (hne : j' ≠ j)
    (hok : w.JobOk j') : w'.JobOk j' := by
  have hdoes := h.memoriesOf j'
  exact (hok.keep (h.jobs j' hne) hdoes.toGrows (hdoes.hydrated _ (by rwa [hcallers]))).1

/-- The other functions see to what they saw to after a step of one. -/
theorem Moves.guards (h : w.Moves w' j) (hcallers : ∀ j, (w.jobs j).caller.job = j) (hne : j' ≠ j)
    (hwait : (w.jobs j).caller.origin.isHydration = true → (w.memoryOf j).hydrated j = none)
    (hok : w.JobOk j') (hg : w.Guards j' key) : w'.Guards j' key := by
  have hdoes := h.memoriesOf j'
  refine hg.keep hok (h.jobs j' hne) hdoes.toGrows (hdoes.hydrated _ (by rwa [hcallers]))
    fun hydration ref _ horigin hprocess hsome ↦ ⟨h.callers hydration, ?_⟩
  rw [hdoes.hydrated, hsome]
  -- A hydration that still runs has left nothing.
  rintro rfl
  have hnone := hwait horigin
  rw [memoryOf, hprocess] at hnone
  rw [memoryOf, hnone] at hsome
  cases hsome

/-- After a step of one function, when it minds what it leaves and sees to what it saw to, and
when somebody sees to what lingers. -/
theorem Tended.moves (h : w.Tended) (hm : w.Moves w' j)
    (hlistening : (w.memoryOf j).listening = true)
    (hcoherent : (w'.memoryOf j).Coherent) (hunborn : j < w.created)
    (hok : w'.JobOk j)
    (hwait : (w.jobs j).caller.origin.isHydration = true → (w.memoryOf j).hydrated j = none)
    (hfetching : ∀ hydration, (w.jobs j).phase = .fetching hydration →
      (w.jobs hydration).caller.origin.isHydration = true →
      (w.jobs hydration).caller.process = (w.jobs j).caller.process →
      (w'.jobs j).phase = .fetching hydration ∨ (w.jobs hydration).phase.Over)
    (hover : (w.jobs j).caller.origin.isHydration = true → ¬ (w'.jobs j).phase.Over →
      ¬ (w.jobs j).phase.Over)
    (hdebts : (w'.memoryOf j).draining = false → ∀ key, (w'.memoryOf j).Lingers key →
      ∃ j', (w'.jobs j').caller.process = (w.jobs j).caller.process ∧ w'.Guards j' key) :
    w'.Tended where
  coherent process := by
    rcases eq_or_ne process (w.jobs j).caller.process with rfl | hne
    · rw [memoryOf, hm.caller] at hcoherent
      exact hcoherent
    · rw [hm.memory process hne]
      exact h.coherent process
  callers j' := by rw [hm.callers, h.callers]
  unborn j' hj' := by
    rw [hm.created] at hj'
    have hne : j' ≠ j := by omega
    obtain ⟨hphase, hnone⟩ := h.unborn j' hj'
    rw [hm.jobs j' hne]
    exact ⟨hphase, fun process ↦ ((hm.memories process).hydrated j' hne).trans (hnone process)⟩
  jobs j' := by
    rcases eq_or_ne j' j with rfl | hne
    · exact hok
    · exact hm.jobOk h.callers hne (h.jobs j')
  awaited hydration roomId horigin hlive := by
    rw [hm.callers] at horigin
    have hlive' : ¬ (w.jobs hydration).phase.Over := by
      rcases eq_or_ne hydration j with rfl | hne
      · exact hover (by rw [horigin]; rfl) hlive
      · rw [← hm.jobs hydration hne]
        exact hlive
    obtain ⟨j', hprocess, hphase⟩ := h.awaited hydration roomId horigin hlive'
    refine ⟨j', by rw [hm.callers, hm.callers, hprocess], ?_⟩
    rcases eq_or_ne j' j with rfl | hne
    · exact (hfetching hydration hphase (by rw [horigin]; rfl) hprocess.symm).resolve_right hlive'
    · rw [hm.jobs j' hne, hphase]
  debts process hdraining key hkey := by
    rcases eq_or_ne process (w.jobs j).caller.process with rfl | hne
    · rw [memoryOf, hm.caller] at hdebts
      exact hdebts hdraining key hkey
    · rw [hm.memory process hne] at hdraining hkey
      obtain ⟨j', hprocess, hg⟩ := h.debts process hdraining key hkey
      have hother : j' ≠ j := by
        rintro rfl
        exact hne hprocess.symm
      exact ⟨j', by rw [hm.callers, hprocess], hm.guards h.callers hother hwait (h.jobs j') hg⟩
  idle process hidle j' hprocess := by
    rw [(hm.memories process).listening] at hidle
    rw [hm.callers] at hprocess
    rcases eq_or_ne j' j with rfl | hne
    · rw [memoryOf, hprocess, hidle] at hlistening
      cases hlistening
    · rw [hm.jobs j' hne]
      exact h.idle process hidle j' hprocess
  sockets s connection hs hconnected := by
    rw [hm.sockets] at hs
    rw [(hm.memories connection.process).listening]
    exact h.sockets s connection hs hconnected

/-! ### Turns -/

private theorem host_lawful (c : Caller) : (@host js c).Lawful where
  memory_put _ _ := Function.update_self _ _ _
  memory_say _ _ := rfl

/-- Only the memory of the process and the log have changed. -/
structure Inside (w w' : World js) (process : Nat) : Prop where
  jobs : w'.jobs = w.jobs
  created : w'.created = w.created
  sockets : w'.sockets = w.sockets
  memory : ∀ process' ≠ process, w'.memory process' = w.memory process'

/-- A turn writes the memory of its process only. -/
theorem exec_inside (caller : Caller) (c : RoomCode js) (w : World js) :
    w.Inside (c.exec (host caller) w).1 caller.process := by
  induction c generalizing w with
  | look k ih => exact ih _ w
  | store f k ih =>
    obtain ⟨hjobs, hcreated, hsockets, hmemory⟩ := ih (w.setMemory caller.process (f _))
    refine ⟨hjobs, hcreated, hsockets, fun process hne ↦ (hmemory process hne).trans ?_⟩
    exact Function.update_of_ne hne _ _
  | tell x k ih =>
    obtain ⟨hjobs, hcreated, hsockets, hmemory⟩ := ih (w.say (.told caller x))
    exact ⟨hjobs, hcreated, hsockets, hmemory⟩
  | done => exact ⟨rfl, rfl, rfl, fun _ _ ↦ rfl⟩
  | throw text => exact ⟨rfl, rfl, rfl, fun _ _ ↦ rfl⟩
  | await r k => exact ⟨rfl, rfl, rfl, fun _ _ ↦ rfl⟩

/-- A task works on the room it was submitted on. -/
theorem roomIdOf_task (htask : (w.jobs j).caller.origin.isHydration = false) :
    w.roomIdOf j = (w.jobs j).room.map fun room ↦ ((w.memoryOf j).objects room).id := by
  unfold roomIdOf
  split
  · next name horigin =>
    rw [horigin] at htask
    cases htask
  · rfl

/-- The state after a turn and what became of its function. -/
theorem Inside.moves (h : w.Inside w' (w.jobs j).caller.process)
    (hdoes : (w.memoryOf j).Does j (w'.memory (w.jobs j).caller.process)) (log : List (Event js))
    (phase : Phase js) : w.Moves (({ w' with log := log } : World js).setPhase j phase) j where
  created := h.created
  sockets := h.sockets
  jobs j' hne := (Function.update_of_ne hne _ _).trans (congrFun h.jobs j')
  caller := by
    change (Function.update w'.jobs j { w'.jobs j with phase := phase } j).caller = _
    rw [Function.update_self, h.jobs]
  memory process hne := h.memory process hne
  does := by
    have hcaller : ((({ w' with log := log } : World js).setPhase j phase).jobs j).caller =
        (w.jobs j).caller := by
      change (Function.update w'.jobs j { w'.jobs j with phase := phase } j).caller = _
      rw [Function.update_self, h.jobs]
    rw [memoryOf, memoryOf, hcaller]
    exact hdoes

/-- A rejected task that is not a join is over. -/
theorem reject_settled (hjoin : (w.jobs j).caller.origin.isJoin = false) (room : Nat)
    (text : String) :
    ∃ log, w.reject j room text = ({ w with log := log } : World js).setPhase j .settled := by
  unfold reject
  split
  · next socket user packet newId now horigin =>
    rw [horigin] at hjoin
    cases packet with
    | joinRoom name => cases hjoin
    | _ => exact ⟨_, rfl⟩
  · exact ⟨_, rfl⟩
  · exact ⟨_, rfl⟩

/-- A rejected join goes to its `catch`. -/
theorem reject_caught (hjoin : (w.jobs j).caller.origin.isJoin = true) (room : Nat)
    (text : String) :
    w.reject j room text = ({ w with log := w.log } : World js).setPhase j (.caught room text) := by
  obtain ⟨socket, user, name, newId, now, horigin⟩ := isJoin_iff.mp hjoin
  rw [reject, horigin]

/-- The phase in which a turn leaves its function. -/
theorem rest_cases (w : World js) (j : Nat) (c : RoomCode js) (hrests : c.Rests) :
    ∃ log phase, w.rest j c = ({ w with log := log } : World js).setPhase j phase ∧
      (phase = .settled ∧ (c = .done ∨
          (∃ text, c = .throw text) ∧ (w.jobs j).caller.origin.isJoin = false) ∨
        (∃ text, phase = .caught ((w.jobs j).room.getD 0) text ∧ c = .throw text ∧
          (w.jobs j).caller.origin.isJoin = true) ∨
        ∃ r k, phase = .waiting c ∧ c = .await r k) := by
  cases c with
  | done => exact ⟨w.log, _, rfl, Or.inl ⟨rfl, Or.inl rfl⟩⟩
  | throw text =>
    cases hjoin : (w.jobs j).caller.origin.isJoin with
    | false =>
      obtain ⟨log, heq⟩ := reject_settled hjoin ((w.jobs j).room.getD 0) text
      exact ⟨log, _, heq, Or.inl ⟨rfl, Or.inr ⟨⟨text, rfl⟩, rfl⟩⟩⟩
    | true =>
      exact ⟨w.log, _, reject_caught hjoin _ text, Or.inr (Or.inl ⟨text, rfl, rfl, rfl⟩)⟩
  | await r k => exact ⟨w.log, _, rfl, Or.inr (Or.inr ⟨r, k, rfl, rfl⟩)⟩
  | look k => exact hrests.elim
  | store f k => exact hrests.elim
  | tell x k => exact hrests.elim

/-- The function that has come to rest minds what it has left, and sees to what it saw to. -/
theorem Tended.rested (h : w.Tended) {w₁ : World js} {c : RoomCode js} {log : List (Event js)}
    {phase : Phase js} (hin : w.Inside w₁ (w.jobs j).caller.process)
    (hdoes : (w.memoryOf j).Does j (w₁.memory (w.jobs j).caller.process))
    (hinv : (w₁.memory (w.jobs j).caller.process).Coherent)
    (hrest : c.Minds (w.upkeep j) (w.memoryOf j) (w₁.memory (w.jobs j).caller.process))
    (hseen : ∀ key, (w.memoryOf j).Lingers key → w.Guards j key → w.roomIdOf j = some key.1 ∧
      c.SeesTo (w.upkeep j) key (w₁.memory (w.jobs j).caller.process))
    (hphases : phase = .settled ∧ (c = .done ∨
          (∃ text, c = .throw text) ∧ (w.jobs j).caller.origin.isJoin = false) ∨
        (∃ text, phase = .caught ((w.jobs j).room.getD 0) text ∧ c = .throw text ∧
          (w.jobs j).caller.origin.isJoin = true) ∨
        ∃ r k, phase = .waiting c ∧ c = .await r k)
    (hlistening : (w.memoryOf j).listening = true) (hunborn : j < w.created)
    (hplaced : ∀ room, (w.jobs j).room = some room → room < (w.memoryOf j).allocated)
    (hroom : (w.jobs j).caller.origin.isJoin = true → (w.jobs j).room.isSome)
    (hwait : (w.jobs j).caller.origin.isHydration = true → (w.memoryOf j).hydrated j = none)
    (hfetching : ∀ hydration, (w.jobs j).phase ≠ .fetching hydration)
    (hlive : (w.jobs j).caller.origin.isHydration = true → ¬ (w.jobs j).phase.Over) :
    (({ w₁ with log := log } : World js).setPhase j phase).Tended := by
  have hm := hin.moves hdoes log phase
  have hjob : (({ w₁ with log := log } : World js).setPhase j phase).jobs j =
      { w.jobs j with phase := phase } := by
    change Function.update w₁.jobs j { w₁.jobs j with phase := phase } j = _
    rw [Function.update_self, hin.jobs]
  have hmemory : (({ w₁ with log := log } : World js).setPhase j phase).memoryOf j =
      w₁.memory (w.jobs j).caller.process := by
    rw [memoryOf, hjob]
    rfl
  have hroomId := roomIdOf_grows hm.caller (by rw [hjob]) hm.does.toGrows hplaced
  have hupkeep : (({ w₁ with log := log } : World js).setPhase j phase).upkeep j = w.upkeep j := by
    rw [upkeep, upkeep, hroomId, hm.caller]
  -- What the function has to do with a room that lingers after its turn.
  have howes : ∀ key, (w₁.memory (w.jobs j).caller.process).Lingers key →
      (¬ (w.memoryOf j).Lingers key ∨ (w.memoryOf j).Lingers key ∧ w.Guards j key) →
      ∃ j', ((({ w₁ with log := log } : World js).setPhase j phase).jobs j').caller.process =
        (w.jobs j).caller.process ∧
        (({ w₁ with log := log } : World js).setPhase j phase).Guards j' key := by
    intro key hkey hcase
    have hpassed : c = .done → (w.upkeep j).passed (w₁.memory (w.jobs j).caller.process) key := by
      rintro rfl
      exact hcase.elim (hrest key hkey) fun hold ↦ (hseen key hold.1 hold.2).2 hkey
    have hcaught : ∀ text, c = .throw text → (w.upkeep j).caught key := by
      rintro text rfl
      exact hcase.elim (hrest key hkey) fun hold ↦ (hseen key hold.1 hold.2).2 hkey
    rcases hphases with ⟨rfl, rfl | ⟨⟨text, rfl⟩, hjoin⟩⟩ | ⟨text, rfl, rfl, hjoin⟩ | ⟨r, k, rfl, rfl⟩
    · -- A hydration is over: a join waits for what it has left.
      obtain ⟨hhydration, hleft, hid⟩ := hpassed rfl
      rw [h.callers] at hleft
      obtain ⟨name, horigin⟩ := isHydration_iff.mp hhydration
      obtain ⟨j', hprocess, hphase⟩ := h.awaited j name horigin (hlive hhydration)
      have hne : j' ≠ j := by
        rintro rfl
        exact hfetching j' hphase
      refine ⟨j', by rw [hm.callers, hprocess], ?_⟩
      unfold Guards
      rw [hm.jobs j' hne, hphase]
      refine ⟨?_, ?_, ?_⟩
      · rw [roomIdOf, horigin, Option.some.injEq] at hid
        rw [hm.caller, horigin, hid]
      · rw [hm.caller, hprocess]
      · rw [memoryOf, hm.callers, hprocess]
        exact hleft
    · rw [(hcaught text rfl).1] at hjoin
      cases hjoin
    · refine ⟨j, by rw [hm.caller], ?_⟩
      have hid := (hcaught text rfl).2
      obtain ⟨room, hr⟩ := Option.isSome_iff_exists.mp (hroom hjoin)
      rw [← hroomId, roomIdOf_task (by rw [hm.caller]; exact isHydration_of_isJoin hjoin), hjob, hr,
        Option.map_some, Option.some.injEq] at hid
      unfold Guards
      rw [hjob, hr]
      exact hid
    · refine ⟨j, by rw [hm.caller], ?_⟩
      unfold Guards
      rw [hjob, hroomId, hupkeep, hmemory]
      exact hcase.elim (fun hnew ↦ hrest.2.1 key hkey hnew) fun hold ↦
        ⟨(hseen key hold.1 hold.2).1, (hseen key hold.1 hold.2).2 hkey⟩
  refine h.moves hm hlistening (hmemory ▸ hinv) hunborn ⟨?_, ?_⟩ hwait
    (fun hydration hphase ↦ absurd hphase (hfetching hydration)) (fun hh _ ↦ hlive hh)
    fun hdraining key hkey ↦ ?_
  · rw [hjob, hmemory]
    exact fun room hr ↦ Or.inl (Nat.lt_of_lt_of_le (hplaced room hr) hdoes.allocated)
  · rw [hjob, hmemory, hupkeep]
    rcases hphases with ⟨rfl, -⟩ | ⟨text, rfl, -, hjoin⟩ | ⟨r, k, rfl, rfl⟩
    · trivial
    · obtain ⟨room, hr⟩ := Option.isSome_iff_exists.mp (hroom hjoin)
      rw [hr]
      exact ⟨hjoin, Nat.lt_of_lt_of_le (hplaced room hr) hdoes.allocated⟩
    · exact ⟨hroom, hrest.1, hrest.2.2⟩
  · rw [hmemory] at hdraining hkey
    by_cases hold : (w.memoryOf j).Lingers key
    · obtain ⟨j', hprocess, hg⟩ := h.debts _ (hdoes.draining.symm.trans hdraining) key hold
      rcases eq_or_ne j' j with rfl | hne
      · exact howes key hkey (Or.inr ⟨hold, hg⟩)
      · exact ⟨j', by rw [hm.callers, hprocess], hm.guards h.callers hne hwait (h.jobs j') hg⟩
    · exact howes key hkey (Or.inl hold)

/-- A turn of a function that minds what it leaves, and sees to what it saw to. -/
theorem Tended.run (h : w.Tended) {c : RoomCode js} (hlistening : (w.memoryOf j).listening = true)
    (hunborn : j < w.created)
    (hplaced : ∀ room, (w.jobs j).room = some room → room < (w.memoryOf j).allocated)
    (hroom : (w.jobs j).caller.origin.isJoin = true → (w.jobs j).room.isSome)
    (hwait : (w.jobs j).caller.origin.isHydration = true → (w.memoryOf j).hydrated j = none)
    (hfetching : ∀ hydration, (w.jobs j).phase ≠ .fetching hydration)
    (hlive : (w.jobs j).caller.origin.isHydration = true → ¬ (w.jobs j).phase.Over)
    (hminds : c.Minds (w.upkeep j) (w.memoryOf j) (w.memoryOf j))
    (hsees : ∀ key, (w.memoryOf j).Lingers key → w.Guards j key →
      w.roomIdOf j = some key.1 ∧ c.SeesTo (w.upkeep j) key (w.memoryOf j)) :
    (w.run j c).Tended := by
  have hin := exec_inside (w.jobs j).caller c w
  obtain ⟨hdoes, hinv, hrest⟩ := hminds.exec (H := host (w.jobs j).caller) (s := w) (host_lawful _)
    (upkeep_lawful _ _) (h.coherent _)
  obtain ⟨log, phase, heq, hphases⟩ := rest_cases (c.exec (host (w.jobs j).caller) w).1 j
    (c.exec (host (w.jobs j).caller) w).2 (Code.exec_rests _ c w)
  rw [World.run, heq]
  rw [congrFun hin.jobs j] at hphases
  change Memory.Does (w.jobs j).caller.job (w.memoryOf j) _ at hdoes
  rw [h.callers j] at hdoes
  refine h.rested hin hdoes hinv hrest (fun key hkey hg ↦ ⟨(hsees key hkey hg).1, ?_⟩) hphases
    hlistening hunborn hplaced hroom hwait hfetching hlive
  exact Code.SeesTo.exec (host_lawful _) (hsees key hkey hg).2

end World

end

end ChessStack.Server
