import ChessStack.Server.Quiet

/-!
# Turns that keep rooms tidy

Library `Server`. Every turn of a function and every answer it gets keeps somebody at the finished
rooms that linger in a cache of `Chess-Backend/src/socket/gameSocket.js`, where the condition
admits them.
-/

namespace ChessStack.Server

open ChessStack.Chess ChessStack.Js ChessStack.Library ChessStack.Store

variable {js : ChessJs} {D : Deployment}

namespace World

variable {w w' : World js} {j : Nat}

/-! ### New functions -/

/-- Nothing of the invariant is about the outside, the drains or the log. -/
theorem Tended.congr (h : w.Tended) (hmemory : w'.memory = w.memory) (hjobs : w'.jobs = w.jobs)
    (hcreated : w'.created = w.created) (hsockets : w'.sockets = w.sockets) : w'.Tended := by
  obtain ⟨outside, memory, sockets, jobs, created, drains, log⟩ := w
  obtain ⟨outside', memory', sockets', jobs', created', drains', log'⟩ := w'
  subst hmemory hjobs hcreated hsockets
  exact ⟨h.coherent, h.callers, h.unborn, h.jobs, h.awaited, h.debts, h.idle, h.sockets⟩

/-- New functions begin with nothing to see to. They may be entered among the hydrations, and a
process may begin to drain. -/
theorem Tended.spawn (h : w.Tended)
    (hmemory : ∀ process, ∃ hydrating draining, w'.memory process =
      { w.memory process with hydrating := hydrating, draining := draining } ∧
        (draining = false → (w.memory process).draining = false))
    (hsockets : w'.sockets = w.sockets) (hcreated : w.created ≤ w'.created)
    (hold : ∀ j, j < w.created ∨ w'.created ≤ j → w'.jobs j = w.jobs j)
    (hnew : ∀ j, w.created ≤ j → j < w'.created → (w'.jobs j).caller.job = j ∧
      (w.memory (w'.jobs j).caller.process).listening = true ∧ w'.JobOk j ∧
      ∀ roomId, (w'.jobs j).caller.origin = .hydration roomId → ¬ (w'.jobs j).phase.Over →
        ∃ j', (w'.jobs j').caller.process = (w'.jobs j).caller.process ∧
          (w'.jobs j').phase = .fetching j) :
    w'.Tended := by
  have hfields : ∀ process, (w.memory process).Grows (w'.memory process) ∧
      (w'.memory process).hydrated = (w.memory process).hydrated ∧
      (w'.memory process).listening = (w.memory process).listening ∧
      ((w'.memory process).draining = false → (w.memory process).draining = false) ∧
      (w'.memory process).Coherent ∧
      ∀ key, (w'.memory process).Lingers key → (w.memory process).Lingers key := by
    intro process
    obtain ⟨hydrating, draining, heq, hdraining⟩ := hmemory process
    rw [heq]
    exact ⟨⟨Nat.le_refl _, fun _ _ ↦ rfl⟩, rfl, rfl, hdraining,
      ⟨(h.coherent process).cached, (h.coherent process).hydrated⟩, fun _ ↦ id⟩
  have hcases : ∀ j, (j < w.created ∨ w'.created ≤ j) ∨ w.created ≤ j ∧ j < w'.created := by
    intro j
    omega
  refine ⟨fun process ↦ (hfields process).2.2.2.2.1, fun j ↦ ?_, fun j hj ↦ ?_, fun j ↦ ?_,
    fun hydration roomId horigin hlive ↦ ?_, fun process hdraining key hkey ↦ ?_,
    fun process hidle j hprocess ↦ ?_, fun s connection hs hconnected ↦ ?_⟩
  · rcases hcases j with hj | ⟨hle, hlt⟩
    · rw [hold j hj, h.callers]
    · exact (hnew j hle hlt).1
  · obtain ⟨hover, hnone⟩ := h.unborn j (Nat.le_trans hcreated hj)
    refine ⟨by rwa [hold j (Or.inr hj)], fun process ↦ ?_⟩
    rw [(hfields process).2.1]
    exact hnone process
  · rcases hcases j with hj | ⟨hle, hlt⟩
    · refine ((h.jobs j).keep (hold j hj) ?_ ?_).1
      · rw [memoryOf, memoryOf, hold j hj]
        exact (hfields _).1
      · rw [memoryOf, memoryOf, hold j hj, (hfields _).2.1]
    · exact (hnew j hle hlt).2.2.1
  · rcases hcases hydration with hj | ⟨hle, hlt⟩
    · rw [hold hydration hj] at horigin hlive
      obtain ⟨j, hprocess, hfetching⟩ := h.awaited hydration roomId horigin hlive
      have hj' : j < w.created := by
        by_contra hborn
        have hover := (h.unborn j (Nat.le_of_not_lt hborn)).1
        rw [hfetching] at hover
        exact hover
      refine ⟨j, ?_, by rw [hold j (Or.inl hj'), hfetching]⟩
      rw [hold j (Or.inl hj'), hold hydration hj, hprocess]
    · exact (hnew hydration hle hlt).2.2.2 roomId horigin hlive
  · obtain ⟨-, -, -, hdrains, -, hlingers⟩ := hfields process
    obtain ⟨j, hprocess, hg⟩ := h.debts process (hdrains hdraining) key (hlingers key hkey)
    have hj : j < w.created := by
      by_contra hborn
      exact hg.not_over (h.unborn j (Nat.le_of_not_lt hborn)).1
    refine ⟨j, by rw [hold j (Or.inl hj), hprocess], hg.keep (h.jobs j) (hold j (Or.inl hj)) ?_ ?_ ?_⟩
    · rw [memoryOf, memoryOf, hold j (Or.inl hj)]
      exact (hfields _).1
    · rw [memoryOf, memoryOf, hold j (Or.inl hj), (hfields _).2.1]
    · rw [memoryOf, memoryOf, hold j (Or.inl hj), (hfields _).2.1]
      intro hydration ref _ _ _ hsome
      have hborn : hydration < w.created := by
        by_contra hborn
        rw [(h.unborn hydration (Nat.le_of_not_lt hborn)).2] at hsome
        cases hsome
      exact ⟨congrArg Job.caller (hold hydration (Or.inl hborn)), hsome⟩
  · rw [(hfields process).2.2.1] at hidle
    rcases hcases j with hj | ⟨hle, hlt⟩
    · rw [hold j hj] at hprocess ⊢
      exact h.idle process hidle j hprocess
    · have hlistening := (hnew j hle hlt).2.1
      rw [hprocess, hidle] at hlistening
      cases hlistening
  · rw [hsockets] at hs
    rw [(hfields connection.process).2.2.1]
    exact h.sockets s connection hs hconnected

/-- A new function has nothing to see to. -/
theorem Tended.create (h : w.Tended) {process : Nat} {origin : Origin} {phase : Phase js}
    (hlistening : (w.memory process).listening = true)
    (hphase : phase = .settled ∨ origin.isJoin = true ∧ ((∃ hydration, phase = .fetching hydration) ∨
      ∃ room, phase = .fetched room ∧ room < (w.memory process).allocated)) :
    (w.create process origin phase).Tended := by
  have hnew : (w.create process origin phase).jobs w.created =
      ⟨⟨w.created, process, origin⟩, none, none, phase⟩ := Function.update_self _ _ _
  refine h.spawn (fun process ↦ ⟨_, _, rfl, id⟩) rfl (Nat.le_succ _) (fun j hj ↦ ?_)
    fun j hle hlt ↦ ?_
  · have hne : j ≠ w.created := by
      rintro rfl
      rcases hj with hj | hj
      · exact Nat.lt_irrefl _ hj
      · exact Nat.not_succ_le_self _ hj
    exact Function.update_of_ne hne _ _
  · obtain rfl : j = w.created := Nat.le_antisymm (Nat.lt_succ_iff.mp hlt) hle
    rw [JobOk, memoryOf, hnew]
    refine ⟨rfl, hlistening, ⟨fun _ h ↦ by (cases h), ?_⟩, fun roomId horigin hlive ↦ ?_⟩
    · rcases hphase with rfl | ⟨hjoin, ⟨hydration, rfl⟩ | ⟨room, rfl, hroom⟩⟩
      · trivial
      · exact hjoin
      · exact ⟨hjoin, hroom⟩
    · rcases hphase with rfl | ⟨hjoin, -⟩
      · exact absurd trivial hlive
      · rw [show origin = .hydration roomId from horigin] at hjoin
        cases hjoin

/-! ### Tasks on the chain of a room -/

/-- A function that has not come to its end runs on a process that listens. -/
theorem Tended.listening (h : w.Tended) (hlive : ¬ (w.jobs j).phase.Over) :
    (w.memoryOf j).listening = true := by
  by_contra hidle
  exact hlive (h.idle _ (Bool.eq_false_iff.mpr hidle) j rfl)

/-- A function that sees to nothing is over, or goes to its `catch`. -/
theorem Tended.leave (h : w.Tended) {log : List (Event js)} {phase : Phase js}
    (hphase : phase = .settled ∨ ∃ room text, phase = .caught room text ∧
      (w.jobs j).caller.origin.isJoin = true ∧ room < (w.memoryOf j).allocated ∧
        ¬ (w.jobs j).phase.Over)
    (hlistening : (w.memoryOf j).listening = true) (hunborn : j < w.created)
    (hwait : (w.jobs j).caller.origin.isHydration = true → (w.memoryOf j).hydrated j = none)
    (hfetching : ∀ hydration, (w.jobs j).phase = .fetching hydration →
      (w.jobs hydration).caller.origin.isHydration = true →
      (w.jobs hydration).caller.process = (w.jobs j).caller.process →
      (w.jobs hydration).phase.Over)
    (hfree : (w.memoryOf j).draining = false → ∀ key, (w.memoryOf j).Lingers key →
      ¬ w.Guards j key) :
    (({ w with log := log } : World js).setPhase j phase).Tended := by
  have hin : w.Inside w (w.jobs j).caller.process := ⟨rfl, rfl, rfl, fun _ _ ↦ rfl⟩
  have hm := hin.moves (.refl j _) log phase
  have hjob : (({ w with log := log } : World js).setPhase j phase).jobs j =
      { w.jobs j with phase := phase } := Function.update_self _ _ _
  have hmemory : (({ w with log := log } : World js).setPhase j phase).memoryOf j =
      w.memoryOf j := by
    rw [memoryOf, hjob]
    rfl
  refine h.moves hm hlistening (hmemory ▸ h.coherent _) hunborn ?_ hwait
    (fun hydration hphase horigin hprocess ↦ Or.inr (hfetching hydration hphase horigin hprocess))
    ?_ fun hdraining key hkey ↦ ?_
  · unfold JobOk
    rw [hjob, hmemory]
    rcases hphase with rfl | ⟨room, text, rfl, hjoin, hlt, hlive⟩
    · exact ⟨fun _ _ ↦ Or.inr trivial, trivial⟩
    · exact ⟨fun room hr ↦ Or.inl (((h.jobs j).1 room hr).resolve_right hlive), hjoin, hlt⟩
  · rw [hjob]
    rintro hhydration hlive
    rcases hphase with rfl | ⟨room, text, rfl, hjoin, -⟩
    · exact absurd trivial hlive
    · rw [isHydration_of_isJoin hjoin] at hhydration
      cases hhydration
  · rw [hmemory] at hdraining hkey
    obtain ⟨j', hprocess, hg⟩ := h.debts _ hdraining key hkey
    have hne : j' ≠ j := by
      rintro rfl
      exact hfree hdraining key hkey hg
    exact ⟨j', by rw [hm.callers, hprocess], hm.guards h.callers hne hwait (h.jobs j') hg⟩

/-- A task is queued: a join that saw to its room still does. -/
theorem Tended.queue (h : w.Tended) {room : Nat} (hlistening : (w.memoryOf j).listening = true)
    (hunborn : j < w.created) (hroom : room < (w.memoryOf j).allocated)
    (htask : (w.jobs j).caller.origin.isHydration = false)
    (hfetching : ∀ hydration, (w.jobs j).phase = .fetching hydration →
      (w.jobs hydration).caller.origin.isHydration = true →
      (w.jobs hydration).caller.process = (w.jobs j).caller.process →
      (w.jobs hydration).phase.Over)
    (hjoins : ∀ key, (w.memoryOf j).Lingers key → w.Guards j key →
      (w.jobs j).caller.origin.isJoin = true ∧ ((w.memoryOf j).objects room).id = key.1) :
    ((w.setMemory (w.jobs j).caller.process
      ((w.memoryOf j).modify room fun o ↦ { o with operation := some j })).setJob j
        { w.jobs j with
          room := some room
          after := ((w.memoryOf j).objects room).operation
          phase := .queued }).Tended := by
  have hwait : (w.jobs j).caller.origin.isHydration = true → (w.memoryOf j).hydrated j = none := by
    rw [htask]
    exact fun h ↦ by cases h
  have hdoes := Memory.modify_does j (w.memoryOf j) room (f := fun o ↦ { o with operation := some j }) rfl
  set w' := (w.setMemory (w.jobs j).caller.process
    ((w.memoryOf j).modify room fun o ↦ { o with operation := some j })).setJob j
      { w.jobs j with
        room := some room
        after := ((w.memoryOf j).objects room).operation
        phase := .queued } with hw'
  have hjob : w'.jobs j = { w.jobs j with
      room := some room
      after := ((w.memoryOf j).objects room).operation
      phase := .queued } := Function.update_self _ _ _
  have hmemory : w'.memoryOf j = (w.memoryOf j).modify room fun o ↦ { o with operation := some j } := by
    rw [memoryOf, hjob]
    exact Function.update_self _ _ _
  have hm : w.Moves w' j :=
    { created := rfl
      sockets := rfl
      jobs := fun j' hne ↦ Function.update_of_ne hne _ _
      caller := by rw [hjob]
      memory := fun process hne ↦ Function.update_of_ne hne _ _
      does := hmemory ▸ hdoes }
  refine h.moves hm hlistening (hmemory ▸ (h.coherent _).modify rfl) hunborn ?_ hwait
    (fun hydration hphase horigin hprocess ↦ Or.inr (hfetching hydration hphase horigin hprocess))
    (fun hh ↦ ?_) fun hdraining key hkey ↦ ?_
  · unfold JobOk
    rw [hjob, hmemory]
    refine ⟨fun room' hr ↦ ?_, htask, rfl⟩
    obtain rfl : room = room' := Option.some.inj hr
    exact Or.inl (Nat.lt_of_lt_of_le hroom hdoes.allocated)
  · rw [htask] at hh
    cases hh
  · rw [hmemory] at hdraining hkey
    have hold : (w.memoryOf j).Lingers key :=
      Memory.lingers_of_modify (fun hstatus hless ↦ ⟨hstatus, hless⟩) hkey
    obtain ⟨j', hprocess, hg⟩ := h.debts _ hdraining key hold
    rcases eq_or_ne j' j with rfl | hne
    · obtain ⟨hjoin, hid⟩ := hjoins key hold hg
      refine ⟨j', by rw [hm.caller], ?_⟩
      unfold Guards
      rw [hjob]
      refine ⟨hjoin, ?_⟩
      rw [roomIdOf_task (by rw [hjob]; exact htask), hjob, hmemory, Option.map_some,
        hdoes.ids room hroom, hid]
    · exact ⟨j', by rw [hm.callers, hprocess], hm.guards h.callers hne hwait (h.jobs j') hg⟩

/-- A task is submitted: a join that saw to its room still does. -/
theorem Tended.roomTask (h : w.Tended) {room : Nat} (hlistening : (w.memoryOf j).listening = true)
    (hlive : (w.jobs j).caller.origin.isJoin = true → ¬ (w.jobs j).phase.Over) (hunborn : j < w.created) (hroom : room < (w.memoryOf j).allocated)
    (htask : (w.jobs j).caller.origin.isHydration = false)
    (hfetching : ∀ hydration, (w.jobs j).phase = .fetching hydration →
      (w.jobs hydration).caller.origin.isHydration = true →
      (w.jobs hydration).caller.process = (w.jobs j).caller.process →
      (w.jobs hydration).phase.Over)
    (hjoins : ∀ key, (w.memoryOf j).Lingers key → w.Guards j key →
      (w.jobs j).caller.origin.isJoin = true ∧ ((w.memoryOf j).objects room).id = key.1) :
    (w.roomTask j room).Tended := by
  have hwait : (w.jobs j).caller.origin.isHydration = true → (w.memoryOf j).hydrated j = none := by
    rw [htask]
    exact fun h ↦ by cases h
  change (ite ((w.memoryOf j).draining = true) _ _ : World js).Tended
  split
  · next hdraining =>
    have hfree : (w.memoryOf j).draining = false → ∀ key, (w.memoryOf j).Lingers key →
        ¬ w.Guards j key := by
      rw [hdraining]
      exact fun h ↦ by cases h
    cases hjoin : (w.jobs j).caller.origin.isJoin with
    | false =>
      obtain ⟨log, heq⟩ := reject_settled hjoin room "Server is shutting down"
      rw [heq]
      exact h.leave (Or.inl rfl) hlistening hunborn hwait hfetching hfree
    | true =>
      rw [reject_caught hjoin]
      exact h.leave (Or.inr ⟨_, _, rfl, hjoin, hroom, hlive hjoin⟩) hlistening hunborn hwait hfetching
        hfree
  · exact h.queue hlistening hunborn hroom htask hfetching hjoins

/-! ### The steps -/

/-- A hydration that has left its result is over. -/
theorem Tended.hydrated_over (h : w.Tended) {hydration : Nat} {left : Option Nat}
    (horigin : (w.jobs hydration).caller.origin.isHydration = true)
    (hleft : (w.memoryOf hydration).hydrated hydration = some left) :
    (w.jobs hydration).phase.Over := by
  have hnone : ¬ (w.upkeep hydration).waits (w.memoryOf hydration) := by
    intro hwaits
    have := hwaits horigin
    rw [h.callers, hleft] at this
    cases this
  have hjoin : (w.jobs hydration).caller.origin.isJoin ≠ true := by
    intro hjoin
    rw [isHydration_of_isJoin hjoin] at horigin
    cases horigin
  obtain ⟨-, hok⟩ := h.jobs hydration
  split at hok
  · exact absurd hok.1 hjoin
  · exact absurd hok.1 hjoin
  · exact absurd hok hjoin
  · rw [horigin] at hok
    cases hok.1
  · next c hphase =>
    cases c with
    | await r k => exact absurd hok.2.1 hnone
    | _ => exact hok.2.elim
  · exact absurd hok.2.1 hnone
  · next hphase => rw [hphase]; trivial
  · next hphase => rw [hphase]; trivial

/-- A function that is not over was created. -/
theorem Tended.born (h : w.Tended) (hlive : ¬ (w.jobs j).phase.Over) : j < w.created := by
  by_contra hj
  exact hlive (h.unborn j (Nat.le_of_not_lt hj)).1

private theorem Tended.waits (h : w.Tended) (hlive : ¬ (w.jobs j).phase.Over)
    (hhydration : (w.jobs j).caller.origin.isHydration = true) :
    (w.memoryOf j).hydrated j = none := by
  by_contra hne
  obtain ⟨left, hleft⟩ := Option.ne_none_iff_exists'.mp hne
  exact hlive (h.hydrated_over hhydration hleft)

/-- After the `catch` of a join another room may linger, but not its own. -/
theorem lingers_evictIfSocketless {m : Memory js} {roomId : String} {key : String × Nat}
    (h : (m.evictIfSocketless roomId).Lingers key) : m.Lingers key ∧ key.1 ≠ roomId := by
  unfold Memory.evictIfSocketless at h
  split at h
  · exact Memory.lingers_evict h
  · next hsocket =>
    refine ⟨h, ?_⟩
    rintro rfl
    refine hsocket ?_
    rw [Memory.socketless, h.1]
    exact h.2.2

private theorem evictIfSocketless_does (m : Memory js) (roomId : String) :
    m.Does j (m.evictIfSocketless roomId) := by
  unfold Memory.evictIfSocketless
  split
  · exact m.evict_does j roomId
  · exact .refl j m

private theorem evictIfSocketless_coherent {m : Memory js} (h : m.Coherent) (roomId : String) :
    (m.evictIfSocketless roomId).Coherent := by
  unfold Memory.evictIfSocketless
  split
  · exact h.evict roomId
  · exact h

/-- The `catch` of a join evicts its room if no socket is attached to it. -/
theorem Tended.catches (h : w.Tended) {room : Nat} {text : String} {log : List (Event js)}
    (hphase : (w.jobs j).phase = .caught room text) :
    (({ w.setMemory (w.jobs j).caller.process
        ((w.memoryOf j).evictIfSocketless ((w.memoryOf j).objects room).id) with log := log } :
      World js).setPhase j .settled).Tended := by
  have hlive : ¬ (w.jobs j).phase.Over := by
    rw [hphase]
    exact id
  have hin : w.Inside (w.setMemory (w.jobs j).caller.process
      ((w.memoryOf j).evictIfSocketless ((w.memoryOf j).objects room).id)) (w.jobs j).caller.process :=
    ⟨rfl, rfl, rfl, fun process hne ↦ Function.update_of_ne hne _ _⟩
  have hafter : (w.setMemory (w.jobs j).caller.process
      ((w.memoryOf j).evictIfSocketless ((w.memoryOf j).objects room).id)).memory
        (w.jobs j).caller.process =
      (w.memoryOf j).evictIfSocketless ((w.memoryOf j).objects room).id :=
    Function.update_self _ _ _
  have hm := hin.moves (by rw [hafter]; exact evictIfSocketless_does _ _) log .settled
  generalize w.setMemory (w.jobs j).caller.process
    ((w.memoryOf j).evictIfSocketless ((w.memoryOf j).objects room).id) = w₁ at hin hafter hm ⊢
  have hjob : (({ w₁ with log := log } : World js).setPhase j .settled).jobs j =
      { w.jobs j with phase := .settled } := by
    change Function.update w₁.jobs j { w₁.jobs j with phase := .settled } j = _
    rw [Function.update_self, hin.jobs]
  have hmemory : (({ w₁ with log := log } : World js).setPhase j .settled).memoryOf j =
      (w.memoryOf j).evictIfSocketless ((w.memoryOf j).objects room).id := by
    rw [memoryOf, hjob]
    exact hafter
  refine h.moves hm (h.listening hlive) (hmemory ▸ evictIfSocketless_coherent (h.coherent _) _)
    (h.born hlive) ⟨fun _ _ ↦ Or.inr ?_, ?_⟩ (h.waits hlive) (fun hydration hfetching ↦ ?_)
    (fun _ hlive ↦ absurd ?_ hlive) fun hdraining key hkey ↦ ?_
  · rw [hjob]
    trivial
  · rw [hjob]
    trivial
  · rw [hphase] at hfetching
    cases hfetching
  · rw [hjob]
    trivial
  · rw [hmemory] at hdraining hkey
    obtain ⟨hold, hne⟩ := lingers_evictIfSocketless hkey
    obtain ⟨j', hprocess, hg⟩ := h.debts _
      ((evictIfSocketless_does (j := j) _ _).draining.symm.trans hdraining) key hold
    have hother : j' ≠ j := by
      rintro rfl
      unfold Guards at hg
      rw [hphase] at hg
      exact hne hg.symm
    exact ⟨j', by rw [hm.callers, hprocess],
      hm.guards h.callers hother (h.waits hlive) (h.jobs j') hg⟩

/-- A turn of an event loop. -/
theorem Tended.proceed (h : w.Tended) (htidy : w.Tidy (.proceed j))
    (hst : w.proceed D j = some w') : w'.Tended := by
  obtain ⟨hplaced, hok⟩ := h.jobs j
  unfold World.proceed at hst
  dsimp only at hst
  split at hst
  · next room hphase =>
    rw [hphase] at hok
    have hlive : ¬ (w.jobs j).phase.Over := by
      rw [hphase]
      exact id
    obtain rfl := Option.some.inj hst
    refine h.roomTask (h.listening hlive) (fun _ ↦ hlive) (h.born hlive) hok.2
      (isHydration_of_isJoin hok.1) (fun hydration hfetching ↦ ?_) fun key hkey hg ↦ ⟨hok.1, ?_⟩
    · rw [hphase] at hfetching
      cases hfetching
    · unfold Guards at hg
      rw [hphase] at hg
      exact hg
  · next hydration hphase =>
    rw [hphase] at hok
    have hlive : ¬ (w.jobs j).phase.Over := by
      rw [hphase]
      exact id
    have hover : ∀ left, (w.memoryOf j).hydrated hydration = some left → ∀ hydration',
        (w.jobs j).phase = .fetching hydration' →
        (w.jobs hydration').caller.origin.isHydration = true →
        (w.jobs hydration').caller.process = (w.jobs j).caller.process →
        (w.jobs hydration').phase.Over := by
      intro left hleft hydration' hphase' horigin hprocess
      obtain rfl : hydration = hydration' := by
        rw [hphase] at hphase'
        exact Phase.fetching.inj hphase'
      rw [memoryOf, ← hprocess] at hleft
      exact h.hydrated_over horigin hleft
    split at hst
    · next room hleft =>
      obtain rfl := Option.some.inj hst
      refine h.roomTask (h.listening hlive) (fun _ ↦ hlive) (h.born hlive)
        ((h.coherent _).hydrated _ _ hleft) (isHydration_of_isJoin hok) (hover _ hleft)
        fun key hkey hg ↦ ⟨hok, ?_⟩
      unfold Guards at hg
      rw [hphase] at hg
      have hleft' : (w.memoryOf j).hydrated hydration = some (some room) := hleft
      rw [hg.2.2] at hleft'
      obtain rfl : key.2 = room := Option.some.inj (Option.some.inj hleft')
      exact ((h.coherent _).cached _ _ hkey.1).2
    · next hleft =>
      split at hst
      · obtain rfl := Option.some.inj hst
        refine h.leave (Or.inl rfl) (h.listening hlive) (h.born hlive) (h.waits hlive)
          (hover _ hleft) fun _ key hkey hg ↦ ?_
        unfold Guards at hg
        rw [hphase] at hg
        have hleft' : (w.memoryOf j).hydrated hydration = some none := hleft
        rw [hg.2.2] at hleft'
        cases hleft'
      · cases hst
    · cases hst
  · next hphase =>
    rw [hphase] at hok hplaced
    obtain ⟨room, hroom⟩ := Option.isSome_iff_exists.mp hok.2
    rw [hroom] at hst
    dsimp only at hst
    split at hst
    · obtain rfl := Option.some.inj hst
      have hlive : ¬ (w.jobs j).phase.Over := by
        rw [hphase]
        exact id
      have hlt : room < (w.memoryOf j).allocated := (hplaced room hroom).resolve_right id
      have hroomId : w.roomIdOf j = some ((w.memoryOf j).objects room).id := by
        rw [roomIdOf_task hok.1, hroom]
        rfl
      have hupkeep : w.upkeep j =
          Server.upkeep (w.jobs j).caller (some ((w.memoryOf j).objects room).id) := by
        rw [upkeep, hroomId]
      refine h.run (h.listening hlive) (h.born hlive) (fun room' hr ↦ (hplaced room' hr).resolve_right id)
        (fun _ ↦ hok.2) (h.waits hlive) (fun hydration hfetching ↦ ?_) (fun _ ↦ hlive) ?_
        fun key hkey hg ↦ ?_
      · rw [hphase] at hfetching
        cases hfetching
      · rw [hupkeep]
        exact task_minds D hok.1 (h.coherent _) ⟨hlt, rfl⟩
      · unfold Guards at hg
        rw [hphase] at hg
        obtain ⟨hjoin, hid⟩ := hg
        refine ⟨hid, ?_⟩
        rw [hroomId, Option.some.injEq] at hid
        obtain ⟨name, ref⟩ := key
        obtain rfl : _ = name := hid
        rw [hupkeep]
        exact task_seesTo D hjoin (h.coherent _) rfl ref
    · cases hst
  · next c hphase =>
    rw [hphase] at hok hplaced
    have hlive : ¬ (w.jobs j).phase.Over := by
      rw [hphase]
      exact id
    obtain rfl := Option.some.inj hst
    have hlater : (w.upkeep j).later (w.memoryOf j) (w.memoryOf j) := (upkeep_lawful _ _).later_refl _
    refine h.run (h.listening hlive) (h.born hlive) (fun room hr ↦ (hplaced room hr).resolve_right id)
      hok.1 (h.waits hlive) (fun hydration hfetching ↦ ?_) (fun _ ↦ hlive)
      (hok.2.2 _ hlater (h.coherent _) (htidy c hphase)) fun key hkey hg ↦ ?_
    · rw [hphase] at hfetching
      cases hfetching
    · unfold Guards at hg
      rw [hphase] at hg
      exact ⟨hg.1, hg.2 _ hlater (h.coherent _)⟩
  · next room text hphase =>
    split at hst
    · obtain rfl := Option.some.inj hst
      exact h.catches hphase
    · cases hst
    · cases hst
  · cases hst
  · cases hst
  · cases hst

/-! ### Answers -/

private theorem returns_of_failed {r : Await js} {a : Answer js r} (h : r.failed = some a) :
    Returns r a := by
  cases r with
  | call call =>
    cases call with
    | rematch gameId roomId white black newId now =>
      obtain rfl := Option.some.inj h
      trivial
    | _ => trivial
  | _ => trivial

/-- What a request returns from the database. -/
theorem returns_of_serve (hstart : (js.load startFen).isSome) {o o' : Outside} {process : Nat}
    {fetched : List Nat} {r : Await js} {a : Answer js r}
    (h : o.serve D process fetched r = some (a, o')) : Returns r a := by
  cases r with
  | call call =>
    cases call with
    | rematch gameId roomId white black newId now =>
      obtain ⟨⟨value, db⟩, hrun, heq⟩ := Option.map_eq_some_iff.mp h
      obtain ⟨old, new, hnew, rfl⟩ := rematch_run hrun
      obtain ⟨rfl, -⟩ := Prod.mk.inj heq
      have hfen : new.boardFen = some startFen := by rw [hnew.created]
      change (js.loadOr new.boardFen).isSome
      rw [hfen, ChessJs.loadOr, if_neg (by decide)]
      exact hstart
    | _ => trivial
  | _ => trivial

/-- A function has its answer: it can still see to what it saw to. -/
theorem Tended.answer (h : w.Tended) {w₁ : World js} {r : Await js} {k : Answer js r → RoomCode js}
    {a : Answer js r} (hphase : (w.jobs j).phase = .waiting (.await r k))
    (hmemory : w₁.memory = w.memory) (hjobs : w₁.jobs = w.jobs) (hcreated : w₁.created = w.created)
    (hsockets : w₁.sockets = w.sockets) (hreturns : Returns r a)
    (hanswers : ∀ key, (w.memoryOf j).Lingers key → Answers (w.jobs j).caller.origin key r a) :
    (w₁.setPhase j (.turn (k a))).Tended := by
  have hlive : ¬ (w.jobs j).phase.Over := by
    rw [hphase]
    exact id
  obtain ⟨hplaced, hok⟩ := h.jobs j
  rw [hphase] at hok hplaced
  have hin : w.Inside w₁ (w.jobs j).caller.process :=
    ⟨hjobs, hcreated, hsockets, fun process _ ↦ congrFun hmemory process⟩
  have hm := hin.moves (by rw [hmemory]; exact .refl j _) w₁.log (.turn (k a))
  have hjob : (w₁.setPhase j (.turn (k a))).jobs j = { w.jobs j with phase := .turn (k a) } := by
    change Function.update w₁.jobs j { w₁.jobs j with phase := .turn (k a) } j = _
    rw [Function.update_self, hjobs]
  have hsame : (w₁.setPhase j (.turn (k a))).memoryOf j = w.memoryOf j := by
    rw [memoryOf, hjob]
    exact congrFun hmemory _
  have hroomId : (w₁.setPhase j (.turn (k a))).roomIdOf j = w.roomIdOf j := by
    refine roomIdOf_grows (by rw [hjob]) (by rw [hjob]) (hsame ▸ .refl _) fun room hr ↦ ?_
    exact (hplaced room hr).resolve_right id
  have hupkeep : (w₁.setPhase j (.turn (k a))).upkeep j = w.upkeep j := by
    rw [upkeep, upkeep, hroomId, hjob]
  refine h.moves hm (h.listening hlive) (hsame ▸ h.coherent _) (h.born hlive) ?_ (h.waits hlive)
    (fun hydration hfetching ↦ ?_) (fun _ _ ↦ hlive) fun hdraining key hkey ↦ ?_
  · unfold JobOk
    rw [hjob, hsame, hupkeep]
    exact ⟨fun room hr ↦ Or.inl ((hplaced room hr).resolve_right id), hok.1, hok.2.1,
      hok.2.2 a hreturns⟩
  · rw [hphase] at hfetching
    cases hfetching
  · rw [hsame] at hdraining hkey
    obtain ⟨j', hprocess, hg⟩ := h.debts _ hdraining key hkey
    rcases eq_or_ne j' j with rfl | hne
    · refine ⟨j', by rw [hm.caller], ?_⟩
      unfold Guards at hg ⊢
      rw [hphase] at hg
      rw [hjob, hsame, hupkeep, hroomId]
      exact ⟨hg.1, hg.2 a hreturns (hanswers key hkey)⟩
    · exact ⟨j', by rw [hm.callers, hprocess],
        hm.guards h.callers hne (h.waits hlive) (h.jobs j') hg⟩

/-- A request comes back. -/
theorem Tended.perform (hstart : (js.load startFen).isSome) (h : w.Tended) {reply : Reply}
    (htidy : w.Tidy (.perform j reply)) (hst : w.perform D j reply = some w') : w'.Tended := by
  unfold World.perform at hst
  split at hst
  · next r k hphase =>
    have hfaulty : ∀ a, r.failed = some a → reply.Faulty → ∀ key, (w.memoryOf j).Lingers key →
        Answers (w.jobs j).caller.origin key r a := by
      intro a hfailed hreply key hkey
      cases r with
      | snapshot roomId =>
        obtain rfl := Option.some.inj hfailed
        rintro ⟨hjoin, rfl⟩
        exact htidy hjoin hreply _ k hphase key.2 hkey
      | _ => trivial
    cases reply with
    | arrives fetched =>
      dsimp only at hst
      split at hst
      · next a o hserve =>
        obtain rfl := Option.some.inj hst
        refine h.answer hphase rfl rfl rfl rfl (returns_of_serve hstart hserve) fun key _ ↦ ?_
        cases r with
        | snapshot roomId =>
          obtain ⟨rfl, -⟩ := Prod.mk.inj (Option.some.inj hserve)
          trivial
        | _ => trivial
      · cases hst
    | lost =>
      dsimp only at hst
      split at hst
      · next a o failed hserve hfailed =>
        obtain rfl := Option.some.inj hst
        exact h.answer hphase rfl rfl rfl rfl (returns_of_failed hfailed) (hfaulty _ hfailed trivial)
      · cases hst
    | fails =>
      dsimp only at hst
      split at hst
      · next failed hfailed =>
        obtain rfl := Option.some.inj hst
        exact h.answer hphase rfl rfl rfl rfl (returns_of_failed hfailed) (hfaulty _ hfailed trivial)
      · cases hst
  · cases hst

end World

end ChessStack.Server
