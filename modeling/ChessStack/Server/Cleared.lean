import ChessStack.Server.Script
import ChessStack.Server.Tidy

/-!
# No finished room lingers

Library `Server`. In every run of the processes that meets the condition, somebody is at every
finished room that lingers in a cache of `Chess-Backend/src/socket/gameSocket.js`. So none is
left when the functions for its room have come to their end.
-/

namespace ChessStack.Server

open ChessStack.Chess ChessStack.Js ChessStack.Library ChessStack.Store

variable {js : ChessJs} {D : Deployment}

/-- An empty memory is in order. -/
theorem Memory.coherent_empty : (Memory.empty : Memory js).Coherent :=
  ⟨fun _ _ h ↦ by (cases h), fun _ _ h ↦ by (cases h)⟩

namespace World

variable {w w' : World js} {j process socket newId now : Nat} {user : SocketUser}

/-! ### Handlers -/

/-- The function that was created. -/
theorem create_jobs (w : World js) (process : Nat) (origin : Origin) (phase : Phase js) :
    (w.create process origin phase).jobs w.created =
      ⟨⟨w.created, process, origin⟩, none, none, phase⟩ := Function.update_self _ _ _

/-- `create_room` runs up to its transaction. -/
theorem Tended.createRoom (h : w.Tended) (hlistening : (w.memory process).listening = true)
    (roomId : String) :
    ((w.create process (.event socket user (.createRoom roomId) newId now) .settled).run w.created
      (createRoomCode roomId socket user newId now)).Tended := by
  have hjob := create_jobs w process (.event socket user (.createRoom roomId) newId now) .settled
  refine (h.create hlistening (Or.inl rfl)).run ?_ (Nat.lt_succ_self _) ?_ ?_ ?_ ?_ ?_ ?_ ?_
  · rw [memoryOf, hjob]
    exact hlistening
  · rw [hjob]
    exact fun _ h ↦ by cases h
  · rw [hjob]
    exact fun h ↦ by cases h
  · rw [hjob]
    exact fun h ↦ by cases h
  · rw [hjob]
    exact fun _ h ↦ by cases h
  · rw [hjob]
    exact fun h ↦ by cases h
  · exact create_minds (by rw [hjob]; rfl)
  · intro key _ hg
    exact absurd (by rw [hjob]; trivial) hg.not_over

/-- A handler that finds its room in the cache submits its task. -/
theorem Tended.submitTask (h : w.Tended) (hlistening : (w.memory process).listening = true)
    {origin : Origin} (hjoin : origin.isJoin = false) (hhydration : origin.isHydration = false)
    {room : Nat} (hroom : room < (w.memory process).allocated) :
    ((w.create process origin .settled).roomTask w.created room).Tended := by
  have hjob := create_jobs w process origin .settled
  refine (h.create hlistening (Or.inl rfl)).roomTask ?_ ?_ (Nat.lt_succ_self _) ?_ ?_ ?_ ?_
  · rw [memoryOf, hjob]
    exact hlistening
  · rw [hjob, hjoin]
    exact fun h ↦ by cases h
  · rw [memoryOf, hjob]
    exact hroom
  · rw [hjob]
    exact hhydration
  · rw [hjob]
    exact fun _ h ↦ by cases h
  · intro key _ hg
    exact absurd (by rw [hjob]; trivial) hg.not_over

/-- What a handler tells at once changes nothing of the invariant. -/
theorem Tended.told (h : w.Tended) (j : Nat) (m : Message js) : (w.tell j m).Tended :=
  h.congr rfl rfl rfl rfl

private theorem Tended.submit (h : w.Tended) (hlistening : (w.memory process).listening = true)
    {packet : Packet} (hpacket : ∀ name, packet ≠ .joinRoom name) (roomId : String) :
    (w.submit process (.event socket user packet newId now) socket packet roomId).Tended := by
  have hjoin : (Origin.event socket user packet newId now).isJoin = false := by
    cases packet with
    | joinRoom name => exact absurd rfl (hpacket name)
    | _ => rfl
  unfold World.submit
  dsimp only
  split
  · next room hcached =>
    obtain ⟨name, -, hget⟩ := Option.bind_eq_some_iff.mp hcached
    exact h.submitTask hlistening hjoin rfl ((h.coherent process).cached _ _ hget).1
  · have hcreated : (w.create process (.event socket user packet newId now) .settled).Tended :=
      h.create hlistening (Or.inl rfl)
    unfold absent
    split
    · exact hcreated.told _ _
    · exact hcreated.told _ _
    · exact hcreated

/-- The first join that misses the cache starts a hydration and waits for it. -/
theorem Tended.firstJoin (h : w.Tended) (hlistening : (w.memory process).listening = true)
    {origin : Origin} (hjoin : origin.isJoin = true) (name : String)
    (hydrating : JsMap String Nat) :
    ((((w.setMemory process { w.memory process with hydrating := hydrating }).create process
      (.hydration name) .settled).run w.created (hydrateRoom w.created name)).create process origin
        (.fetching w.created)).Tended := by
  set w' := (((w.setMemory process { w.memory process with hydrating := hydrating }).create process
    (.hydration name) .settled).run w.created (hydrateRoom w.created name)).create process origin
      (.fetching w.created) with hw'
  have hhydration : w'.jobs w.created =
      ⟨⟨w.created, process, .hydration name⟩, none, none,
        .waiting (hydrateRoom w.created name)⟩ := by
    refine (Function.update_of_ne (Nat.ne_of_lt (Nat.lt_succ_self _)) _ _).trans ?_
    refine (Function.update_self _ _ _).trans ?_
    exact congrArg (fun job : Job js ↦ { job with phase := .waiting (hydrateRoom w.created name) })
      (create_jobs (w.setMemory process _) process (.hydration name) .settled)
  have hjob : w'.jobs (w.created + 1) =
      ⟨⟨w.created + 1, process, origin⟩, none, none, .fetching w.created⟩ :=
    Function.update_self _ _ _
  have hmemory : w'.memory process = { w.memory process with hydrating := hydrating } :=
    Function.update_self _ _ _
  have hcreated : w'.created = w.created + 2 := rfl
  refine h.spawn (fun process' ↦ ?_) rfl (Nat.le_add_right _ 2) (fun j hj ↦ ?_)
    fun j hle hlt ↦ ?_
  · rcases eq_or_ne process' process with rfl | hne
    · exact ⟨_, _, hmemory, id⟩
    · exact ⟨_, _, Function.update_of_ne hne _ _, id⟩
  · rw [hcreated] at hj
    have hne : j ≠ w.created := by omega
    have hne' : j ≠ w.created + 1 := by omega
    exact (Function.update_of_ne hne' _ _).trans
      ((Function.update_of_ne hne _ _).trans (Function.update_of_ne hne _ _))
  · rw [hcreated] at hlt
    obtain rfl | rfl : j = w.created ∨ j = w.created + 1 := by omega
    · have hnone : (w'.memory process).hydrated w.created = none := by
        rw [hmemory]
        exact (h.unborn _ (Nat.le_refl _)).2 process
      obtain ⟨hwaits, -, hminds⟩ :
          (hydrateRoom w.created name : RoomCode js).Minds
            (Server.upkeep ⟨w.created, process, .hydration name⟩ (some name))
            (w'.memory process) (w'.memory process) := hydrate_minds rfl hnone
      refine ⟨by rw [hhydration], by rwa [hhydration], ⟨?_, ?_⟩, fun _ _ _ ↦
        ⟨w.created + 1, by rw [hjob, hhydration], by rw [hjob]⟩⟩
      · rw [hhydration]
        exact fun _ h ↦ by cases h
      · rw [upkeep, roomIdOf, memoryOf, hhydration]
        exact ⟨fun h ↦ by (cases h), hwaits, fun a hreturns m' hlater hinv ↦ hminds a hreturns m' hlater hinv⟩
    · refine ⟨by rw [hjob], by rwa [hjob], ⟨?_, ?_⟩, fun roomId horigin ↦ ?_⟩
      · rw [hjob]
        exact fun _ h ↦ by cases h
      · rw [hjob]
        exact hjoin
      · rw [hjob] at horigin
        rw [show origin = .hydration roomId from horigin] at hjoin
        cases hjoin

/-- `join_room` runs up to its first await. -/
theorem Tended.joinRoom (h : w.Tended) (hlistening : (w.memory process).listening = true)
    {origin : Origin} (hjoin : origin.isJoin = true) (roomId : String) :
    (w.joinRoom process origin socket roomId).Tended := by
  unfold World.joinRoom
  dsimp only
  split
  · exact (h.create hlistening (Or.inl rfl)).told _ _
  · split
    · next room hget =>
      exact h.create hlistening
        (Or.inr ⟨hjoin, Or.inr ⟨room, rfl, ((h.coherent process).cached _ _ hget).1⟩⟩)
    · split
      · exact h.create hlistening (Or.inr ⟨hjoin, Or.inl ⟨_, rfl⟩⟩)
      · exact h.firstJoin hlistening hjoin _ _

/-- A handler runs up to its first await. -/
theorem Tended.handle (h : w.Tended) (hlistening : (w.memory process).listening = true)
    {packet : Packet} (hst : w.handle process socket user packet newId now = some w') :
    w'.Tended := by
  cases packet with
  | createRoom roomId =>
    change (if _ then some _ else none) = _ at hst
    split at hst
    · obtain rfl := Option.some.inj hst
      exact h.createRoom hlistening roomId
    · cases hst
  | joinRoom roomId =>
    obtain rfl := Option.some.inj hst
    exact h.joinRoom hlistening rfl roomId
  | requestRematch roomId =>
    have hcreated : (w.create process (.event socket user (.requestRematch roomId) newId now)
        .settled).Tended := h.create hlistening (Or.inl rfl)
    unfold World.handle at hst
    dsimp only at hst
    split at hst
    · split at hst
      · obtain rfl := Option.some.inj hst
        exact hcreated.told _ _
      · obtain rfl := Option.some.inj hst
        exact hcreated
    · obtain rfl := Option.some.inj hst
      exact hcreated
  | _ =>
    obtain rfl := Option.some.inj hst
    exact h.submit hlistening (fun _ hname ↦ by cases hname) _

/-- `disconnect` submits a task on the first room the socket is attached to. -/
theorem Tended.hangUp (h : w.Tended) (hlistening : (w.memory process).listening = true)
    (socket : Nat) : (w.hangUp process socket).Tended := by
  unfold World.hangUp
  split
  · next room hroom =>
    obtain ⟨⟨name, ref⟩, hfind, rfl⟩ := Option.map_eq_some_iff.mp hroom
    have hget := JsMap.get_eq_some.mpr (List.mem_of_find?_eq_some hfind)
    exact h.submitTask hlistening rfl rfl ((h.coherent process).cached _ _ hget).1
  · exact h

/-! ### Sockets and processes -/

/-- A socket that is attached to a process that listens, or to none. -/
theorem Tended.setSocket (h : w.Tended) {s : Nat} {connection : Socket}
    (hconnected : connection.connected = true →
      (w.memory connection.process).listening = true) :
    (w.setSocket s connection).Tended := by
  refine ⟨h.coherent, h.callers, h.unborn, h.jobs, h.awaited, h.debts, h.idle, fun s' other hs ↦ ?_⟩
  change Function.update w.sockets s (some connection) s' = some other at hs
  rcases eq_or_ne s' s with rfl | hne
  · rw [Function.update_self] at hs
    obtain rfl := Option.some.inj hs
    exact hconnected
  · rw [Function.update_of_ne hne] at hs
    exact h.sockets s' other hs

/-- A process that drains owes nothing any more. -/
theorem Tended.sigterm (h : w.Tended) (process : Nat) :
    (w.setMemory process { w.memory process with draining := true }).Tended := by
  refine h.spawn (fun process' ↦ ?_) rfl (Nat.le_refl _) (fun _ _ ↦ rfl) fun j hle hlt ↦
    absurd hlt (Nat.not_lt.mpr hle)
  rcases eq_or_ne process' process with rfl | hne
  · exact ⟨_, true, Function.update_self _ _ _, fun h ↦ by cases h⟩
  · exact ⟨_, _, Function.update_of_ne hne _ _, id⟩

/-- A process changes nothing of the others when it goes or comes back: its functions are over,
and what its memory holds anew is in order. -/
theorem Tended.reset (h : w.Tended) (process : Nat) (hcreated : w'.created = w.created)
    (hmemory : ∀ process' ≠ process, w'.memory process' = w.memory process')
    (hcallers : ∀ j, (w'.jobs j).caller = (w.jobs j).caller)
    (hjobs : ∀ j, (w.jobs j).caller.process ≠ process → w'.jobs j = w.jobs j)
    (hover : ∀ j, (w.jobs j).caller.process = process → (w'.jobs j).phase.Over)
    (hcoherent : (w'.memory process).Coherent)
    (hhydrated : ∀ j, (w'.memory process).hydrated j = none)
    (hlingers : ∀ key, ¬ (w'.memory process).Lingers key)
    (hsockets : ∀ s connection, w'.sockets s = some connection → connection.connected = true →
      (w'.memory connection.process).listening = true) : w'.Tended := by
  have hlives : ∀ j, ¬ (w'.jobs j).phase.Over → (w.jobs j).caller.process ≠ process :=
    fun j hlive heq ↦ hlive (hover j heq)
  have hsame : ∀ j, (w.jobs j).caller.process ≠ process → w'.memoryOf j = w.memoryOf j := by
    intro j hne
    rw [memoryOf, memoryOf, hcallers, hmemory _ hne]
  refine ⟨fun process' ↦ ?_, fun j ↦ by rw [hcallers, h.callers], fun j hj ↦ ?_, fun j ↦ ?_,
    fun hydration roomId horigin hlive ↦ ?_, fun process' hdraining key hkey ↦ ?_,
    fun process' hidle j hprocess ↦ ?_, hsockets⟩
  · rcases eq_or_ne process' process with rfl | hne
    · exact hcoherent
    · rw [hmemory process' hne]
      exact h.coherent process'
  · rw [hcreated] at hj
    obtain ⟨hold, hnone⟩ := h.unborn j hj
    refine ⟨?_, fun process' ↦ ?_⟩
    · by_cases heq : (w.jobs j).caller.process = process
      · exact hover j heq
      · rwa [hjobs j heq]
    · rcases eq_or_ne process' process with rfl | hne
      · exact hhydrated j
      · rw [hmemory process' hne]
        exact hnone process'
  · by_cases heq : (w.jobs j).caller.process = process
    · refine ⟨fun _ _ ↦ Or.inr (hover j heq), ?_⟩
      have hphase := hover j heq
      cases hcase : (w'.jobs j).phase with
      | settled => trivial
      | dead => trivial
      | _ =>
        rw [hcase] at hphase
        exact hphase.elim
    · refine ((h.jobs j).keep (hjobs j heq) ?_ ?_).1
      · rw [hsame j heq]
        exact .refl _
      · rw [hsame j heq]
  · have hne := hlives hydration hlive
    rw [hjobs hydration hne] at horigin hlive
    obtain ⟨j, hprocess, hfetching⟩ := h.awaited hydration roomId horigin hlive
    exact ⟨j, by rw [hcallers, hcallers, hprocess], by rw [hjobs j (hprocess ▸ hne), hfetching]⟩
  · rcases eq_or_ne process' process with rfl | hne
    · exact absurd hkey (hlingers key)
    · rw [hmemory process' hne] at hdraining hkey
      obtain ⟨j, rfl, hg⟩ := h.debts process' hdraining key hkey
      refine ⟨j, by rw [hcallers], hg.keep (h.jobs j) (hjobs j hne) ?_ ?_ ?_⟩
      · rw [hsame j hne]
        exact .refl _
      · rw [hsame j hne]
      · rw [hsame j hne]
        exact fun hydration ref _ _ _ hsome ↦ ⟨hcallers hydration, hsome⟩
  · rw [hcallers] at hprocess
    rcases eq_or_ne process' process with rfl | hne
    · exact hover j hprocess
    · rw [hmemory process' hne] at hidle
      rw [hjobs j (hprocess ▸ hne)]
      exact h.idle process' hidle j hprocess

private theorem Tended.crash (h : w.Tended) (process : Nat) : (w.crash process).Tended := by
  have hempty : (w.crash process).memory process = Memory.empty := Function.update_self _ _ _
  refine h.reset process rfl (fun process' hne ↦ Function.update_of_ne hne _ _) (fun j ↦ ?_)
    (fun j hne ↦ if_neg hne) (fun j heq ↦ ?_) (hempty ▸ Memory.coherent_empty) (fun j ↦ by rw [hempty]; rfl)
    (fun key hkey ↦ ?_) fun s connection hs hconnected ↦ ?_
  · change (ite _ _ _ : Job js).caller = _
    split
    · rfl
    · rfl
  · change (ite _ _ _ : Job js).phase.Over
    rw [if_pos heq]
    trivial
  · rw [hempty] at hkey
    cases hkey.1
  · obtain ⟨old, hold, rfl⟩ := Option.map_eq_some_iff.mp hs
    split at hconnected
    · cases hconnected
    · next hne =>
      rw [if_neg hne, show (w.crash process).memory old.process = w.memory old.process from
        Function.update_of_ne hne _ _]
      exact h.sockets s old hold hconnected

/-- A server that starts has no finished room in its cache. -/
theorem rebuildActiveRooms_run {snapshots : List GameSnapshot} {m m' : Memory js} {d d' : Db}
    (hrun : rebuildActiveRooms m d snapshots = some (m', d'))
    (hlive : ∀ snapshot ∈ snapshots, snapshot.game.status = .inProgress)
    (hcoherent : m.Coherent) (hhydrated : ∀ j, m.hydrated j = none)
    (hlingers : ∀ key, ¬ m.Lingers key) :
    m'.Coherent ∧ (∀ j, m'.hydrated j = none) ∧ (∀ key, ¬ m'.Lingers key) ∧
      m'.listening = true := by
  induction snapshots generalizing m d with
  | nil =>
    obtain ⟨rfl, rfl⟩ := Prod.mk.inj (Option.some.inj hrun)
    exact ⟨⟨hcoherent.cached, hcoherent.hydrated⟩, hhydrated, fun key hkey ↦ hlingers key hkey, rfl⟩
  | cons snapshot snapshots ih =>
    have hlater := fun s hs ↦ hlive s (List.mem_cons_of_mem _ hs)
    unfold rebuildActiveRooms at hrun
    split at hrun
    · next built hbuilt =>
      refine ih hrun hlater (hcoherent.add _) hhydrated fun key hkey ↦ ?_
      obtain ⟨-, hstatus, -⟩ | ⟨hold, -⟩ := hcoherent.lingers_add hkey
      · -- A game in progress is not finished.
        obtain ⟨chess, -, rfl⟩ := Option.map_eq_some_iff.mp hbuilt
        change (if snapshot.game.status = .finished then _ else _) = _ at hstatus
        rw [hlive snapshot List.mem_cons_self, if_neg (fun h ↦ by cases h)] at hstatus
        split at hstatus
        · cases hstatus
        · cases hstatus
      · exact hlingers key hold
    · split at hrun
      · exact ih hrun hlater hcoherent hhydrated hlingers
      · cases hrun

private theorem findRecoverable_inProgress (d : Db) :
    ∀ snapshot ∈ findRecoverable d, snapshot.game.status = .inProgress := by
  intro snapshot hsnapshot
  obtain ⟨row, hrow, rfl⟩ := List.mem_map.mp hsnapshot
  rw [List.mem_insertionSort, List.mem_filter] at hrow
  have hkept := hrow.2
  rw [Bool.and_eq_true, Bool.and_eq_true, beq_iff_eq] at hkept
  exact hkept.1.1

private theorem Tended.restart (h : w.Tended) {process : Nat} {m : Memory js} {d : Db}
    (hidle : (w.memory process).listening = false)
    (hbooted : rebuildActiveRooms .empty w.outside.db (findRecoverable w.outside.db) = some (m, d)) :
    (({ w with outside := { w.outside with db := d } } : World js).setMemory process m).Tended := by
  obtain ⟨hcoherent, hhydrated, hlingers, hlistening⟩ :=
    rebuildActiveRooms_run hbooted (findRecoverable_inProgress _) Memory.coherent_empty (fun _ ↦ rfl)
      fun key hkey ↦ by cases hkey.1
  have hmemory : (({ w with outside := { w.outside with db := d } } : World js).setMemory process
      m).memory process = m := Function.update_self _ _ _
  refine h.reset process rfl (fun process' hne ↦ Function.update_of_ne hne _ _) (fun _ ↦ rfl)
    (fun _ _ ↦ rfl) (fun j heq ↦ h.idle process hidle j heq) ?_ ?_ ?_
    fun s connection hs hconnected ↦ ?_
  · rw [hmemory]
    exact hcoherent
  · rw [hmemory]
    exact hhydrated
  · rw [hmemory]
    exact hlingers
  · by_cases heq : connection.process = process
    · rw [heq, hmemory]
      exact hlistening
    · rw [show World.memory _ connection.process = w.memory connection.process from
        Function.update_of_ne heq _ _]
      exact h.sockets s connection hs hconnected

/-! ### Runs -/

private theorem Tended.start (d : Db) : (World.start d : World js).Tended where
  coherent _ := ⟨fun _ _ h ↦ by (cases h), fun _ _ h ↦ by (cases h)⟩
  callers _ := rfl
  unborn _ _ := ⟨trivial, fun _ ↦ rfl⟩
  jobs _ := ⟨fun _ h ↦ by (cases h), trivial⟩
  awaited _ _ horigin := by cases horigin
  debts _ _ key hkey := by cases hkey.1
  idle _ hidle := by cases hidle
  sockets _ _ hs := by cases hs

/-- Every step that meets the condition keeps somebody at every finished room that lingers. -/
theorem Tended.step (hstart : (js.load startFen).isSome) (h : w.Tended) {l : Label}
    (htidy : w.Tidy l) (hst : w.next D l = some w') : w'.Tended := by
  cases l with
  | connect s process user =>
    change (if _ then some _ else none) = _ at hst
    split at hst
    · next hconnects =>
      obtain rfl := Option.some.inj hst
      exact h.setSocket fun _ ↦ hconnects.2.1
    · cases hst
  | packet s packet newId now =>
    obtain ⟨connection, hs, hst⟩ := Option.bind_eq_some_iff.mp hst
    split at hst
    · next hconnected => exact h.handle (h.sockets s connection hs hconnected) hst
    · cases hst
  | disconnect s =>
    obtain ⟨connection, hs, hst⟩ := Option.bind_eq_some_iff.mp hst
    split at hst
    · next hconnected =>
      obtain rfl := Option.some.inj hst
      exact (h.setSocket fun hlost ↦ by cases hlost).hangUp (h.sockets s connection hs hconnected) s
    · cases hst
  | proceed j => exact h.proceed htidy hst
  | perform j reply => exact h.perform hstart htidy hst
  | evaporate store gameId =>
    obtain rfl := Option.some.inj hst
    exact h.congr rfl rfl rfl rfl
  | sigterm process =>
    obtain rfl := Option.some.inj hst
    exact h.sigterm process
  | drain process budget =>
    change (if _ then some _ else none) = _ at hst
    split at hst
    · obtain rfl := Option.some.inj hst
      exact h.congr rfl rfl rfl rfl
    · cases hst
  | drained process =>
    obtain ⟨drain, -, hst⟩ := Option.bind_eq_some_iff.mp hst
    split at hst
    · obtain rfl := Option.some.inj hst
      exact h.congr rfl rfl rfl rfl
    · cases hst
  | timeout process =>
    obtain ⟨drain, -, hst⟩ := Option.bind_eq_some_iff.mp hst
    split at hst
    · obtain rfl := Option.some.inj hst
      exact h.congr rfl rfl rfl rfl
    · cases hst
  | crash process =>
    obtain rfl := Option.some.inj hst
    refine Tended.crash ?_ process
    unfold World.loseVotes
    split
    · exact h
    · exact h.congr rfl rfl rfl rfl
  | restart process =>
    change (if _ then none else _) = _ at hst
    split at hst
    · cases hst
    · next hidle =>
      obtain ⟨⟨m, d⟩, hbooted, rfl⟩ := Option.map_eq_some_iff.mp hst
      exact h.restart (Bool.eq_false_iff.mpr hidle) hbooted

end World

/-- In every run that meets the condition somebody is at every finished room that lingers. -/
theorem tended_invariant (hstart : (js.load startFen).isSome) :
    ((processes js D).restrict World.Tidy).Invariant World.Tended where
  init w h := by
    obtain ⟨d, -, rfl⟩ := h
    exact World.Tended.start d
  step w l w' h hst := h.step hstart hst.1 hst.2

/-! ### Runs to look at -/

/-- No finished room lingers in the cache. -/
def Memory.clear (m : Memory js) : Bool :=
  m.activeRooms.entries.all fun e ↦ !((m.objects e.2).status == .finished && (m.objects e.2).socketless)

/-- The memory after the first store of a turn. -/
def stored : RoomCode js → Memory js → Option (Memory js)
  | .look k, m => stored (k m) m
  | .store f _, m => some (f m)
  | _, _ => none

private theorem not_lingers_of_clear {m : Memory js} (h : m.clear = true) (key : String × Nat) :
    ¬ m.Lingers key := by
  rintro ⟨hget, hstatus, hless⟩
  have hentry := List.all_eq_true.mp h key (JsMap.get_eq_some.mp hget)
  rw [hstatus, hless] at hentry
  cases hentry

private theorem objects_modify_self (m : Memory js) (ref : Nat)
    (f : RoomObject js → RoomObject js) :
    (m.modify ref f).objects ref = f (m.objects ref) := Function.update_self _ _ _

private theorem updateFirst_of_none {α : Type} {p : α → Bool} {f : α → α} {l : List α}
    (h : l.any p = false) : updateFirst p f l = l := by
  induction l with
  | nil => rfl
  | cons a l ih =>
    rw [List.any_cons, Bool.or_eq_false_iff] at h
    rw [updateFirst, h.1, if_neg Bool.false_ne_true, ih h.2]

/-- A turn is admitted that leaves no finished room behind with its first store. -/
theorem admits_of_clear {origin : Origin} {m : Memory js} {c : RoomCode js} (hclear : m.clear = true)
    (hstored : (stored c m).all Memory.clear = true) : Admits origin m c where
  inserts _ room roomId next snapshot built hc hsnapshot hbuilt hfinished := by
    have hafter : afterSnapshot room roomId next (some (some snapshot)) = .look fun m ↦
        .store (·.add ((m.current roomId room).rebuilt roomId built)) (tick (next (some m.allocated))) := by
      unfold afterSnapshot
      dsimp only
      rw [Option.filter_some, if_pos hsnapshot]
      dsimp only
      rw [hbuilt]
    rw [hc, hafter] at hstored
    by_contra hless
    refine not_lingers_of_clear hstored (roomId, m.allocated) ⟨?_, ?_, ?_⟩
    · rw [Memory.get_add]
      exact if_pos rfl
    · rw [Memory.objects_add_self]
      exact hfinished
    · rw [Memory.objects_add_self]
      exact Bool.not_eq_false _ ▸ hless
  ends live result winner finalized hc hsettled hget := by
    rw [hc, announce, if_pos hsettled] at hstored
    by_contra hless
    refine not_lingers_of_clear hstored ((m.objects live).id, live) ⟨hget, ?_, ?_⟩
    · rw [objects_modify_self]
    · rw [objects_modify_self]
      exact Bool.not_eq_false _ ▸ hless
  leaves socket room hc hget hfinished := by
    rw [hc] at hstored
    by_contra hless
    rw [Bool.not_eq_false] at hless
    change (stored (ite _ _ _) m).all _ = true at hstored
    split at hstored
    · refine not_lingers_of_clear hstored ((m.objects room).id, room) ⟨hget, ?_, ?_⟩
      · rw [objects_modify_self]
        exact hfinished
      · rw [objects_modify_self]
        exact hless
    · next hattached =>
      have hsame : (m.objects room).detach socket = m.objects room := by
        rw [RoomObject.detach, updateFirst_of_none (Bool.eq_false_iff.mpr hattached)]
      rw [hsame] at hless
      exact not_lingers_of_clear hclear ((m.objects room).id, room) ⟨hget, hfinished, hless⟩

/-- A step before which no finished room lingers, nor after the first store of its turn. -/
def World.clearly (w : World js) : World.Label → Bool
  | .proceed j => (w.memoryOf j).clear && match (w.jobs j).phase with
    | .turn c => (stored c (w.memoryOf j)).all Memory.clear
    | _ => true
  | .perform j _ => (w.memoryOf j).clear
  | _ => true

private theorem tidy_of_clearly {w : World js} {l : World.Label} (h : w.clearly l = true) :
    w.Tidy l := by
  cases l with
  | proceed j =>
    intro c hphase
    obtain ⟨hclear, hturn⟩ := Bool.and_eq_true_iff.mp h
    rw [hphase] at hturn
    exact admits_of_clear hclear hturn
  | perform j reply => exact fun _ _ _ _ _ _ ↦ not_lingers_of_clear h _
  | _ => trivial

/-- A phase says whether the function is over. -/
instance (phase : Phase js) : Decidable phase.Over :=
  match phase with
  | .settled | .dead => .isTrue trivial
  | .fetched _ | .fetching _ | .queued | .waiting _ | .turn _ | .caught _ _ => .isFalse id

/-- Where all functions of the process have come to their end, none is left for a room. -/
theorem quiet_of_over {w : World js} {process : Nat}
    (h : ∀ j, (w.jobs j).caller.process = process → (w.jobs j).phase.Over) (roomId : String) :
    w.Quiet process roomId := by
  intro j hprocess hbusy
  have hover := h j hprocess
  unfold World.Busy at hbusy
  cases hphase : (w.jobs j).phase with
  | settled =>
    rw [hphase] at hbusy
    exact hbusy
  | dead =>
    rw [hphase] at hbusy
    exact hbusy
  | _ =>
    rw [hphase] at hover
    exact hover

/-- A turn changes no other function. -/
theorem proceed_jobs {w w' : World js} {j : Nat} {c : RoomCode js}
    (hphase : (w.jobs j).phase = .turn c) (hst : w.proceed D j = some w') :
    w'.created = w.created ∧ ∀ j' ≠ j, w'.jobs j' = w.jobs j' := by
  unfold World.proceed at hst
  dsimp only at hst
  rw [hphase] at hst
  obtain rfl := Option.some.inj hst
  obtain ⟨log, phase, heq, -⟩ := World.rest_cases (c.exec (World.host (w.jobs j).caller) w).1 j
    (c.exec (World.host (w.jobs j).caller) w).2 (Code.exec_rests _ c w)
  have hin := World.exec_inside (w.jobs j).caller c w
  rw [World.run, heq]
  exact ⟨hin.created, fun j' hne ↦
    (Function.update_of_ne hne _ _).trans (congrFun hin.jobs j')⟩

/-- The processes of the evaluated runs. -/
def twoPlayers : Deployment := ⟨equalRatings, [ada, ben], .localBackend⟩

/-- A function waits, gets its answer and goes on, this many times. -/
def turns (j n : Nat) : List World.Label :=
  (List.replicate n [World.Label.perform j (.arrives []), .proceed j]).flatten

/-- Both play a move, and White leaves the room, which ends the game. -/
def whiteLeaves : List World.Label :=
  [World.Label.connect 1 0 ada, .connect 2 0 ben, .packet 1 (.createRoom "ABCDEFG") 1 0] ++
    turns 0 1 ++ [World.Label.packet 2 (.joinRoom "ABCDEFG") 0 0, .proceed 1, .proceed 1] ++
    turns 1 4 ++
    [World.Label.packet 1 (.makeMove "ABCDEFG" (moveRequest "f2" "f3")) 0 60000, .proceed 2] ++
    turns 2 3 ++ [World.Label.packet 1 (.leaveRoom "ABCDEFG") 0 60000, .proceed 3] ++ turns 3 4

/-- Black leaves too, and the snapshot query of the refresh fails. -/
def blackLeaves : List World.Label :=
  [.packet 2 (.leaveRoom "ABCDEFG") 0 60000, .proceed 4, .perform 4 .fails, .proceed 4,
    .perform 4 (.arrives [])]

/-- A step that leaves nothing behind. -/
def nextClearly (w : World reference) (l : World.Label) : Option (World reference) :=
  if w.clearly l then w.next twoPlayers l else none

/-- All functions so far have come to their end, and a finished room is in the cache. -/
def rests (w : World reference) : Bool :=
  !(w.memory 0).draining && (List.range w.created).all (fun j ↦ decide (w.jobs j).phase.Over) &&
    (w.memory 0).activeRooms.get "ABCDEFG" == some 3 && ((w.memory 0).objects 3).status == .finished

private theorem leaves_run : ((whiteLeaves.foldlM nextClearly (World.start twoUsers)).any fun w ↦ rests w &&
    (blackLeaves.foldlM nextClearly w).any fun w' ↦
      (match (w'.jobs 4).phase with
        | .turn _ => true
        | _ => false) &&
      (w'.next twoPlayers (.proceed 4)).any fun w'' ↦ rests w'' &&
        ((w''.memory 0).objects 3).socketless) = true := by
  decide +kernel

/-- What `rests` says. -/
theorem rests_iff {w : World reference} (h : rests w = true) :
    (w.memory 0).draining = false ∧ (∀ j < w.created, (w.jobs j).phase.Over) ∧
      (w.memory 0).activeRooms.get "ABCDEFG" = some 3 ∧ ((w.memory 0).objects 3).status = .finished := by
  rw [rests, Bool.and_eq_true, Bool.and_eq_true, Bool.and_eq_true, beq_iff_eq, beq_iff_eq,
    Bool.not_eq_true'] at h
  obtain ⟨⟨⟨hdraining, hover⟩, hcached⟩, hfinished⟩ := h
  exact ⟨hdraining, fun j hj ↦ of_decide_eq_true (List.all_eq_true.mp hover j (List.mem_range.mpr hj)),
    hcached, hfinished⟩

private theorem nextClearly_step {w w' : World reference} {l : World.Label}
    (h : nextClearly w l = some w') :
    ((processes reference twoPlayers).restrict World.Tidy).step w l w' := by
  rw [nextClearly] at h
  split at h
  · next hclearly => exact ⟨tidy_of_clearly hclearly, h⟩
  · cases h

private theorem start_reachable : ((processes reference twoPlayers).restrict World.Tidy).Reachable
    (World.start twoUsers) := .init ⟨twoUsers, fresh_twoUsers, rfl⟩

private theorem reference_starts : (reference.load startFen).isSome := by decide +kernel

/-- No finished room lingers in a cache: when a process that does not drain has no function left
for a room id, a finished room that is cached under it has a player with a socket. -/
theorem no_room_lingers (hstart : (js.load startFen).isSome) {w : World js}
    (hw : ((processes js D).restrict World.Tidy).Reachable w) {process : Nat} {roomId : String}
    {ref : Nat} (hdraining : (w.memory process).draining = false) (hquiet : w.Quiet process roomId)
    (hcached : (w.memory process).activeRooms.get roomId = some ref)
    (hfinished : ((w.memory process).objects ref).status = .finished) :
    ∃ seat ∈ ((w.memory process).objects ref).players, seat.id ≠ none := by
  by_contra hnone
  have hless : ((w.memory process).objects ref).socketless = true :=
    List.all_eq_true.mpr fun seat hseat ↦
      Option.isNone_iff_eq_none.mpr (by_contra fun hne ↦ hnone ⟨seat, hseat, hne⟩)
  obtain ⟨j, hprocess, hg⟩ := ((tended_invariant hstart).reachable hw).debts process hdraining
    (roomId, ref) ⟨hcached, hfinished, hless⟩
  exact hquiet j hprocess hg.busy

/-- White has left the finished room, and Black has not. -/
theorem no_room_lingers_leave : ∃ w : World reference,
    ((processes reference twoPlayers).restrict World.Tidy).Reachable w ∧
      (w.memory 0).activeRooms.get "ABCDEFG" = some 3 ∧
      ((w.memory 0).objects 3).status = .finished ∧
      ∃ seat ∈ ((w.memory 0).objects 3).players, seat.id ≠ none := by
  obtain ⟨w, hw, hfacts⟩ := (Option.any_eq_true _ _).mp leaves_run
  obtain ⟨hdraining, hover, hcached, hfinished⟩ := rests_iff (Bool.and_eq_true_iff.mp hfacts).1
  have hreach := start_reachable.foldlM (fun _ _ _ ↦ nextClearly_step) hw
  have htended := (tended_invariant reference_starts).reachable hreach
  refine ⟨w, hreach, hcached, hfinished,
    no_room_lingers reference_starts hreach hdraining (quiet_of_over (fun j _ ↦ ?_) _) hcached
      hfinished⟩
  by_contra hlive
  exact hlive (hover j (htended.born hlive))

/-- Black has left the room too, but its refresh had failed: the finished room stays in the cache
without a socket, and no function is left for it. -/
theorem room_lingers_leave : ¬ ∀ w : World reference,
    (processes reference twoPlayers).Reachable w → ∀ process roomId ref,
      (w.memory process).draining = false → w.Quiet process roomId →
      (w.memory process).activeRooms.get roomId = some ref →
      ((w.memory process).objects ref).status = .finished →
      ∃ seat ∈ ((w.memory process).objects ref).players, seat.id ≠ none := by
  intro hall
  obtain ⟨w, hw, hfacts⟩ := (Option.any_eq_true _ _).mp leaves_run
  obtain ⟨w', hw', hfacts⟩ := (Option.any_eq_true _ _).mp (Bool.and_eq_true_iff.mp hfacts).2
  obtain ⟨hturn, hlast⟩ := Bool.and_eq_true_iff.mp hfacts
  obtain ⟨w'', hw'', hfacts⟩ := (Option.any_eq_true _ _).mp hlast
  obtain ⟨hrests, hless⟩ := Bool.and_eq_true_iff.mp hfacts
  obtain ⟨hdraining, hover, hcached, hfinished⟩ := rests_iff hrests
  have hreach := (start_reachable.foldlM (fun _ _ _ ↦ nextClearly_step) hw).foldlM
    (fun _ _ _ ↦ nextClearly_step) hw'
  have htended := (tended_invariant reference_starts).reachable hreach
  obtain ⟨c, hphase⟩ : ∃ c, (w'.jobs 4).phase = .turn c := by
    split at hturn
    · next c hphase => exact ⟨c, hphase⟩
    · cases hturn
  have hborn : 4 < w'.created := htended.born (by rw [hphase]; exact id)
  obtain ⟨hcreated, hjobs⟩ := proceed_jobs hphase hw''
  have hquiet : w''.Quiet 0 "ABCDEFG" := by
    refine quiet_of_over (fun j _ ↦ ?_) _
    by_cases hj : j < w'.created
    · exact hover j (hcreated ▸ hj)
    · rw [hjobs j (by omega)]
      exact (htended.unborn j (Nat.le_of_not_lt hj)).1
  obtain ⟨seat, hseat, hid⟩ := hall w'' (hreach.of_restrict.step hw'') 0 "ABCDEFG" 3 hdraining hquiet
    hcached hfinished
  exact hid (Option.isNone_iff_eq_none.mp (List.all_eq_true.mp hless seat hseat))

end ChessStack.Server
