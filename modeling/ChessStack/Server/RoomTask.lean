import ChessStack.Library.Machine
import ChessStack.Library.Promise

/-!
# The tasks of a room

Library `Server`. `roomTask` of `Chess-Backend/src/socket/gameSocket.js:65–77` on the promises of one
room. Each task is chained to the tail `room.operation`, and the tail is replaced by a promise that
never rejects. Submissions come at any time, also from inside a task; a task settles at any time
after it has started; draining begins at any time.
-/

namespace ChessStack.Server.RoomTask

open ChessStack.Library

variable {Error : Type}

/-- What the room chains to its promises: the task of a submission, or the handler of `run.catch`. -/
inductive Handler where
  | task (i : Nat)
  | logFailure

/-- What happens to the submissions, which are numbered in their order. -/
inductive Entry (Error : Type) where
  /-- The task is chained, and its submitter holds promise `p`. -/
  | admitted (i p : Nat)
  /-- The submitter holds a promise rejected with `ShutdownDrainError`. -/
  | refused (i : Nat)
  | started (i : Nat)
  | settled (i : Nat) (result : Settlement Error)
  /-- `logger.error` and the failure metric. -/
  | logged (e : Error)
  deriving DecidableEq

/-- A room with its promises, the started tasks with the promises they settle, and the history. -/
structure Room (Error : Type) where
  heap : Heap Handler Error
  operation : Nat
  draining : Bool
  running : List (Nat × Nat)
  submitted : Nat
  log : List (Entry Error)

/-- A room whose `operation` is `Promise.resolve()`. -/
def Room.initial : Room Error where
  heap := ⟨fun p ↦ if p = 0 then some .fulfilled else none, fun _ ↦ [], [], 1⟩
  operation := 0
  draining := false
  running := []
  submitted := 0
  log := []

/-- `roomTask(room, task)` for the next task. -/
def roomTask (room : Room Error) : Room Error :=
  let i := room.submitted
  if room.draining then { room with submitted := i + 1, log := room.log ++ [.refused i] }
  else
    let run := room.heap.next
    let heap := room.heap.chain room.operation (.task i)
    { room with
      heap := heap.chain run .logFailure
      operation := heap.next
      submitted := i + 1
      log := room.log ++ [.admitted i run] }

/-- What the handler of `run.catch` logs. -/
def logged : Settlement Error → List (Entry Error)
  | .fulfilled => []
  | .rejected e => [.logged e]

/-- The event loop runs the first job. A task runs until it settles; a rejected run is logged and its
tail fulfilled, a fulfilled one passes through `catch`. -/
def runJob (room : Room Error) : Option (Room Error) :=
  match room.heap.queue with
  | [] => none
  | job :: rest =>
    let heap := { room.heap with queue := rest }
    match job.handler with
    | .task i => some { room with
        heap := heap
        running := room.running ++ [(i, job.derived)]
        log := room.log ++ [.started i] }
    | .logFailure => some { room with
        heap := heap.settle job.derived .fulfilled
        log := room.log ++ logged job.result }

/-- A started task returns, throws or rejects. -/
def settleTask (room : Room Error) (i : Nat) (result : Settlement Error) : Option (Room Error) :=
  (room.running.find? fun x ↦ x.1 == i).map fun x ↦ { room with
    heap := room.heap.settle x.2 result
    running := room.running.filter fun x ↦ x.1 != i
    log := room.log ++ [.settled i result] }

/-- A task is submitted, draining begins, a job of the event loop runs, or a task settles. -/
inductive Event (Error : Type) where
  | submit
  | drain
  | job
  | settle (i : Nat) (result : Settlement Error)

/-- The room after an event. -/
def step (room : Room Error) : Event Error → Option (Room Error)
  | .submit => some (roomTask room)
  | .drain => some { room with draining := true }
  | .job => runJob room
  | .settle i result => settleTask room i result

/-- The runs of a room. -/
def machine : Machine (Room Error) (Event Error) := .ofStep .initial step

/-! ### The chain -/

/-- Where the first task that has not been passed is. -/
inductive Phase (Error : Type) where
  /-- There is none. -/
  | idle
  | queued (i : Nat)
  | running (i : Nat)
  | settled (i : Nat) (result : Settlement Error)

namespace Phase

/-- The task the phase is about. -/
def task : Phase Error → Option Nat
  | .idle => none
  | .queued i | .running i | .settled i _ => some i

/-- The jobs of the phase, for the task chained at place `m`. -/
def queue (m : Nat) : Phase Error → List (Job Handler Error)
  | .idle | .running _ => []
  | .queued i => [⟨.task i, .fulfilled, 2 * m + 1⟩]
  | .settled _ result => [⟨.logFailure, result, 2 * m + 2⟩]

/-- The task that runs, with its promise. -/
def tasks (m : Nat) : Phase Error → List (Nat × Nat)
  | .running i => [(i, 2 * m + 1)]
  | _ => []

/-- How the promise of the task has settled. -/
def run : Phase Error → Option (Settlement Error)
  | .settled _ result => some result
  | _ => none

/-- What waits for it. -/
def waits (m : Nat) : Phase Error → List (Reaction Handler)
  | .queued _ | .running _ => [⟨.logFailure, 2 * m + 2⟩]
  | _ => []

/-- The tasks that have started, and those that have settled, of the first `m + 1`. -/
def started (m : Nat) : Phase Error → Nat
  | .idle | .queued _ => m
  | .running _ | .settled _ _ => m + 1

/-- How many of the admitted tasks have settled. -/
def settledCount (m : Nat) : Phase Error → Nat
  | .idle | .queued _ | .running _ => m
  | .settled _ _ => m + 1

/-- The phase once the task before place `m` has been passed. -/
def next (tasks : List Nat) (m : Nat) : Phase Error :=
  match tasks[m]? with
  | none => .idle
  | some i => .queued i

section

variable (tasks : List Nat) (m : Nat)

@[simp] private theorem task_next : (next tasks m : Phase Error).task = tasks[m]? := by
  cases h : tasks[m]? <;> simp [next, h, task]

@[simp] private theorem queue_next : (next tasks m : Phase Error).queue m =
    tasks[m]?.toList.map fun i ↦ ⟨.task i, .fulfilled, 2 * m + 1⟩ := by
  cases h : tasks[m]? <;> simp [next, h, queue]

@[simp] private theorem tasks_next : (next tasks m : Phase Error).tasks m = [] := by
  cases h : tasks[m]? <;> simp [next, h, Phase.tasks]

@[simp] private theorem run_next : (next tasks m : Phase Error).run = none := by
  cases h : tasks[m]? <;> simp [next, h, run]

@[simp] private theorem waits_next : (next tasks m : Phase Error).waits m =
    if m < tasks.length then [⟨.logFailure, 2 * m + 2⟩] else [] := by
  by_cases h : m < tasks.length <;> simp [next, waits, h]

@[simp] private theorem started_next : (next tasks m : Phase Error).started m = m := by
  cases h : tasks[m]? <;> simp [next, h, started]

@[simp] private theorem settledCount_next : (next tasks m : Phase Error).settledCount m = m := by
  cases h : tasks[m]? <;> simp [next, h, settledCount]

end

end Phase

/-- The promises of the admitted tasks: the task at place `k` has the promise `2 * k + 1` and the tail
`2 * k + 2`, chained to the tail before it. The first `m` tasks have been passed. -/
structure Chain (room : Room Error) (tasks : List Nat) (m : Nat) (phase : Phase Error) : Prop where
  next : room.heap.next = 2 * tasks.length + 1
  operation : room.operation = 2 * tasks.length
  within : m ≤ tasks.length
  head : tasks[m]? = phase.task
  queue : room.heap.queue = phase.queue m
  running : room.running = phase.tasks m
  headRun : room.heap.status (2 * m + 1) = phase.run
  headWaits : room.heap.reactions (2 * m + 1) = phase.waits m
  passedTail : ∀ k, k ≤ m → room.heap.status (2 * k) = some .fulfilled
  laterTail : ∀ k, m < k → room.heap.status (2 * k) = none ∧
    room.heap.reactions (2 * k) = tasks[k]?.toList.map fun i ↦ ⟨.task i, 2 * k + 1⟩
  laterRun : ∀ k, m < k → room.heap.status (2 * k + 1) = none ∧
    room.heap.reactions (2 * k + 1) = if k < tasks.length then [⟨.logFailure, 2 * k + 2⟩] else []

private theorem chain_initial : Chain (Room.initial : Room Error) [] 0 .idle where
  next := rfl
  operation := rfl
  within := Nat.le_refl 0
  head := rfl
  queue := rfl
  running := rfl
  headRun := rfl
  headWaits := rfl
  passedTail k hk := by
    obtain rfl := Nat.le_zero.mp hk
    rfl
  laterTail k hk := ⟨if_neg (by omega), rfl⟩
  laterRun k hk := by simp [Room.initial]

section

variable {room : Room Error} {tasks : List Nat} {m : Nat} {phase : Phase Error}

/-- The promise a submission gets is pending, and nothing waits for it. -/
theorem Chain.fresh (h : Chain room tasks m phase) :
    room.heap.status (2 * tasks.length + 1) = none ∧
      room.heap.reactions (2 * tasks.length + 1) = [] := by
  obtain hm | hm := Nat.lt_or_eq_of_le h.within
  · obtain ⟨hstatus, hreactions⟩ := h.laterRun tasks.length hm
    exact ⟨hstatus, hreactions.trans (if_neg (Nat.lt_irrefl _))⟩
  · have hnone : phase.task = none := by rw [← h.head, hm]; simp
    have hidle : phase = .idle := by cases phase <;> first | rfl | cases hnone
    subst hidle
    rw [← hm]
    exact ⟨h.headRun, h.headWaits⟩

private theorem roomTask_of_open (hopen : room.draining = false) : roomTask room = { room with
      heap := (room.heap.chain room.operation (.task room.submitted)).chain room.heap.next .logFailure
      operation := room.heap.next + 1
      submitted := room.submitted + 1
      log := room.log ++ [.admitted room.submitted room.heap.next] } := by
  simp [roomTask, hopen]

/-- A submission to a room with no task before it is queued at once. -/
theorem Chain.submit_idle (h : Chain room tasks m .idle) (hm : m = tasks.length)
    (hopen : room.draining = false) :
    Chain (roomTask room) (tasks ++ [room.submitted]) m (.queued room.submitted) := by
  obtain ⟨hstatus, hreactions⟩ := h.fresh
  have htail : room.heap.status room.operation = some .fulfilled := by
    rw [h.operation, ← hm]
    exact h.passedTail m (Nat.le_refl _)
  rw [roomTask_of_open hopen, Heap.chain_of_settled htail, Heap.chain_of_pending (by rwa [h.next])]
  subst hm
  simp only [h.next]
  exact {
    next := by simp only [List.length_append, List.length_singleton]; omega
    operation := by simp only [List.length_append, List.length_singleton]; omega
    within := by simp
    head := by simp [Phase.task]
    queue := by simp [h.queue, Phase.queue]
    running := h.running
    headRun := h.headRun
    headWaits := by simp [hreactions, Phase.waits]
    passedTail := h.passedTail
    laterTail := fun k hk ↦ by
      obtain ⟨hs, hr⟩ := h.laterTail k hk
      refine ⟨hs, (Function.update_of_ne (by omega) _ _).trans ?_⟩
      rw [hr, List.getElem?_eq_none (by omega), List.getElem?_eq_none (by simp; omega)]
    laterRun := fun k hk ↦ by
      obtain ⟨hs, hr⟩ := h.laterRun k hk
      refine ⟨hs, (Function.update_of_ne (by omega) _ _).trans ?_⟩
      rw [hr, if_neg (by omega), if_neg (by simp; omega)] }

/-- A submission behind a pending task waits for its tail. -/
theorem Chain.submit_behind (h : Chain room tasks m phase) (hm : m < tasks.length)
    (hopen : room.draining = false) :
    Chain (roomTask room) (tasks ++ [room.submitted]) m phase := by
  obtain ⟨hstatus, hreactions⟩ := h.fresh
  obtain ⟨hpending, hwaits⟩ := h.laterTail tasks.length hm
  rw [List.getElem?_eq_none (Nat.le_refl _)] at hwaits
  have htail : room.heap.status room.operation = none := by rwa [h.operation]
  rw [roomTask_of_open hopen, Heap.chain_of_pending htail,
    Heap.chain_of_pending (by rwa [h.next])]
  simp only [h.next, h.operation]
  exact {
    next := by simp only [List.length_append, List.length_singleton]; omega
    operation := by simp only [List.length_append, List.length_singleton]; omega
    within := by simp only [List.length_append]; omega
    head := by rw [List.getElem?_append_left hm]; exact h.head
    queue := h.queue
    running := h.running
    headRun := h.headRun
    headWaits := (Function.update_of_ne (by omega) _ _).trans <|
      (Function.update_of_ne (by omega) _ _).trans h.headWaits
    passedTail := h.passedTail
    laterTail := fun k hk ↦ by
      obtain ⟨hs, hr⟩ := h.laterTail k hk
      refine ⟨hs, (Function.update_of_ne (by omega) _ _).trans ?_⟩
      by_cases hk' : k = tasks.length
      · subst hk'
        simp [hwaits]
      · rw [Function.update_of_ne (by omega), hr]
        obtain hlt | hgt := Nat.lt_or_gt_of_ne hk'
        · rw [List.getElem?_append_left hlt]
        · rw [List.getElem?_eq_none (by omega), List.getElem?_eq_none (by simp; omega)]
    laterRun := fun k hk ↦ by
      obtain ⟨hs, hr⟩ := h.laterRun k hk
      refine ⟨hs, ?_⟩
      by_cases hk' : k = tasks.length
      · subst hk'
        simp [hreactions]
      · refine (Function.update_of_ne (by omega) _ _).trans <|
          (Function.update_of_ne (by omega) _ _).trans (hr.trans ?_)
        simp only [List.length_append, List.length_singleton]
        by_cases hlt : k < tasks.length
        · rw [if_pos hlt, if_pos (by omega)]
        · rw [if_neg hlt, if_neg (by omega)] }

/-- The event loop starts the queued task. -/
theorem Chain.start {i : Nat} {room' : Room Error} (h : Chain room tasks m (.queued i))
    (hjob : runJob room = some room') :
    Chain room' tasks m (.running i) ∧ room'.log = room.log ++ [.started i] ∧
      room'.heap.status = room.heap.status ∧ room'.submitted = room.submitted := by
  simp only [runJob, h.queue, Phase.queue] at hjob
  obtain rfl := Option.some.inj hjob
  refine ⟨{ h with queue := rfl, running := ?_, headRun := ?_, headWaits := ?_, head := ?_ },
    rfl, rfl, rfl⟩
  · exact h.head
  · simp [h.running, Phase.tasks]
  · exact h.headRun
  · exact h.headWaits

/-- Only the head runs, and its failure queues the handler of its tail. -/
theorem Chain.settle {j : Nat} {result : Settlement Error} {room' : Room Error}
    (h : Chain room tasks m phase) (hsettle : settleTask room j result = some room') :
    phase = .running j ∧ Chain room' tasks m (.settled j result) ∧
      room'.log = room.log ++ [.settled j result] ∧
      room'.heap.status = Function.update room.heap.status (2 * m + 1) (some result) ∧
      room'.submitted = room.submitted := by
  obtain ⟨x, hfind, rfl⟩ := Option.map_eq_some_iff.mp hsettle
  have hmem := List.mem_of_find?_eq_some hfind
  have hid : x.1 = j := by simpa using List.find?_some hfind
  rw [h.running] at hmem
  cases phase with
  | running i =>
    obtain rfl := List.mem_singleton.mp hmem
    obtain rfl : i = j := hid
    have hpending : room.heap.status (2 * m + 1) = none := h.headRun
    have hwaits : room.heap.reactions (2 * m + 1) = [⟨.logFailure, 2 * m + 2⟩] := h.headWaits
    rw [Heap.settle_of_pending hpending]
    refine ⟨rfl, ?_, rfl, rfl, rfl⟩
    exact {
      next := h.next
      operation := h.operation
      within := h.within
      head := h.head
      queue := by simp [h.queue, hwaits, Phase.queue]
      running := by simp [h.running, Phase.tasks]
      headRun := by simp [Phase.run]
      headWaits := by simp [Phase.waits]
      passedTail := fun k hk ↦
        (Function.update_of_ne (by omega) _ _).trans (h.passedTail k hk)
      laterTail := fun k hk ↦ ⟨(Function.update_of_ne (by omega) _ _).trans (h.laterTail k hk).1,
        (Function.update_of_ne (by omega) _ _).trans (h.laterTail k hk).2⟩
      laterRun := fun k hk ↦ ⟨(Function.update_of_ne (by omega) _ _).trans (h.laterRun k hk).1,
        (Function.update_of_ne (by omega) _ _).trans (h.laterRun k hk).2⟩ }
  | _ => cases hmem

/-- The handler of `run.catch` fulfills the tail, whether or not the task failed, and the next task is
queued. -/
theorem Chain.pass {i : Nat} {result : Settlement Error} {room' : Room Error}
    (h : Chain room tasks m (.settled i result)) (hjob : runJob room = some room') :
    Chain room' tasks (m + 1) (.next tasks (m + 1)) ∧
      room'.log = room.log ++ logged result ∧
      room'.heap.status = Function.update room.heap.status (2 * m + 2) (some .fulfilled) ∧
      room'.submitted = room.submitted := by
  have hhead : m < tasks.length := by
    by_contra hle
    have hnone := h.head
    rw [List.getElem?_eq_none (by omega)] at hnone
    cases hnone
  obtain ⟨hpending, hwaits⟩ := h.laterTail (m + 1) (by omega)
  obtain ⟨hrun, hcatch⟩ := h.laterRun (m + 1) (by omega)
  simp only [runJob, h.queue, Phase.queue] at hjob
  have htail : ({ room.heap with queue := [] } : Heap Handler Error).status (2 * m + 2) = none :=
    hpending
  rw [Heap.settle_of_pending htail] at hjob
  obtain rfl := Option.some.inj hjob
  refine ⟨?_, rfl, rfl, rfl⟩
  exact {
    next := h.next
    operation := h.operation
    within := hhead
    head := (Phase.task_next tasks (m + 1)).symm
    queue := by
      rw [show 2 * (m + 1) = 2 * m + 2 by omega] at hwaits
      simp [hwaits, show 2 * (m + 1) = 2 * m + 2 by omega]
    running := h.running.trans (Phase.tasks_next tasks (m + 1)).symm
    headRun := by
      rw [Phase.run_next]
      exact (Function.update_of_ne (by omega) _ _).trans hrun
    headWaits := by
      rw [Phase.waits_next]
      exact (Function.update_of_ne (by omega) _ _).trans hcatch
    passedTail := fun k hk ↦ by
      by_cases hk' : k = m + 1
      · subst hk'
        exact Function.update_self _ _ _
      · exact (Function.update_of_ne (by omega) _ _).trans (h.passedTail k (by omega))
    laterTail := fun k hk ↦
      ⟨(Function.update_of_ne (by omega) _ _).trans (h.laterTail k (by omega)).1,
        (Function.update_of_ne (by omega) _ _).trans (h.laterTail k (by omega)).2⟩
    laterRun := fun k hk ↦
      ⟨(Function.update_of_ne (by omega) _ _).trans (h.laterRun k (by omega)).1,
        (Function.update_of_ne (by omega) _ _).trans (h.laterRun k (by omega)).2⟩ }

end

/-! ### The history -/

namespace Entry

/-- The task that was admitted, with its promise. -/
def admission : Entry Error → Option (Nat × Nat)
  | .admitted i p => some (i, p)
  | _ => none

/-- The task that was started. -/
def start : Entry Error → Option Nat
  | .started i => some i
  | _ => none

/-- The task that has settled, with its result. -/
def settlement : Entry Error → Option (Nat × Settlement Error)
  | .settled i result => some (i, result)
  | _ => none

/-- The task that was refused. -/
def refusal : Entry Error → Option Nat
  | .refused i => some i
  | _ => none

end Entry

/-- The admitted submissions with the promises of their submitters. -/
def admissions (log : List (Entry Error)) : List (Nat × Nat) := log.filterMap Entry.admission

/-- The tasks that started. -/
def starts (log : List (Entry Error)) : List Nat := log.filterMap Entry.start

/-- The tasks that settled, and how. -/
def settlements (log : List (Entry Error)) : List (Nat × Settlement Error) :=
  log.filterMap Entry.settlement

/-- The tasks that were refused. -/
def refusals (log : List (Entry Error)) : List Nat := log.filterMap Entry.refusal

section

variable {log : List (Entry Error)} {i p : Nat} {result : Settlement Error}

private theorem filterMap_concat {α β : Type} (f : α → Option β) (l : List α) (a : α) :
    (l ++ [a]).filterMap f = l.filterMap f ++ (f a).toList := by
  rw [List.filterMap_append]
  cases h : f a <;> simp [h]

@[simp] private theorem admissions_concat (e : Entry Error) :
    admissions (log ++ [e]) = admissions log ++ e.admission.toList := filterMap_concat _ log e

@[simp] private theorem starts_concat (e : Entry Error) :
    starts (log ++ [e]) = starts log ++ e.start.toList := filterMap_concat _ log e

@[simp] private theorem settlements_concat (e : Entry Error) :
    settlements (log ++ [e]) = settlements log ++ e.settlement.toList := filterMap_concat _ log e

@[simp] private theorem refusals_concat (e : Entry Error) :
    refusals (log ++ [e]) = refusals log ++ e.refusal.toList := filterMap_concat _ log e

private theorem mem_admissions : (i, p) ∈ admissions log ↔ .admitted i p ∈ log := by
  simp only [admissions, List.mem_filterMap]
  constructor
  · rintro ⟨e, he, h⟩
    cases e <;> simp_all [Entry.admission]
  · exact fun h ↦ ⟨_, h, rfl⟩

private theorem mem_settlements : (i, result) ∈ settlements log ↔ .settled i result ∈ log := by
  simp only [settlements, List.mem_filterMap]
  constructor
  · rintro ⟨e, he, h⟩
    cases e <;> simp_all [Entry.settlement]
  · exact fun h ↦ ⟨_, h, rfl⟩

private theorem mem_refusals : i ∈ refusals log ↔ .refused i ∈ log := by
  simp only [refusals, List.mem_filterMap]
  constructor
  · rintro ⟨e, he, h⟩
    cases e <;> simp_all [Entry.refusal]
  · exact fun h ↦ ⟨_, h, rfl⟩

end

/-- A task that starts has been admitted, and every task admitted before it has settled. -/
def Ordered (before : List (Entry Error)) : Entry Error → Prop
  | .started i => i ∈ (admissions before).map Prod.fst ∧
      ∀ j ∈ (admissions before).map Prod.fst, j < i → j ∈ (settlements before).map Prod.fst
  | _ => True

/-- The history of a room whose admitted tasks are `tasks`, with the first `m` passed. -/
structure History (room : Room Error) (tasks : List Nat) (m : Nat) (phase : Phase Error) : Prop where
  admitted : admissions room.log = tasks.zipIdx.map fun x ↦ (x.1, 2 * x.2 + 1)
  started : starts room.log = tasks.take (phase.started m)
  settled : (settlements room.log).map Prod.fst = tasks.take (phase.settledCount m)
  results : ∀ k, room.heap.status (2 * k + 1) = (settlements room.log)[k]?.map Prod.snd
  increasing : tasks.Pairwise (· < ·)
  below : ∀ i ∈ tasks, i < room.submitted
  refused : ∀ i ∈ refusals room.log, i < room.submitted ∧ i ∉ tasks
  order : Recorded Ordered room.log

private theorem history_initial : History (Room.initial : Room Error) [] 0 .idle where
  admitted := rfl
  started := rfl
  settled := rfl
  results k := by simp [Room.initial, settlements]
  increasing := .nil
  below := nofun
  refused := nofun
  order := .nil

section

variable {room room' : Room Error} {tasks : List Nat} {m : Nat} {phase phase' : Phase Error}

private theorem History.admitted_fst (h : History room tasks m phase) :
    (admissions room.log).map Prod.fst = tasks := by
  rw [h.admitted, List.map_map]
  exact List.zipIdx_map_fst 0 tasks

private theorem Chain.head_lt {i : Nat} (h : Chain room tasks m phase) (hi : phase.task = some i) :
    m < tasks.length :=
  (List.getElem?_eq_some_iff.mp (h.head.trans hi)).1

private theorem Chain.started_le (h : Chain room tasks m phase) :
    phase.started m ≤ tasks.length := by
  cases phase with
  | idle | queued i => exact h.within
  | running i | settled i result => exact h.head_lt rfl

private theorem Phase.settledCount_le : phase.settledCount m ≤ phase.started m := by
  cases phase <;> simp [Phase.settledCount, Phase.started]

/-- A refused submission. -/
theorem History.refuse (h : History room tasks m phase)
    (hlog : room'.log = room.log ++ [.refused room.submitted])
    (hstatus : room'.heap.status = room.heap.status)
    (hsubmitted : room'.submitted = room.submitted + 1) : History room' tasks m phase where
  admitted := by simpa [hlog, Entry.admission] using h.admitted
  started := by simpa [hlog, Entry.start, Phase.started] using h.started
  settled := by simpa [hlog, Entry.settlement, Phase.settledCount] using h.settled
  results k := by simpa [hlog, hstatus, Entry.settlement] using h.results k
  increasing := h.increasing
  below i hi := by
    have := h.below i hi
    omega
  refused i hi := by
    rw [hlog, refusals_concat] at hi
    obtain hi | hi := List.mem_append.mp hi
    · obtain ⟨hlt, hnot⟩ := h.refused i hi
      exact ⟨by omega, hnot⟩
    · obtain rfl : i = room.submitted := by simpa [Entry.refusal] using hi
      exact ⟨by omega, fun hmem ↦ Nat.lt_irrefl _ (h.below _ hmem)⟩
  order := by
    rw [hlog]
    exact h.order.snoc trivial

/-- An admitted submission. -/
theorem History.admit (h : History room tasks m phase) (hchain : Chain room tasks m phase)
    (hlog : room'.log = room.log ++ [.admitted room.submitted (2 * tasks.length + 1)])
    (hstatus : room'.heap.status = room.heap.status)
    (hsubmitted : room'.submitted = room.submitted + 1)
    (hstarted : phase'.started m = phase.started m)
    (hsettled : phase'.settledCount m = phase.settledCount m) :
    History room' (tasks ++ [room.submitted]) m phase' where
  admitted := by
    rw [hlog, admissions_concat, h.admitted, List.zipIdx_append]
    simp [Entry.admission]
  started := by
    rw [hstarted, List.take_append_of_le_length hchain.started_le]
    simpa [hlog, Entry.start, Phase.started] using h.started
  settled := by
    rw [hsettled,
      List.take_append_of_le_length (Nat.le_trans Phase.settledCount_le hchain.started_le)]
    simpa [hlog, Entry.settlement, Phase.settledCount] using h.settled
  results k := by simpa [hlog, hstatus, Entry.settlement] using h.results k
  increasing := by
    refine List.pairwise_append.mpr ⟨h.increasing, List.pairwise_singleton _ _, fun i hi j hj ↦ ?_⟩
    obtain rfl := List.mem_singleton.mp hj
    exact h.below i hi
  below i hi := by
    obtain hi | hi := List.mem_append.mp hi
    · have := h.below i hi
      omega
    · obtain rfl := List.mem_singleton.mp hi
      omega
  refused i hi := by
    have hmem : i ∈ refusals room.log := by simpa [hlog, Entry.refusal] using hi
    obtain ⟨hlt, hnot⟩ := h.refused i hmem
    refine ⟨by omega, ?_⟩
    simp only [List.mem_append, List.mem_singleton, not_or]
    exact ⟨hnot, Nat.ne_of_lt hlt⟩
  order := by
    rw [hlog]
    exact h.order.snoc trivial

/-- The head starts: the tasks before it have settled. -/
theorem History.start {i : Nat} (h : History room tasks m (.queued i)) (hhead : tasks[m]? = some i)
    (hlog : room'.log = room.log ++ [.started i])
    (hstatus : room'.heap.status = room.heap.status)
    (hsubmitted : room'.submitted = room.submitted) : History room' tasks m (.running i) where
  admitted := by simpa [hlog, Entry.admission] using h.admitted
  started := by
    rw [hlog, starts_concat, h.started]
    simp [Entry.start, Phase.started, List.take_add_one, hhead]
  settled := by simpa [hlog, Entry.settlement, Phase.settledCount] using h.settled
  results k := by simpa [hlog, hstatus, Entry.settlement] using h.results k
  increasing := h.increasing
  below j hj := hsubmitted ▸ h.below j hj
  refused j hj := by
    rw [hsubmitted]
    exact h.refused j (by simpa [hlog, Entry.refusal] using hj)
  order := by
    rw [hlog]
    refine h.order.snoc ⟨?_, fun j hj hlt ↦ ?_⟩
    · rw [h.admitted_fst]
      exact List.mem_of_getElem? hhead
    · rw [h.admitted_fst] at hj
      rw [h.settled]
      obtain ⟨a, ha, rfl⟩ := List.getElem_of_mem hj
      obtain ⟨hm, rfl⟩ := List.getElem?_eq_some_iff.mp hhead
      -- the tasks before the head are those at the places below it
      have ham : a < m := by
        by_contra hle
        obtain heq | hgt := Nat.eq_or_lt_of_le (Nat.not_lt.mp hle)
        · subst heq
          exact Nat.lt_irrefl _ hlt
        · exact Nat.lt_asymm hlt (List.pairwise_iff_getElem.mp h.increasing _ _ hm ha hgt)
      exact List.mem_take_iff_getElem.mpr ⟨a, by simp only [Phase.settledCount]; omega, rfl⟩

/-- The running task settles. -/
theorem History.settle {i : Nat} {result : Settlement Error} (h : History room tasks m (.running i))
    (hhead : tasks[m]? = some i) (hlog : room'.log = room.log ++ [.settled i result])
    (hstatus : room'.heap.status =
      Function.update room.heap.status (2 * m + 1) (some result))
    (hsubmitted : room'.submitted = room.submitted) :
    History room' tasks m (.settled i result) where
  admitted := by simpa [hlog, Entry.admission] using h.admitted
  started := by simpa [hlog, Entry.start, Phase.started] using h.started
  settled := by
    rw [hlog, settlements_concat, List.map_append, h.settled]
    simp [Entry.settlement, Phase.settledCount, List.take_add_one, hhead]
  results k := by
    obtain ⟨hm, -⟩ := List.getElem?_eq_some_iff.mp hhead
    have hlength : (settlements room.log).length = m := by
      have := congrArg List.length h.settled
      simpa [Phase.settledCount, Nat.min_eq_left (Nat.le_of_lt hm)] using this
    have hlog' : settlements room'.log = settlements room.log ++ [(i, result)] := by
      simp [hlog, Entry.settlement]
    rw [hlog', hstatus]
    obtain hlt | rfl | hgt := Nat.lt_trichotomy k m
    · rw [Function.update_of_ne (by omega), List.getElem?_append_left (by omega)]
      exact h.results k
    · rw [Function.update_self, List.getElem?_append_right (by omega), hlength]
      simp
    · rw [Function.update_of_ne (by omega), List.getElem?_eq_none (by simp; omega), h.results,
        List.getElem?_eq_none (by omega)]
  increasing := h.increasing
  below j hj := hsubmitted ▸ h.below j hj
  refused j hj := by
    rw [hsubmitted]
    exact h.refused j (by simpa [hlog, Entry.refusal] using hj)
  order := by
    rw [hlog]
    exact h.order.snoc trivial

/-- The settled task is passed. -/
theorem History.pass {i : Nat} {result : Settlement Error}
    (h : History room tasks m (.settled i result)) (hlog : room'.log = room.log ++ logged result)
    (hstatus : room'.heap.status =
      Function.update room.heap.status (2 * m + 2) (some .fulfilled))
    (hsubmitted : room'.submitted = room.submitted) :
    History room' tasks (m + 1) (.next tasks (m + 1)) := by
  have hquiet : admissions (logged result) = [] ∧ starts (logged result) = [] ∧
      settlements (logged result) = [] ∧ refusals (logged result) = [] := by
    cases result <;> exact ⟨rfl, rfl, rfl, rfl⟩
  obtain ⟨hadmissions, hstarts, hsettlements, hrefusals⟩ := hquiet
  have hsame : admissions room'.log = admissions room.log ∧ starts room'.log = starts room.log ∧
      settlements room'.log = settlements room.log ∧ refusals room'.log = refusals room.log := by
    simp only [admissions, starts, settlements, refusals] at *
    simp [hlog, hadmissions, hstarts, hsettlements, hrefusals]
  obtain ⟨hadmissions', hstarts', hsettlements', hrefusals'⟩ := hsame
  exact {
    admitted := hadmissions'.trans h.admitted
    started := by
      rw [Phase.started_next]
      exact hstarts'.trans h.started
    settled := by
      rw [Phase.settledCount_next, hsettlements']
      exact h.settled
    results := fun k ↦ by
      rw [hstatus, Function.update_of_ne (by omega), hsettlements']
      exact h.results k
    increasing := h.increasing
    below := fun j hj ↦ hsubmitted ▸ h.below j hj
    refused := fun j hj ↦ by
      rw [hsubmitted]
      exact h.refused j (hrefusals' ▸ hj)
    order := by
      rw [hlog]
      cases result with
      | fulfilled => simpa [logged] using h.order
      | rejected e => exact h.order.snoc trivial }

end

/-- The invariant of a room. -/
def RoomOk (room : Room Error) : Prop :=
  ∃ tasks m phase, Chain room tasks m phase ∧ History room tasks m phase

section

variable {room room' : Room Error}

private theorem RoomOk.submit (h : RoomOk room) : RoomOk (roomTask room) := by
  obtain ⟨tasks, m, phase, hchain, hhistory⟩ := h
  by_cases hdraining : room.draining = true
  · have hrefused : roomTask room = { room with
        submitted := room.submitted + 1
        log := room.log ++ [.refused room.submitted] } := by simp [roomTask, hdraining]
    rw [hrefused]
    exact ⟨tasks, m, phase, { hchain with }, hhistory.refuse rfl rfl rfl⟩
  · have hopen : room.draining = false := Bool.not_eq_true _ ▸ hdraining
    have hlog : (roomTask room).log =
        room.log ++ [.admitted room.submitted (2 * tasks.length + 1)] := by
      rw [roomTask_of_open hopen, hchain.next]
    have hstatus : (roomTask room).heap.status = room.heap.status := by
      rw [roomTask_of_open hopen]
      simp
    have hsubmitted : (roomTask room).submitted = room.submitted + 1 := by
      rw [roomTask_of_open hopen]
    obtain hm | hm := Nat.lt_or_eq_of_le hchain.within
    · exact ⟨_, m, phase, hchain.submit_behind hm hopen,
        hhistory.admit hchain hlog hstatus hsubmitted rfl rfl⟩
    · cases phase with
      | idle => exact ⟨_, m, _, hchain.submit_idle hm hopen,
          hhistory.admit hchain hlog hstatus hsubmitted rfl rfl⟩
      | queued i | running i | settled i result =>
        exact absurd hm (Nat.ne_of_lt (hchain.head_lt rfl))

private theorem RoomOk.job (h : RoomOk room) (hjob : runJob room = some room') : RoomOk room' := by
  obtain ⟨tasks, m, phase, hchain, hhistory⟩ := h
  cases phase with
  | idle | running i => simp [runJob, hchain.queue, Phase.queue] at hjob
  | queued i =>
    obtain ⟨hchain', hlog, hstatus, hsubmitted⟩ := hchain.start hjob
    exact ⟨tasks, m, _, hchain', hhistory.start hchain.head hlog hstatus hsubmitted⟩
  | settled i result =>
    obtain ⟨hchain', hlog, hstatus, hsubmitted⟩ := hchain.pass hjob
    exact ⟨tasks, m + 1, _, hchain', hhistory.pass hlog hstatus hsubmitted⟩

private theorem RoomOk.settle {i : Nat} {result : Settlement Error} (h : RoomOk room)
    (hsettle : settleTask room i result = some room') : RoomOk room' := by
  obtain ⟨tasks, m, phase, hchain, hhistory⟩ := h
  obtain ⟨rfl, hchain', hlog, hstatus, hsubmitted⟩ := hchain.settle hsettle
  exact ⟨tasks, m, _, hchain', hhistory.settle hchain.head hlog hstatus hsubmitted⟩

private theorem roomOk_invariant :
    (machine : Machine (Room Error) (Event Error)).Invariant RoomOk where
  init := by
    rintro _ rfl
    exact ⟨[], 0, .idle, chain_initial, history_initial⟩
  step := by
    rintro room e room' h hstep
    cases e with
    | submit => exact Option.some.inj hstep ▸ h.submit
    | drain =>
      obtain ⟨tasks, m, phase, hchain, hhistory⟩ := h
      obtain rfl := Option.some.inj hstep
      exact ⟨tasks, m, phase, { hchain with }, { hhistory with }⟩
    | job => exact h.job hstep
    | settle i result => exact h.settle hstep

/-! ### What the invariant says -/

variable {tasks : List Nat} {m : Nat} {phase : Phase Error}

private theorem History.nodup (h : History room tasks m phase) : tasks.Nodup :=
  h.increasing.imp Nat.ne_of_lt

/-- A submitter's promise is settled as its own task was. -/
theorem History.own (h : History room tasks m phase) {i p : Nat} (hi : .admitted i p ∈ room.log)
    (result : Settlement Error) :
    room.heap.status p = some result ↔ .settled i result ∈ room.log := by
  rw [← mem_admissions, h.admitted] at hi
  obtain ⟨⟨i', k⟩, hk, heq⟩ := List.mem_map.mp hi
  obtain ⟨rfl, rfl⟩ := Prod.mk.inj heq
  have hplace := List.mem_zipIdx_iff_getElem?.mp hk
  have hids : ∀ {a : Nat} {x : Nat × Settlement Error}, (settlements room.log)[a]? = some x →
      tasks[a]? = some x.1 := by
    intro a x hx
    have hmap : ((settlements room.log).map Prod.fst)[a]? = some x.1 := by simp [hx]
    rw [h.settled, List.getElem?_take] at hmap
    split at hmap
    · exact hmap
    · cases hmap
  rw [h.results, ← mem_settlements, Option.map_eq_some_iff]
  constructor
  · rintro ⟨⟨j, r⟩, hx, rfl⟩
    obtain rfl : i' = j := Option.some.inj (hplace.symm.trans (hids hx))
    exact List.mem_of_getElem? hx
  · intro hmem
    obtain ⟨a, ha⟩ := List.getElem?_of_mem hmem
    -- the place of a task is its own, since the tasks are in increasing order
    have hsame : a = k := by
      obtain ⟨hka, hk'⟩ := List.getElem?_eq_some_iff.mp hplace
      obtain ⟨haa, ha'⟩ := List.getElem?_eq_some_iff.mp (hids ha)
      exact (List.getElem_inj h.nodup).mp (ha'.trans hk'.symm)
    exact ⟨_, hsame ▸ ha, rfl⟩

/-- A turn of the event loop. -/
def turn (room : Room Error) : Room Error := (runJob room).getD room

private theorem turn_of_job (hjob : runJob room = some room') : turn room = room' := by
  simp [turn, hjob]

private theorem starts_turn {i : Nat} (hi : i ∈ starts room.log) : i ∈ starts (turn room).log := by
  have hlog : ∃ more, (turn room).log = room.log ++ more := by
    unfold turn runJob
    split
    · exact ⟨[], (List.append_nil _).symm⟩
    · split
      · exact ⟨_, rfl⟩
      · exact ⟨_, rfl⟩
  obtain ⟨more, hlog⟩ := hlog
  rw [hlog, starts, List.filterMap_append]
  exact List.mem_append_left _ hi

private theorem Chain.turn_queued {i : Nat} (hchain : Chain room tasks m (.queued i)) :
    i ∈ starts (turn room).log := by
  have hsome : (runJob room).isSome := by simp [runJob, hchain.queue, Phase.queue]
  obtain ⟨room', hjob⟩ := Option.isSome_iff_exists.mp hsome
  obtain ⟨-, hlog, -⟩ := hchain.start hjob
  rw [turn_of_job hjob, hlog, starts_concat]
  simp [Entry.start]

private theorem Chain.turn_settled {i : Nat} {result : Settlement Error}
    (hchain : Chain room tasks m (.settled i result)) :
    Chain (turn room) tasks (m + 1) (.next tasks (m + 1)) := by
  have hsome : (runJob room).isSome := by simp [runJob, hchain.queue, Phase.queue]
  obtain ⟨room', hjob⟩ := Option.isSome_iff_exists.mp hsome
  rw [turn_of_job hjob]
  exact (hchain.pass hjob).1

/-- A task whose predecessors have all settled has started after two turns of the event loop. -/
theorem Chain.starts_next (hchain : Chain room tasks m phase) (h : History room tasks m phase)
    {i : Nat} (hi : i ∈ tasks)
    (hbefore : ∀ j ∈ tasks, j < i → ∃ result, .settled j result ∈ room.log) :
    i ∈ starts (turn (turn room)).log := by
  obtain ⟨k, hk, rfl⟩ := List.getElem_of_mem hi
  by_cases hstarted : k < phase.started m
  · refine starts_turn (starts_turn ?_)
    rw [h.started]
    exact List.mem_take_iff_getElem.mpr ⟨k, by omega, rfl⟩
  · -- the task at the first place that has not settled is not before this one
    have hsettled : k ≤ phase.settledCount m := by
      by_contra hlt
      obtain ⟨result, hmem⟩ := hbefore tasks[phase.settledCount m] (List.getElem_mem _)
        (List.pairwise_iff_getElem.mp h.increasing _ _ (by omega) hk (by omega))
      have hids := List.mem_map_of_mem (f := Prod.fst) (mem_settlements.mpr hmem)
      rw [h.settled] at hids
      obtain ⟨a, ha, heq⟩ := List.mem_take_iff_getElem.mp hids
      have := (List.getElem_inj h.nodup).mp heq
      omega
    cases phase with
    | idle =>
      have hnone := List.getElem?_eq_none_iff.mp hchain.head
      simp only [Phase.started, Phase.settledCount] at hstarted hsettled
      omega
    | running i =>
      simp only [Phase.started, Phase.settledCount] at hstarted hsettled
      omega
    | queued i =>
      obtain rfl : k = m := by
        simp only [Phase.started, Phase.settledCount] at hstarted hsettled
        omega
      obtain ⟨_, rfl⟩ := List.getElem?_eq_some_iff.mp hchain.head
      exact starts_turn hchain.turn_queued
    | settled i result =>
      obtain rfl : k = m + 1 := by
        simp only [Phase.started, Phase.settledCount] at hstarted hsettled
        omega
      have hqueued := hchain.turn_settled
      rw [Phase.next, List.getElem?_eq_getElem hk] at hqueued
      exact hqueued.turn_queued

/-- No promise of the chain rejects but those of submitters whose tasks did. -/
theorem Chain.rejected (hchain : Chain room tasks m phase) (h : History room tasks m phase) {p : Nat}
    {e : Error} (hp : room.heap.status p = some (.rejected e)) :
    ∃ i, .admitted i p ∈ room.log ∧ .settled i (.rejected e) ∈ room.log := by
  obtain ⟨k, rfl | rfl⟩ : ∃ k, p = 2 * k ∨ p = 2 * k + 1 := ⟨p / 2, by omega⟩
  · obtain hk | hk := Nat.lt_or_ge m k
    · rw [(hchain.laterTail k hk).1] at hp
      cases hp
    · rw [hchain.passedTail k hk] at hp
      cases hp
  · rw [h.results, Option.map_eq_some_iff] at hp
    obtain ⟨⟨i, _⟩, hx, rfl⟩ := hp
    refine ⟨i, ?_, mem_settlements.mp (List.mem_of_getElem? hx)⟩
    have hmap : ((settlements room.log).map Prod.fst)[k]? = some i := by simp [hx]
    rw [h.settled, List.getElem?_take] at hmap
    split at hmap
    · rw [← mem_admissions, h.admitted]
      exact List.mem_map.mpr ⟨(i, k), List.mem_zipIdx_iff_getElem?.mpr hmap, rfl⟩
    · cases hmap

/-- The tail of the chain is no submitter's promise. -/
theorem Chain.operation_ne (hchain : Chain room tasks m phase) (h : History room tasks m phase)
    {i p : Nat} (hi : .admitted i p ∈ room.log) : p ≠ room.operation := by
  rw [← mem_admissions, h.admitted] at hi
  obtain ⟨⟨i', k⟩, -, heq⟩ := List.mem_map.mp hi
  obtain ⟨-, rfl⟩ := Prod.mk.inj heq
  rw [hchain.operation]
  omega

/-- A promise is one submitter's. -/
theorem History.admitted_injective (h : History room tasks m phase) {i i' p : Nat}
    (hi : .admitted i p ∈ room.log) (hi' : .admitted i' p ∈ room.log) : i = i' := by
  rw [← mem_admissions, h.admitted] at hi hi'
  obtain ⟨⟨j, k⟩, hk, heq⟩ := List.mem_map.mp hi
  obtain ⟨⟨j', k'⟩, hk', heq'⟩ := List.mem_map.mp hi'
  obtain ⟨rfl, rfl⟩ := Prod.mk.inj heq
  obtain ⟨rfl, hp⟩ := Prod.mk.inj heq'
  obtain rfl : k' = k := by
    simp only at hp
    omega
  have hplace := List.mem_zipIdx_iff_getElem?.mp hk
  exact Option.some.inj (hplace.symm.trans (List.mem_zipIdx_iff_getElem?.mp hk'))

/-- `roomTask` is a first-in first-out mutex that survives failures, in every room some run of
submissions, settlements and turns of the event loop leads to, with draining begun at any moment:
the admitted tasks are admitted in the order of their submission and start in that order, none
twice; a task starts after every task admitted before it has settled, and within two turns of that,
however these settled; a submitter's promise settles as its own task does, and no other promise
rejects, the room's tail least; a refused submission never starts; and while draining a submission
is refused and changes nothing else. -/
theorem roomTask_fifo (hroom : machine.Reachable room) :
    ((admissions room.log).map Prod.fst).Pairwise (· < ·) ∧
    starts room.log <+: (admissions room.log).map Prod.fst ∧
    (∀ before i after, room.log = before ++ .started i :: after →
      ∀ j ∈ (admissions room.log).map Prod.fst, j < i → ∃ result, .settled j result ∈ before) ∧
    (∀ i ∈ (admissions room.log).map Prod.fst,
      (∀ j ∈ (admissions room.log).map Prod.fst, j < i →
        ∃ result, .settled j result ∈ room.log) →
      i ∈ starts (turn (turn room)).log) ∧
    (∀ i p, .admitted i p ∈ room.log → ∀ result,
      room.heap.status p = some result ↔ .settled i result ∈ room.log) ∧
    (∀ p e, room.heap.status p = some (.rejected e) → p ≠ room.operation ∧
      ∃! i, .admitted i p ∈ room.log ∧ .settled i (.rejected e) ∈ room.log) ∧
    (∀ i, .refused i ∈ room.log →
      i ∉ (admissions room.log).map Prod.fst ∧ i ∉ starts room.log) ∧
    (room.draining = true → roomTask room = { room with
      submitted := room.submitted + 1
      log := room.log ++ [.refused room.submitted] }) := by
  obtain ⟨tasks, m, phase, hchain, h⟩ := roomOk_invariant.reachable hroom
  rw [h.admitted_fst]
  refine ⟨h.increasing, h.started ▸ List.take_prefix _ _, ?_, fun i ↦ hchain.starts_next h,
    fun i p ↦ h.own, ?_, ?_, ?_⟩
  · intro before i after hlog j hj hlt
    obtain ⟨hi, hsettled⟩ := h.order.entry hlog
    suffices hbefore : j ∈ (admissions before).map Prod.fst by
      obtain ⟨⟨j', result⟩, hmem, rfl⟩ := List.mem_map.mp (hsettled j hbefore hlt)
      exact ⟨result, mem_settlements.mp hmem⟩
    -- a task admitted after this one started has a higher number
    have hsplit : tasks = (admissions before).map Prod.fst ++ (admissions after).map Prod.fst := by
      rw [← h.admitted_fst, hlog, admissions, List.filterMap_append, List.map_append]
      rfl
    rw [hsplit] at hj
    obtain hj | hj := List.mem_append.mp hj
    · exact hj
    · have hincreasing := h.increasing
      rw [hsplit] at hincreasing
      exact absurd hlt (Nat.lt_asymm ((List.pairwise_append.mp hincreasing).2.2 i hi j hj))
  · intro p e hp
    obtain ⟨i, hi, hsettled⟩ := hchain.rejected h hp
    exact ⟨hchain.operation_ne h hi, i, ⟨hi, hsettled⟩,
      fun i' h' ↦ h.admitted_injective h'.1 hi⟩
  · intro i hi
    obtain ⟨-, hnot⟩ := h.refused i (mem_refusals.mpr hi)
    refine ⟨hnot, fun hmem ↦ hnot ?_⟩
    rw [h.started] at hmem
    exact List.mem_of_mem_take hmem
  · intro hdraining
    simp [roomTask, hdraining]

end

/-- The first of three tasks fails while the third is submitted, and a fourth comes too late. -/
theorem roomTask_fifo_failure : ∃ room : Room String, starts room.log = [0, 1, 2] ∧
    room.heap.status 1 = some (.rejected "boom") ∧ room.heap.status 3 = some .fulfilled ∧
    .refused 3 ∈ room.log ∧ 3 ∉ starts room.log ∧
    ∃! i, .admitted i 1 ∈ room.log ∧ .settled i (.rejected "boom") ∈ room.log := by
  have hrun : (([.submit, .submit, .job, .submit, .settle 0 (.rejected "boom"), .job, .job,
      .settle 1 .fulfilled, .job, .job, .drain, .submit] : List (Event String)).foldlM step
      Room.initial).any (fun room ↦ decide (starts room.log = [0, 1, 2] ∧
        room.heap.status 1 = some (.rejected "boom") ∧ room.heap.status 3 = some .fulfilled ∧
        .refused 3 ∈ room.log)) = true := by
    decide +kernel
  obtain ⟨room, hroom, hfacts⟩ := (Option.any_eq_true _ _).mp hrun
  obtain ⟨hstarts, hfailed, hok, hrefused⟩ := of_decide_eq_true hfacts
  have hreach : machine.Reachable room :=
    Machine.Reachable.foldlM (fun _ _ _ h ↦ h) (.init rfl) hroom
  obtain ⟨-, -, -, -, -, hrejected, hnever, -⟩ := roomTask_fifo hreach
  exact ⟨room, hstarts, hfailed, hok, hrefused, (hnever 3 hrefused).2,
    (hrejected 1 "boom" hfailed).2⟩

end ChessStack.Server.RoomTask
