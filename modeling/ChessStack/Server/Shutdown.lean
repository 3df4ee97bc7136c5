import ChessStack.Library.Machine
import Mathlib.Data.List.Infix

/-!
# The shutdown controller

Library `Server`. `Chess-Backend/src/services/shutdown.js`: the states RUNNING, DRAINING,
STOPPING, STOPPED, the admission gates, the six phases with their deadlines, and the watchdog.
The controller is one machine: signals, crashes, requests and the clock on one side, the
sequence that goes on from one `await` to the next on the other. What an injected dependency
does is an answer the sequence is given, so every outcome at every moment is a run.
-/

namespace ChessStack.Server.Shutdown

open ChessStack.Library

/-- `STATES`. -/
inductive ShutdownState where
  | running
  | draining
  | stopping
  | stopped
  deriving DecidableEq, Repr

/-- The names of the phases, in the order of `runShutdownSequence`. -/
inductive Phase where
  | settle
  | http
  | room
  | socket
  | cache
  | pg
  deriving DecidableEq, Repr

/-- What `installShutdownHandlers` listens for. -/
inductive Trigger where
  | sigterm
  | sigint
  | uncaughtException
  | unhandledRejection
  deriving DecidableEq, Repr

/-- The exit code a trigger starts the sequence with, `shutdown.js:526–547`. -/
def Trigger.exitCode : Trigger → Nat
  | .sigterm | .sigint => 0
  | .uncaughtException | .unhandledRejection => 1

/-- The injected dependencies the phases call. -/
inductive Dep where
  | getInflight
  | drainRooms
  | ioClose
  | closeCache
  | closePool
  deriving DecidableEq, Repr

/-- The label a phase is counted under. -/
inductive PhaseResult where
  | completed
  | timeout
  | forced
  deriving DecidableEq, Repr

/-- New work at a gate. -/
inductive Work where
  | http (path : String)
  | handshake
  | packet
  deriving DecidableEq, Repr

/-- What the controller does that others see. -/
inductive Act where
  | setState (state : ShutdownState)
  | phase (name : Phase)
  | finished (name : Phase) (result : PhaseResult)
  | call (dep : Dep)
  | exit (code : Nat)
  | admitted (work : Work)
  | rejected (work : Work)
  deriving DecidableEq, Repr

/-- The caps in milliseconds, `shutdown.js:53–74, 447–458`. -/
structure Caps where
  global : Nat := 22000
  settle : Nat := 2000
  http : Nat := 3000
  room : Nat := 6000
  socket : Nat := 2000
  socketRace : Nat := 1500
  socketSettle : Nat := 500
  cache : Nat := 5000
  pg : Nat := 3000

/-- `HTTP_POLL_MS`. -/
def httpPollMs : Nat := 25

/-! ### The controller -/

/-- Where the sequence waits, with the times its timers are due at. -/
inductive Point where
  /-- About to run a phase. -/
  | next (phase : Phase)
  /-- The timer of `phaseSettle`. -/
  | settling (due : Nat)
  /-- The poll timer of `phaseHttp`. -/
  | polling (deadline due : Nat)
  /-- `withValueDeadline(drainRooms(cap), cap, ABANDONED)`. -/
  | drainingRooms (due : Nat)
  /-- The first `withDeadline(gate, …)` of `phaseSocket`; `settle` is the cap of the second. -/
  | closingIo (due settle : Nat)
  /-- The second. -/
  | forcingIo (due : Nat)
  | closingCache (due : Nat)
  | closingPool (due : Nat)
  /-- The `finally` of the sequence. -/
  | unwinding
  /-- `sequencePromise` is settled. -/
  | ended
  deriving DecidableEq, Repr

/-- The running `sequencePromise`. -/
structure Sequence where
  trigger : Trigger
  startedAt : Nat
  failed : Bool
  watchdogFired : Bool
  point : Point
  deriving DecidableEq, Repr

/-- `code` at the end of the sequence. -/
def Sequence.code (q : Sequence) : Nat := if q.failed then 1 else q.trigger.exitCode

/-- The module state, `shutdown.js:94–99`, with the clock, the flags of `app.locals` and what has
been done so far. -/
structure Controller where
  now : Nat
  state : ShutdownState
  prestopSeen : Bool
  sequence : Option Sequence
  poolEnded : Bool
  drainStartedAt : Option Nat
  shuttingDown : Bool
  startupReady : Bool
  log : List Act
  deriving DecidableEq, Repr

/-- The module as it is loaded. -/
def Controller.initial : Controller :=
  ⟨0, .running, false, none, false, none, false, true, []⟩

/-- Something is done that others see. -/
def Controller.act (c : Controller) (a : Act) : Controller := { c with log := c.log ++ [a] }

/-- `setState(next)`. -/
def Controller.setState (c : Controller) (state : ShutdownState) : Controller :=
  { c with state := state }.act (.setState state)

/-- `enterDraining(source, { app })`, `shutdown.js:145–153`. -/
def enterDraining (prestop : Bool) (c : Controller) : Controller :=
  if c.state ≠ .running then c
  else
    { c with
      prestopSeen := c.prestopSeen || prestop
      drainStartedAt := some c.now
      shuttingDown := true }.setState .draining

/-- `runShutdownSequence` up to its first `await`, as the handlers call it,
`shutdown.js:436–471, 526–547`. -/
def shutdown (trigger : Trigger) (c : Controller) : Controller :=
  match c.sequence with
  | some _ => c
  | none =>
    let c := { (enterDraining false c).setState .stopping with startupReady := false }
    { c with sequence := some ⟨trigger, c.now, false, false, .next .settle⟩ }

/-! ### Gates -/

/-- `DRAIN_ALLOWLIST`. -/
def drainAllowlist : List String :=
  ["/liveness", "/readiness", "/metrics", "/health", "/internal/enter-drain"]

/-- The gates let a request through, `shutdown.js:247–260, 285–310`: all of them while RUNNING,
then the paths of the allowlist only. -/
def admits (c : Controller) (work : Work) : Bool :=
  c.state == .running || (match work with
    | .http path => drainAllowlist.contains path
    | .handshake => false
    | .packet => false)

/-- New work at its gate. -/
def gate (work : Work) (c : Controller) : Controller :=
  c.act (if admits c work then .admitted work else .rejected work)

/-- `createDrainGateMiddleware`, `shutdown.js:247–260`. -/
def createDrainGateMiddleware (path : String) : Controller → Controller := gate (.http path)

/-- `drainHandshakeGuard`, `shutdown.js:285–292`. -/
def drainHandshakeGuard : Controller → Controller := gate .handshake

/-- `drainPacketGuard`, `shutdown.js:298–310`. -/
def drainPacketGuard : Controller → Controller := gate .packet

/-- `LOOPBACK_ADDRESSES`. -/
def loopbackAddresses : List String := ["127.0.0.1", "::1", "::ffff:127.0.0.1"]

/-- `createEnterDrainHandler`, `shutdown.js:271–280`. -/
def enterDrainHandler (remoteAddress : String) (c : Controller) : Controller :=
  if loopbackAddresses.contains remoteAddress then enterDraining true c else c

/-! ### The sequence -/

/-- What the sequence finds where it goes on. -/
inductive Answer where
  /-- Nothing is asked of a dependency. -/
  | proceed
  /-- `getInflight()` before the loop is left or goes on, and after; `none` where it throws or
  gives no number. -/
  | inflight (first last : Option Nat)
  /-- The dependency throws when it is called. -/
  | throws
  /-- It returns, in general a promise. -/
  | returns
  /-- The awaited promise is fulfilled; `good` is `!timedOut` and `closedClean` of its value. -/
  | fulfilled (good : Bool)
  | rejected
  /-- The awaited timer fires. -/
  | timer
  /-- A logger or a metric throws outside the phase's own `try`. -/
  | fails
  deriving DecidableEq, Repr

/-- The sequence waits at another point. -/
def Controller.at (c : Controller) (q : Sequence) (point : Point) : Controller :=
  { c with sequence := some { q with point := point } }

/-- The phase after a phase. -/
def Phase.after : Phase → Point
  | .settle => .next .http
  | .http => .next .room
  | .room => .next .socket
  | .socket => .next .cache
  | .cache => .next .pg
  | .pg => .unwinding

/-- The end of `runPhase(name, …)`. -/
def Controller.finish (c : Controller) (q : Sequence) (name : Phase) (result : PhaseResult) :
    Controller := (c.at q name.after).act (.finished name result)

/-- `Math.min(cap, remaining())`. -/
def budget (caps : Caps) (c : Controller) (q : Sequence) (cap : Nat) : Nat :=
  min cap (q.startedAt + caps.global - c.now)

/-- One turn of the loop of `phaseHttp`, `shutdown.js:322–345`. -/
def poll (c : Controller) (q : Sequence) (deadline : Nat) (first last : Option Nat) : Controller :=
  let c := c.act (.call .getInflight)
  if 0 < first.getD 0 ∧ c.now < deadline then
    c.at q (.polling deadline (c.now + min httpPollMs (deadline - c.now)))
  else
    (c.act (.call .getInflight)).finish q .http (if 0 < last.getD 0 then .timeout else .completed)

/-- The second wait of `phaseSocket`, after the stragglers are destroyed. -/
def forceIo (c : Controller) (q : Sequence) (settle : Nat) : Controller :=
  if settle = 0 then c.finish q .socket .forced else c.at q (.forcingIo (c.now + settle))

/-- `closeIoOnce(io)`, `shutdown.js:224–241`: it turns a throw into a settled gate, so the phase
goes on in both cases. -/
def closeIoOnce (c : Controller) : Answer → Option Controller
  | .throws | .returns => some (c.act (.call .ioClose))
  | _ => none

/-- `phaseSettle(budgetMs)` up to its first `await`, `shutdown.js:314–317`. -/
def phaseSettle (budgetMs : Nat) (c : Controller) (q : Sequence) : Answer → Option Controller
  | .proceed =>
    some (if budgetMs = 0 then c.finish q .settle .completed
      else c.at q (.settling (c.now + budgetMs)))
  | _ => none

/-- `phaseHttp({ server, getInflight, budgetMs })` up to its first `await`, `shutdown.js:319–346`. -/
def phaseHttp (budgetMs : Nat) (c : Controller) (q : Sequence) : Answer → Option Controller
  | .inflight first last => some (poll c q (c.now + budgetMs) first last)
  | _ => none

/-- `phaseRoom({ drainRooms, budgetMs })` up to its first `await`, `shutdown.js:348–367`. -/
def phaseRoom (budgetMs : Nat) (c : Controller) (q : Sequence) : Answer → Option Controller
  | .throws => some ((c.act (.call .drainRooms)).finish q .room .timeout)
  | .returns =>
    let c := c.act (.call .drainRooms)
    some (if budgetMs = 0 then c.finish q .room .timeout
      else c.at q (.drainingRooms (c.now + budgetMs)))
  | _ => none

/-- `phaseSocket({ server, io, budgetMs, raceMs, settleMs })` up to its first `await`,
`shutdown.js:369–384`. -/
def phaseSocket (budgetMs raceMs settleMs : Nat) (c : Controller) (q : Sequence) (answer : Answer) :
    Option Controller :=
  (closeIoOnce c answer).map fun c ↦
    let race := min raceMs budgetMs
    let settle := min settleMs (budgetMs - race)
    if race = 0 then forceIo c q settle else c.at q (.closingIo (c.now + race) settle)

/-- `phaseCache({ closeCache, budgetMs })` up to its first `await`, `shutdown.js:386–398`. -/
def phaseCache (budgetMs : Nat) (c : Controller) (q : Sequence) : Answer → Option Controller
  | .throws => some ((c.act (.call .closeCache)).finish q .cache .forced)
  | .returns =>
    let c := c.act (.call .closeCache)
    some (if budgetMs = 0 then c.finish q .cache .forced
      else c.at q (.closingCache (c.now + budgetMs)))
  | _ => none

/-- `phasePg({ closePool, budgetMs })` up to its first `await`, `shutdown.js:400–416`. -/
def phasePg (budgetMs : Nat) (c : Controller) (q : Sequence) : Answer → Option Controller
  | .throws =>
    if c.poolEnded then some (c.finish q .pg .forced)
    else some (({ c with poolEnded := true }.act (.call .closePool)).finish q .pg .forced)
  | .returns =>
    if c.poolEnded then some (c.finish q .pg .forced)
    else
      let c := { c with poolEnded := true }.act (.call .closePool)
      some (if budgetMs = 0 then c.finish q .pg .forced
        else c.at q (.closingPool (c.now + budgetMs)))
  | _ => none

/-- `runPhase(name, …)` up to the first `await` of the phase, `shutdown.js:418–431, 484–493`. -/
def startPhase (caps : Caps) (c : Controller) (q : Sequence) (phase : Phase) :
    Answer → Option Controller :=
  let c := c.act (.phase phase)
  match phase with
  | .settle => phaseSettle (budget caps c q caps.settle) c q
  | .http => phaseHttp (budget caps c q caps.http) c q
  | .room => phaseRoom (budget caps c q caps.room) c q
  | .socket => phaseSocket (budget caps c q caps.socket) caps.socketRace caps.socketSettle c q
  | .cache => phaseCache (budget caps c q caps.cache) c q
  | .pg => phasePg (budget caps c q caps.pg) c q

/-- A timer fires when it is due. -/
def onTimer (c : Controller) (due : Nat) (next : Controller) : Option Controller :=
  if due ≤ c.now then some next else none

/-- What follows the last phase, `shutdown.js:495–507`: the watchdog is cleared, and the process
exits unless the watchdog has seen to that. -/
def unwind (c : Controller) (q : Sequence) : Controller :=
  if q.watchdogFired then c.at q .ended
  else ((c.at q .ended).setState .stopped).act (.exit q.code)

/-- The sequence goes on from where it waits to the next `await`. -/
def proceed (caps : Caps) (c : Controller) (q : Sequence) (answer : Answer) : Option Controller :=
  match q.point, answer with
  | .ended, _ => none
  | .unwinding, .proceed => some (unwind c q)
  | .unwinding, _ => none
  | _, .fails => some (c.at { q with failed := true } .unwinding)
  | .next phase, answer => startPhase caps c q phase answer
  | .settling due, .timer => onTimer c due (c.finish q .settle .completed)
  | .polling deadline due, .inflight first last => onTimer c due (poll c q deadline first last)
  | .drainingRooms _, .fulfilled good =>
    some (c.finish q .room (if good then .completed else .timeout))
  | .drainingRooms _, .rejected => some (c.finish q .room .timeout)
  | .drainingRooms due, .timer => onTimer c due (c.finish q .room .timeout)
  | .closingIo _ _, .fulfilled _ | .closingIo _ _, .rejected =>
    some (c.finish q .socket .completed)
  | .closingIo due settle, .timer => onTimer c due (forceIo c q settle)
  | .forcingIo _, .fulfilled _ | .forcingIo _, .rejected => some (c.finish q .socket .forced)
  | .forcingIo due, .timer => onTimer c due (c.finish q .socket .forced)
  | .closingCache _, .fulfilled good =>
    some (c.finish q .cache (if good then .completed else .forced))
  | .closingCache _, .rejected => some (c.finish q .cache .forced)
  | .closingCache due, .timer => onTimer c due (c.finish q .cache .forced)
  | .closingPool _, .fulfilled _ | .closingPool _, .rejected =>
    some (c.finish q .pg .completed)
  | .closingPool due, .timer => onTimer c due (c.finish q .pg .forced)
  | _, _ => none

/-- The watchdog fires past the global cap, unless the sequence has cleared it,
`shutdown.js:475–481`. -/
def watchdog (caps : Caps) (c : Controller) (q : Sequence) : Option Controller :=
  if q.point ≠ .ended ∧ q.watchdogFired = false ∧ q.startedAt + max 1 caps.global ≤ c.now then
    some ({ c with sequence := some { q with watchdogFired := true } }.act (.exit 1))
  else none

/-! ### The machine -/

/-- What happens to the controller. -/
inductive Event where
  | tick (ms : Nat)
  | enterDrain (remoteAddress : String)
  | trigger (trigger : Trigger)
  | work (work : Work)
  | watchdog
  | go (answer : Answer)
  deriving DecidableEq, Repr

/-- What an event makes of the controller. -/
def step (caps : Caps) (c : Controller) : Event → Option Controller
  | .tick ms => some { c with now := c.now + ms }
  | .enterDrain remoteAddress => some (enterDrainHandler remoteAddress c)
  | .trigger trigger => some (shutdown trigger c)
  | .work (.http path) => some (createDrainGateMiddleware path c)
  | .work .handshake => some (drainHandshakeGuard c)
  | .work .packet => some (drainPacketGuard c)
  | .watchdog => c.sequence.bind (Shutdown.watchdog caps c)
  | .go answer => c.sequence.bind fun q ↦ proceed caps c q answer

/-- The controller from the loading of the module on. -/
def machine (caps : Caps) : Machine Controller Event := .ofStep .initial (step caps)

/-! ### What the log tells -/

/-- The states that were set. -/
def states (log : List Act) : List ShutdownState :=
  log.filterMap fun | .setState state => some state | _ => none

/-- The phases that were started. -/
def phases (log : List Act) : List Phase := log.filterMap fun | .phase name => some name | _ => none

/-- The calls of the dependencies. -/
def calls (log : List Act) : List Dep := log.filterMap fun | .call dep => some dep | _ => none

/-- The codes of the calls of `exit`. -/
def exits (log : List Act) : List Nat := log.filterMap fun | .exit code => some code | _ => none

/-- The states passed through to a state. -/
def ShutdownState.path : ShutdownState → List ShutdownState
  | .running => []
  | .draining => [.draining]
  | .stopping => [.draining, .stopping]
  | .stopped => [.draining, .stopping, .stopped]

/-- The phases in their order. -/
def allPhases : List Phase := [.settle, .http, .room, .socket, .cache, .pg]

/-- The calls of the phases after the polls of `getInflight`. -/
def allCalls : List Dep := [.drainRooms, .ioClose, .closeCache, .closePool]

/-- Work the gates let through while draining. -/
def Work.Allowed (work : Work) : Prop := ∃ path ∈ drainAllowlist, work = .http path

/-- Whatever is admitted after the state was first set is allowed while draining. -/
def GateOk (log : List Act) : Prop :=
  ∀ before work after, log = before ++ .admitted work :: after → states before ≠ [] → work.Allowed

section Log

variable (log log' : List Act)

private theorem states_append : states (log ++ log') = states log ++ states log' :=
  List.filterMap_append

private theorem phases_append : phases (log ++ log') = phases log ++ phases log' :=
  List.filterMap_append

private theorem calls_append : calls (log ++ log') = calls log ++ calls log' :=
  List.filterMap_append

private theorem exits_append : exits (log ++ log') = exits log ++ exits log' :=
  List.filterMap_append

variable {log log'} {a : Act}

private theorem GateOk.append (h : GateOk log)
    (ha : ∀ work, a = .admitted work → states log ≠ [] → work.Allowed) : GateOk (log ++ [a]) := by
  intro before work after heq hstates
  rcases List.eq_nil_or_concat after with rfl | ⟨init, last, rfl⟩
  · obtain ⟨rfl, hlast⟩ := List.append_inj' heq rfl
    exact ha work (List.cons.inj hlast).1 hstates
  · rw [List.concat_eq_append, ← List.cons_append, ← List.append_assoc] at heq
    exact h before work init (List.append_inj' heq rfl).1 hstates

end Log

/-- The sequence is past its phases. -/
def Point.over : Point → Bool
  | .unwinding | .ended => true
  | _ => false

/-- The phases started when the sequence waits at a point. -/
def Point.phases : Point → List Phase
  | .next .settle => []
  | .settling _ | .next .http => [.settle]
  | .polling .. | .next .room => [.settle, .http]
  | .drainingRooms _ | .next .socket => [.settle, .http, .room]
  | .closingIo .. | .forcingIo _ | .next .cache => [.settle, .http, .room, .socket]
  | .closingCache _ | .next .pg => [.settle, .http, .room, .socket, .cache]
  | .closingPool _ | .unwinding | .ended => allPhases

/-- The calls made by then, after the polls. -/
def Point.calls : Point → List Dep
  | .next .settle | .settling _ | .next .http | .polling .. | .next .room => []
  | .drainingRooms _ | .next .socket => [.drainRooms]
  | .closingIo .. | .forcingIo _ | .next .cache => [.drainRooms, .ioClose]
  | .closingCache _ | .next .pg => [.drainRooms, .ioClose, .closeCache]
  | .closingPool _ | .unwinding | .ended => allCalls

/-- `poolEnded` when the sequence waits at a point. -/
def Point.poolEnded : Point → Bool
  | .closingPool _ | .unwinding | .ended => true
  | _ => false

/-- How far the sequence is from its end: the phases ahead, and the polls that fit before the
deadline of `phaseHttp`. -/
def Point.left (caps : Caps) : Point → Nat
  | .next .settle => 14 + caps.http
  | .settling _ => 13 + caps.http
  | .next .http => 12 + caps.http
  | .polling deadline due => 11 + (deadline - due)
  | .next .room => 10
  | .drainingRooms _ => 9
  | .next .socket => 8
  | .closingIo .. => 7
  | .forcingIo _ => 6
  | .next .cache => 5
  | .closingCache _ => 4
  | .next .pg => 3
  | .closingPool _ => 2
  | .unwinding => 1
  | .ended => 0

/-- The sequence has gone on to another point: what it has started and called there. -/
structure Advances (caps : Caps) (c : Controller) (q : Sequence) (c' : Controller) (point : Point) :
    Prop where
  sequence : c'.sequence = some { q with point := point }
  state : c'.state = c.state
  live : point ≠ .ended
  phases : phases c.log = q.point.phases → phases c'.log = point.phases
  calls : ∀ n, calls c.log = List.replicate n Dep.getInflight ++ q.point.calls →
    ∃ m, calls c'.log = List.replicate m Dep.getInflight ++ point.calls
  pool : c'.poolEnded = point.poolEnded
  states : states c'.log = states c.log
  exits : exits c'.log = exits c.log
  gate : GateOk c.log → GateOk c'.log
  left : point.left caps < q.point.left caps

/-- The act is a phase's own: it sets no state, exits nothing and admits nothing. -/
def Act.ofPhase : Act → Bool
  | .phase _ | .finished .. | .call _ => true
  | _ => false

section Advances

variable {caps : Caps} {c c' : Controller} {q : Sequence} {point : Point}

private theorem states_ofPhase {acts : List Act} (h : acts.all Act.ofPhase = true) :
    states acts = [] := by
  rw [states, List.filterMap_eq_nil_iff]
  intro a ha
  cases a with
  | setState state => cases List.all_eq_true.mp h _ ha
  | _ => rfl

private theorem exits_ofPhase {acts : List Act} (h : acts.all Act.ofPhase = true) : exits acts =
    [] := by
  rw [exits, List.filterMap_eq_nil_iff]
  intro a ha
  cases a with
  | exit code => cases List.all_eq_true.mp h _ ha
  | _ => rfl

private theorem GateOk.acts {log acts : List Act} (h : GateOk log)
    (hacts : acts.all Act.ofPhase = true) :
    GateOk (log ++ acts) := by
  induction acts generalizing log with
  | nil => exact (List.append_nil log).symm ▸ h
  | cons a acts ih =>
    rw [List.all_cons, Bool.and_eq_true] at hacts
    rw [List.append_cons]
    refine ih (h.append ?_) hacts.2
    rintro work rfl
    cases hacts.1

/-- A phase's acts that fit the way from one point to the next. -/
theorem advances_of_acts (acts : List Act) (hlog : c'.log = c.log ++ acts)
    (hsequence : c'.sequence = some { q with point := point }) (hstate : c'.state = c.state)
    (hlive : point ≠ .ended) (hpool : c'.poolEnded = point.poolEnded)
    (hacts : acts.all Act.ofPhase = true) (hphases : q.point.phases ++ phases acts = point.phases)
    (hcalls : ∀ n, ∃ m, List.replicate n Dep.getInflight ++ (q.point.calls ++ calls acts) =
      List.replicate m Dep.getInflight ++ point.calls)
    (hleft : point.left caps < q.point.left caps) : Advances caps c q c' point where
  sequence := hsequence
  state := hstate
  live := hlive
  phases h := by
    rw [hlog, phases_append, h, hphases]
  calls n h := by
    obtain ⟨m, hm⟩ := hcalls n
    refine ⟨m, ?_⟩
    rw [hlog, calls_append, h, List.append_assoc, hm]
  pool := hpool
  states := by
    rw [hlog, states_append, states_ofPhase hacts, List.append_nil]
  exits := by
    rw [hlog, exits_append, exits_ofPhase hacts, List.append_nil]
  gate h := by
    rw [hlog]
    exact h.acts hacts
  left := hleft

/-- One turn of the poll loop waits for the next, or ends the phase. -/
theorem poll_advances {deadline : Nat} {first last : Option Nat} (acts : List Act)
    {before : Controller} (hlog : before.log = c.log ++ acts) (hstate : before.state = c.state)
    (hnow : before.now = c.now) (hpool : before.poolEnded = false)
    (hacts : acts.all Act.ofPhase = true)
    (hphases : q.point.phases ++ phases acts = [.settle, .http]) (hcalls : q.point.calls = [])
    (hnone : calls acts = []) (hleft : ∀ due, c.now < due → due ≤ deadline →
      11 + (deadline - due) < q.point.left caps) (hten : 10 < q.point.left caps) :
    ∃ point, Advances caps c q (poll before q deadline first last) point := by
  unfold poll
  dsimp only
  split
  · next hmore =>
    refine ⟨.polling deadline (before.now + min httpPollMs (deadline - before.now)), ?_⟩
    have hpoll : 0 < min httpPollMs (deadline - before.now) := by
      have hlt : before.now < deadline := hmore.2
      unfold httpPollMs
      omega
    refine advances_of_acts (acts ++ [Act.call .getInflight]) ?_ rfl hstate nofun hpool ?_ ?_ ?_ ?_
    · simp [Controller.act, Controller.at, hlog]
    · simp [hacts, Act.ofPhase]
    · rw [phases_append, ← List.append_assoc, hphases]
      rfl
    · intro n
      refine ⟨n + 1, ?_⟩
      rw [hcalls, calls_append, hnone, List.replicate_succ']
      simp [Point.calls, calls]
    · have hlt : before.now < deadline := hmore.2
      refine hleft _ ?_ ?_
      · omega
      · omega
  · refine ⟨.next .room, ?_⟩
    generalize (if 0 < last.getD 0 then PhaseResult.timeout else .completed) = result
    refine advances_of_acts
      (acts ++ [Act.call .getInflight, .call .getInflight, .finished .http result])
      ?_ rfl hstate nofun hpool ?_ ?_ ?_ hten
    · simp [Controller.act, Controller.at, Controller.finish, Phase.after, hlog]
    · simp [hacts, Act.ofPhase]
    · rw [phases_append, ← List.append_assoc, hphases]
      rfl
    · intro n
      refine ⟨n + 2, ?_⟩
      rw [hcalls, calls_append, hnone, List.replicate_succ', List.replicate_succ']
      simp [Point.calls, calls]

/-- The calls at the next point are those made before and the new ones. -/
theorem calls_next {made next : List Dep} {acts : List Act} (h : made ++ calls acts = next) (n : Nat) :
    ∃ m, List.replicate n Dep.getInflight ++ (made ++ calls acts) =
      List.replicate m Dep.getInflight ++ next := ⟨n, by rw [h]⟩

/-- A phase that ends where its last wait is over. -/
theorem finish_advances {name : Phase} {result : PhaseResult} (hlive : name.after ≠ .ended)
    (hpool : c.poolEnded = name.after.poolEnded) (hphases : q.point.phases = name.after.phases)
    (hcalls : q.point.calls = name.after.calls)
    (hleft : name.after.left caps < q.point.left caps) :
    Advances caps c q (c.finish q name result) name.after := by
  refine advances_of_acts [.finished name result] rfl rfl rfl hlive hpool rfl ?_ ?_ hleft
  · exact (List.append_nil _).trans hphases
  · exact calls_next ((List.append_nil _).trans hcalls)

section Calls

variable {before : Controller} {phase : Phase} {dep : Dep}
  (hlog : before.log = c.log ++ [Act.phase phase, .call dep]) (hstate : before.state = c.state)
  (hpoint : q.point = .next phase)

include hlog hstate hpoint

/-- A phase that has called its dependency waits. -/
theorem wait_advances (hlive : point ≠ .ended) (hpool : before.poolEnded = point.poolEnded)
    (hphases : (Point.next phase).phases ++ [phase] = point.phases)
    (hcalls : (Point.next phase).calls ++ [dep] = point.calls)
    (hleft : point.left caps < (Point.next phase).left caps) :
    Advances caps c q (before.at q point) point := by
  refine advances_of_acts _ hlog rfl hstate hlive hpool rfl ?_ ?_ ?_
  · rw [hpoint]
    exact hphases
  · rw [hpoint]
    exact calls_next hcalls
  · rw [hpoint]
    exact hleft

/-- A phase that has called its dependency ends at once. -/
theorem end_advances {result : PhaseResult} (hlive : phase.after ≠ .ended)
    (hpool : before.poolEnded = phase.after.poolEnded)
    (hphases : (Point.next phase).phases ++ [phase] = phase.after.phases)
    (hcalls : (Point.next phase).calls ++ [dep] = phase.after.calls)
    (hleft : phase.after.left caps < (Point.next phase).left caps) :
    Advances caps c q (before.finish q phase result) phase.after := by
  refine advances_of_acts [.phase phase, .call dep, .finished phase result] ?_ rfl hstate hlive
    hpool rfl ?_ ?_ ?_
  · simp [Controller.finish, Controller.act, Controller.at, hlog]
  · rw [hpoint]
    exact hphases
  · rw [hpoint]
    exact calls_next hcalls
  · rw [hpoint]
    exact hleft

end Calls

private theorem closeIoOnce_eq {answer : Answer} (h : closeIoOnce c answer = some c') :
    c' = c.act (.call .ioClose) := by
  cases answer with
  | throws => exact (Option.some.inj h).symm
  | returns => exact (Option.some.inj h).symm
  | _ => cases h

/-- A phase from its start to its first wait or, where nothing is to be waited for, to its end. -/
theorem startPhase_advances {phase : Phase} {answer : Answer} (hpoint : q.point = .next phase)
    (hpool : c.poolEnded = q.point.poolEnded) (h : startPhase caps c q phase answer = some c') :
    ∃ point, Advances caps c q c' point := by
  have hopen : c.poolEnded = false := by rw [hpool, hpoint]; rfl
  cases phase with
  | settle =>
    cases answer with
    | proceed =>
      obtain rfl := Option.some.inj h
      split
      · refine ⟨.next .http, advances_of_acts [.phase .settle, .finished .settle .completed]
          ?_ rfl rfl nofun hopen rfl ?_ ?_ ?_⟩
        · simp [Controller.act, Controller.at, Controller.finish]
        · rw [hpoint]; rfl
        · rw [hpoint]; exact calls_next rfl
        · rw [hpoint]
          change 12 + caps.http < 14 + caps.http
          omega
      · refine ⟨.settling _, advances_of_acts [.phase .settle] rfl rfl rfl nofun hopen rfl ?_ ?_ ?_⟩
        · rw [hpoint]; rfl
        · rw [hpoint]; exact calls_next rfl
        · rw [hpoint]
          change 13 + caps.http < 14 + caps.http
          omega
    | _ => cases h
  | http =>
    cases answer with
    | inflight first last =>
      obtain rfl := Option.some.inj h
      refine poll_advances [.phase .http] rfl rfl rfl hopen rfl ?_ ?_ rfl ?_ ?_
      · rw [hpoint]; rfl
      · rw [hpoint]; rfl
      · intro due hdue hle
        have hcap : budget caps (c.act (.phase .http)) q caps.http ≤ caps.http := Nat.min_le_left _ _
        rw [hpoint]
        change 11 + (c.now + _ - due) < 12 + caps.http
        omega
      · rw [hpoint]
        change 10 < 12 + caps.http
        omega
    | _ => cases h
  | room =>
    have hcalled : ((c.act (.phase .room)).act (.call .drainRooms)).log =
        c.log ++ [Act.phase .room, .call .drainRooms] := by simp [Controller.act]
    have hleft : 8 < 10 := by decide
    have hleft' : 9 < 10 := by decide
    cases answer with
    | throws =>
      obtain rfl := Option.some.inj h
      exact ⟨_, end_advances hcalled rfl hpoint nofun hopen rfl rfl hleft⟩
    | returns =>
      obtain rfl := Option.some.inj h
      split
      · exact ⟨_, end_advances hcalled rfl hpoint nofun hopen rfl rfl hleft⟩
      · exact ⟨_, wait_advances hcalled rfl hpoint nofun hopen rfl rfl hleft'⟩
    | _ => cases h
  | socket =>
    have hcalled : ((c.act (.phase .socket)).act (.call .ioClose)).log =
        c.log ++ [Act.phase .socket, .call .ioClose] := by simp [Controller.act]
    have hforce : ∀ settle, ∃ point, Advances caps c q
        (forceIo ((c.act (.phase .socket)).act (.call .ioClose)) q settle) point := by
      intro settle
      have hleft : 5 < 8 := by decide
      have hleft' : 6 < 8 := by decide
      unfold forceIo
      split
      · exact ⟨_, end_advances hcalled rfl hpoint nofun hopen rfl rfl hleft⟩
      · exact ⟨_, wait_advances hcalled rfl hpoint nofun hopen rfl rfl hleft'⟩
    have hleft : 7 < 8 := by decide
    obtain ⟨before, hclose, rfl⟩ := Option.map_eq_some_iff.mp h
    obtain rfl := closeIoOnce_eq hclose
    dsimp only
    split
    · exact hforce _
    · exact ⟨_, wait_advances hcalled rfl hpoint nofun hopen rfl rfl hleft⟩
  | cache =>
    have hcalled : ((c.act (.phase .cache)).act (.call .closeCache)).log =
        c.log ++ [Act.phase .cache, .call .closeCache] := by simp [Controller.act]
    have hleft : 3 < 5 := by decide
    have hleft' : 4 < 5 := by decide
    cases answer with
    | throws =>
      obtain rfl := Option.some.inj h
      exact ⟨_, end_advances hcalled rfl hpoint nofun hopen rfl rfl hleft⟩
    | returns =>
      obtain rfl := Option.some.inj h
      split
      · exact ⟨_, end_advances hcalled rfl hpoint nofun hopen rfl rfl hleft⟩
      · exact ⟨_, wait_advances hcalled rfl hpoint nofun hopen rfl rfl hleft'⟩
    | _ => cases h
  | pg =>
    have hcalled : ({ (c.act (.phase .pg)) with poolEnded := true }.act (.call .closePool)).log =
        c.log ++ [Act.phase .pg, .call .closePool] := by simp [Controller.act]
    have hnot : ¬ (c.act (.phase .pg)).poolEnded = true := by
      change ¬ c.poolEnded = true
      rw [hopen]
      exact Bool.false_ne_true
    have hleft : 1 < 3 := by decide
    have hleft' : 2 < 3 := by decide
    cases answer with
    | throws =>
      simp only [startPhase, phasePg] at h
      rw [if_neg hnot] at h
      obtain rfl := Option.some.inj h
      exact ⟨_, end_advances hcalled rfl hpoint nofun rfl rfl rfl hleft⟩
    | returns =>
      simp only [startPhase, phasePg] at h
      rw [if_neg hnot] at h
      obtain rfl := Option.some.inj h
      split
      · exact ⟨_, end_advances hcalled rfl hpoint nofun rfl rfl rfl hleft⟩
      · exact ⟨_, wait_advances hcalled rfl hpoint nofun rfl rfl rfl hleft'⟩
    | _ => cases h

private theorem onTimer_eq_some {due : Nat} {next : Controller} (h : onTimer c due next = some c') :
    due ≤ c.now ∧ c' = next := by
  unfold onTimer at h
  split at h
  · next hdue => exact ⟨hdue, (Option.some.inj h).symm⟩
  · cases h

/-- A wait that is over ends its phase. -/
theorem wait_over {name : Phase} (hpoint : q.point.phases = name.after.phases)
    (hcalls : q.point.calls = name.after.calls) (hlive : name.after ≠ .ended)
    (hpool : c.poolEnded = q.point.poolEnded) (hsame : q.point.poolEnded = name.after.poolEnded)
    (hleft : name.after.left caps < q.point.left caps) (result : PhaseResult) :
    ∃ point, Advances caps c q (c.finish q name result) point :=
  ⟨_, finish_advances hlive (hpool.trans hsame) hpoint hcalls hleft⟩

/-- The waits of the sequence, and the phases they are part of. -/
private theorem waits_over (caps : Caps) (hpool : c.poolEnded = q.point.poolEnded)
    (result : PhaseResult) :
    (∀ due, q.point = .settling due → ∃ p, Advances caps c q (c.finish q .settle result) p) ∧
    (∀ due, q.point = .drainingRooms due → ∃ p, Advances caps c q (c.finish q .room result) p) ∧
    (∀ due settle, q.point = .closingIo due settle →
      ∃ p, Advances caps c q (c.finish q .socket result) p) ∧
    (∀ due, q.point = .forcingIo due → ∃ p, Advances caps c q (c.finish q .socket result) p) ∧
    (∀ due, q.point = .closingCache due → ∃ p, Advances caps c q (c.finish q .cache result) p) ∧
    ∀ due, q.point = .closingPool due → ∃ p, Advances caps c q (c.finish q .pg result) p := by
  refine ⟨fun due h ↦ ?_, fun due h ↦ ?_, fun due settle h ↦ ?_, fun due h ↦ ?_, fun due h ↦ ?_,
    fun due h ↦ ?_⟩
  all_goals
    refine wait_over (by rw [h]; rfl) (by rw [h]; rfl) (by decide) hpool (by rw [h]; rfl) ?_ result
    rw [h]
    simp only [Phase.after, Point.left]
    omega

/-- The sequence goes on in one of three ways: it fails, it ends, or it advances. -/
theorem proceed_cases {answer : Answer}
    (hpool : q.point.over = false → c.poolEnded = q.point.poolEnded)
    (h : proceed caps c q answer = some c') :
    (q.point.over = false ∧ c' = c.at { q with failed := true } .unwinding) ∨
    (q.point = .unwinding ∧ c' = unwind c q) ∨
    (q.point.over = false ∧ ∃ point, Advances caps c q c' point) := by
  unfold proceed at h
  cases hpoint : q.point with
  | ended =>
    rw [hpoint] at h
    cases h
  | unwinding =>
    rw [hpoint] at h
    cases answer with
    | proceed => exact Or.inr (Or.inl ⟨rfl, (Option.some.inj h).symm⟩)
    | _ => cases h
  | next phase =>
    rw [hpoint] at h hpool
    cases answer with
    | fails => exact Or.inl ⟨rfl, (Option.some.inj h).symm⟩
    | _ => exact Or.inr (Or.inr ⟨rfl, startPhase_advances hpoint (hpoint ▸ hpool rfl) h⟩)
  | settling due =>
    have hover := fun result ↦ (waits_over caps (hpool (hpoint ▸ rfl)) result).1 due hpoint
    rw [hpoint] at h
    cases answer with
    | fails => exact Or.inl ⟨rfl, (Option.some.inj h).symm⟩
    | timer =>
      obtain ⟨-, rfl⟩ := onTimer_eq_some h
      exact Or.inr (Or.inr ⟨rfl, hover _⟩)
    | _ => cases h
  | polling deadline due =>
    rw [hpoint] at h hpool
    cases answer with
    | fails => exact Or.inl ⟨rfl, (Option.some.inj h).symm⟩
    | inflight first last =>
      obtain ⟨hdue, rfl⟩ := onTimer_eq_some h
      refine Or.inr (Or.inr ⟨rfl, poll_advances [] (List.append_nil _).symm rfl rfl
        (hpool rfl) rfl ?_ ?_ rfl ?_ ?_⟩)
      · rw [hpoint]; rfl
      · rw [hpoint]; rfl
      · intro due' hdue' hle
        rw [hpoint]
        change 11 + (deadline - due') < 11 + (deadline - due)
        omega
      · rw [hpoint]
        change 10 < 11 + (deadline - due)
        omega
    | _ => cases h
  | drainingRooms due =>
    have hover := fun result ↦
      (waits_over caps (hpool (hpoint ▸ rfl)) result).2.1 due hpoint
    rw [hpoint] at h
    cases answer with
    | fails => exact Or.inl ⟨rfl, (Option.some.inj h).symm⟩
    | fulfilled good => exact Or.inr (Or.inr ⟨rfl, Option.some.inj h ▸ hover _⟩)
    | rejected => exact Or.inr (Or.inr ⟨rfl, Option.some.inj h ▸ hover _⟩)
    | timer =>
      obtain ⟨-, rfl⟩ := onTimer_eq_some h
      exact Or.inr (Or.inr ⟨rfl, hover _⟩)
    | _ => cases h
  | closingIo due settle =>
    have hsame := hpool (hpoint ▸ rfl)
    have hover := fun result ↦
      (waits_over caps hsame result).2.2.1 due settle hpoint
    rw [hpoint] at h hsame
    cases answer with
    | fails => exact Or.inl ⟨rfl, (Option.some.inj h).symm⟩
    | fulfilled good => exact Or.inr (Or.inr ⟨rfl, Option.some.inj h ▸ hover _⟩)
    | rejected => exact Or.inr (Or.inr ⟨rfl, Option.some.inj h ▸ hover _⟩)
    | timer =>
      obtain ⟨-, rfl⟩ := onTimer_eq_some h
      refine Or.inr (Or.inr ⟨rfl, ?_⟩)
      unfold forceIo
      split
      · exact hover _
      · have hleft : 6 < 7 := by decide
        refine ⟨.forcingIo _, advances_of_acts [] (List.append_nil _).symm rfl rfl nofun hsame
          rfl ?_ ?_ (hpoint ▸ hleft)⟩
        · rw [hpoint]; rfl
        · rw [hpoint]; exact calls_next rfl
    | _ => cases h
  | forcingIo due =>
    have hover := fun result ↦
      (waits_over caps (hpool (hpoint ▸ rfl)) result).2.2.2.1 due hpoint
    rw [hpoint] at h
    cases answer with
    | fails => exact Or.inl ⟨rfl, (Option.some.inj h).symm⟩
    | fulfilled good => exact Or.inr (Or.inr ⟨rfl, Option.some.inj h ▸ hover _⟩)
    | rejected => exact Or.inr (Or.inr ⟨rfl, Option.some.inj h ▸ hover _⟩)
    | timer =>
      obtain ⟨-, rfl⟩ := onTimer_eq_some h
      exact Or.inr (Or.inr ⟨rfl, hover _⟩)
    | _ => cases h
  | closingCache due =>
    have hover := fun result ↦
      (waits_over caps (hpool (hpoint ▸ rfl)) result).2.2.2.2.1 due hpoint
    rw [hpoint] at h
    cases answer with
    | fails => exact Or.inl ⟨rfl, (Option.some.inj h).symm⟩
    | fulfilled good => exact Or.inr (Or.inr ⟨rfl, Option.some.inj h ▸ hover _⟩)
    | rejected => exact Or.inr (Or.inr ⟨rfl, Option.some.inj h ▸ hover _⟩)
    | timer =>
      obtain ⟨-, rfl⟩ := onTimer_eq_some h
      exact Or.inr (Or.inr ⟨rfl, hover _⟩)
    | _ => cases h
  | closingPool due =>
    have hover := fun result ↦
      (waits_over caps (hpool (hpoint ▸ rfl)) result).2.2.2.2.2 due hpoint
    rw [hpoint] at h
    cases answer with
    | fails => exact Or.inl ⟨rfl, (Option.some.inj h).symm⟩
    | fulfilled good => exact Or.inr (Or.inr ⟨rfl, Option.some.inj h ▸ hover _⟩)
    | rejected => exact Or.inr (Or.inr ⟨rfl, Option.some.inj h ▸ hover _⟩)
    | timer =>
      obtain ⟨-, rfl⟩ := onTimer_eq_some h
      exact Or.inr (Or.inr ⟨rfl, hover _⟩)
    | _ => cases h

end Advances

/-! ### The invariant -/

/-- What holds of the controller while it has a sequence. -/
structure Placed (c : Controller) (q : Sequence) : Prop where
  phases : phases c.log <+: allPhases
  calls : ∃ n, calls c.log <+: List.replicate n Dep.getInflight ++ allCalls
  here : q.point.over = false → Shutdown.phases c.log = q.point.phases ∧
    (∃ n, Shutdown.calls c.log = List.replicate n Dep.getInflight ++ q.point.calls) ∧
    c.poolEnded = q.point.poolEnded
  state : c.state = if q.point = .ended ∧ q.watchdogFired = false then .stopped else .stopping
  exits : exits c.log = if q.watchdogFired then [1] else if q.point = .ended then [q.code] else []

/-- What holds of the controller before a sequence has started. -/
structure Waiting (c : Controller) : Prop where
  state : c.state = .running ∨ c.state = .draining
  phases : phases c.log = []
  calls : calls c.log = []
  exits : exits c.log = []
  pool : c.poolEnded = false

/-- What holds of the controller. -/
structure Ok (c : Controller) : Prop where
  states : states c.log = c.state.path
  gate : GateOk c.log
  sequence : match c.sequence with
    | none => Waiting c
    | some q => Placed c q

private theorem Point.phases_prefix (point : Point) : point.phases <+: allPhases := by
  cases point with
  | next phase => cases phase <;> exact ⟨_, rfl⟩
  | _ => exact ⟨_, rfl⟩

private theorem Point.calls_prefix (point : Point) : point.calls <+: allCalls := by
  cases point with
  | next phase => cases phase <;> exact ⟨_, rfl⟩
  | _ => exact ⟨_, rfl⟩

/-- Nothing was started, called or exited in between. -/
structure Same (c c' : Controller) : Prop where
  phases : phases c'.log = phases c.log
  calls : calls c'.log = calls c.log
  exits : exits c'.log = exits c.log
  pool : c'.poolEnded = c.poolEnded

section Ok

variable {caps : Caps} {c c' : Controller} {q : Sequence}

/-- One act that is none of these. -/
theorem Same.act {a : Act} (hlog : c'.log = c.log ++ [a]) (hpool : c'.poolEnded = c.poolEnded)
    (hphases : Shutdown.phases [a] = []) (hcalls : Shutdown.calls [a] = [])
    (hexits : Shutdown.exits [a] = []) : Same c c' where
  phases := by rw [hlog, phases_append, hphases, List.append_nil]
  calls := by rw [hlog, calls_append, hcalls, List.append_nil]
  exits := by rw [hlog, exits_append, hexits, List.append_nil]
  pool := hpool

private theorem Waiting.same (h : Waiting c) (hsame : Same c c')
    (hstate : c'.state = .running ∨ c'.state = .draining) : Waiting c' :=
  ⟨hstate, hsame.phases.trans h.phases, hsame.calls.trans h.calls, hsame.exits.trans h.exits,
    hsame.pool.trans h.pool⟩

private theorem Placed.same (h : Placed c q) (hsame : Same c c') (hstate : c'.state = c.state) :
    Placed c' q where
  phases := hsame.phases ▸ h.phases
  calls := hsame.calls ▸ h.calls
  here hover := by
    rw [hsame.phases, hsame.calls, hsame.pool]
    exact h.here hover
  state := hstate.trans h.state
  exits := hsame.exits.trans h.exits

private theorem Ok.same (h : Ok c) (hsame : Same c c') (hstate : c'.state = c.state)
    (hstates : Shutdown.states c'.log = Shutdown.states c.log) (hgate : GateOk c'.log)
    (hsequence : c'.sequence = c.sequence) : Ok c' where
  states := by rw [hstates, hstate, h.states]
  gate := hgate
  sequence := by
    have hc := h.sequence
    rw [hsequence]
    revert hc
    cases c.sequence with
    | none => exact fun hc ↦ hc.same hsame (hstate ▸ hc.state)
    | some q => exact fun hc ↦ hc.same hsame hstate

private theorem initial_ok : Ok .initial where
  states := rfl
  gate before work after h := by
    rcases List.append_eq_nil_iff.mp h.symm with ⟨-, hnil⟩
    cases hnil
  sequence := ⟨Or.inl rfl, rfl, rfl, rfl, rfl⟩

private theorem tick_ok (ms : Nat) (h : Ok c) : Ok { c with now := c.now + ms } :=
  h.same ⟨rfl, rfl, rfl, rfl⟩ rfl rfl h.gate rfl

private theorem gate_ok (work : Work) (h : Ok c) : Ok (gate work c) := by
  unfold gate
  by_cases hadmits : admits c work = true
  · rw [if_pos hadmits]
    refine h.same (.act rfl rfl rfl rfl rfl) rfl ?_ (h.gate.append ?_) rfl
    · exact (states_append _ _).trans (List.append_nil _)
    · intro work' heq hstates
      obtain rfl := Act.admitted.inj heq
      rw [h.states] at hstates
      have hleft : c.state ≠ .running := fun hrunning ↦ hstates (hrunning ▸ rfl)
      unfold admits at hadmits
      rw [Bool.or_eq_true, beq_iff_eq, or_iff_right hleft] at hadmits
      cases work with
      | http path => exact ⟨path, List.contains_iff_mem.mp hadmits, rfl⟩
      | _ => cases hadmits
  · rw [if_neg hadmits]
    refine h.same (.act rfl rfl rfl rfl rfl) rfl ?_ (h.gate.append nofun) rfl
    exact (states_append _ _).trans (List.append_nil _)

/-- A started sequence has left RUNNING. -/
theorem Placed.left (h : Placed c q) : c.state = .stopping ∨ c.state = .stopped := by
  rw [h.state]
  split
  · exact Or.inr rfl
  · exact Or.inl rfl

private theorem enterDraining_ok (prestop : Bool) (h : Ok c) : Ok (enterDraining prestop c) := by
  unfold enterDraining
  split
  · exact h
  · next hrunning =>
    rw [not_not] at hrunning
    have hstates := h.states
    have hsequence := h.sequence
    rw [hrunning] at hstates
    refine ⟨?_, h.gate.append nofun, ?_⟩
    · exact (states_append _ _).trans (congrArg (· ++ _) hstates)
    · change match c.sequence with | none => _ | some q => _
      revert hsequence
      cases c.sequence with
      | none => exact fun hwaiting ↦ hwaiting.same (.act rfl rfl rfl rfl rfl) (Or.inr rfl)
      | some q =>
        intro hplaced
        rcases hplaced.left with hstate | hstate <;> rw [hrunning] at hstate <;> cases hstate

/-- Before its sequence the process is DRAINING at the latest, and is so when it starts. -/
theorem enterDraining_state (hwaiting : Waiting c) (prestop : Bool) :
    (enterDraining prestop c).state = .draining ∧ (enterDraining prestop c).sequence = c.sequence := by
  unfold enterDraining
  split
  · next hne => exact ⟨hwaiting.state.resolve_left hne, rfl⟩
  · exact ⟨rfl, rfl⟩

private theorem shutdown_ok (trigger : Trigger) (h : Ok c) : Ok (shutdown trigger c) := by
  unfold shutdown
  cases hsequence : c.sequence with
  | some q => exact h
  | none =>
    have hc := h.sequence
    rw [hsequence] at hc
    have hdraining := enterDraining_ok false h
    obtain ⟨hstate, hnone⟩ := enterDraining_state hc false
    have hwaiting := hdraining.sequence
    rw [hnone, hsequence] at hwaiting
    dsimp only
    have hsame : Same (enterDraining false c) ((enterDraining false c).setState .stopping) :=
      .act rfl rfl rfl rfl rfl
    refine ⟨?_, hdraining.gate.append nofun, ?_⟩
    · have hstates := hdraining.states
      rw [hstate] at hstates
      exact (states_append _ _).trans (congrArg (· ++ _) hstates)
    · have hphases := hsame.phases.trans hwaiting.phases
      have hcalls := hsame.calls.trans hwaiting.calls
      refine ⟨?_, ⟨0, ?_⟩, fun _ ↦ ⟨hphases, ⟨0, hcalls⟩, hsame.pool.trans hwaiting.pool⟩, rfl,
        hsame.exits.trans hwaiting.exits⟩
      · exact hphases.symm ▸ List.nil_prefix
      · exact hcalls.symm ▸ List.nil_prefix

private theorem watchdog_ok (h : Ok c) (hsequence : c.sequence = some q)
    (hfires : watchdog caps c q = some c') : Ok c' := by
  have hplaced := h.sequence
  rw [hsequence] at hplaced
  unfold watchdog at hfires
  split at hfires
  · next harmed =>
    obtain ⟨hlive, hunfired, -⟩ := harmed
    obtain rfl := Option.some.inj hfires
    refine ⟨?_, h.gate.append nofun, ?_⟩
    · exact ((states_append _ _).trans (List.append_nil _)).trans h.states
    · have hphases : phases (c.log ++ [Act.exit 1]) = phases c.log :=
        (phases_append _ _).trans (List.append_nil _)
      have hcalls : calls (c.log ++ [Act.exit 1]) = calls c.log :=
        (calls_append _ _).trans (List.append_nil _)
      have hstate := hplaced.state
      have hexits := hplaced.exits
      rw [if_neg fun hended ↦ hlive hended.1] at hstate
      rw [hunfired, if_neg Bool.false_ne_true, if_neg hlive] at hexits
      refine ⟨hphases.symm ▸ hplaced.phases, ?_, ?_, ?_, ?_⟩
      · obtain ⟨n, hn⟩ := hplaced.calls
        exact ⟨n, hcalls.symm ▸ hn⟩
      · intro hover
        obtain ⟨hp, ⟨n, hn⟩, hpool⟩ := hplaced.here hover
        exact ⟨hphases.trans hp, ⟨n, hcalls.trans hn⟩, hpool⟩
      · rw [if_neg fun hended ↦ hlive hended.1]
        exact hstate
      · exact (exits_append _ _).trans (congrArg (· ++ _) hexits)
  · cases hfires

/-- The end of the sequence. -/
theorem unwind_ok (h : Ok c) (hsequence : c.sequence = some q) (hpoint : q.point = .unwinding) :
    Ok (unwind c q) := by
  have hplaced := h.sequence
  rw [hsequence] at hplaced
  have hstate := hplaced.state
  have hexits := hplaced.exits
  rw [hpoint, if_neg (show ¬ (Point.unwinding = .ended ∧ _) from nofun)] at hstate
  rw [hpoint, if_neg (show ¬ Point.unwinding = .ended from nofun)] at hexits
  unfold unwind
  split
  · next hfired =>
    rw [if_pos hfired] at hexits
    refine ⟨h.states, h.gate, ?_⟩
    refine ⟨hplaced.phases, hplaced.calls, nofun, ?_, ?_⟩
    · rw [if_neg (show ¬ (_ ∧ q.watchdogFired = false) from fun hnot ↦ by simp [hfired] at hnot)]
      exact hstate
    · rw [if_pos hfired]
      exact hexits
  · next hunfired =>
    rw [if_neg hunfired] at hexits
    rw [Bool.not_eq_true] at hunfired
    have hlog : (((c.at q .ended).setState .stopped).act (.exit q.code)).log =
        c.log ++ [Act.setState .stopped, .exit q.code] := by
      simp [Controller.act, Controller.setState, Controller.at]
    refine ⟨?_, ?_, ?_⟩
    · have hstates := h.states
      rw [hstate] at hstates
      rw [hlog, states_append, hstates]
      rfl
    · exact (h.gate.append (a := .setState .stopped) nofun).append (a := .exit q.code) nofun
    · change Placed _ { q with point := .ended }
      refine ⟨?_, ?_, nofun, ?_, ?_⟩
      · rw [hlog, phases_append]
        exact (List.append_nil _).symm ▸ hplaced.phases
      · obtain ⟨n, hn⟩ := hplaced.calls
        refine ⟨n, ?_⟩
        rw [hlog, calls_append]
        exact (List.append_nil _).symm ▸ hn
      · rw [if_pos ⟨rfl, hunfired⟩]
        rfl
      · rw [hlog, exits_append, hexits, if_neg (by rw [hunfired]; exact Bool.false_ne_true),
          if_pos rfl]
        rfl

private theorem Point.ne_ended_of_open {point : Point} (h : point.over = false) :
    point ≠ .ended := by
  rintro rfl
  cases h

private theorem fails_ok (h : Ok c) (hsequence : c.sequence = some q)
    (hopen : q.point.over = false) :
    Ok (c.at { q with failed := true } .unwinding) := by
  have hplaced := h.sequence
  rw [hsequence] at hplaced
  have hlive := Point.ne_ended_of_open hopen
  have hstate := hplaced.state
  have hexits := hplaced.exits
  rw [if_neg fun hended ↦ hlive hended.1] at hstate
  rw [if_neg hlive] at hexits
  refine ⟨h.states, h.gate, hplaced.phases, hplaced.calls, nofun, ?_, ?_⟩
  · rw [if_neg nofun]
    exact hstate
  · exact hexits

private theorem advances_ok {point : Point} (h : Ok c) (hsequence : c.sequence = some q)
    (hopen : q.point.over = false) (hadvances : Advances caps c q c' point) : Ok c' := by
  have hplaced := h.sequence
  rw [hsequence] at hplaced
  obtain ⟨hphases, ⟨n, hcalls⟩, -⟩ := hplaced.here hopen
  have hphases' := hadvances.phases hphases
  obtain ⟨m, hcalls'⟩ := hadvances.calls n hcalls
  have hlive := Point.ne_ended_of_open hopen
  have hstate := hplaced.state
  have hexits := hplaced.exits
  rw [if_neg fun hended ↦ hlive hended.1] at hstate
  rw [if_neg hlive] at hexits
  refine ⟨?_, hadvances.gate h.gate, ?_⟩
  · rw [hadvances.states, hadvances.state]
    exact h.states
  · rw [hadvances.sequence]
    refine ⟨?_, ⟨m, ?_⟩, fun _ ↦ ⟨hphases', ⟨m, hcalls'⟩, hadvances.pool⟩, ?_, ?_⟩
    · rw [hphases']
      exact point.phases_prefix
    · rw [hcalls']
      exact (List.prefix_append_right_inj _).mpr point.calls_prefix
    · rw [if_neg fun hended ↦ hadvances.live hended.1, hadvances.state]
      exact hstate
    · rw [hadvances.exits, if_neg hadvances.live]
      exact hexits

private theorem go_ok {answer : Answer} (h : Ok c) (hsequence : c.sequence = some q)
    (hgo : proceed caps c q answer = some c') : Ok c' := by
  have hplaced := h.sequence
  rw [hsequence] at hplaced
  have hpool : q.point.over = false → c.poolEnded = q.point.poolEnded :=
    fun hopen ↦ (hplaced.here hopen).2.2
  obtain ⟨hopen, rfl⟩ | ⟨hpoint, rfl⟩ | ⟨hopen, point, hadvances⟩ := proceed_cases hpool hgo
  · exact fails_ok h hsequence hopen
  · exact unwind_ok h hsequence hpoint
  · exact advances_ok h hsequence hopen hadvances

/-- Every event keeps the controller in order. -/
theorem ok_invariant (caps : Caps) : (machine caps).Invariant Ok where
  init c hc := hc ▸ initial_ok
  step c event c' h hstep := by
    cases event with
    | tick ms => exact Option.some.inj hstep ▸ tick_ok ms h
    | enterDrain remoteAddress =>
      obtain rfl := Option.some.inj hstep
      unfold enterDrainHandler
      split
      · exact enterDraining_ok true h
      · exact h
    | trigger trigger => exact Option.some.inj hstep ▸ shutdown_ok trigger h
    | work work => cases work <;> exact Option.some.inj hstep ▸ gate_ok _ h
    | watchdog =>
      obtain ⟨q, hsequence, hfires⟩ := Option.bind_eq_some_iff.mp hstep
      exact watchdog_ok h hsequence hfires
    | go answer =>
      obtain ⟨q, hsequence, hgo⟩ := Option.bind_eq_some_iff.mp hstep
      exact go_ok h hsequence hgo

end Ok

/-! ### The sequence comes to its end -/

/-- The sequence that a trigger started is still on its way. -/
def Underway (trigger : Trigger) (c : Controller) : Prop :=
  ∃ q, c.sequence = some q ∧ q.trigger = trigger ∧ q.point ≠ .ended

/-- The sequence that a trigger started has ended. -/
def Ended (trigger : Trigger) (c : Controller) : Prop :=
  ∃ q, c.sequence = some q ∧ q.trigger = trigger ∧ q.point = .ended

/-- How far the controller's sequence is from its end. -/
def Controller.left (caps : Caps) (c : Controller) : Nat :=
  match c.sequence with
  | some q => q.point.left caps
  | none => 0

/-- The sequence goes on. -/
def Event.goes : Event → Bool
  | .go _ => true
  | _ => false

/-- The event loop goes on with a sequence that is on its way. -/
def Fair {caps : Caps} (r : (machine caps).Run) : Prop :=
  ∀ n trigger, Underway trigger (r.state n) → ∃ k, n ≤ k ∧ (r.label k).goes = true

section Progress

variable {caps : Caps} {c c' : Controller} {q : Sequence}

private theorem enterDraining_sequence (prestop : Bool) (c : Controller) :
    (enterDraining prestop c).sequence = c.sequence := by
  unfold enterDraining
  split <;> rfl

/-- What is not the sequence's own leaves it where it is. -/
theorem step_underway {event : Event} {trigger : Trigger} (h : Underway trigger c)
    (hevent : event.goes = false) (hstep : step caps c event = some c') :
    Underway trigger c' ∧ c'.left caps = c.left caps := by
  obtain ⟨q, hsequence, htrigger, hlive⟩ := h
  have hsame : ∀ c'' : Controller, c''.sequence = c.sequence →
      Underway trigger c'' ∧ c''.left caps = c.left caps := by
    intro c'' heq
    refine ⟨⟨q, heq.trans hsequence, htrigger, hlive⟩, ?_⟩
    unfold Controller.left
    rw [heq]
  cases event with
  | tick ms => exact Option.some.inj hstep ▸ hsame _ rfl
  | enterDrain remoteAddress =>
    obtain rfl := Option.some.inj hstep
    unfold enterDrainHandler
    split
    · exact hsame _ (enterDraining_sequence true c)
    · exact hsame _ rfl
  | trigger other =>
    obtain rfl := Option.some.inj hstep
    unfold shutdown
    rw [hsequence]
    exact hsame _ rfl
  | work work => cases work <;> exact Option.some.inj hstep ▸ hsame _ rfl
  | watchdog =>
    obtain ⟨q', hq', hfires⟩ := Option.bind_eq_some_iff.mp hstep
    rw [hsequence, Option.some.injEq] at hq'
    subst hq'
    unfold watchdog at hfires
    split at hfires
    · obtain rfl := Option.some.inj hfires
      refine ⟨⟨_, rfl, htrigger, hlive⟩, ?_⟩
      unfold Controller.left
      rw [hsequence]
      rfl
    · cases hfires
  | go answer => cases hevent

private theorem Point.one_lt_left {point : Point} (h : point.over = false) :
    1 < point.left caps := by
  cases point with
  | next phase => cases phase <;> (simp only [Point.left]; omega)
  | unwinding => cases h
  | ended => cases h
  | _ =>
    simp only [Point.left]
    omega

/-- Each step of the sequence brings it nearer to its end. -/
theorem go_nearer {answer : Answer} {trigger : Trigger} (hok : Ok c) (h : Underway trigger c)
    (hstep : step caps c (.go answer) = some c') :
    Ended trigger c' ∨ Underway trigger c' ∧ c'.left caps < c.left caps := by
  obtain ⟨q, hsequence, htrigger, -⟩ := h
  obtain ⟨q', hq', hgo⟩ := Option.bind_eq_some_iff.mp hstep
  rw [hsequence, Option.some.injEq] at hq'
  subst hq'
  have hplaced := hok.sequence
  rw [hsequence] at hplaced
  have hleft : c.left caps = q.point.left caps := by
    unfold Controller.left
    rw [hsequence]
  obtain ⟨hopen, rfl⟩ | ⟨-, rfl⟩ | ⟨-, point, hadvances⟩ :=
    proceed_cases (fun hopen ↦ (hplaced.here hopen).2.2) hgo
  · refine Or.inr ⟨⟨_, rfl, htrigger, nofun⟩, ?_⟩
    rw [hleft]
    exact Point.one_lt_left hopen
  · refine Or.inl ?_
    unfold unwind
    split
    · exact ⟨_, rfl, htrigger, rfl⟩
    · exact ⟨_, rfl, htrigger, rfl⟩
  · refine Or.inr ⟨⟨_, hadvances.sequence, htrigger, hadvances.live⟩, ?_⟩
    rw [hleft, Controller.left, hadvances.sequence]
    exact hadvances.left

/-- The end comes in every fair run. -/
theorem ends_of_fair {r : (machine caps).Run} (hfair : Fair r) {n : Nat} {trigger : Trigger}
    (h : Underway trigger (r.state n)) : ∃ m, n ≤ m ∧ Ended trigger (r.state m) := by
  refine r.eventually (Underway trigger) (Ended trigger) (·.goes = true) (Controller.left caps)
    ?_ ?_ (fun n ↦ hfair n trigger) h
  · intro c event c' hc hunderway hstep
    cases hgoes : event.goes with
    | false =>
      obtain ⟨hunderway', hleft⟩ := step_underway hunderway hgoes hstep
      exact Or.inr ⟨hunderway', hleft.le⟩
    | true =>
      cases event with
      | go answer =>
        rcases go_nearer ((ok_invariant caps).reachable hc) hunderway hstep with hended | ⟨hu, hlt⟩
        · exact Or.inl hended
        · exact Or.inr ⟨hu, hlt.le⟩
      | _ => cases hgoes
  · intro c event c' hc hunderway hgoes hstep
    cases event with
    | go answer =>
      exact (go_nearer ((ok_invariant caps).reachable hc) hunderway hstep).imp_right And.right
    | _ => cases hgoes

/-- A sequence on its way can go on, at the latest when its timer is due. -/
theorem can_go (hsequence : c.sequence = some q) (hlive : q.point ≠ .ended) :
    ∃ ms answer, answer ≠ .fails ∧
      (step caps { c with now := c.now + ms } (.go answer)).isSome = true := by
  have htimer : ∀ due next, (onTimer { c with now := c.now + due } due next).isSome = true := by
    intro due next
    rw [onTimer, if_pos (Nat.le_add_left _ _)]
    rfl
  simp only [step, hsequence, Option.bind_some, proceed]
  cases hpoint : q.point with
  | ended => exact absurd hpoint hlive
  | unwinding => exact ⟨0, .proceed, nofun, rfl⟩
  | next phase =>
    cases phase with
    | settle => exact ⟨0, .proceed, nofun, rfl⟩
    | http => exact ⟨0, .inflight none none, nofun, rfl⟩
    | pg =>
      refine ⟨0, .throws, nofun, ?_⟩
      simp only [startPhase, phasePg]
      split <;> rfl
    | _ => exact ⟨0, .throws, nofun, rfl⟩
  | settling due => exact ⟨due, .timer, nofun, htimer due _⟩
  | polling deadline due => exact ⟨due, .inflight none none, nofun, htimer due _⟩
  | drainingRooms due => exact ⟨due, .timer, nofun, htimer due _⟩
  | closingIo due settle => exact ⟨due, .timer, nofun, htimer due _⟩
  | forcingIo due => exact ⟨due, .timer, nofun, htimer due _⟩
  | closingCache due => exact ⟨due, .timer, nofun, htimer due _⟩
  | closingPool due => exact ⟨due, .timer, nofun, htimer due _⟩

end Progress

/-- The codes the controller has exited with by now. -/
def Controller.exitCodes (c : Controller) : List Nat :=
  match c.sequence with
  | none => []
  | some q => if q.watchdogFired then [1] else if q.point = .ended then [q.code] else []

/-- In every run, whatever the dependencies do and whenever the watchdog fires: the states are set
once each and in order, the phases start once each and in order, the dependencies are called once
each and in order after the polls, the process exits once for its sequence and with the right
code, nothing outside the allowlist is admitted once RUNNING is left, and a sequence that is gone
on with comes to its end. -/
theorem shutdown_once (caps : Caps) {c : Controller} (hc : (machine caps).Reachable c) :
    (states c.log = c.state.path ∧ states c.log <+: [.draining, .stopping, .stopped]) ∧
    phases c.log <+: [.settle, .http, .room, .socket, .cache, .pg] ∧
    (∃ n, calls c.log <+: List.replicate n .getInflight ++
      [.drainRooms, .ioClose, .closeCache, .closePool]) ∧
    exits c.log = c.exitCodes ∧
    GateOk c.log ∧
    (∀ q, c.sequence = some q → q.point ≠ .ended → ∃ ms answer, answer ≠ .fails ∧
      (step caps { c with now := c.now + ms } (.go answer)).isSome = true) ∧
    ∀ r : (machine caps).Run, Fair r → ∀ n trigger, Underway trigger (r.state n) →
      ∃ m, n ≤ m ∧ Ended trigger (r.state m) := by
  have hok := (ok_invariant caps).reachable hc
  have hpath : c.state.path <+: [.draining, .stopping, .stopped] := by
    cases c.state <;> decide
  have hsequence := hok.sequence
  refine ⟨⟨hok.states, hok.states ▸ hpath⟩, ?_, ?_, ?_, hok.gate, fun q ↦ can_go,
    fun r hfair n trigger ↦ ends_of_fair hfair⟩
  · cases hq : c.sequence with
    | none =>
      rw [hq] at hsequence
      exact hsequence.phases ▸ List.nil_prefix
    | some q =>
      rw [hq] at hsequence
      exact hsequence.phases
  · cases hq : c.sequence with
    | none =>
      rw [hq] at hsequence
      exact ⟨0, hsequence.calls ▸ List.nil_prefix⟩
    | some q =>
      rw [hq] at hsequence
      exact hsequence.calls
  · unfold Controller.exitCodes
    cases hq : c.sequence with
    | none =>
      rw [hq] at hsequence
      exact hsequence.exits
    | some q =>
      rw [hq] at hsequence
      exact hsequence.exits

/-- A crash while the process is draining, a rejected pool close, and a second signal. -/
def crashWhileDraining : List Event :=
  [.work (.http "/api/game"), .enterDrain "127.0.0.1", .work (.http "/api/game"),
    .work (.http "/readiness"), .trigger .uncaughtException, .go .proceed, .tick 2000, .go .timer,
    .go (.inflight (some 1) none), .trigger .sigterm, .tick 25, .go (.inflight (some 0) (some 0)),
    .go .throws, .go .returns, .go .rejected, .go .returns, .go (.fulfilled true), .go .returns,
    .go .rejected, .go .proceed]

/-- A signal, and the process sleeps through the global cap: the watchdog exits, and what is left of
the sequence runs through. -/
def overslept : List Event :=
  [.trigger .sigterm, .go .proceed, .tick 30000, .watchdog, .go .timer, .go (.inflight none none),
    .go .returns, .go .returns, .go .returns, .go .returns, .go .proceed]

/-- The first of these runs is in order to its end; the second is fair and ends, though the watchdog
has fired. -/
theorem shutdown_once_crash :
    (∃ c, (machine {}).Reachable c ∧ exits c.log = [1] ∧
      states c.log = [.draining, .stopping, .stopped] ∧
      phases c.log <+: [.settle, .http, .room, .socket, .cache, .pg] ∧ GateOk c.log) ∧
    ∃ r : (machine {}).Run, Fair r ∧ Underway .sigterm (r.state 1) ∧
      (∃ m, 1 ≤ m ∧ Ended .sigterm (r.state m)) ∧ exits (r.state 11).log = [1] := by
  constructor
  · have hrun : (Machine.script (step {}) (fun _ _ ↦ true) .initial crashWhileDraining).any (fun c ↦
        exits c.log == [1] && states c.log == [.draining, .stopping, .stopped]) = true := by
      decide +kernel
    obtain ⟨c, hscript, hfacts⟩ := Option.any_eq_true _ _ |>.mp hrun
    rw [Bool.and_eq_true, beq_iff_eq, beq_iff_eq] at hfacts
    have hc := (Machine.script_reachable (P := fun _ _ ↦ True) (fun _ _ _ ↦ trivial) (.init rfl)
      hscript).of_restrict
    have h := shutdown_once {} hc
    exact ⟨c, hc, hfacts.1, hfacts.2, h.2.1, h.2.2.2.2.1⟩
  · have hrun : (overslept.foldlM (step {}) .initial).any (fun c ↦
        exits c.log == [1] && c.sequence.any (·.point == .ended)) = true := by decide +kernel
    obtain ⟨c, hscript, hfacts⟩ := Option.any_eq_true _ _ |>.mp hrun
    rw [Bool.and_eq_true, beq_iff_eq] at hfacts
    let r : (machine {}).Run := .ofScript (.tick 0) (fun _ ↦ rfl)
      (Option.isSome_iff_exists.mpr ⟨c, hscript⟩)
    have hrest : ∀ n, 11 ≤ n → r.state n = c := fun n hn ↦ Machine.Run.ofScript_rest hscript hn
    have hstarted : Underway .sigterm (r.state 1) := ⟨_, rfl, rfl, nofun⟩
    have hfair : Fair r := by
      intro n trigger hunderway
      by_cases hn : n ≤ 10
      · exact ⟨10, hn, rfl⟩
      · obtain ⟨q, hq, -, hlive⟩ := hunderway
        rw [hrest n (by omega)] at hq
        obtain ⟨q', hq', hend⟩ := Option.any_eq_true _ _ |>.mp hfacts.2
        rw [hq, Option.some.injEq] at hq'
        exact absurd (hq' ▸ beq_iff_eq.mp hend) hlive
    exact ⟨r, hfair, hstarted,
      (shutdown_once {} (.init rfl)).2.2.2.2.2.2 r hfair 1 .sigterm hstarted,
      (hrest 11 (Nat.le_refl _)).symm ▸ hfacts.1⟩

end ChessStack.Server.Shutdown
