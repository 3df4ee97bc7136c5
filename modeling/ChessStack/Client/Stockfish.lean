import ChessStack.Library.Machine

/-!
# One engine, many questions

Library `Client`. The calls of `getBestMoveUci` in `Chess-Frontend/src/utils/stockfish.js` over
the shared engine of `Chess-Frontend/public/stockfish/stockfish.js`. Commands wait in the
engine's queue, a printed line waits for the timer that hands it to the listeners, and every
waiting call is a listener of the one stream. A call is its number, a `go` carries the number of
the call that posted it, and a printed `bestmove` carries the number of the `go` it answers; no
code reads these numbers.
-/

namespace ChessStack.Client.Stockfish

open ChessStack.Library

/-- What a call posts to the engine. -/
inductive Command where
  | setSkillLevel (value : Int)
  | positionFen (fen : String)
  | goMovetime (call : Nat) (movetimeMs : Nat)
  | stop
deriving DecidableEq, Repr

/-- The call whose search the command starts. -/
def Command.go? : Command → Option Nat
  | .goMovetime call _ => some call
  | _ => none

/-- A line the engine printed, and the `go` it answers if it is a `bestmove`. -/
structure Line where
  text : String
  go : Option Nat
deriving DecidableEq, Repr

/-- `line.startsWith("bestmove")`. -/
def isBestmove (text : String) : Bool := "bestmove".toList.isPrefixOf text.toList

/-- `line.split(" ")[1]`, with `(none)` and a missing field both read as no move. -/
def uciOf (text : String) : Option String :=
  match (text.toList.splitOn ' ')[1]? with
  | some field => if String.ofList field = "(none)" then none else some (String.ofList field)
  | none => none

/-- A promise that resolved: the call, the move it resolved with and the line it read. -/
structure Resolution where
  call : Nat
  uci : Option String
  line : Line
deriving DecidableEq, Repr

/-- The engine and the calls that share it. -/
structure Engine where
  calls : Nat
  commands : List Command
  printed : List Line
  listeners : List Nat
  resolved : List Resolution
deriving DecidableEq, Repr

/-- The engine once it has answered `readyok`. -/
def Engine.ready : Engine := ⟨0, [], [], [], []⟩

/-- The listeners `for (m = 0; m < c.length; m++) c[m](line)` calls with a `bestmove`, and those
left in `c`. Each one called takes itself out, so the next one moves to its index and `m++`
passes over it. -/
def handOver : List Nat → List Nat × List Nat
  | [] => ([], [])
  | [a] => ([a], [])
  | a :: b :: rest => (a :: (handOver rest).1, b :: (handOver rest).2)

/-- What can happen next. -/
inductive Event where
  | getBestMoveUci (fen : String) (skillLevel : Int) (movetimeMs : Nat)
  | timeout (call : Nat)
  | print (text : String)
  | deliver
deriving DecidableEq, Repr

/-- `print` keeps a line for the listeners, and only logs it where there is none. -/
def Engine.emit (e : Engine) (line : Line) : Engine :=
  if e.listeners = [] then e else { e with printed := e.printed ++ [line] }

/-- One step of the page or of the engine. -/
def Engine.step (e : Engine) : Event → Option Engine
  | .getBestMoveUci fen skillLevel movetimeMs => some
      { e with
        calls := e.calls + 1
        listeners := e.listeners ++ [e.calls]
        commands := e.commands ++
          [.setSkillLevel (max 0 (min 20 skillLevel)), .positionFen fen,
            .goMovetime e.calls (max 50 movetimeMs)] }
  | .timeout call =>
    if call ∈ e.listeners then
      some { e with listeners := e.listeners.erase call, commands := e.commands ++ [.stop] }
    else none
  | .print text =>
    if isBestmove text then
      -- the answer to the first `go` the engine has not answered
      match e.commands.dropWhile fun c ↦ c.go?.isNone with
      | c :: rest => some ({ e with commands := rest }.emit ⟨text, c.go?⟩)
      | [] => none
    else some (e.emit ⟨text, none⟩)
  | .deliver =>
    match e.printed with
    | [] => none
    | line :: rest =>
      if isBestmove line.text then
        let reached := handOver e.listeners
        some { e with
          printed := rest
          listeners := reached.2
          resolved := e.resolved ++ reached.1.map fun call ↦ ⟨call, uciOf line.text, line⟩ }
      else some { e with printed := rest }

/-- The engine, its calls and every order of their events. -/
def engine : Machine Engine Event := .ofStep .ready Engine.step

/-- Every call that resolved did so with the answer to its own `go`. -/
def Engine.AnswersOwn (e : Engine) : Prop :=
  ∀ r ∈ e.resolved, r.line.go = some r.call ∧ r.uci = uciOf r.line.text

/-- The calls whose `go` has an answer that no listener has been offered yet. -/
def Engine.unanswered (e : Engine) : List Nat :=
  e.printed.filterMap Line.go ++ e.commands.filterMap Command.go?

/-- A call starts while at most one call waits and no other `go` is unanswered; a call that
times out is the last to have started among those that wait. -/
def Paired (e : Engine) : Event → Prop
  | .getBestMoveUci .. => e.listeners.length ≤ 1 ∧ ∀ call ∈ e.unanswered, call ∈ e.listeners
  | .timeout call => e.listeners.getLast? = some call
  | _ => True

/-- The guard is evaluated on the event. -/
instance (e : Engine) : (event : Event) → Decidable (Paired e event)
  | .getBestMoveUci .. =>
    inferInstanceAs (Decidable (e.listeners.length ≤ 1 ∧ ∀ call ∈ e.unanswered, call ∈ e.listeners))
  | .timeout call => inferInstanceAs (Decidable (e.listeners.getLast? = some call))
  | .print _ | .deliver => inferInstanceAs (Decidable True)

/-! ### The answers follow the listeners -/

/-- The waiting calls are the first of the unanswered ones, in order; the others timed out. -/
structure Engine.Matched (e : Engine) : Prop where
  pair : e.listeners.length ≤ 2
  waiting : e.listeners <+: e.unanswered
  distinct : e.unanswered.Nodup
  old : ∀ call ∈ e.unanswered, call < e.calls
  marked : ∀ line ∈ e.printed, isBestmove line.text = line.go.isSome
  own : e.AnswersOwn

/-- The command at which the search for the next `go` stops is a `go`. -/
theorem go_of_dropWhile {commands rest : List Command} {c : Command}
    (h : commands.dropWhile (fun c ↦ c.go?.isNone) = c :: rest) :
    ∃ call, c.go? = some call ∧
      commands.filterMap Command.go? = call :: rest.filterMap Command.go? := by
  induction commands with
  | nil => simp at h
  | cons d commands ih =>
    cases hd : d.go? with
    | none =>
      simp only [List.dropWhile_cons, hd, Option.isNone_none, if_true] at h
      simpa [hd] using ih h
    | some call =>
      simp only [List.dropWhile_cons, hd, Option.isNone_some] at h
      obtain ⟨rfl, rfl⟩ := List.cons.inj h
      exact ⟨call, hd, by simp [hd]⟩

/-- Where no other `go` is unanswered, the unanswered ones are those of the waiting calls. -/
theorem Engine.Matched.unanswered_eq {e : Engine} (h : e.Matched)
    (hall : ∀ call ∈ e.unanswered, call ∈ e.listeners) : e.unanswered = e.listeners := by
  obtain ⟨dead, hdead⟩ := h.waiting
  have hnd := h.distinct
  rw [← hdead] at hnd hall
  have hnil : dead = [] := by
    refine List.eq_nil_iff_forall_not_mem.mpr fun call hcall ↦ ?_
    exact (List.nodup_append.mp hnd).2.2 call (hall call (List.mem_append_right _ hcall)) call
      hcall rfl
  rw [← hdead, hnil, List.append_nil]

/-- The commands of a call add its `go` to the unanswered ones. -/
theorem go_of_commands (commands : List Command) (value : Int) (fen : String) (call ms : Nat) :
    (commands ++ [Command.setSkillLevel value, .positionFen fen, .goMovetime call ms]).filterMap
      Command.go? = commands.filterMap Command.go? ++ [call] := by
  rw [List.filterMap_append]
  rfl

/-- A call that starts alone, or beside one other, is the last of the unanswered ones. -/
theorem Engine.Matched.getBestMoveUci {e : Engine} (h : e.Matched) {fen : String}
    {skillLevel : Int} {movetimeMs : Nat}
    (hg : Paired e (.getBestMoveUci fen skillLevel movetimeMs)) {e' : Engine}
    (hs : e.step (.getBestMoveUci fen skillLevel movetimeMs) = some e') : e'.Matched := by
  obtain ⟨hlen, hall⟩ := hg
  have heq := h.unanswered_eq hall
  have hun : e'.unanswered = e.unanswered ++ [e.calls] := by
    obtain rfl := Option.some.inj hs
    simp only [Engine.unanswered, go_of_commands, List.append_assoc]
  obtain rfl := Option.some.inj hs
  refine ⟨by simpa using hlen, ?_, ?_, ?_, h.marked, h.own⟩
  · rw [hun]
    exact heq ▸ List.prefix_rfl
  · rw [hun]
    refine List.nodup_append.mpr ⟨h.distinct, List.pairwise_singleton _ _, fun call hcall d hd ↦ ?_⟩
    have hlt := h.old call hcall
    simp only [List.mem_singleton] at hd
    omega
  · rw [hun]
    intro call hcall
    rcases List.mem_append.mp hcall with hcall | hcall
    · exact Nat.lt_succ_of_lt (h.old call hcall)
    · simp_all

/-- A call that times out last leaves the earlier ones with their answers. -/
theorem Engine.Matched.timeout {e : Engine} (h : e.Matched) {call : Nat}
    (hg : Paired e (.timeout call)) {e' : Engine} (hs : e.step (.timeout call) = some e') :
    e'.Matched := by
  obtain ⟨before, hbefore⟩ := List.getLast?_eq_some_iff.mp hg
  have hnd : (before ++ [call]).Nodup := hbefore ▸ h.waiting.sublist.nodup h.distinct
  have hnotin : call ∉ before := fun hin ↦
    (List.nodup_append.mp hnd).2.2 call hin call (List.mem_singleton_self _) rfl
  have herase : e.listeners.erase call = before := by
    rw [hbefore, List.erase_append_right _ hnotin]
    simp
  have hun : e'.unanswered = e.unanswered ∧ e'.listeners = before ∧ e'.calls = e.calls ∧
      e'.printed = e.printed ∧ e'.resolved = e.resolved := by
    simp only [Engine.step] at hs
    split at hs
    · obtain rfl := Option.some.inj hs
      exact ⟨by simp [Engine.unanswered, Command.go?], herase, rfl, rfl, rfl⟩
    · cases hs
  obtain ⟨hun, hl, hc, hp, hr⟩ := hun
  have hpre : before <+: e.listeners := hbefore ▸ List.prefix_append _ _
  refine ⟨?_, ?_, hun ▸ h.distinct, ?_, hp ▸ h.marked, ?_⟩
  · rw [hl]
    exact Nat.le_trans hpre.length_le h.pair
  · rw [hl, hun]
    exact hpre.trans h.waiting
  · rw [hun, hc]
    exact h.old
  · rw [Engine.AnswersOwn, hr]
    exact h.own

/-- Putting a line in the hands of the timer, or only in the log, keeps the rest. -/
theorem Engine.Matched.emit {e : Engine} (h : e.Matched) {line : Line}
    {commands : List Command} (hm : isBestmove line.text = line.go.isSome)
    (hun : e.commands.filterMap Command.go? =
      line.go.toList ++ commands.filterMap Command.go?) :
    ({ e with commands := commands }.emit line).Matched := by
  unfold Engine.emit
  have hall : e.unanswered =
      e.printed.filterMap Line.go ++ (line.go.toList ++ commands.filterMap Command.go?) := by
    rw [Engine.unanswered, hun]
  split
  · rename_i hnil
    have hsub : List.Sublist ({ e with commands := commands } : Engine).unanswered
        e.unanswered := by
      rw [hall]
      exact (List.sublist_append_right _ _).append_left _
    have hnil : e.listeners = [] := hnil
    exact ⟨h.pair, by simp [hnil], hsub.nodup h.distinct,
      fun call hcall ↦ h.old call (hsub.subset hcall), h.marked, h.own⟩
  · have hkeep : ({ e with commands := commands, printed := e.printed ++ [line] } :
        Engine).unanswered = e.unanswered := by
      rw [hall, Engine.unanswered, List.filterMap_append, List.append_assoc]
      congr 2
    refine ⟨h.pair, ?_, ?_, ?_, ?_, h.own⟩
    · rw [hkeep]
      exact h.waiting
    · rw [hkeep]
      exact h.distinct
    · rw [hkeep]
      exact h.old
    · intro l hl
      rcases List.mem_append.mp hl with hl | hl
      · exact h.marked l hl
      · exact List.mem_singleton.mp hl ▸ hm

/-- A printed line is marked with the `go` it answers. -/
theorem Engine.Matched.print {e : Engine} (h : e.Matched) {text : String} {e' : Engine}
    (hs : e.step (.print text) = some e') : e'.Matched := by
  simp only [Engine.step] at hs
  split at hs
  · rename_i hbest
    split at hs
    · rename_i c rest hdrop
      obtain rfl := Option.some.inj hs
      obtain ⟨call, hc, hgo⟩ := go_of_dropWhile hdrop
      exact h.emit (by simp [hbest, hc]) (by simp [hc, hgo])
    · cases hs
  · rename_i hbest
    obtain rfl := Option.some.inj hs
    exact h.emit (by simpa using hbest) rfl

/-- Of at most two waiting calls a `bestmove` reaches the first only. -/
theorem handOver_pair {listeners : List Nat} (h : listeners.length ≤ 2) :
    handOver listeners = (listeners.head?.toList, listeners.tail) := by
  match listeners, h with
  | [], _ => rfl
  | [_], _ => rfl
  | [_, _], _ => rfl

/-- A list that starts a longer one goes on doing so without the head. -/
theorem tail_prefix {l : List Nat} {a : Nat} {rest : List Nat} (h : l <+: a :: rest) :
    l.tail <+: rest := by
  cases l with
  | nil => exact List.nil_prefix
  | cons b l => exact (List.cons_prefix_cons.mp h).2

/-- The first of at most two waiting calls is the one whose answer comes next. -/
theorem Engine.Matched.deliver {e : Engine} (h : e.Matched) {e' : Engine}
    (hs : e.step .deliver = some e') : e'.Matched := by
  simp only [Engine.step] at hs
  split at hs
  · cases hs
  rename_i line rest hprinted
  have hmark := h.marked line (hprinted ▸ List.mem_cons_self)
  have hrest : ∀ l ∈ rest, isBestmove l.text = l.go.isSome := fun l hl ↦
    h.marked l (hprinted ▸ List.mem_cons_of_mem _ hl)
  have hun : e.unanswered =
      line.go.toList ++ (rest.filterMap Line.go ++ e.commands.filterMap Command.go?) := by
    rw [Engine.unanswered, hprinted]
    cases hgo : line.go <;> simp [hgo]
  split at hs
  · rename_i hbest
    obtain ⟨call, hcall⟩ := Option.isSome_iff_exists.mp (hmark ▸ hbest)
    rw [hcall] at hun
    have hwait := hun ▸ h.waiting
    have hnd := hun ▸ h.distinct
    have hold := hun ▸ h.old
    obtain rfl := Option.some.inj hs
    refine ⟨?_, ?_, (List.nodup_cons.mp hnd).2, fun c hc ↦ hold c (List.mem_cons_of_mem _ hc),
      hrest, ?_⟩
    · simp only [handOver_pair h.pair, List.length_tail]
      have := h.pair
      omega
    · simp only [handOver_pair h.pair]
      exact tail_prefix hwait
    · intro r hr
      rcases List.mem_append.mp hr with hr | hr
      · exact h.own r hr
      · obtain ⟨c, hc, rfl⟩ := List.mem_map.mp hr
        simp only [handOver_pair h.pair, Option.mem_toList] at hc
        obtain ⟨others, hothers⟩ := List.head?_eq_some_iff.mp hc
        rw [hothers] at hwait
        obtain rfl := (List.cons_prefix_cons.mp hwait).1
        exact ⟨hcall, rfl⟩
  · rename_i hbest
    have hnone : line.go = none := by simpa [hbest] using hmark
    rw [hnone] at hun
    obtain rfl := Option.some.inj hs
    have hwait := hun ▸ h.waiting
    have hnd := hun ▸ h.distinct
    have hold := hun ▸ h.old
    exact ⟨h.pair, hwait, hnd, hold, hrest, h.own⟩

/-! ### Every run -/

/-- In paired runs the waiting calls stay at the head of the unanswered ones. -/
theorem matched_invariant : (engine.restrict Paired).Invariant Engine.Matched where
  init e he := by
    obtain rfl : e = .ready := he
    exact ⟨by decide, by decide, by decide, by decide, by decide, by simp [Engine.AnswersOwn,
      Engine.ready]⟩
  step e event e' h := by
    rintro ⟨hg, hs⟩
    cases event with
    | getBestMoveUci fen skillLevel movetimeMs => exact h.getBestMoveUci hg hs
    | timeout call => exact h.timeout hg hs
    | print text => exact h.print hs
    | deliver => exact h.deliver hs

/-- In every run in which a call starts only while at most one call waits and the `go` of no
other is unanswered, and only the last to have started times out, each call that resolves does
so with the answer to its own `go`. -/
theorem answers_own {e : Engine} (h : (engine.restrict Paired).Reachable e) : e.AnswersOwn :=
  (matched_invariant.reachable h).own

/-- Two overlapping calls, the first answered before the second. -/
theorem answers_own_overlap : ∃ e : Engine, (engine.restrict Paired).Reachable e ∧
    e.resolved.map Resolution.call = [0, 1] ∧
    e.resolved.map Resolution.uci = [some "e2e4", some "d2d4"] ∧ e.AnswersOwn := by
  obtain ⟨e, he, hcalls, huci⟩ : ∃ e : Engine, Machine.script Engine.step
      (fun e event ↦ decide (Paired e event)) .ready
      [.getBestMoveUci "8/8/8/8/8/8/8/8 w - - 0 1" 10 800,
        .getBestMoveUci "8/8/8/8/8/8/8/8 w - - 0 1" 20 300,
        .print "bestmove e2e4 ponder e7e5", .deliver, .print "bestmove d2d4", .deliver] = some e ∧
      e.resolved.map Resolution.call = [0, 1] ∧
      e.resolved.map Resolution.uci = [some "e2e4", some "d2d4"] :=
    ⟨_, rfl, by decide +kernel, by decide +kernel⟩
  have hrun := Machine.script_reachable (fun _ _ h ↦ of_decide_eq_true h) (.init rfl) he
  exact ⟨e, hrun, hcalls, huci, answers_own hrun⟩

/-- A call that times out leaves its `go` unanswered, and the next call takes the answer. -/
theorem not_answers_own_timeout : ¬ ∀ e : Engine, engine.Reachable e → e.AnswersOwn := by
  intro h
  obtain ⟨e, he, hr⟩ : ∃ e : Engine, Machine.script Engine.step (fun _ _ ↦ true) .ready
      [.getBestMoveUci "8/8/8/8/8/8/8/8 w - - 0 1" 10 800, .timeout 0,
        .getBestMoveUci "8/8/8/8/8/8/8/8 b - - 0 1" 10 800, .print "bestmove e2e4",
        .deliver] = some e ∧ (⟨1, some "e2e4", ⟨"bestmove e2e4", some 0⟩⟩ : Resolution) ∈ e.resolved :=
    ⟨_, rfl, by decide +kernel⟩
  have hrun := Machine.script_reachable (P := fun _ _ ↦ True) (fun _ _ _ ↦ trivial) (.init rfl) he
  have hown := (h e hrun.of_restrict _ hr).1
  cases hown

end ChessStack.Client.Stockfish
