import ChessStack.Server.Cleared
import ChessStack.Server.Conduct

/-!
# The rooms in every run

Library `Server`. Whatever the processes of `Chess-Backend/src/socket/gameSocket.js` do, in every
order of their turns, every function they have in flight keeps the rules of its room. So what holds
of the tables, of the room objects and of the votes between any two steps holds in every run,
through crashes, restarts and drains.
-/

namespace ChessStack.Server

open ChessStack.Chess ChessStack.Js ChessStack.Library ChessStack.Store

section

variable {js : ChessJs} (D : Deployment) (at_ : js.Game → Position → Prop)

/-! ### The invariant -/

/-- A function keeps the rules of its room, however far it is. `own` is its object. -/
def FunctionOk (w : World js) (own : Option Nat) (job : Job js) : Prop :=
  match job.phase with
  | .fetched room => own = none ∧ Begun w job.caller ∧ job.caller.origin.isJoin = true ∧
      room < (w.memory job.caller.process).allocated
  | .fetching _ => own = none ∧ Begun w job.caller ∧ job.caller.origin.isJoin = true
  | .queued => own = none ∧ Begun w job.caller ∧ job.caller.origin.isHydration = false ∧
      ∃ room, job.room = some room ∧ room < (w.memory job.caller.process).allocated
  | .waiting c => c.Rests ∧ Conducts D at_ job.caller own c w
  | .turn c => c.Ready (World.host job.caller) (roomRules D at_ job.caller) own w
  | .caught _ _ | .settled => own = none ∧ Post job.caller w.log
  | .dead => own = none

/-- What holds between any two steps. `own` says which room object is a function's own. -/
structure SystemOk (own : Nat → Option Nat) (w : World js) : Prop where
  world : WorldOk D at_ w
  callers : ∀ j, (w.jobs j).caller.job = j
  sent : ∀ j, w.Sent (w.jobs j).caller
  unborn : ∀ j, w.created ≤ j → (w.jobs j).phase.Over
  served : ∀ c r a arrived before after, Event.served c r a arrived before after ∈ w.log →
    c.job < w.created ∧ (w.jobs c.job).caller = c
  functions : ∀ j, FunctionOk D at_ w (own j) (w.jobs j)
  placed : ∀ j ref, own j = some ref → ref < (w.memoryOf j).allocated
  apart : ∀ j j' ref, (w.jobs j).caller.process = (w.jobs j').caller.process →
    own j = some ref → own j' = some ref → j = j'
  idle : ∀ process, (w.memory process).listening = false → ∀ j,
    (w.jobs j).caller.process = process → (w.jobs j).phase.Over
  sockets : ∀ s connection, w.sockets s = some connection → connection.connected = true →
    (w.memory connection.process).listening = true

variable {D at_} {own : Nat → Option Nat} {w w' w'' : World js} {j : Nat} {c : Caller}
  {ref own' : Option Nat} {job : Job js}

/-! ### What a step leaves alone -/

/-- What is not about the functions stays as it is. -/
theorem WorldOk.congr (hw : WorldOk D at_ w) (houtside : w'.outside = w.outside)
    (hmemory : w'.memory = w.memory) (hsockets : w'.sockets = w.sockets) (hlog : w'.log = w.log) :
    WorldOk D at_ w' := by
  obtain ⟨outside, memory, sockets, jobs, created, drains, log⟩ := w
  obtain ⟨outside', memory', sockets', jobs', created', drains', log'⟩ := w'
  subst houtside hmemory hsockets hlog
  exact ⟨hw.tables, hw.coherent, fun process ref href ↦ (hw.objects process ref href).congr rfl rfl,
    hw.users, hw.votes, hw.voters, hw.log, hw.past, hw.granted, hw.filled, hw.told⟩

/-- A step that is not about the outside, the memories, the sockets and the log. -/
theorem Rely.congr (c : Caller) (own : Option Nat) (houtside : w'.outside = w.outside)
    (hmemory : w'.memory = w.memory) (hsockets : w'.sockets = w.sockets) (hlog : w'.log = w.log) :
    Rely c own w w' where
  db := houtside ▸ Onward.refl _
  rooms := houtside ▸ RoomsOnward.refl _
  sockets socket user hs := by
    obtain ⟨connection, hconnection, huser⟩ := hs
    exact ⟨connection, by rw [hsockets]; exact hconnection, huser⟩
  log := ⟨[], by rw [hlog, List.append_nil]⟩
  allocated := by rw [hmemory]
  own _ _ := by rw [hmemory]
  served _ _ _ _ _ he := hlog ▸ he

private theorem World.Sent.sockets (h : w.Sent c) (hsockets : w'.sockets = w.sockets) :
    w'.Sent c := by
  intro socket user packet newId now horigin
  obtain ⟨connection, hconnection, huser⟩ := h socket user packet newId now horigin
  exact ⟨connection, by rw [hsockets]; exact hconnection, huser⟩

private theorem Begun.rely (h : Begun w c) (hrely : Rely c ref w w') : Begun w' c where
  unclaimed gameId user hserved := by
    obtain ⟨a, arrived, before, after, hmem⟩ := hserved
    exact h.unclaimed gameId user ⟨a, arrived, before, after, hrely.served _ _ _ _ _ hmem⟩
  unvoted command hserved := by
    obtain ⟨a, arrived, before, after, hmem⟩ := hserved
    exact h.unvoted command ⟨a, arrived, before, after, hrely.served _ _ _ _ _ hmem⟩
  sent := h.sent.later hrely.toLater

/-- A function that is left alone still keeps the rules. -/
theorem FunctionOk.keep (h : FunctionOk D at_ w ref job) (hrely : Rely job.caller ref w w')
    (hw' : WorldOk D at_ w') : FunctionOk D at_ w' ref job := by
  unfold FunctionOk at h ⊢
  split
  · next room hphase =>
    rw [hphase] at h
    obtain ⟨hown, hbegun, hjoin, hlt⟩ := h
    exact ⟨hown, hbegun.rely hrely, hjoin, Nat.lt_of_lt_of_le hlt hrely.allocated⟩
  · next hydration hphase =>
    rw [hphase] at h
    obtain ⟨hown, hbegun, hjoin⟩ := h
    exact ⟨hown, hbegun.rely hrely, hjoin⟩
  · next hphase =>
    rw [hphase] at h
    obtain ⟨hown, hbegun, htask, room, hroom, hlt⟩ := h
    exact ⟨hown, hbegun.rely hrely, htask, room, hroom, Nat.lt_of_lt_of_le hlt hrely.allocated⟩
  · next c hphase =>
    rw [hphase] at h
    exact ⟨h.1, h.2.stable roomRules_lawful h.1 hrely hw'⟩
  · next c hphase =>
    rw [hphase] at h
    exact h.stable roomRules_lawful hrely
  · next room text hphase =>
    rw [hphase] at h
    exact ⟨h.1, h.2.stable hrely⟩
  · next hphase =>
    rw [hphase] at h
    exact ⟨h.1, h.2.stable hrely⟩
  · next hphase =>
    rw [hphase] at h
    exact h

/-- What a step of one function leaves to all the others. -/
structure Elsewhere (own : Option Nat) (w w' : World js) (j : Nat) : Prop where
  db : Onward w.outside.db w'.outside.db
  rooms : RoomsOnward w.outside.db w'.outside.db
  sockets : w'.sockets = w.sockets
  log : ∃ more, w'.log = w.log ++ more ∧
    ∀ c r a arrived before after, Event.served c r a arrived before after ∈ more →
      c = (w.jobs j).caller ∧ j < w.created
  allocated : ∀ process, (w.memory process).allocated ≤ (w'.memory process).allocated
  listening : ∀ process, (w'.memory process).listening = (w.memory process).listening
  objects : ∀ process, ∀ ref < (w.memory process).allocated,
    ((w.jobs j).caller.process = process → own ≠ some ref) →
      ((w'.memory process).objects ref).room = ((w.memory process).objects ref).room
  jobs : ∀ j' ≠ j, w'.jobs j' = w.jobs j'

private theorem Elsewhere.rely (h : Elsewhere (own j) w w' j) (hok : SystemOk D at_ own w)
    {j' : Nat}
    (hne : j' ≠ j) : Rely (w.jobs j').caller (own j') w w' where
  db := h.db
  rooms := h.rooms
  sockets socket user hs := by
    obtain ⟨connection, hconnection, huser⟩ := hs
    exact ⟨connection, by rw [h.sockets]; exact hconnection, huser⟩
  log := by
    obtain ⟨more, hmore, -⟩ := h.log
    exact ⟨more, hmore⟩
  allocated := h.allocated _
  own ref href := h.objects _ ref (hok.placed j' ref href) fun hprocess hown ↦
    hne (hok.apart j j' ref hprocess hown href).symm
  served r a arrived before after he := by
    obtain ⟨more, hmore, hserved⟩ := h.log
    rw [hmore] at he
    rcases List.mem_append.mp he with hold | hnew
    · exact hold
    · have hcaller := congrArg Caller.job (hserved _ _ _ _ _ _ hnew).1
      rw [hok.callers, hok.callers] at hcaller
      exact absurd hcaller hne

/-- What a function does in its own turn leaves the others alone. -/
theorem Guar.elsewhere (h : Guar (w.jobs j).caller ref w own' w') : Elsewhere ref w w' j where
  db := h.outside ▸ Onward.refl _
  rooms := h.outside ▸ RoomsOnward.refl _
  sockets := h.sockets
  log := by
    obtain ⟨messages, hlog⟩ := h.log
    refine ⟨_, hlog, fun c r a arrived before after hmem ↦ ?_⟩
    obtain ⟨m, -, heq⟩ := List.mem_map.mp hmem
    cases heq
  allocated process := by
    rcases eq_or_ne process (w.jobs j).caller.process with rfl | hne
    · exact h.allocated
    · rw [h.memory process hne]
  listening process := by
    rcases eq_or_ne process (w.jobs j).caller.process with rfl | hne
    · exact h.listening
    · rw [h.memory process hne]
  objects process ref href hne := by
    rcases eq_or_ne process (w.jobs j).caller.process with rfl | hother
    · exact h.rooms ref href (hne rfl)
    · rw [h.memory process hother]
  jobs _ _ := congrFun h.jobs _

/-- The function itself moves on. -/
theorem Elsewhere.setJob (h : Elsewhere ref w w' j) (job : Job js) :
    Elsewhere ref w (w'.setJob j job) j :=
  ⟨h.db, h.rooms, h.sockets, h.log, h.allocated, h.listening, h.objects, fun j' hne ↦
    (Function.update_of_ne hne _ _).trans (h.jobs j' hne)⟩

namespace SystemOk

private theorem own_of_over (h : SystemOk D at_ own w) (hover : (w.jobs j).phase.Over) :
    own j = none := by
  have hok := h.functions j
  unfold FunctionOk at hok
  cases hphase : (w.jobs j).phase with
  | settled =>
    rw [hphase] at hok
    exact hok.1
  | dead =>
    rw [hphase] at hok
    exact hok
  | _ =>
    rw [hphase] at hover
    exact hover.elim

private theorem born (h : SystemOk D at_ own w) (hlive : ¬ (w.jobs j).phase.Over) :
    j < w.created := by
  by_contra hj
  exact hlive (h.unborn j (Nat.le_of_not_lt hj))

private theorem listening (h : SystemOk D at_ own w) (hlive : ¬ (w.jobs j).phase.Over) :
    (w.memoryOf j).listening = true := by
  by_contra hidle
  exact hlive (h.idle _ (Bool.eq_false_iff.mpr hidle) j rfl)

/-- One function takes its step. Its own object is as before, a new one, or none. -/
theorem move (h : SystemOk D at_ own w) (hframe : Elsewhere (own j) w w' j)
    (hw' : WorldOk D at_ w') (hcreated : w.created ≤ w'.created) (hj : j < w'.created)
    (hcaller : (w'.jobs j).caller.job = j) (hsent : w'.Sent (w'.jobs j).caller)
    (hsame : j < w.created → (w'.jobs j).caller = (w.jobs j).caller)
    (hown : own' = none ∨ (w'.jobs j).caller.process = (w.jobs j).caller.process ∧
      (own' = own j ∨ ∃ ref, own' = some ref ∧ (w.memoryOf j).allocated ≤ ref ∧
        ref < (w'.memoryOf j).allocated))
    (hlistening : (w.memory (w'.jobs j).caller.process).listening = true)
    (hok : FunctionOk D at_ w' own' (w'.jobs j)) :
    SystemOk D at_ (Function.update own j own') w' where
  world := hw'
  callers j' := by
    rcases eq_or_ne j' j with rfl | hne
    · exact hcaller
    · rw [hframe.jobs j' hne]
      exact h.callers j'
  sent j' := by
    rcases eq_or_ne j' j with rfl | hne
    · exact hsent
    · rw [hframe.jobs j' hne]
      exact (h.sent j').later (hframe.rely h hne).toLater
  unborn j' hj' := by
    have hne : j' ≠ j := Nat.ne_of_gt (Nat.lt_of_lt_of_le hj hj')
    rw [hframe.jobs j' hne]
    exact h.unborn j' (Nat.le_trans hcreated hj')
  served c r a arrived before after hmem := by
    obtain ⟨more, hmore, hserved⟩ := hframe.log
    rw [hmore] at hmem
    rcases List.mem_append.mp hmem with hold | hnew
    · obtain ⟨hborn, hold⟩ := h.served _ _ _ _ _ _ hold
      refine ⟨Nat.lt_of_lt_of_le hborn hcreated, ?_⟩
      rcases eq_or_ne c.job j with heq | hne
      · rw [heq, hsame (heq ▸ hborn), ← heq, hold]
      · rw [hframe.jobs _ hne, hold]
    · obtain ⟨rfl, hborn⟩ := hserved _ _ _ _ _ _ hnew
      rw [h.callers]
      exact ⟨hj, hsame hborn⟩
  functions j' := by
    rcases eq_or_ne j' j with rfl | hne
    · rw [Function.update_self]
      exact hok
    · rw [Function.update_of_ne hne, hframe.jobs j' hne]
      exact (h.functions j').keep (hframe.rely h hne) hw'
  placed j' ref href := by
    rcases eq_or_ne j' j with rfl | hne
    · rw [Function.update_self] at href
      rcases hown with hnone | ⟨hprocess, hsame | ⟨ref', hfresh, -, hlt⟩⟩
      · rw [hnone] at href
        cases href
      · rw [World.memoryOf, hprocess]
        exact Nat.lt_of_lt_of_le (h.placed j' ref (hsame ▸ href)) (hframe.allocated _)
      · rw [hfresh] at href
        obtain rfl := Option.some.inj href
        exact hlt
    · rw [Function.update_of_ne hne] at href
      rw [World.memoryOf, hframe.jobs j' hne]
      exact Nat.lt_of_lt_of_le (h.placed j' ref href) (hframe.allocated _)
  apart := by
    have hmixed : ∀ j' ref, j' ≠ j → (w'.jobs j').caller.process = (w'.jobs j).caller.process →
        own' = some ref → own j' = some ref → j' = j := by
      intro j' ref hne hprocess href href'
      rw [hframe.jobs j' hne] at hprocess
      rcases hown with hnone | ⟨hcaller, hsame | ⟨ref', hfresh, hle, -⟩⟩
      · rw [hnone] at href
        cases href
      · exact h.apart j' j ref (hprocess.trans hcaller) href' (hsame ▸ href)
      · rw [hfresh] at href
        obtain rfl := Option.some.inj href
        have hplaced := h.placed j' ref' href'
        rw [World.memoryOf, hprocess, hcaller] at hplaced
        exact absurd hplaced (Nat.not_lt.mpr hle)
    intro j₁ j₂ ref hprocess h₁ h₂
    rcases eq_or_ne j₁ j with rfl | hne₁
    · rcases eq_or_ne j₂ j₁ with rfl | hne₂
      · rfl
      · rw [Function.update_self] at h₁
        rw [Function.update_of_ne hne₂] at h₂
        exact (hmixed j₂ ref hne₂ hprocess.symm h₁ h₂).symm
    · rw [Function.update_of_ne hne₁] at h₁
      rcases eq_or_ne j₂ j with rfl | hne₂
      · rw [Function.update_self] at h₂
        exact hmixed j₁ ref hne₁ hprocess h₂ h₁
      · rw [Function.update_of_ne hne₂] at h₂
        rw [hframe.jobs j₁ hne₁, hframe.jobs j₂ hne₂] at hprocess
        exact h.apart j₁ j₂ ref hprocess h₁ h₂
  idle process hidle j' hprocess := by
    rw [hframe.listening] at hidle
    rcases eq_or_ne j' j with rfl | hne
    · rw [hprocess, hidle] at hlistening
      cases hlistening
    · rw [hframe.jobs j' hne] at hprocess ⊢
      exact h.idle process hidle j' hprocess
  sockets s connection hs hconnected := by
    rw [hframe.sockets] at hs
    rw [hframe.listening]
    exact h.sockets s connection hs hconnected

/-- Nothing moves but what is not about the functions. -/
theorem aside (h : SystemOk D at_ own w) (hw' : WorldOk D at_ w') (hjobs : w'.jobs = w.jobs)
    (hcreated : w'.created = w.created) (hrely : ∀ c ref, Rely c ref w w')
    (hserved : ∀ c r a arrived before after, Event.served c r a arrived before after ∈ w'.log →
      Event.served c r a arrived before after ∈ w.log)
    (hlistening : ∀ process, (w'.memory process).listening = (w.memory process).listening)
    (hsockets : ∀ s connection, w'.sockets s = some connection → connection.connected = true →
      (w.memory connection.process).listening = true) : SystemOk D at_ own w' where
  world := hw'
  callers j := by
    rw [hjobs]
    exact h.callers j
  sent j := by
    rw [hjobs]
    exact (h.sent j).later (hrely _ none).toLater
  unborn j hj := by
    rw [hcreated] at hj
    rw [hjobs]
    exact h.unborn j hj
  served c r a arrived before after hmem := by
    rw [hcreated, hjobs]
    exact h.served c r a arrived before after (hserved _ _ _ _ _ _ hmem)
  functions j := by
    rw [hjobs]
    exact (h.functions j).keep (hrely _ _) hw'
  placed j ref href := by
    rw [World.memoryOf, hjobs]
    exact Nat.lt_of_lt_of_le (h.placed j ref href) (hrely (w.jobs j).caller none).allocated
  apart j j' ref hprocess := by
    rw [hjobs] at hprocess
    exact h.apart j j' ref hprocess
  idle process hidle j hprocess := by
    rw [hlistening] at hidle
    rw [hjobs] at hprocess ⊢
    exact h.idle process hidle j hprocess
  sockets s connection hs hconnected := by
    rw [hlistening]
    exact hsockets s connection hs hconnected

/-! ### Turns -/

/-- A turn of a function, at whose end it is as `job` says. -/
theorem after (h : SystemOk D at_ own w) (job : Job js)
    (hguar : Guar (w.jobs j).caller (own j) w own' w') (hw' : WorldOk D at_ w')
    (hj : j < w.created) (hlistening : (w.memoryOf j).listening = true) (hcaller : job.caller = (w.jobs j).caller) {own'' : Option Nat}
    (hown : own'' = own' ∨ own'' = none) (hok : FunctionOk D at_ w' own'' job) :
    SystemOk D at_ (Function.update own j own'') (w'.setJob j job) := by
  have hjob : (w'.setJob j job).jobs j = job := Function.update_self _ _ _
  have hworld : WorldOk D at_ (w'.setJob j job) := hw'.congr rfl rfl rfl rfl
  refine h.move (hguar.elsewhere.setJob job) hworld (Nat.le_of_eq hguar.created.symm)
    (hguar.created ▸ hj) ?_ ?_ (fun _ ↦ by rw [hjob, hcaller]) ?_ ?_ ?_
  · rw [hjob, hcaller]
    exact h.callers j
  · rw [hjob, hcaller]
    exact (h.sent j).sockets hguar.sockets
  · rcases hown with rfl | rfl
    · refine Or.inr ⟨by rw [hjob, hcaller], ?_⟩
      rcases hguar.own with hsame | ⟨ref, href, hle, hlt⟩
      · exact Or.inl hsame
      · refine Or.inr ⟨ref, href, hle, ?_⟩
        rw [World.memoryOf, hjob, hcaller]
        exact hlt
    · exact Or.inl rfl
  · rw [hjob, hcaller]
    exact hlistening
  · rw [hjob]
    exact hok.keep (.congr _ _ rfl rfl rfl rfl) hworld

private theorem setPhase (h : SystemOk D at_ own w)
    (hguar : Guar (w.jobs j).caller (own j) w own' w')
    (hw' : WorldOk D at_ w') (hj : j < w.created) (hlistening : (w.memoryOf j).listening = true)
    {own'' : Option Nat} {phase : Phase js} (hown : own'' = own' ∨ own'' = none)
    (hok : FunctionOk D at_ w' own'' { w.jobs j with phase := phase }) :
    SystemOk D at_ (Function.update own j own'') (w'.setPhase j phase) := by
  unfold World.setPhase
  rw [hguar.jobs]
  exact h.after { w.jobs j with phase := phase } hguar hw' hj hlistening rfl hown hok

end SystemOk

/-- A message that tells nobody of a game is told. -/
theorem Guar.silent (h : Guar c ref w own' w') (hw' : WorldOk D at_ w') {m : Message js}
    (hm : ∀ gameId, ¬ m.Joins gameId) :
    Guar c ref w own' (w'.say (.told c m)) ∧ WorldOk D at_ (w'.say (.told c m)) :=
  ⟨h.trans ⟨rfl, rfl, rfl, rfl, rfl, fun _ _ ↦ rfl, ⟨[m], rfl⟩, Nat.le_refl _, rfl, fun _ _ _ ↦ rfl,
    Or.inl rfl⟩, hw'.say (toldOk_of_silent hm)⟩

private theorem Post.say {log : List (Event js)} (h : Post c log) (c' : Caller) (m : Message js) :
    Post c (log ++ [.told c' m]) := by
  intro gameId user row before after hmem
  rcases List.mem_append.mp hmem with hold | hnew
  · obtain ⟨m', hm', hjoins⟩ := h gameId user row before after hold
    exact ⟨m', List.mem_append_left _ hm', hjoins⟩
  · cases List.mem_singleton.mp hnew

private theorem refusal_silent (packet : Packet) (socket gameId : Nat) :
    ¬ (packet.refusal socket : Message js).Joins gameId := by
  cases packet with
  | _ => exact fun h ↦ h

namespace SystemOk

/-- What follows the rejection of a room's task. -/
theorem reject (h : SystemOk D at_ own w) (hguar : Guar (w.jobs j).caller (own j) w own' w')
    (hw' : WorldOk D at_ w') (hj : j < w.created) (hlistening : (w.memoryOf j).listening = true)
    (hpost : Post (w.jobs j).caller w'.log) (room : Nat) (text : String) :
    ∃ own'', SystemOk D at_ own'' (w'.reject j room text) := by
  have hcaller : (w'.jobs j).caller = (w.jobs j).caller := by rw [hguar.jobs]
  unfold World.reject
  rw [hcaller]
  split
  · split
    · exact ⟨_, h.setPhase hguar hw' hj hlistening (Or.inr rfl) ⟨rfl, hpost⟩⟩
    · rw [World.tell, hcaller]
      obtain ⟨hguar', hworld⟩ := hguar.silent hw' fun gameId ↦ refusal_silent _ _ gameId
      exact ⟨_, h.setPhase hguar' hworld hj hlistening (Or.inr rfl) ⟨rfl, hpost.say _ _⟩⟩
  · exact ⟨_, h.setPhase hguar hw' hj hlistening (Or.inr rfl) ⟨rfl, hpost⟩⟩
  · exact ⟨_, h.setPhase hguar hw' hj hlistening (Or.inr rfl) ⟨rfl, hpost⟩⟩

/-- A function that keeps the rules runs up to its next await or its end. -/
theorem run (h : SystemOk D at_ own w) (hj : j < w.created)
    (hlistening : (w.memoryOf j).listening = true) {code : RoomCode js}
    (hconducts : Conducts D at_ (w.jobs j).caller (own j) code w) :
    ∃ own', SystemOk D at_ own' (w.run j code) := by
  obtain ⟨own', hguar, hworld, hkeeps⟩ := hconducts.exec roomRules_lawful h.world
  have hrests := code.exec_rests (World.host (w.jobs j).caller) w
  change ∃ own', SystemOk D at_ own' (World.rest _ j _)
  generalize (code.exec (World.host (w.jobs j).caller) w).1 = w' at *
  generalize (code.exec (World.host (w.jobs j).caller) w).2 = code' at *
  cases code' with
  | done => exact ⟨_, h.setPhase hguar hworld hj hlistening (Or.inr rfl) ⟨rfl, hkeeps⟩⟩
  | throw text => exact h.reject hguar hworld hj hlistening hkeeps _ text
  | await r k => exact ⟨_, h.setPhase hguar hworld hj hlistening (Or.inl rfl) ⟨hrests, hkeeps⟩⟩
  | _ => exact hrests.elim

/-- A task is submitted on a room. -/
theorem roomTask (h : SystemOk D at_ own w) (hj : j < w.created)
    (hlistening : (w.memoryOf j).listening = true) (hbegun : Begun w (w.jobs j).caller)
    (htask : (w.jobs j).caller.origin.isHydration = false)
    {room : Nat} (hroom : room < (w.memoryOf j).allocated) :
    ∃ own', SystemOk D at_ own' (w.roomTask j room) := by
  change ∃ own', SystemOk D at_ own' (ite ((w.memoryOf j).draining = true) _ _)
  split
  · exact h.reject (Guar.refl _ _ _) h.world hj hlistening hbegun.unclaimed.post room _
  · have hwrites : (w.memoryOf j).Writes
        ((w.memoryOf j).modify room fun o ↦ { o with operation := some j }) (own j) (own j) :=
      Memory.writes_sockets rfl
    have hmemory : MemoryOk w ((w.memoryOf j).modify room fun o ↦ { o with operation := some j }) :=
      (h.world.memoryOk _).modify rfl ((h.world.objects _ room hroom).of_players rfl rfl)
    refine ⟨_, h.after { w.jobs j with
      room := some room, after := ((w.memoryOf j).objects room).operation, phase := .queued }
        (Guar.setMemory hwrites) (h.world.setMemory hmemory) hj hlistening rfl (Or.inr rfl)
          ⟨rfl, hbegun.setMemory _ _, htask, room, rfl, ?_⟩⟩
    rw [show World.memory (w.setMemory _ _) (w.jobs j).caller.process = _ from
      Function.update_self _ _ _]
    exact hroom

/-- A new function. -/
theorem create (h : SystemOk D at_ own w) {process : Nat} {origin : Origin} {phase : Phase js}
    (hlistening : (w.memory process).listening = true)
    (hsent : w.Sent ⟨w.created, process, origin⟩)
    (hok : FunctionOk D at_ w none ⟨⟨w.created, process, origin⟩, none, none, phase⟩) :
    SystemOk D at_ (Function.update own w.created none) (w.create process origin phase) := by
  have hjob : (w.create process origin phase).jobs w.created =
      ⟨⟨w.created, process, origin⟩, none, none, phase⟩ := Function.update_self _ _ _
  have hworld : WorldOk D at_ (w.create process origin phase) := h.world.congr rfl rfl rfl rfl
  refine h.move ⟨Onward.refl _, RoomsOnward.refl _, rfl, ⟨[], (List.append_nil _).symm, ?_⟩,
    fun _ ↦ Nat.le_refl _, fun _ ↦ rfl, fun _ _ _ _ ↦ rfl, fun j hne ↦ Function.update_of_ne hne _ _⟩
    hworld (Nat.le_succ _) (Nat.lt_succ_self _) ?_ ?_ (fun hj ↦ absurd hj (Nat.lt_irrefl _))
    (Or.inl rfl) ?_ ?_
  · exact fun _ _ _ _ _ _ hmem ↦ by cases hmem
  · rw [hjob]
  · rw [hjob]
    exact hsent.sockets rfl
  · rw [hjob]
    exact hlistening
  · rw [hjob]
    exact hok.keep (.congr _ _ rfl rfl rfl rfl) hworld

/-- A function that is new has asked for nothing. -/
theorem begun (h : SystemOk D at_ own w) {process : Nat} {origin : Origin}
    (hsent : w.Sent ⟨w.created, process, origin⟩) : Begun w ⟨w.created, process, origin⟩ where
  unclaimed gameId user := by
    rintro ⟨a, arrived, before, after, hmem⟩
    exact Nat.lt_irrefl _ (h.served _ _ _ _ _ _ hmem).1
  unvoted command := by
    rintro ⟨a, arrived, before, after, hmem⟩
    exact Nat.lt_irrefl _ (h.served _ _ _ _ _ _ hmem).1
  sent := hsent

end SystemOk

/-! ### Handlers -/

/-- The task a handler has submitted. -/
theorem task_conducts (hjs : js.Follows at_) (hw : WorldOk D at_ w) (hbegun : Begun w c) {room : Nat}
    (hplaced : room < (w.memory c.process).allocated) :
    Conducts D at_ c none (c.origin.task D room) w := by
  cases horigin : c.origin with
  | event socket user packet newId now =>
    cases packet with
    | createRoom roomId => exact conducts_done hbegun.unclaimed
    | joinRoom roomId => exact joinTask_conducts hjs hbegun horigin hplaced
    | makeMove roomId move => exact moveTask_conducts hjs hbegun horigin hplaced
    | gameOver roomId => exact gameOverTask_conducts hjs hbegun horigin hplaced
    | resign roomId => exact resignTask_conducts hjs hbegun horigin hplaced
    | requestRematch roomId => exact conducts_done hbegun.unclaimed
    | acceptRematch roomId => exact acceptTask_conducts hjs hbegun horigin hplaced
    | leaveRoom roomId => exact leaveTask_conducts hjs hbegun horigin hplaced
  | disconnect socket => exact disconnectTask_conducts hjs hw hbegun socket hplaced
  | hydration roomId => exact conducts_done hbegun.unclaimed

namespace SystemOk

variable {process socket newId now : Nat} {user : SocketUser} {origin : Origin}

/-- A message that tells nobody of a game. -/
theorem silent (h : SystemOk D at_ own w) (c : Caller) {m : Message js}
    (hm : ∀ gameId, ¬ m.Joins gameId) : SystemOk D at_ own (w.say (.told c m)) := by
  have hserved : ∀ c' r a arrived before after, Event.served c' r a arrived before after ∈
      w.log ++ [Event.told c m] → Event.served c' r a arrived before after ∈ w.log := by
    intro c' r a arrived before after hmem
    rcases List.mem_append.mp hmem with hold | hnew
    · exact hold
    · cases List.mem_singleton.mp hnew
  exact h.aside (h.world.say (toldOk_of_silent hm)) rfl rfl
    (fun c' ref ↦ ⟨⟨Onward.refl _, RoomsOnward.refl _, fun _ _ hs ↦ hs, ⟨_, rfl⟩, Nat.le_refl _,
      fun _ _ ↦ rfl⟩, hserved c'⟩) hserved (fun _ ↦ rfl) h.sockets

/-- A handler that ends at once. -/
theorem createSettled (h : SystemOk D at_ own w)
    (hlistening : (w.memory process).listening = true)
    (hsent : w.Sent ⟨w.created, process, origin⟩) :
    SystemOk D at_ (Function.update own w.created none) (w.create process origin .settled) :=
  h.create hlistening hsent ⟨rfl, (h.begun hsent).unclaimed.post⟩

/-- `create_room` runs up to its transaction. -/
theorem createRoom (hjs : js.Follows at_) (h : SystemOk D at_ own w)
    (hlistening : (w.memory process).listening = true) (hsocket : w.SocketIs socket user)
    (roomId : String) : ∃ own', SystemOk D at_ own' ((w.create process
      (.event socket user (.createRoom roomId) newId now) .settled).run w.created
        (createRoomCode roomId socket user newId now)) := by
  have hsent : w.Sent ⟨w.created, process, .event socket user (.createRoom roomId) newId now⟩ := by
    intro socket' user' packet newId' now' heq
    cases heq
    exact hsocket
  have hcreated := h.createSettled hlistening hsent
  have hjob := World.create_jobs w process (.event socket user (.createRoom roomId) newId now) .settled
  refine hcreated.run (Nat.lt_succ_self _) ?_ ?_
  · rw [World.memoryOf, hjob]
    exact hlistening
  · rw [Function.update_self, hjob]
    exact createRoom_conducts hjs hcreated.world
      ((h.begun hsent).rely (.congr _ none rfl rfl rfl rfl)) rfl

/-- A handler that finds its room in the cache submits its task. -/
theorem submitTask (h : SystemOk D at_ own w) (hlistening : (w.memory process).listening = true)
    (hsent : w.Sent ⟨w.created, process, origin⟩) (htask : origin.isHydration = false) {room : Nat}
    (hroom : room < (w.memory process).allocated) :
    ∃ own', SystemOk D at_ own' ((w.create process origin .settled).roomTask w.created room) := by
  have hjob := World.create_jobs w process origin .settled
  refine (h.createSettled hlistening hsent).roomTask (Nat.lt_succ_self _) ?_ ?_ ?_ ?_
  · rw [World.memoryOf, hjob]
    exact hlistening
  · rw [hjob]
    exact (h.begun hsent).rely (.congr _ none rfl rfl rfl rfl)
  · rw [hjob]
    exact htask
  · rw [World.memoryOf, hjob]
    exact hroom

private theorem submit (h : SystemOk D at_ own w) (hlistening : (w.memory process).listening = true)
    {packet : Packet} (hsent : w.Sent ⟨w.created, process, .event socket user packet newId now⟩)
    (roomId : String) : ∃ own', SystemOk D at_ own'
      (w.submit process (.event socket user packet newId now) socket packet roomId) := by
  unfold World.submit
  dsimp only
  split
  · next room hcached =>
    obtain ⟨name, -, hget⟩ := Option.bind_eq_some_iff.mp hcached
    exact h.submitTask hlistening hsent rfl ((h.world.coherent process).cached _ _ hget).1
  · have hcreated := h.createSettled hlistening hsent
    unfold World.absent
    split
    · exact ⟨_, hcreated.silent _ fun _ h ↦ h⟩
    · exact ⟨_, hcreated.silent _ fun _ h ↦ h⟩
    · exact ⟨_, hcreated⟩

/-- A process that changes only what is not about its rooms. -/
theorem signal (h : SystemOk D at_ own w) (process : Nat) {m : Memory js}
    (hm : m.Coherent) (hobjects : m.objects = (w.memory process).objects)
    (hallocated : m.allocated = (w.memory process).allocated)
    (hlistening : m.listening = (w.memory process).listening) :
    SystemOk D at_ own (w.setMemory process m) := by
  have hfields : ∀ process', ((w.setMemory process m).memory process').allocated =
      (w.memory process').allocated ∧ ((w.setMemory process m).memory process').objects =
      (w.memory process').objects ∧ ((w.setMemory process m).memory process').listening =
      (w.memory process').listening := by
    intro process'
    rcases eq_or_ne process' process with rfl | hne
    · rw [show World.memory (w.setMemory process' _) process' = _ from Function.update_self _ _ _]
      exact ⟨hallocated, hobjects, hlistening⟩
    · rw [show World.memory (w.setMemory process _) process' = _ from Function.update_of_ne hne _ _]
      exact ⟨rfl, rfl, rfl⟩
  have hmemory : MemoryOk w m := by
    refine ⟨hm, fun ref href ↦ ?_⟩
    rw [hobjects]
    exact h.world.objects process ref (hallocated ▸ href)
  refine h.aside (h.world.setMemory hmemory) rfl rfl (fun c ref ↦ ⟨⟨Onward.refl _, RoomsOnward.refl _,
    fun _ _ hs ↦ hs, ⟨[], (List.append_nil _).symm⟩, ?_, fun ref' _ ↦ ?_⟩, fun _ _ _ _ _ he ↦ he⟩)
    (fun _ _ _ _ _ _ he ↦ he) (fun process' ↦ (hfields process').2.2) h.sockets
  · exact Nat.le_of_eq (hfields _).1.symm
  · rw [(hfields _).2.1]

/-- The first join that misses the cache starts a hydration and waits for it. -/
theorem firstJoin (hjs : js.Follows at_) (h : SystemOk D at_ own w)
    (hlistening : (w.memory process).listening = true) (hjoin : origin.isJoin = true)
    (hsent : ∀ w' : World js, w'.sockets = w.sockets → w'.Sent ⟨w'.created, process, origin⟩)
    (name : String) : ∃ own', SystemOk D at_ own' (((w.create process (.hydration name)
      .settled).run w.created (hydrateRoom w.created name)).create process origin
        (.fetching w.created)) := by
  have hhydrates : w.Sent ⟨w.created, process, .hydration name⟩ := fun _ _ _ _ _ heq ↦ by cases heq
  have hcreated := h.createSettled hlistening hhydrates
  have hjob := World.create_jobs w process (.hydration name) .settled
  have hunclaimed : Unclaimed (w.create process (.hydration name) .settled).log
      ⟨w.created, process, .hydration name⟩ := (h.begun hhydrates).unclaimed
  have hconducts := hydrateRoom_conducts (D := D) hjs hunclaimed w.created name
  rw [show (⟨w.created, process, .hydration name⟩ : Caller) =
    ((w.create process (.hydration name) .settled).jobs w.created).caller by rw [hjob]] at hconducts
  have hrunning : ((w.create process (.hydration name) .settled).memoryOf w.created).listening =
      true := by
    rw [World.memoryOf, hjob]
    exact hlistening
  obtain ⟨own', hrun⟩ := hcreated.run (Nat.lt_succ_self _) hrunning
    (by rw [Function.update_self]; exact hconducts)
  exact ⟨_, hrun.create hlistening (hsent _ rfl) ⟨rfl, hrun.begun (hsent _ rfl), hjoin⟩⟩

/-- `join_room` runs up to its first await. -/
theorem joinRoom (hjs : js.Follows at_) (h : SystemOk D at_ own w)
    (hlistening : (w.memory process).listening = true) (hjoin : origin.isJoin = true)
    (hsent : ∀ w' : World js, w'.sockets = w.sockets → w'.Sent ⟨w'.created, process, origin⟩)
    (roomId : String) : ∃ own', SystemOk D at_ own' (w.joinRoom process origin socket roomId) := by
  have hbegun := h.begun (hsent w rfl)
  unfold World.joinRoom
  dsimp only
  split
  · exact ⟨_, (h.createSettled hlistening (hsent w rfl)).silent _ fun _ h ↦ h⟩
  · split
    · next room hget =>
      exact ⟨_, h.create hlistening hbegun.sent
        ⟨rfl, hbegun, hjoin, ((h.world.coherent process).cached _ _ hget).1⟩⟩
    · split
      · exact ⟨_, h.create hlistening hbegun.sent ⟨rfl, hbegun, hjoin⟩⟩
      · next name _ _ _ _ _ =>
        have hcoherent := h.world.coherent process
        have hset := h.signal process (m := { w.memory process with
          hydrating := (w.memory process).hydrating.set name w.created })
          ⟨hcoherent.cached, hcoherent.hydrated⟩ rfl rfl rfl
        refine hset.firstJoin hjs ?_ hjoin hsent name
        rw [show World.memory (w.setMemory process _) process = _ from Function.update_self _ _ _]
        exact hlistening

/-- A handler runs up to its first await. -/
theorem handle (hjs : js.Follows at_) (h : SystemOk D at_ own w)
    (hlistening : (w.memory process).listening = true) (hsocket : w.SocketIs socket user)
    {packet : Packet} (hst : w.handle process socket user packet newId now = some w') :
    ∃ own', SystemOk D at_ own' w' := by
  have hsent : ∀ w₁ : World js, w₁.sockets = w.sockets →
      w₁.Sent ⟨w₁.created, process, .event socket user packet newId now⟩ := by
    intro w₁ hsockets socket' user' packet' newId' now' heq
    cases heq
    obtain ⟨connection, hconnection, huser⟩ := hsocket
    exact ⟨connection, by rw [hsockets]; exact hconnection, huser⟩
  cases packet with
  | createRoom roomId =>
    change (if _ then some _ else none) = _ at hst
    split at hst
    · obtain rfl := Option.some.inj hst
      exact h.createRoom hjs hlistening hsocket roomId
    · cases hst
  | joinRoom roomId =>
    obtain rfl := Option.some.inj hst
    exact h.joinRoom hjs hlistening rfl hsent roomId
  | requestRematch roomId =>
    have hcreated := h.createSettled hlistening (hsent w rfl)
    unfold World.handle at hst
    dsimp only at hst
    split at hst
    · split at hst
      · obtain rfl := Option.some.inj hst
        exact ⟨_, hcreated.silent _ fun _ h ↦ h⟩
      · obtain rfl := Option.some.inj hst
        exact ⟨_, hcreated⟩
    · obtain rfl := Option.some.inj hst
      exact ⟨_, hcreated⟩
  | _ =>
    obtain rfl := Option.some.inj hst
    exact h.submit hlistening (hsent w rfl) _

/-- `disconnect` submits a task on the first room the socket is attached to. -/
theorem hangUp (h : SystemOk D at_ own w) (hlistening : (w.memory process).listening = true)
    (socket : Nat) : ∃ own', SystemOk D at_ own' (w.hangUp process socket) := by
  unfold World.hangUp
  split
  · next room hroom =>
    obtain ⟨⟨name, ref⟩, hfind, rfl⟩ := Option.map_eq_some_iff.mp hroom
    have hget := JsMap.get_eq_some.mpr (List.mem_of_find?_eq_some hfind)
    exact h.submitTask hlistening (fun _ _ _ _ _ heq ↦ by cases heq) rfl
      ((h.world.coherent process).cached _ _ hget).1
  · exact ⟨_, h⟩

/-! ### Turns of a process -/

/-- The `catch` of a join evicts its room if no socket is attached to it. -/
theorem catches (h : SystemOk D at_ own w) (hj : j < w.created)
    (hlistening : (w.memoryOf j).listening = true) (hpost : Post (w.jobs j).caller w.log)
    (roomId : String) {m : Message js} (hm : ∀ gameId, ¬ m.Joins gameId) :
    SystemOk D at_ (Function.update own j none) (((w.setMemory (w.jobs j).caller.process
      ((w.memoryOf j).evictIfSocketless roomId)).tell j m).setPhase j .settled) := by
  have hwrites : (w.memoryOf j).Writes ((w.memoryOf j).evictIfSocketless roomId) (own j) (own j) := by
    unfold Memory.evictIfSocketless
    split
    · exact Memory.writes_evict roomId
    · exact ⟨Nat.le_refl _, rfl, fun _ _ _ ↦ rfl, Or.inl rfl⟩
  have hmemory : MemoryOk w ((w.memoryOf j).evictIfSocketless roomId) := by
    unfold Memory.evictIfSocketless
    split
    · exact (h.world.memoryOk _).evict roomId
    · exact h.world.memoryOk _
  obtain ⟨hguar, hworld⟩ := (Guar.setMemory hwrites).silent (h.world.setMemory hmemory) hm
  exact h.setPhase hguar hworld hj hlistening (Or.inr rfl) ⟨rfl, hpost.say _ _⟩

/-- A turn of an event loop. -/
theorem proceed (hjs : js.Follows at_) (h : SystemOk D at_ own w)
    (hst : w.proceed D j = some w') : ∃ own', SystemOk D at_ own' w' := by
  have hok := h.functions j
  unfold FunctionOk at hok
  unfold World.proceed at hst
  dsimp only at hst
  split at hst
  · next room hphase =>
    rw [hphase] at hok
    have hlive : ¬ (w.jobs j).phase.Over := by rw [hphase]; exact id
    obtain ⟨-, hbegun, hjoin, hroom⟩ := hok
    obtain rfl := Option.some.inj hst
    exact h.roomTask (h.born hlive) (h.listening hlive) hbegun (isHydration_of_isJoin hjoin) hroom
  · next hydration hphase =>
    rw [hphase] at hok
    have hlive : ¬ (w.jobs j).phase.Over := by rw [hphase]; exact id
    obtain ⟨hown, hbegun, hjoin⟩ := hok
    split at hst
    · next room hleft =>
      obtain rfl := Option.some.inj hst
      exact h.roomTask (h.born hlive) (h.listening hlive) hbegun (isHydration_of_isJoin hjoin)
        ((h.world.coherent _).hydrated _ _ hleft)
    · split at hst
      · obtain rfl := Option.some.inj hst
        obtain ⟨hguar, hworld⟩ := (Guar.refl (w.jobs j).caller (own j) w).silent h.world
          (m := .error _ "Room not found") fun _ h ↦ h
        exact ⟨_, h.setPhase hguar hworld (h.born hlive) (h.listening hlive) (Or.inr rfl)
          ⟨rfl, hbegun.unclaimed.post.say _ _⟩⟩
      · cases hst
    · cases hst
  · next hphase =>
    rw [hphase] at hok
    have hlive : ¬ (w.jobs j).phase.Over := by rw [hphase]; exact id
    obtain ⟨hown, hbegun, -, room, hroom, hlt⟩ := hok
    rw [hroom] at hst
    dsimp only at hst
    split at hst
    · obtain rfl := Option.some.inj hst
      exact h.run (h.born hlive) (h.listening hlive)
        (hown ▸ task_conducts hjs h.world hbegun hlt)
    · cases hst
  · next code hphase =>
    rw [hphase] at hok
    have hlive : ¬ (w.jobs j).phase.Over := by rw [hphase]; exact id
    obtain rfl := Option.some.inj hst
    exact h.run (h.born hlive) (h.listening hlive) (hok w (Rely.refl _ _ _) h.world)
  · next room text hphase =>
    rw [hphase] at hok
    have hlive : ¬ (w.jobs j).phase.Over := by rw [hphase]; exact id
    obtain ⟨hown, hpost⟩ := hok
    split at hst
    · obtain rfl := Option.some.inj hst
      exact ⟨_, h.catches (h.born hlive) (h.listening hlive) hpost _ fun gameId ↦ by
        split
        · exact id
        · exact refusal_silent _ _ gameId⟩
    · cases hst
    · cases hst
  · cases hst
  · cases hst
  · cases hst

/-- A request has been served, or has failed: the function is ready to go on. -/
theorem answered (h : SystemOk D at_ own w) {r : Await js} {k : Answer js r → RoomCode js}
    {a : Answer js r} (hphase : (w.jobs j).phase = .waiting (.await r k))
    (hserves : Serves D (w.jobs j).caller r a w w') (hframe : Elsewhere (own j) w w' j)
    (hworld : WorldOk D at_ w') (hjobs : w'.jobs = w.jobs) (hcreated : w'.created = w.created) :
    SystemOk D at_ (Function.update own j (own j)) (w'.setPhase j (.turn (k a))) := by
  have hlive : ¬ (w.jobs j).phase.Over := by
    rw [hphase]
    exact id
  have hok := h.functions j
  unfold FunctionOk at hok
  rw [hphase] at hok
  have hready := hok.2.served (Rely.refl _ _ _) h.world hserves
  have hjob : (w'.setPhase j (.turn (k a))).jobs j = { w.jobs j with phase := .turn (k a) } := by
    change Function.update w'.jobs j { w'.jobs j with phase := .turn (k a) } j = _
    rw [Function.update_self, hjobs]
  refine h.move (hframe.setJob _) (hworld.congr rfl rfl rfl rfl) (Nat.le_of_eq hcreated.symm)
    (Nat.lt_of_lt_of_eq (h.born hlive) hcreated.symm) ?_ ?_ (fun _ ↦ by rw [hjob])
    (Or.inr ⟨?_, Or.inl rfl⟩) ?_ ?_
  · rw [hjob]
    exact h.callers j
  · rw [hjob]
    exact (h.sent j).sockets hframe.sockets
  · rw [hjob]
  · rw [hjob]
    exact h.listening hlive
  · rw [hjob]
    exact hready.stable roomRules_lawful (.congr _ _ rfl rfl rfl rfl)

/-- What a job asked for is served, or fails. -/
theorem perform (hjs : js.Follows at_) (h : SystemOk D at_ own w) {reply : World.Reply}
    (hst : w.perform D j reply = some w') : ∃ own', SystemOk D at_ own' w' := by
  have hserved : ∀ {r : Await js} {k : Answer js r → RoomCode js} {a : Answer js r}
      {a' : Answer js r} {fetched : List Nat} {o : Outside} (arrived : Bool),
      (w.jobs j).phase = .waiting (.await r k) →
      w.outside.serve D (w.jobs j).caller.process fetched r = some (a', o) →
      Serves D (w.jobs j).caller r a w (w.recorded (w.jobs j).caller r a' arrived o) →
      SystemOk D at_ (Function.update own j (own j))
        ((w.recorded (w.jobs j).caller r a' arrived o).setPhase j (.turn (k a))) := by
    intro r k a a' fetched o arrived hphase hserve hserves
    have hok := h.functions j
    unfold FunctionOk at hok
    rw [hphase] at hok
    obtain ⟨hworld, hon, hrooms⟩ := h.world.recorded hjs hok.2.1 hserve arrived
    refine h.answered hphase hserves ⟨hon, hrooms, rfl, ⟨_, rfl, ?_⟩, fun _ ↦ Nat.le_refl _,
      fun _ ↦ rfl, fun _ _ _ _ ↦ rfl, fun _ _ ↦ rfl⟩ hworld rfl rfl
    intro c r' a'' arrived' before after hmem
    cases List.mem_singleton.mp hmem
    exact ⟨rfl, h.born (by rw [hphase]; exact id)⟩
  unfold World.perform at hst
  split at hst
  · next r k hphase =>
    split at hst
    · next fetched =>
      split at hst
      · next answer o hserve =>
        obtain rfl := Option.some.inj hst
        exact ⟨_, hserved true hphase hserve (.arrives hserve)⟩
      · cases hst
    · split at hst
      · next answer o failed hserve hfailed =>
        obtain rfl := Option.some.inj hst
        exact ⟨_, hserved false hphase hserve (.lost hserve hfailed)⟩
      · cases hst
    · split at hst
      · next failed hfailed =>
        obtain rfl := Option.some.inj hst
        refine ⟨_, h.answered hphase (.fails hfailed) ⟨Onward.refl _, RoomsOnward.refl _, rfl,
          ⟨[], (List.append_nil _).symm, fun _ _ _ _ _ _ hmem ↦ by (cases hmem)⟩,
          fun _ ↦ Nat.le_refl _, fun _ ↦ rfl, fun _ _ _ _ ↦ rfl, fun _ _ ↦ rfl⟩ h.world rfl rfl⟩
      · cases hst
  · cases hst

/-! ### Sockets -/

/-- A socket that keeps its user is attached or detached. -/
theorem setSocket (h : SystemOk D at_ own w) {s : Nat} {connection : Socket}
    (huser : ∀ old, w.sockets s = some old → connection.user = old.user)
    (haccount : connection.user ∈ D.accounts)
    (hconnected : connection.connected = true →
      (w.memory connection.process).listening = true) :
    SystemOk D at_ own (w.setSocket s connection) := by
  have hsame : ∀ socket user, w.SocketIs socket user → (w.setSocket s connection).SocketIs socket user := by
    rintro socket user ⟨old, hold, rfl⟩
    rcases eq_or_ne socket s with rfl | hne
    · exact ⟨connection, Function.update_self _ _ _, huser old hold⟩
    · exact ⟨old, (Function.update_of_ne hne _ _).trans hold, rfl⟩
  have hrely : ∀ c ref, Rely c ref w (w.setSocket s connection) := fun c ref ↦
    ⟨⟨Onward.refl _, RoomsOnward.refl _, hsame, ⟨[], (List.append_nil _).symm⟩, Nat.le_refl _,
      fun _ _ ↦ rfl⟩, fun _ _ _ _ _ he ↦ he⟩
  have hw := h.world
  refine h.aside ⟨hw.tables, hw.coherent, fun process ref href ↦ (hw.objects process ref href).onward
    (Onward.refl _) hsame, ?_, hw.votes, hw.voters, hw.log, hw.past, hw.granted, hw.filled, hw.told⟩
    rfl rfl hrely (fun _ _ _ _ _ _ he ↦ he) (fun _ ↦ rfl) fun s' other hs hlive ↦ ?_
  · rintro socket user ⟨other, hother, rfl⟩
    change Function.update w.sockets s (some connection) socket = some other at hother
    rcases eq_or_ne socket s with rfl | hne
    · rw [Function.update_self] at hother
      obtain rfl := Option.some.inj hother
      exact haccount
    · rw [Function.update_of_ne hne] at hother
      exact hw.users socket other.user ⟨other, hother, rfl⟩
  · change Function.update w.sockets s (some connection) s' = some other at hs
    rcases eq_or_ne s' s with rfl | hne
    · rw [Function.update_self] at hs
      obtain rfl := Option.some.inj hs
      exact hconnected hlive
    · rw [Function.update_of_ne hne] at hs
      exact h.sockets s' other hs hlive

/-! ### Votes and signals -/

/-- Votes go, as an event says that is neither a request served nor a message. -/
theorem forget (h : SystemOk D at_ own w) {e : Event js} {votes : Nat → Nat → List Nat}
    (hnot : ∀ c r a arrived before after, e ≠ .served c r a arrived before after)
    (hnot' : ∀ c m, e ≠ .told c m)
    (hvotes : ∀ store gameId,
      votes store gameId = e.voters D store gameId (w.outside.votes store gameId))
    (hsub : ∀ store gameId, votes store gameId ⊆ w.outside.votes store gameId) :
    SystemOk D at_ own
      (({ w with outside := { w.outside with votes := votes } } : World js).say e) := by
  have hw := h.world
  have hserved : ∀ c r a arrived before after, Event.served c r a arrived before after ∈
      w.log ++ [e] → Event.served c r a arrived before after ∈ w.log := by
    intro c r a arrived before after hmem
    rcases List.mem_append.mp hmem with hold | hnew
    · exact hold
    · exact absurd (List.mem_singleton.mp hnew).symm (hnot c r a arrived before after)
  have hentry : EntryOk D at_ w.log e := by
    cases e with
    | served c r a arrived before after => exact absurd rfl (hnot c r a arrived before after)
    | _ => trivial
  have hmono : ∀ e' ∈ w.log, e' ∈ w.log ++ [e] := fun e' he ↦ List.mem_append_left _ he
  refine h.aside ⟨hw.tables, hw.coherent, fun process ref href ↦ (hw.objects process ref href).congr
    rfl rfl, hw.users, ?_, fun store gameId userId hmem ↦ ?_, hw.log.snoc hentry, ?_, ?_, ?_, ?_⟩
    rfl rfl (fun c ref ↦ ⟨⟨Onward.refl _, RoomsOnward.refl _, fun _ _ hs ↦ hs, ⟨_, rfl⟩,
      Nat.le_refl _, fun _ _ ↦ rfl⟩, hserved c⟩) hserved (fun _ ↦ rfl) h.sockets
  · funext store gameId
    change votes store gameId = votersOf D (w.log ++ [_]) store gameId
    rw [votersOf_append, ← hw.votes, hvotes]
  · obtain ⟨hseated, hvoted⟩ := hw.voters store gameId userId (hsub store gameId hmem)
    exact ⟨hseated, hvoted.mono hmono⟩
  · exact fun c r a arrived before after hmem ↦ hw.past _ _ _ _ _ _ (hserved _ _ _ _ _ _ hmem)
  · rintro c gameId user ⟨row, arrived, before, after, hmem⟩
    exact hw.granted c gameId user ⟨row, arrived, before, after, hserved _ _ _ _ _ _ hmem⟩
  · rintro gameId ⟨c, r, a, arrived, before, after, row, hmem, hrow, hfree⟩ row' hrow' hsome
    obtain ⟨c', user, hgranted⟩ := hw.filled gameId
      ⟨c, r, a, arrived, before, after, row, hserved _ _ _ _ _ _ hmem, hrow, hfree⟩ row' hrow' hsome
    exact ⟨c', user, hgranted.mono hmono⟩
  · intro c m hmem
    rcases List.mem_append.mp hmem with hold | hnew
    · exact hw.told c m hold
    · exact absurd (List.mem_singleton.mp hnew).symm (hnot' c m)

/-- A vote set expires or is lost. -/
theorem evaporate (h : SystemOk D at_ own w) (store gameId : Nat) :
    SystemOk D at_ own (({ w with outside := w.outside.setVotes store gameId [] } : World js).say
      (.evaporated store gameId)) := by
  have hvotes : ∀ store' gameId', (w.outside.setVotes store gameId []).votes store' gameId' =
      if store = store' ∧ gameId = gameId' then [] else w.outside.votes store' gameId' := by
    intro store' gameId'
    change Function.update w.outside.votes _ (Function.update (w.outside.votes _) _ _) store'
      gameId' = _
    by_cases hstore : store = store'
    · subst hstore
      rw [Function.update_self]
      by_cases hgame : gameId = gameId'
      · subst hgame
        rw [Function.update_self, if_pos ⟨rfl, rfl⟩]
      · rw [Function.update_of_ne (Ne.symm hgame), if_neg fun h ↦ hgame h.2]
    · rw [Function.update_of_ne (Ne.symm hstore), if_neg fun h ↦ hstore h.1]
  refine h.forget (fun _ _ _ _ _ _ h ↦ by cases h) (fun _ _ h ↦ by cases h) hvotes
    fun store' gameId' userId hmem ↦ ?_
  change userId ∈ (w.outside.setVotes store gameId []).votes store' gameId' at hmem
  rw [hvotes] at hmem
  split at hmem
  · cases hmem
  · exact hmem

/-- The votes that a process keeps itself are lost. -/
theorem loseVotes (h : SystemOk D at_ own w) (process : Nat) :
    SystemOk D at_ own (w.loseVotes D process) := by
  unfold World.loseVotes
  split
  · exact h
  · have hvotes : ∀ store gameId, Function.update w.outside.votes process (fun _ ↦ []) store gameId =
        if process = store then [] else w.outside.votes store gameId := by
      intro store gameId
      by_cases hstore : process = store
      · subst hstore
        rw [Function.update_self, if_pos rfl]
      · rw [Function.update_of_ne (Ne.symm hstore), if_neg hstore]
    refine h.forget (fun _ _ _ _ _ _ h ↦ by cases h) (fun _ _ h ↦ by cases h) hvotes
      fun store gameId userId hmem ↦ ?_
    rw [hvotes] at hmem
    split at hmem
    · cases hmem
    · exact hmem

private theorem setDrain (h : SystemOk D at_ own w) (process : Nat) (drain : Drain) :
    SystemOk D at_ own (w.setDrain process drain) :=
  h.aside (h.world.congr rfl rfl rfl rfl) rfl rfl (fun _ _ ↦ .congr _ _ rfl rfl rfl rfl)
    (fun _ _ _ _ _ _ he ↦ he) (fun _ ↦ rfl) h.sockets

/-! ### Processes that go and come back -/

/-- A process goes or comes back: its functions are over, and it has what it holds anew. -/
theorem reset (h : SystemOk D at_ own w) (process : Nat) (hw' : WorldOk D at_ w')
    (hcreated : w'.created = w.created) (houtside : w'.outside = w.outside) (hlog : w'.log = w.log)
    (hmemory : ∀ process' ≠ process, w'.memory process' = w.memory process')
    (hsockets : ∀ socket user, w.SocketIs socket user → w'.SocketIs socket user)
    (hcallers : ∀ j, (w'.jobs j).caller = (w.jobs j).caller)
    (hjobs : ∀ j, (w.jobs j).caller.process ≠ process → w'.jobs j = w.jobs j)
    (hover : ∀ j, (w.jobs j).caller.process = process → (w'.jobs j).phase.Over ∧
      FunctionOk D at_ w none (w'.jobs j))
    (hlistening : ∀ s connection, w'.sockets s = some connection → connection.connected = true →
      (w'.memory connection.process).listening = true) :
    ∃ own', SystemOk D at_ own' w' := by
  have hrely : ∀ c ref, c.process ≠ process → Rely c ref w w' := fun c ref hne ↦
    ⟨⟨houtside ▸ Onward.refl _, houtside ▸ RoomsOnward.refl _, hsockets,
      ⟨[], by rw [hlog, List.append_nil]⟩, Nat.le_of_eq (by rw [hmemory _ hne]),
      fun _ _ ↦ by rw [hmemory _ hne]⟩, fun _ _ _ _ _ he ↦ hlog ▸ he⟩
  have hnone : ∀ j, (w.jobs j).caller.process = process → ∀ ref,
      (if (w.jobs j).caller.process = process then none else own j) ≠ some ref := by
    intro j heq ref hcontra
    rw [if_pos heq] at hcontra
    cases hcontra
  refine ⟨fun j ↦ if (w.jobs j).caller.process = process then none else own j, hw',
    fun j ↦ by rw [hcallers, h.callers], fun j _ _ _ _ _ horigin ↦ hsockets _ _
      (h.sent j _ _ _ _ _ (hcallers j ▸ horigin)), fun j hj ↦ ?_, fun c r a arrived before after hmem ↦ ?_,
    fun j ↦ ?_, fun j ref href ↦ ?_, fun j j' ref hprocess href href' ↦ ?_,
    fun process' hidle j hprocess ↦ ?_, hlistening⟩
  · by_cases heq : (w.jobs j).caller.process = process
    · exact (hover j heq).1
    · rw [hjobs j heq]
      exact h.unborn j (hcreated ▸ hj)
  · rw [hlog] at hmem
    rw [hcreated, hcallers]
    exact h.served c r a arrived before after hmem
  · by_cases heq : (w.jobs j).caller.process = process
    · obtain ⟨hphase, hok⟩ := hover j heq
      rw [if_pos heq]
      unfold FunctionOk at hok ⊢
      cases hcase : (w'.jobs j).phase with
      | settled =>
        rw [hcase] at hok
        exact ⟨rfl, by rw [hlog]; exact hok.2⟩
      | dead => rfl
      | _ =>
        rw [hcase] at hphase
        exact hphase.elim
    · rw [if_neg heq, hjobs j heq]
      exact (h.functions j).keep (hrely _ _ heq) hw'
  · by_cases heq : (w.jobs j).caller.process = process
    · exact absurd href (hnone j heq ref)
    · rw [if_neg heq] at href
      rw [World.memoryOf, hcallers, hmemory _ heq]
      exact h.placed j ref href
  · rw [hcallers, hcallers] at hprocess
    by_cases heq : (w.jobs j).caller.process = process
    · exact absurd href (hnone j heq ref)
    · rw [if_neg heq] at href
      rw [if_neg (hprocess ▸ heq)] at href'
      exact h.apart j j' ref hprocess href href'
  · rw [hcallers] at hprocess
    by_cases heq : (w.jobs j).caller.process = process
    · exact (hover j heq).1
    · rw [hmemory process' (hprocess ▸ heq)] at hidle
      rw [hjobs j heq]
      exact h.idle process' hidle j hprocess

private theorem crash (h : SystemOk D at_ own w) (process : Nat) :
    ∃ own', SystemOk D at_ own' (w.crash process) := by
  have hw := h.world
  have hempty : (w.crash process).memory process = Memory.empty := Function.update_self _ _ _
  have hothers : ∀ process' ≠ process, (w.crash process).memory process' = w.memory process' :=
    fun process' hne ↦ Function.update_of_ne hne _ _
  have husers : ∀ socket connection, (w.crash process).sockets socket = some connection →
      ∃ old, w.sockets socket = some old ∧ old.user = connection.user ∧
        old.process = connection.process ∧ (connection.connected = true →
          old.connected = true ∧ connection.process ≠ process) := by
    intro socket connection hs
    obtain ⟨old, hold, rfl⟩ := Option.map_eq_some_iff.mp hs
    refine ⟨old, hold, ?_⟩
    split
    · exact ⟨rfl, rfl, fun h ↦ by cases h⟩
    · next hne => exact ⟨rfl, rfl, fun h ↦ ⟨h, hne⟩⟩
  have hsockets : ∀ socket user, w.SocketIs socket user → (w.crash process).SocketIs socket user := by
    rintro socket user ⟨old, hold, rfl⟩
    refine ⟨_, congrArg (Option.map _) hold, ?_⟩
    dsimp only
    split
    · rfl
    · rfl
  have hworld : WorldOk D at_ (w.crash process) := by
    refine ⟨hw.tables, fun process' ↦ ?_, fun process' ref href ↦ ?_, ?_, hw.votes, hw.voters, hw.log,
      hw.past, hw.granted, hw.filled, hw.told⟩
    · rcases eq_or_ne process' process with rfl | hne
      · rw [hempty]
        exact Memory.coherent_empty
      · rw [hothers process' hne]
        exact hw.coherent process'
    · rcases eq_or_ne process' process with rfl | hne
      · rw [hempty] at href
        cases href
      · rw [hothers process' hne] at href ⊢
        exact (hw.objects process' ref href).onward (Onward.refl _) hsockets
    · rintro socket user ⟨connection, hconnection, rfl⟩
      obtain ⟨old, hold, huser, -⟩ := husers socket connection hconnection
      exact hw.users socket connection.user ⟨old, hold, huser⟩
  refine h.reset process hworld rfl rfl rfl hothers hsockets (fun j ↦ ?_) (fun j hne ↦ if_neg hne)
    (fun j heq ↦ ?_) fun s connection hs hconnected ↦ ?_
  · change (ite _ _ _ : Job js).caller = _
    split
    · rfl
    · rfl
  · have hdead : (w.crash process).jobs j = { w.jobs j with phase := .dead } := if_pos heq
    rw [hdead]
    exact ⟨trivial, rfl⟩
  · obtain ⟨old, hold, -, hprocess, hlive⟩ := husers s connection hs
    obtain ⟨hconnected', hne⟩ := hlive hconnected
    rw [hothers _ hne, ← hprocess]
    exact h.sockets s old hold hconnected'

end SystemOk

/-- The rooms a server starts with: no table is in such disorder that its game is abandoned. -/
theorem rebuild_ok (hjs : js.Follows at_) (hdb : DbOk js at_ D.accounts w.outside.db)
    {snapshots : List GameSnapshot} {m m' : Memory js} {d : Db}
    (hrun : World.rebuildActiveRooms m w.outside.db snapshots = some (m', d))
    (hsnapshots : ∀ snapshot ∈ snapshots, ∃ row, w.outside.db.game? row.id = some row ∧
      snapshot = ⟨row, (w.outside.db.movesOf row.id).insertionSort
        fun a b ↦ a.moveNumber ≤ b.moveNumber⟩)
    (hm : MemoryOk w m) : MemoryOk w m' ∧ d = w.outside.db ∧ m'.listening = true := by
  induction snapshots generalizing m with
  | nil =>
    obtain ⟨rfl, rfl⟩ := Prod.mk.inj (Option.some.inj hrun)
    exact ⟨⟨⟨hm.coherent.cached, hm.coherent.hydrated⟩, hm.objects⟩, rfl, rfl⟩
  | cons snapshot snapshots ih =>
    obtain ⟨row, hrow, rfl⟩ := hsnapshots _ List.mem_cons_self
    have hok := hdb.rows _ _ hrow
    obtain ⟨p, hlegal⟩ := hok.legal
    obtain ⟨g, hload, -⟩ := hlegal.load_last hjs
    unfold World.rebuildActiveRooms at hrun
    simp only [buildRoomFromSnapshot, checkpoint, hok.board, if_neg hlegal.lastFen_ne, hload,
      Option.map_some] at hrun
    refine ih hrun (fun snapshot hmem ↦ hsnapshots snapshot (List.mem_cons_of_mem _ hmem)) (hm.add ?_)
    refine ⟨⟨row, hrow, fun seat hseat ↦ ?_⟩, fun seat hseat socket hid ↦ ?_⟩
    · obtain ⟨player, hplayer, rfl⟩ := List.mem_map.mp hseat
      exact hplayer
    · obtain ⟨player, -, rfl⟩ := List.mem_map.mp hseat
      cases hid

/-- A game that is recovered is in the tables, with its moves in order. -/
theorem findRecoverable_rows {d : Db} {snapshot : GameSnapshot}
    (h : snapshot ∈ World.findRecoverable d) : ∃ row, d.game? row.id = some row ∧
      snapshot = ⟨row, (d.movesOf row.id).insertionSort fun a b ↦ a.moveNumber ≤ b.moveNumber⟩ := by
  obtain ⟨row, hrow, rfl⟩ := List.mem_map.mp h
  rw [List.mem_insertionSort, List.mem_filter] at hrow
  exact ⟨row, Db.game?_of_mem hrow.1, rfl⟩

namespace SystemOk

/-- A process comes back. -/
theorem restart (hjs : js.Follows at_) (h : SystemOk D at_ own w) {process : Nat} {m : Memory js}
    {d : Db} (hidle : (w.memory process).listening = false)
    (hbooted : World.rebuildActiveRooms .empty w.outside.db (World.findRecoverable w.outside.db) =
      some (m, d)) :
    ∃ own', SystemOk D at_ own'
      (({ w with outside := { w.outside with db := d } } : World js).setMemory process m) := by
  obtain ⟨hmemory, rfl, hlistening⟩ := rebuild_ok hjs h.world.tables.rows hbooted
    (fun _ ↦ findRecoverable_rows) ⟨Memory.coherent_empty, fun _ h ↦ by (cases h)⟩
  change ∃ own', SystemOk D at_ own' (w.setMemory process m)
  have hothers : ∀ process' ≠ process, (w.setMemory process m).memory process' = w.memory process' :=
    fun process' hne ↦ Function.update_of_ne hne _ _
  refine h.reset process (h.world.setMemory hmemory) rfl rfl rfl hothers (fun _ _ hs ↦ hs)
    (fun _ ↦ rfl) (fun _ _ ↦ rfl) (fun j heq ↦ ?_) fun s connection hs hconnected ↦ ?_
  · have hover := h.idle process hidle j heq
    exact ⟨hover, h.own_of_over hover ▸ h.functions j⟩
  · rcases eq_or_ne connection.process process with heq | hne
    · rw [heq, show World.memory (w.setMemory process m) process = m from Function.update_self _ _ _]
      exact hlistening
    · rw [hothers _ hne]
      exact h.sockets s connection hs hconnected

/-! ### Runs -/

private theorem start (hjs : js.Follows at_) {d : Db} (hd : Fresh D.accounts d) :
    SystemOk D at_ (fun _ ↦ none) (World.start d : World js) := by
  have hnone : ∀ id row, d.game? id ≠ some row := by
    intro id row hrow
    unfold Db.game? at hrow
    rw [hd.games] at hrow
    cases hrow
  have hworld : WorldOk D at_ (World.start d : World js) := by
    refine ⟨⟨(@gameProtocol_sound js at_ D.accounts D.computeNewRatings hjs).start d hd,
      (@roomProtocol_sound js D.accounts D.computeNewRatings).start d hd,
      fun id row hrow ↦ absurd hrow (hnone id row)⟩, fun _ ↦ ⟨fun _ _ h ↦ by (cases h),
      fun _ _ h ↦ by (cases h)⟩, fun _ _ href ↦ by (cases href), ?_, rfl, fun _ _ _ hmem ↦ by (cases hmem),
      .nil, fun _ _ _ _ _ _ hmem ↦ by (cases hmem), ?_, ?_, fun _ _ hmem ↦ by (cases hmem)⟩
    · rintro socket user ⟨connection, hconnection, -⟩
      cases hconnection
    · rintro c gameId user ⟨row, arrived, before, after, hmem⟩
      cases hmem
    · rintro gameId ⟨c, r, a, arrived, before, after, row, hmem, -⟩
      cases hmem
  refine ⟨hworld, fun _ ↦ rfl, fun _ _ _ _ _ _ horigin ↦ by (cases horigin), fun _ _ ↦ trivial, fun _ _ _ _ _ _ hmem ↦ by (cases hmem),
    fun _ ↦ ⟨rfl, fun _ _ _ _ _ hmem ↦ by (cases hmem)⟩, fun _ _ href ↦ by (cases href),
    fun _ _ _ _ href ↦ by (cases href), fun _ hidle ↦ by (cases hidle), fun _ _ hs ↦ by (cases hs)⟩

/-- Every step keeps the rules. -/
theorem step (hjs : js.Follows at_) (h : SystemOk D at_ own w) {l : World.Label}
    (hst : w.next D l = some w') : ∃ own', SystemOk D at_ own' w' := by
  cases l with
  | connect s process user =>
    change (if _ then some _ else none) = _ at hst
    split at hst
    · next hconnects =>
      obtain rfl := Option.some.inj hst
      obtain ⟨hfree, hlistening, -, haccount⟩ := hconnects
      refine ⟨own, h.setSocket (fun old hold ↦ ?_) haccount fun _ ↦ hlistening⟩
      rw [hold] at hfree
      cases hfree
    · cases hst
  | packet s packet newId now =>
    obtain ⟨connection, hs, hst⟩ := Option.bind_eq_some_iff.mp hst
    split at hst
    · next hconnected =>
      exact h.handle hjs (h.sockets s connection hs hconnected) ⟨connection, hs, rfl⟩ hst
    · cases hst
  | disconnect s =>
    obtain ⟨connection, hs, hst⟩ := Option.bind_eq_some_iff.mp hst
    split at hst
    · next hconnected =>
      obtain rfl := Option.some.inj hst
      have hset : SystemOk D at_ own (w.setSocket s { connection with connected := false }) := by
        refine h.setSocket (fun old hold ↦ ?_) (h.world.users s _ ⟨connection, hs, rfl⟩)
          fun h ↦ by cases h
        rw [hs] at hold
        rw [Option.some.inj hold]
      exact hset.hangUp (h.sockets s connection hs hconnected) s
    · cases hst
  | proceed j => exact h.proceed hjs hst
  | perform j reply => exact h.perform hjs hst
  | evaporate store gameId =>
    obtain rfl := Option.some.inj hst
    exact ⟨own, h.evaporate store gameId⟩
  | sigterm process =>
    obtain rfl := Option.some.inj hst
    have hcoherent := h.world.coherent process
    exact ⟨own, h.signal process ⟨hcoherent.cached, hcoherent.hydrated⟩ rfl rfl rfl⟩
  | drain process budget =>
    change (if _ then some _ else none) = _ at hst
    split at hst
    · obtain rfl := Option.some.inj hst
      exact ⟨own, h.setDrain process _⟩
    · cases hst
  | drained process =>
    obtain ⟨drain, -, hst⟩ := Option.bind_eq_some_iff.mp hst
    split at hst
    · obtain rfl := Option.some.inj hst
      exact ⟨own, h.setDrain process _⟩
    · cases hst
  | timeout process =>
    obtain ⟨drain, -, hst⟩ := Option.bind_eq_some_iff.mp hst
    split at hst
    · obtain rfl := Option.some.inj hst
      exact ⟨own, h.setDrain process _⟩
    · cases hst
  | crash process =>
    obtain rfl := Option.some.inj hst
    exact (h.loseVotes process).crash process
  | restart process =>
    change (if _ then none else Option.map _ _) = _ at hst
    split at hst
    · cases hst
    · next hidle =>
      obtain ⟨booted, hbooted, rfl⟩ := Option.map_eq_some_iff.mp hst
      exact h.restart hjs (Bool.eq_false_iff.mpr hidle) hbooted

end SystemOk

/-- Every function in every run keeps the rules of its room. -/
theorem systemOk_invariant (hjs : js.Follows at_) :
    (processes js D).Invariant fun w ↦ ∃ own, SystemOk D at_ own w where
  init w hw := by
    obtain ⟨d, hd, rfl⟩ := hw
    exact ⟨_, .start hjs hd⟩
  step _ _ _ hw hst := by
    obtain ⟨own, hok⟩ := hw
    exact hok.step hjs hst

/-- In every reachable world the invariant holds. -/
theorem worldOk_of_reachable (hjs : js.Follows at_) (hw : (processes js D).Reachable w) :
    WorldOk D at_ w := by
  obtain ⟨own, hok⟩ := (systemOk_invariant hjs).reachable hw
  exact hok.world

end

end ChessStack.Server
