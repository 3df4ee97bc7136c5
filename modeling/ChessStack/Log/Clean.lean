import ChessStack.Log.Redact

/-!
# What redaction does to a clean record

Library `Log`. A record with no sensitive key and no text to scrub, as winston hands it to
`redactionFormat` (`Chess-Backend/src/config/logger.js:8`): its level stands under a symbol, which
`Object.entries` passes over.
-/

namespace ChessStack.Log

open ChessStack.Library

variable {h : Heap} {n : Nat} {v : Value} {seen : List Nat}

/-! ### Clean values -/

/-- No pattern finds anything in the text. -/
def CleanText (s : String) : Prop := ∀ re ∈ PATTERNS, NoMatch re none s.toList

/-- A text is checked scheme by scheme and token by token. -/
instance (s : String) : Decidable (CleanText s) := List.decidableBAll _ _

private theorem scrubString_of_clean {s : String} (hs : CleanText s) : scrubString s = s := by
  rw [scrubString, scrubText_of_settled fun re hre ↦ (hs re hre).settled, String.ofList_toList]

/-- Nothing to redact in the value, which takes up at most `n` levels. -/
def Clean (h : Heap) : Nat → Value → Prop
  | 0, _ => False
  | _ + 1, .prim _ => True
  | _ + 1, .str s => CleanText s
  | n + 1, .ref r =>
    match h r with
    | .object _ fields _ => ∀ field ∈ fields, sensitiveKey field.1 = false ∧ Clean h n field.2
    | .array items => ∀ v, some v ∈ items → Clean h n v
    | .error name message stack => ∀ v ∈ [name, message, stack], Clean h n v

/-- The objects reached within `n` levels, an object once for every path to it. -/
def reached (h : Heap) : Nat → Value → List Nat
  | 0, _ | _ + 1, .prim _ | _ + 1, .str _ => []
  | n + 1, .ref r =>
    r :: match h r with
      | .object _ fields _ => fields.flatMap fun field ↦ reached h n field.2
      | .array items => items.flatMap fun item ↦ item.elim [] (reached h n)
      | .error name message stack => [name, message, stack].flatMap (reached h n)

/-- An object that its fields or its items tell all about. -/
def Obj.Data : Obj → Prop
  | .object cls _ _ => cls = .plain
  | .array _ => True
  | .error _ _ _ => False

/-- The result equals the value, its symbol-keyed fields included if `symbols` says so. -/
def Same (symbols : Bool) (h : Heap) : Nat → Out → Value → Prop
  | 0, _, _ => False
  | _ + 1, .prim p, v => v = .prim p
  | _ + 1, .str s, v => v = .str s
  | _ + 1, .raw r, v => v = .ref r
  | n + 1, .array outs, v => ∃ r items, v = .ref r ∧ h r = .array items ∧
      List.Forall₂ (Option.Rel (Same symbols h n)) outs items
  | n + 1, .object outs marks, v => ∃ r fields keyed, v = .ref r ∧
      h r = .object .plain fields keyed ∧
      List.Forall₂ (fun o f ↦ o.1 = f.1 ∧ Same symbols h n o.2 f.2) outs fields ∧
      (symbols = true → List.Forall₂ (fun o f ↦ o.1 = f.1 ∧ Same symbols h n o.2 f.2) marks keyed)

/-! ### Which values come through -/

/-- Objects met one after the other: none was seen before, and each is plain data. -/
def Tame (h : Heap) : List Nat → List Nat → Prop
  | [], _ => True
  | r :: met, seen => r ∉ seen ∧ (h r).Data ∧ Tame h met (seen ++ [r])

private theorem tame_append {met met' : List Nat} :
    Tame h (met ++ met') seen ↔ Tame h met seen ∧ Tame h met' (seen ++ met) := by
  induction met generalizing seen with
  | nil => simp [Tame]
  | cons r met ih => simp [Tame, ih, and_assoc]

private theorem tame_iff {met : List Nat} : Tame h met seen ↔
    met.Nodup ∧ ∀ r ∈ met, r ∉ seen ∧ (h r).Data := by
  induction met generalizing seen with
  | nil => simp [Tame]
  | cons r met ih =>
    simp only [Tame, ih, List.mem_append, List.mem_singleton, not_or, List.nodup_cons,
      List.forall_mem_cons]
    constructor
    · rintro ⟨hr, hdata, hnodup, hmet⟩
      exact ⟨⟨fun hm ↦ (hmet r hm).1.2 rfl, hnodup⟩, ⟨hr, hdata⟩,
        fun q hq ↦ ⟨(hmet q hq).1.1, (hmet q hq).2⟩⟩
    · rintro ⟨⟨hnew, hnodup⟩, ⟨hr, hdata⟩, hmet⟩
      refine ⟨hr, hdata, hnodup, fun q hq ↦ ⟨⟨(hmet q hq).1, ?_⟩, (hmet q hq).2⟩⟩
      rintro rfl
      exact hnew hq

/-- Visits that come through exactly when what they meet is tame do so as a list. -/
theorem visitAll_tame {α β : Type} (visit : α → List Nat → β × List Nat) (met : α → List Nat)
    (Good : β → α → Prop) (as : List α)
    (hvisit : ∀ a ∈ as, ∀ seen, (Good (visit a seen).1 a ↔ Tame h (met a) seen) ∧
      (Tame h (met a) seen → (visit a seen).2 = seen ++ met a)) (seen : List Nat) :
    (List.Forall₂ Good (visitAll visit as seen).1 as ↔ Tame h (as.flatMap met) seen) ∧
      (Tame h (as.flatMap met) seen → (visitAll visit as seen).2 = seen ++ as.flatMap met) := by
  induction as generalizing seen with
  | nil => simp [visitAll, Tame]
  | cons a as ih =>
    obtain ⟨hgood, hseen⟩ := hvisit a List.mem_cons_self seen
    have ih' := ih fun b hb ↦ hvisit b (List.mem_cons_of_mem a hb)
    simp only [visitAll, List.forall₂_cons, List.flatMap_cons, tame_append, hgood]
    constructor
    · refine and_congr_right fun hfirst ↦ ?_
      rw [hseen hfirst]
      exact (ih' _).1
    · rintro ⟨hfirst, hrest⟩
      rw [hseen hfirst, (ih' _).2 hrest, List.append_assoc]

/-- A clean value comes through, symbol-keyed fields apart, exactly when no object below it was
seen before or is met twice and each is plain data; then these are what was seen. -/
theorem redactAt_same (hclean : Clean h n v) (seen : List Nat) :
    (Same false h n (redactAt h n v seen).1 v ↔ Tame h (reached h n v) seen) ∧
      (Tame h (reached h n v) seen → (redactAt h n v seen).2 = seen ++ reached h n v) := by
  induction n generalizing v seen with
  | zero => exact hclean.elim
  | succ n ih =>
    cases v with
    | prim p => simp [redactAt, Same, reached, Tame]
    | str s =>
      simp only [Clean] at hclean
      simp [redactAt, Same, reached, Tame, scrubString_of_clean hclean]
    | ref r =>
      by_cases hr : r ∈ seen
      · simp [redactAt_seen hr, hr, Same, reached, Tame]
      · cases hobj : h r with
        | error name message stack =>
          rw [redactAt_error hr hobj]
          simp only [hobj, reached, Tame, Obj.Data, false_and, and_false, iff_false,
            false_implies, and_true]
          unfold formatError
          split <;> simp [Same, hobj]
        | array items =>
          simp only [Clean, hobj] at hclean
          have hall := visitAll_tame (h := h) (visitItem (redactAt h n))
            (fun item ↦ item.elim [] (reached h n)) (Option.Rel (Same false h n)) items ?_
            (seen ++ [r])
          · rw [redactAt_array hr hobj]
            simp only [Same, Value.ref.injEq, exists_and_left, exists_eq_left', hobj,
              Obj.array.injEq, reached, Tame, hr, not_false_eq_true, Obj.Data, true_and]
            refine ⟨hall.1, fun ht ↦ ?_⟩
            rw [hall.2 ht, List.append_assoc, List.singleton_append]
          · rintro (_ | v) hv seen
            · exact ⟨iff_of_true .none trivial, by simp [visitItem]⟩
            · simpa [visitItem] using ih (hclean v hv) seen
        | object cls fields symbols =>
          simp only [Clean, hobj] at hclean
          have hall := visitAll_tame (h := h) (visitField (redactAt h n))
            (fun field ↦ reached h n field.2)
            (fun (o : String × Out) f ↦ o.1 = f.1 ∧ Same false h n o.2 f.2) fields ?_
            (seen ++ [r])
          · rw [redactAt_object hr hobj]
            simp only [Same, Value.ref.injEq, exists_and_left, exists_eq_left', hobj,
              Obj.object.injEq, reached, Tame, hr, not_false_eq_true, Obj.Data, true_and,
              ← hall.1]
            constructor
            · constructor
              · rintro ⟨_, _, ⟨hcls, rfl, rfl⟩, hfields, -⟩
                exact ⟨hcls, hfields⟩
              · rintro ⟨hcls, hfields⟩
                exact ⟨fields, symbols, ⟨hcls, rfl, rfl⟩, hfields, fun h ↦ by cases h⟩
            · rintro ⟨-, hfields⟩
              rw [hall.2 (hall.1.mp hfields), List.append_assoc, List.singleton_append]
          · intro field hfield seen
            simpa [visitField, (hclean field hfield).1] using ih (hclean field hfield).2 seen

/-! ### Records -/

/-- A record as winston builds it: its level stands under the symbol `LEVEL`. -/
def Winston (h : Heap) (r : Nat) : Prop :=
  ∃ fields symbols level, h r = .object .plain fields symbols ∧ ("LEVEL", level) ∈ symbols

/-- The level a transport compares with its own before it writes a record. -/
def Out.level : Out → Option Out
  | .object _ symbols => symbols.lookup "LEVEL"
  | _ => none

private theorem redact_record {r : Nat} {cls : Class} {fields symbols : List (String × Value)}
    (hobj : h r = .object cls fields symbols) :
    ∃ outs, redact h (.ref r) = .object outs [] := by
  rw [redact, redactAt_object List.not_mem_nil hobj]
  exact ⟨_, rfl⟩

private theorem not_same_of_winston {r : Nat} (hw : Winston h r) (n : Nat) :
    ¬ Same true h n (redact h (.ref r)) (.ref r) := by
  obtain ⟨fields, symbols, level, hobj, hlevel⟩ := hw
  obtain ⟨outs, houts⟩ := redact_record hobj
  rw [houts]
  cases n with
  | zero => exact id
  | succ n =>
    rintro ⟨r', fields', symbols', hr, hobj', -, hsymbols⟩
    cases hr
    obtain ⟨-, -, rfl⟩ := Obj.object.inj (hobj.symm.trans hobj')
    cases hsymbols rfl
    exact List.not_mem_nil hlevel

/-- No record comes out of redaction with its level, and none is equal to what winston handed over;
the rest of a clean record comes through exactly when it is plain data that reaches no object by two
paths. -/
theorem clean_record_lost {r : Nat} (hw : Winston h r) (hclean : Clean h 11 (.ref r)) :
    ¬ Same true h 11 (redact h (.ref r)) (.ref r) ∧ (redact h (.ref r)).level = none ∧
      (Same false h 11 (redact h (.ref r)) (.ref r) ↔
        (reached h 11 (.ref r)).Nodup ∧ ∀ q ∈ reached h 11 (.ref r), (h q).Data) := by
  refine ⟨not_same_of_winston hw 11, ?_, ?_⟩
  · obtain ⟨fields, symbols, -, hobj, -⟩ := hw
    obtain ⟨outs, houts⟩ := redact_record hobj
    rw [houts]
    rfl
  · rw [redact, (redactAt_same hclean []).1, tame_iff]
    simp

/-- A record that names one player twice and carries a date. -/
def moveRecord : Heap
  | 0 => .object .plain [("level", .str "info"), ("message", .str "move made"), ("at", .ref 1),
      ("mover", .ref 2), ("winner", .ref 2)] [("LEVEL", .str "info")]
  | 1 => .object (.date 1700000000000) [] []
  | _ => .object .plain [("id", .prim (.num "7"))] []

private theorem winston_moveRecord : Winston moveRecord 0 :=
  ⟨_, _, .str "info", rfl, List.mem_singleton_self _⟩

private theorem clean_moveRecord : Clean moveRecord 11 (.ref 0) := by
  simp only [Clean, moveRecord, List.forall_mem_cons, List.not_mem_nil, false_imp_iff,
    implies_true, and_true]
  decide +kernel

/-- The record of a move, which holds nothing secret. -/
theorem clean_record_lost_moveRecord :
    ¬ Same true moveRecord 11 (redact moveRecord (.ref 0)) (.ref 0) ∧
      ¬ Same false moveRecord 11 (redact moveRecord (.ref 0)) (.ref 0) := by
  obtain ⟨hall, -, hfields⟩ := clean_record_lost winston_moveRecord clean_moveRecord
  refine ⟨hall, fun hsame ↦ ?_⟩
  have hnodup := (hfields.mp hsame).1
  revert hnodup
  decide

/-- The level is gone, the date is empty, and the winner, who is below no player, is circular. -/
theorem moveRecord_lost : Winston moveRecord 0 ∧ Clean moveRecord 11 (.ref 0) ∧
    ¬ Same true moveRecord 11 (redact moveRecord (.ref 0)) (.ref 0) ∧
    redact moveRecord (.ref 0) = .object [("level", .str "info"), ("message", .str "move made"),
      ("at", .object [] []), ("mover", .object [("id", .prim (.num "7"))] []),
      ("winner", .str "[CIRCULAR]")] [] :=
  ⟨winston_moveRecord, clean_moveRecord, not_same_of_winston winston_moveRecord 11, rfl⟩

end ChessStack.Log
