import ChessStack.Log.Redact

/-!
# What redaction hides

Library `Log`. Two graphs that differ only below sensitive keys or below depth 10, and the results
for them. The objects a run enters are matched, one to one, by those the other run enters; the
texts of an error are read whatever its depth, and its name is returned as it is.
-/

namespace ChessStack.Log

variable {h h' : Heap} {R : Nat → Nat → Prop} {n r r' : Nat} {v v' : Value} {seen seen' : List Nat}

/-! ### Graphs -/

/-- Objects of one shape whose parts are related; `S` is told the key a part stands under. -/
def Obj.Rel (S : String → Value → Value → Prop) : Obj → Obj → Prop
  | .object cls fields symbols, .object cls' fields' symbols' =>
    cls = cls' ∧ List.Forall₂ (fun f f' ↦ f.1 = f'.1 ∧ S f.1 f.2 f'.2) fields fields' ∧
      List.Forall₂ (fun f f' ↦ f.1 = f'.1 ∧ S f.1 f.2 f'.2) symbols symbols'
  | .array items, .array items' => List.Forall₂ (Option.Rel (S "")) items items'
  | .error name message stack, .error name' message' stack' =>
    S "name" name name' ∧ S "message" message message' ∧ S "stack" stack stack'
  | _, _ => False

/-- Values that are equal except for what lies below sensitive keys or below the next `n` levels;
`R` matches the objects of the one graph with those of the other. -/
def Alike (h h' : Heap) (R : Nat → Nat → Prop) : Nat → Value → Value → Prop
  | 0, _, _ => True
  | n + 1, .ref r, .ref r' => R r r' ∧
      (h r).Rel (fun key v v' ↦ sensitiveKey key = true ∨ Alike h h' R n v v') (h' r')
  | _ + 1, v, v' => v = v'

/-- Sharing is the same in both graphs. -/
def OneToOne (R : Nat → Nat → Prop) : Prop := ∀ ⦃r r' q q'⦄, R r r' → R q q' → (r = q ↔ r' = q')

/-- Values equal down to the level `n`, also below sensitive keys. -/
def FullAt (h h' : Heap) : Nat → Value → Value → Prop
  | 0, _, _ => True
  | n + 1, .ref r, .ref r' => (h r).Rel (fun _ ↦ FullAt h h' n) (h' r')
  | _ + 1, v, v' => v = v'

/-- Values equal in full. -/
def Full (h h' : Heap) (v v' : Value) : Prop := ∀ n, FullAt h h' n v v'

/-- Equal results, at most `n` levels deep. -/
def SameOut (h h' : Heap) : Nat → Out → Out → Prop
  | 0, _, _ => False
  | _ + 1, .raw r, .raw r' => Full h h' (.ref r) (.ref r')
  | n + 1, .array outs, .array outs' => List.Forall₂ (Option.Rel (SameOut h h' n)) outs outs'
  | n + 1, .object outs marks, .object outs' marks' =>
    List.Forall₂ (fun o o' ↦ o.1 = o'.1 ∧ SameOut h h' n o.2 o'.2) outs outs' ∧
      List.Forall₂ (fun o o' ↦ o.1 = o'.1 ∧ SameOut h h' n o.2 o'.2) marks marks'
  | _ + 1, .prim p, .prim p' => p = p'
  | _ + 1, .str s, .str s' => s = s'
  | _ + 1, _, _ => False

/-- The objects entered by a depth-first walk that passes over sensitive keys and goes `n` levels
down, after those of `seen`. -/
def walk (h : Heap) : Nat → Value → List Nat → List Nat
  | 0, _, seen | _ + 1, .prim _, seen | _ + 1, .str _, seen => seen
  | n + 1, .ref r, seen =>
    if r ∈ seen then seen
    else
      match h r with
      | .error _ _ _ => seen ++ [r]
      | .array items =>
        items.foldl (fun seen item ↦ item.elim seen fun v ↦ walk h n v seen) (seen ++ [r])
      | .object _ fields _ =>
        fields.foldl (fun seen field ↦
          if sensitiveKey field.1 then seen else walk h n field.2 seen) (seen ++ [r])

/-- Two errors have the same scrubbed texts and, if these can be read, names equal in full. -/
def Obj.Agree (h h' : Heap) : Obj → Obj → Prop
  | .error name message stack, .error name' message' stack' =>
    errorTexts message stack = errorTexts message' stack' ∧
      ((errorTexts message stack).isSome = true → Full h h' name name')
  | _, _ => True

/-! ### The walk of a run -/

private theorem visitAll_snd {α β : Type} {visit : α → List Nat → β × List Nat}
    {go : List Nat → α → List Nat} (hvisit : ∀ a seen, (visit a seen).2 = go seen a) (as : List α)
    (seen : List Nat) : (visitAll visit as seen).2 = as.foldl go seen := by
  induction as generalizing seen with
  | nil => rfl
  | cons a as ih => simp only [visitAll, ih, hvisit, List.foldl_cons]

/-- A run has seen what the walk enters. -/
theorem redactAt_snd (h : Heap) (n : Nat) (v : Value) (seen : List Nat) :
    (redactAt h n v seen).2 = walk h n v seen := by
  induction n generalizing v seen with
  | zero => rfl
  | succ n ih =>
    cases v with
    | prim p => rfl
    | str s => rfl
    | ref r =>
      by_cases hr : r ∈ seen
      · simp only [redactAt_seen hr, walk, if_pos hr]
      · cases hobj : h r with
        | error name message stack => simp only [redactAt_error hr hobj, walk, if_neg hr, hobj]
        | array items =>
          simp only [redactAt_array hr hobj, walk, if_neg hr, hobj]
          apply visitAll_snd
          rintro (_ | v) seen
          · rfl
          · exact ih v seen
        | object cls fields symbols =>
          simp only [redactAt_object hr hobj, walk, if_neg hr, hobj]
          apply visitAll_snd
          intro field seen
          unfold visitField
          split
          · rfl
          · exact ih field.2 seen

/-! ### Two runs -/

/-- Two runs enter matching objects, and `P` says as much as that the errors among them agree. -/
def Matched (h h' : Heap) (R : Nat → Nat → Prop) (seen seen' after after' : List Nat) (P : Prop) :
    Prop :=
  ∃ new new', after = seen ++ new ∧ after' = seen' ++ new' ∧ List.Forall₂ R new new' ∧
    (P ↔ List.Forall₂ (fun r r' ↦ (h r).Agree h h' (h' r')) new new')

private theorem forall₂_append_iff {α β : Type} {S : α → β → Prop} {a b : List α} {a' b' : List β}
    (hlen : a.length = a'.length) :
    List.Forall₂ S (a ++ b) (a' ++ b') ↔ List.Forall₂ S a a' ∧ List.Forall₂ S b b' := by
  induction a generalizing a' with
  | nil =>
    obtain rfl := List.eq_nil_of_length_eq_zero hlen.symm
    simp
  | cons x a ih =>
    cases a' with
    | nil => cases hlen
    | cons x' a' => simp [ih (Nat.succ.inj hlen), and_assoc]

private theorem Matched.rest {P : Prop} (hP : P) :
    Matched h h' R seen seen' seen seen' P :=
  ⟨[], [], by simp, by simp, .nil, iff_of_true hP .nil⟩

private theorem Matched.congr {P Q : Prop} {after after' : List Nat} (hPQ : P ↔ Q)
    (hm : Matched h h' R seen seen' after after' P) : Matched h h' R seen seen' after after' Q := by
  rwa [propext hPQ] at hm

private theorem Matched.after {P : Prop} {after after' : List Nat}
    (hseen : List.Forall₂ R seen seen')
    (hm : Matched h h' R seen seen' after after' P) : List.Forall₂ R after after' := by
  obtain ⟨new, new', rfl, rfl, hnew, -⟩ := hm
  exact List.rel_append hseen hnew

private theorem Matched.trans {P Q : Prop} {mid mid' after after' : List Nat}
    (h₁ : Matched h h' R seen seen' mid mid' P) (h₂ : Matched h h' R mid mid' after after' Q) :
    Matched h h' R seen seen' after after' (P ∧ Q) := by
  obtain ⟨new, new', rfl, rfl, hnew, hP⟩ := h₁
  obtain ⟨more, more', rfl, rfl, hmore, hQ⟩ := h₂
  refine ⟨new ++ more, new' ++ more', List.append_assoc .., List.append_assoc ..,
    List.rel_append hnew hmore, ?_⟩
  rw [forall₂_append_iff hnew.length_eq, hP, hQ]

private theorem Matched.enter (hrel : R r r') :
    Matched h h' R seen seen' (seen ++ [r]) (seen' ++ [r']) ((h r).Agree h h' (h' r')) :=
  ⟨[r], [r'], rfl, rfl, .cons hrel .nil, by simp⟩

/-- Two visits of alike values enter matching objects, and their results are the same exactly when
the errors among these agree. -/
def Visits (h h' : Heap) (R : Nat → Nat → Prop) {α β : Type} (A : α → α → Prop) (S : β → β → Prop)
    (visit visit' : α → List Nat → β × List Nat) : Prop :=
  ∀ a a' seen seen', A a a' → List.Forall₂ R seen seen' →
    Matched h h' R seen seen' (visit a seen).2 (visit' a' seen').2
      (S (visit a seen).1 (visit' a' seen').1)

private theorem Visits.all {α β : Type} {A : α → α → Prop} {S : β → β → Prop}
    {visit visit' : α → List Nat → β × List Nat} (hvisit : Visits h h' R A S visit visit') :
    Visits h h' R (List.Forall₂ A) (List.Forall₂ S) (visitAll visit) (visitAll visit') := by
  intro as as' seen seen' has hseen
  induction has generalizing seen seen' with
  | nil => exact .rest .nil
  | cons ha _ ih =>
    have hfirst : Matched .. := hvisit _ _ seen seen' ha hseen
    exact (hfirst.trans (ih _ _ (hfirst.after hseen))).congr List.forall₂_cons.symm

private theorem sensitiveKey_empty : sensitiveKey "" = false := by decide +kernel

section Parts

variable {A : Value → Value → Prop} {S : Out → Out → Prop}
    {visit visit' : Value → List Nat → Out × List Nat}

private theorem Visits.item (hvisit : Visits h h' R A S visit visit') :
    Visits h h' R (Option.Rel fun v v' ↦ sensitiveKey "" = true ∨ A v v') (Option.Rel S)
      (visitItem visit) (visitItem visit') := by
  rintro item item' seen seen' (ha | _) hseen
  · have ha := ha.resolve_left (by simp [sensitiveKey_empty])
    exact (hvisit _ _ seen seen' ha hseen).congr Option.rel_some_some.symm
  · exact .rest .none

private theorem Visits.field (hvisit : Visits h h' R A S visit visit')
    (hS : S (.str REDACTED) (.str REDACTED)) :
    Visits h h' R (fun f f' ↦ f.1 = f'.1 ∧ (sensitiveKey f.1 = true ∨ A f.2 f'.2))
      (fun o o' ↦ o.1 = o'.1 ∧ S o.2 o'.2) (visitField visit) (visitField visit') := by
  rintro ⟨key, v⟩ ⟨key', v'⟩ seen seen' ⟨hkey, ha⟩ hseen
  obtain rfl : key = key' := hkey
  unfold visitField
  cases hkey : sensitiveKey key with
  | true => exact .rest ⟨rfl, hS⟩
  | false =>
    have ha := ha.resolve_left (by simp [hkey])
    exact (hvisit v v' seen seen' ha hseen).congr (by simp)

end Parts

/-- The walk of the one run has met an object if and only if the other has met its match. -/
theorem OneToOne.mem_iff (hR : OneToOne R) (hseen : List.Forall₂ R seen seen') (hrel : R r r') :
    r ∈ seen ↔ r' ∈ seen' := by
  induction hseen with
  | nil => simp
  | cons hq _ ih => rw [List.mem_cons, List.mem_cons, ih, hR hrel hq]

private theorem full_iff_eq (heq : ∀ n, FullAt h h' (n + 1) v v' ↔ v = v') :
    Full h h' v v' ↔ v = v' := by
  constructor
  · intro hfull
    exact (heq 0).mp (hfull 1)
  · intro hv n
    cases n with
    | zero => trivial
    | succ n => exact (heq n).mpr hv

private theorem sameOut_out : SameOut h h' (n + 1) v.out v'.out ↔ Full h h' v v' := by
  cases v with
  | ref r =>
    cases v' with
    | ref r' => exact Iff.rfl
    | prim p' => simp [Value.out, SameOut, full_iff_eq, FullAt]
    | str s' => simp [Value.out, SameOut, full_iff_eq, FullAt]
  | prim p => cases v' <;> simp [Value.out, SameOut, full_iff_eq, FullAt]
  | str s => cases v' <;> simp [Value.out, SameOut, full_iff_eq, FullAt]

private theorem sameOut_formatError {name message stack name' message' stack' : Value} :
    SameOut h h' (n + 2) (formatError name message stack) (formatError name' message' stack') ↔
      (Obj.error name message stack).Agree h h' (.error name' message' stack') := by
  simp only [formatError, Obj.Agree]
  cases errorTexts message stack with
  | none => cases errorTexts message' stack' <;> simp [SameOut]
  | some texts =>
    cases errorTexts message' stack' with
    | none => simp [SameOut]
    | some texts' =>
      simp only [SameOut, List.forall₂_cons, List.forall₂_nil_left_iff, true_and, and_true,
        sameOut_out, Option.some.injEq, Option.isSome_some, forall_const, Prod.ext_iff]
      exact and_comm

/-- Alike values: the results are the same exactly when the errors entered agree. -/
theorem redactAt_visits (hR : OneToOne R) (n : Nat) :
    Visits h h' R (Alike h h' R n) (SameOut h h' (n + 1)) (redactAt h n) (redactAt h' n) := by
  induction n with
  | zero =>
    intro v v' seen seen' _ _
    exact .rest rfl
  | succ n ih =>
    intro v v' seen seen' halike hseen
    cases v with
    | prim p =>
      cases v' <;> simp [Alike] at halike
      exact .rest halike
    | str s =>
      cases v' <;> simp [Alike] at halike
      exact .rest (congrArg scrubString halike)
    | ref r =>
      cases v' with
      | prim p => simp [Alike] at halike
      | str s => simp [Alike] at halike
      | ref r' =>
        obtain ⟨hrel, hobjs⟩ := halike
        by_cases hr : r ∈ seen
        · rw [redactAt_seen hr, redactAt_seen ((hR.mem_iff hseen hrel).mp hr)]
          exact .rest rfl
        · have hr' := mt (hR.mem_iff hseen hrel).mpr hr
          have henter : Matched h h' R seen seen' .. := .enter hrel
          cases hobj : h r with
          | error name message stack =>
            cases hobj' : h' r' <;> simp only [hobj, hobj', Obj.Rel] at hobjs
            rw [redactAt_error hr hobj, redactAt_error hr' hobj']
            rw [hobj, hobj'] at henter
            exact henter.congr sameOut_formatError.symm
          | array items =>
            cases hobj' : h' r' <;> simp only [hobj, hobj', Obj.Rel] at hobjs
            rw [redactAt_array hr hobj, redactAt_array hr' hobj']
            rw [hobj, hobj'] at henter
            have hitems := ih.item.all _ _ _ _ hobjs (henter.after hseen)
            exact (henter.trans hitems).congr (iff_of_eq (true_and _))
          | object cls fields symbols =>
            cases hobj' : h' r' <;> simp only [hobj, hobj', Obj.Rel] at hobjs
            rw [redactAt_object hr hobj, redactAt_object hr' hobj']
            rw [hobj, hobj'] at henter
            have hfields := (ih.field rfl).all _ _ _ _ hobjs.2.1 (henter.after hseen)
            refine (henter.trans hfields).congr ?_
            simp [Obj.Agree, SameOut]

private theorem OneToOne.forall₂_iff (hR : OneToOne R) {new new' : List Nat} {P : Nat → Nat → Prop}
    (hnew : List.Forall₂ R new new') :
    List.Forall₂ P new new' ↔ ∀ r ∈ new, ∀ r', R r r' → P r r' := by
  induction hnew with
  | nil => simp
  | @cons q q' _ _ hq _ ih =>
    rw [List.forall₂_cons, ih, List.forall_mem_cons]
    refine and_congr_left fun _ ↦ ⟨fun hP r' hr' ↦ ?_, fun hP ↦ hP q' hq⟩
    rwa [← (hR hq hr').mp rfl]

/-- Redaction gives equal results for graphs that differ only below sensitive keys or below depth
10, exactly when the errors its walk enters agree. -/
theorem redact_same_iff (hR : OneToOne R) (halike : Alike h h' R 11 v v') :
    SameOut h h' 12 (redact h v) (redact h' v') ↔
      ∀ r ∈ walk h 11 v [], ∀ r', R r r' → (h r).Agree h h' (h' r') := by
  obtain ⟨new, new', hafter, -, hnew, hiff⟩ := redactAt_visits hR 11 v v' [] [] halike .nil
  rw [redactAt_snd, List.nil_append] at hafter
  rw [hafter, ← hR.forall₂_iff hnew]
  exact hiff

private theorem oneToOne_eq : OneToOne Eq := by
  rintro r _ q _ rfl rfl
  rfl

/-- A refused login: an error with its texts, and the password that was tried. -/
def loginRecord (password : String) : Heap
  | 0 => .object .plain [("cause", .ref 1), ("password", .str password)] []
  | _ => .error (.str "Error") (.str "refused") (.str "at login")

/-- Two records that differ in a password. -/
theorem redact_same_loginRecord : SameOut (loginRecord "a") (loginRecord "b") 12
    (redact (loginRecord "a") (.ref 0)) (redact (loginRecord "b") (.ref 0)) := by
  have hkey : sensitiveKey "password" = true := by decide +kernel
  refine (redact_same_iff oneToOne_eq ?_).mpr ?_
  · simp [Alike, loginRecord, Obj.Rel, hkey]
  · rintro (_ | r) _ _ rfl
    · trivial
    · exact ⟨rfl, fun _ ↦ (full_iff_eq fun n ↦ Iff.rfl).mpr rfl⟩

/-- An error whose name is an object with a password. -/
def namedRecord (password : String) : Heap
  | 0 => .error (.ref 1) (.str "refused") (.str "at login")
  | _ => .object .plain [("password", .str password)] []

/-- The password is in the result. -/
theorem name_leaks : OneToOne Eq ∧
    Alike (namedRecord "a") (namedRecord "b") Eq 11 (.ref 0) (.ref 0) ∧
    ¬ SameOut (namedRecord "a") (namedRecord "b") 12
      (redact (namedRecord "a") (.ref 0)) (redact (namedRecord "b") (.ref 0)) := by
  have hkey : sensitiveKey "password" = true := by decide +kernel
  refine ⟨oneToOne_eq, ?_, fun hsame ↦ ?_⟩
  · simp [Alike, namedRecord, Obj.Rel, hkey]
  · have hout : ∀ password, redact (namedRecord password) (.ref 0) =
        .object [("name", .raw 1), ("message", .str (scrubString "refused")),
          ("stack", .str (scrubString "at login"))] [] := fun _ ↦ rfl
    rw [hout, hout] at hsame
    have hfull : Full (namedRecord "a") (namedRecord "b") (.ref 1) (.ref 1) := by
      simpa [SameOut] using hsame
    simpa [FullAt, namedRecord, Obj.Rel] using hfull 2

end ChessStack.Log
