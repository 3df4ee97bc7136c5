import Mathlib.Data.List.Induction
import Mathlib.Data.List.Nodup

/-!
# Maps in insertion order

Library `Js`. A JavaScript `Map`: `set` on a key that is there keeps its place, a new key goes to
the end, and iteration is in that order.
-/

namespace ChessStack.Js

/-- The entries of a map, each key once. -/
structure JsMap (κ α : Type) where
  entries : List (κ × α)
  nodup : (entries.map Prod.fst).Nodup

namespace JsMap

variable {κ α : Type}

/-- `new Map()`. -/
def empty : JsMap κ α := ⟨[], List.nodup_nil⟩

variable [DecidableEq κ]

/-- `map.get(key)`. -/
def get (m : JsMap κ α) (k : κ) : Option α := (m.entries.find? fun e ↦ e.1 = k).map Prod.snd

/-- The entries with the value of a key replaced. -/
def replace (k : κ) (v : α) (entries : List (κ × α)) : List (κ × α) :=
  entries.map fun e ↦ if e.1 = k then (k, v) else e

private theorem keys_replace (k : κ) (v : α) (entries : List (κ × α)) :
    (replace k v entries).map Prod.fst = entries.map Prod.fst := by
  unfold replace
  rw [List.map_map]
  apply List.map_congr_left
  intro e _
  simp only [Function.comp_apply]
  split
  · next h => exact h.symm
  · rfl

/-- `map.set(key, value)`. -/
def set (m : JsMap κ α) (k : κ) (v : α) : JsMap κ α :=
  if h : k ∈ m.entries.map Prod.fst then ⟨replace k v m.entries, by
      rw [keys_replace]
      exact m.nodup⟩
  else ⟨m.entries ++ [(k, v)], by
      rw [List.map_append, List.nodup_append]
      refine ⟨m.nodup, List.nodup_singleton _, ?_⟩
      intro a ha b hb hab
      rw [hab, List.mem_singleton.mp hb] at ha
      exact h ha⟩

/-- `map.delete(key)`. -/
def delete (m : JsMap κ α) (k : κ) : JsMap κ α where
  entries := m.entries.filter fun e ↦ e.1 ≠ k
  nodup := (List.filter_sublist.map _).nodup m.nodup

/-- An empty map has no values. -/
@[simp] theorem get_empty (k : κ) : (empty : JsMap κ α).get k = none := rfl

/-- The values are those of the entries. -/
theorem get_eq_some {m : JsMap κ α} {k : κ} {v : α} : m.get k = some v ↔ (k, v) ∈ m.entries := by
  unfold get
  rw [Option.map_eq_some_iff]
  constructor
  · rintro ⟨⟨k', v'⟩, hfind, rfl⟩
    have hk := List.find?_some hfind
    rw [decide_eq_true_eq] at hk
    exact hk ▸ List.mem_of_find?_eq_some hfind
  · intro hmem
    cases hfind : m.entries.find? fun e ↦ e.1 = k with
    | none =>
      have hne := List.find?_eq_none.mp hfind _ hmem
      exact absurd (decide_eq_true rfl) hne
    | some e =>
      have hk := List.find?_some hfind
      rw [decide_eq_true_eq] at hk
      have heq := List.inj_on_of_nodup_map m.nodup (List.mem_of_find?_eq_some hfind) hmem hk
      exact ⟨e, rfl, by rw [heq]⟩

private theorem get_eq_none {m : JsMap κ α} {k : κ} :
    m.get k = none ↔ k ∉ m.entries.map Prod.fst := by
  rw [← not_iff_not, not_not, ← Ne.eq_def, Option.ne_none_iff_exists', List.mem_map]
  constructor
  · rintro ⟨v, hv⟩
    exact ⟨(k, v), get_eq_some.mp hv, rfl⟩
  · rintro ⟨⟨k', v⟩, hmem, rfl⟩
    exact ⟨v, get_eq_some.mpr hmem⟩

/-- The values after `set`. -/
theorem get_set (m : JsMap κ α) (k k' : κ) (v : α) :
    (m.set k v).get k' = if k' = k then some v else m.get k' := by
  unfold set
  split
  · next h =>
    obtain ⟨e, hmem, hek⟩ := List.mem_map.mp h
    split
    · next heq =>
      rw [heq, get_eq_some]
      exact List.mem_map.mpr ⟨e, hmem, if_pos hek⟩
    · next hne =>
      unfold get replace
      rw [List.find?_map, Option.map_map]
      have hcomp : (fun e : κ × α ↦ decide (e.1 = k')) ∘ (fun e : κ × α ↦
          if e.1 = k then (k, v) else e) = fun e ↦ decide (e.1 = k') := by
        funext e
        simp only [Function.comp_apply]
        split
        · next he => rw [he]
        · rfl
      rw [hcomp]
      cases hfind : m.entries.find? fun e ↦ e.1 = k' with
      | none => rfl
      | some e =>
        have he := List.find?_some hfind
        rw [decide_eq_true_eq] at he
        have hek : e.1 ≠ k := he ▸ hne
        rw [Option.map_some, Option.map_some, Function.comp_apply, if_neg hek]
  · next h =>
    split
    · next heq =>
      rw [heq, get_eq_some]
      exact List.mem_append_right _ (List.mem_singleton.mpr rfl)
    · next hne =>
      unfold get
      rw [List.find?_append]
      have hlast : ([(k, v)] : List (κ × α)).find? (fun e ↦ e.1 = k') = none :=
        List.find?_eq_none.mpr fun e he ↦ by
          rw [List.mem_singleton.mp he, decide_eq_true_eq]
          exact fun h' ↦ hne h'.symm
      rw [hlast, Option.or_none]

/-- The values after `delete`. -/
theorem get_delete (m : JsMap κ α) (k k' : κ) :
    (m.delete k).get k' = if k' = k then none else m.get k' := by
  split
  · next heq =>
    rw [heq, get_eq_none]
    intro hmem
    obtain ⟨e, he, hk⟩ := List.mem_map.mp hmem
    have hne := (List.mem_filter.mp he).2
    rw [decide_eq_true_eq] at hne
    exact hne hk
  · next hne =>
    ext v
    rw [get_eq_some, get_eq_some]
    constructor
    · intro hmem
      exact (List.mem_filter.mp hmem).1
    · intro hmem
      exact List.mem_filter.mpr ⟨hmem, decide_eq_true hne⟩

/-! ### Cells by key -/

variable {β : Type} (key : β → κ) (fresh : β → α) (add : α → β → α)

/-- A record is added to the cell of its key, which is made when there is none. -/
def record (m : JsMap κ α) (b : β) : JsMap κ α :=
  m.set (key b) (add ((m.get (key b)).getD (fresh b)) b)

/-- The cell of the records of one key. -/
def cellOf : List β → Option α
  | [] => none
  | b :: bs => some ((b :: bs).foldl add (fresh b))

private theorem cellOf_concat (bs : List β) (b : β) :
    cellOf fresh add (bs ++ [b]) = some (add ((cellOf fresh add bs).getD (fresh b)) b) := by
  cases bs with
  | nil => rfl
  | cons first bs =>
    simp only [List.cons_append, cellOf, Option.getD_some]
    rw [← List.cons_append, List.foldl_concat]

/-- Each key has the cell of its records. -/
theorem get_foldl_record (bs : List β) (k : κ) :
    (bs.foldl (record key fresh add) empty).get k =
      cellOf fresh add (bs.filter fun b ↦ key b = k) := by
  induction bs using List.reverseRecOn with
  | nil => rfl
  | append_singleton bs b ih =>
    rw [List.foldl_concat, record, get_set, List.filter_append]
    by_cases h : key b = k
    · subst h
      simp only [if_true, ih, List.filter_singleton, decide_true, cond_true, cellOf_concat]
    · rw [if_neg fun heq ↦ h heq.symm, ih]
      simp [h]

end JsMap

/-! ### Elements found in an array -/

/-- `const found = array.find(p); if (found) f(found)`, where `f` changes the element. -/
def updateFirst {α : Type} (p : α → Bool) (f : α → α) : List α → List α
  | [] => []
  | a :: l => if p a then f a :: l else a :: updateFirst p f l

/-- An item of the updated list is old, or the update of an item that met the condition. -/
theorem mem_updateFirst {α : Type} {p : α → Bool} {f : α → α} {l : List α} {b : α}
    (h : b ∈ updateFirst p f l) : b ∈ l ∨ ∃ a ∈ l, p a = true ∧ b = f a := by
  induction l with
  | nil => cases h
  | cons a l ih =>
    unfold updateFirst at h
    split at h
    · next hp =>
      rcases List.mem_cons.mp h with rfl | hmem
      · exact Or.inr ⟨a, List.mem_cons_self, hp, rfl⟩
      · exact Or.inl (List.mem_cons_of_mem _ hmem)
    · rcases List.mem_cons.mp h with rfl | hmem
      · exact Or.inl List.mem_cons_self
      · rcases ih hmem with hb | ⟨a', ha', hp, hb⟩
        · exact Or.inl (List.mem_cons_of_mem _ hb)
        · exact Or.inr ⟨a', List.mem_cons_of_mem _ ha', hp, hb⟩

/-- What `f` leaves alone stays as it is. -/
theorem map_updateFirst {α β : Type} (p : α → Bool) (f : α → α) (g : α → β)
    (h : ∀ a, g (f a) = g a) (l : List α) : (updateFirst p f l).map g = l.map g := by
  induction l with
  | nil => rfl
  | cons a l ih =>
    unfold updateFirst
    split
    · rw [List.map_cons, List.map_cons, h]
    · rw [List.map_cons, List.map_cons, ih]

end ChessStack.Js
