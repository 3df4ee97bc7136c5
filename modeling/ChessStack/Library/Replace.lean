import Mathlib.Data.List.Basic

/-!
# Replacing the matches of a pattern

Library `Library`. A pattern is tried at every position from the left, with the letter before it;
where it matches, the first letters of the match stay, the others give way to a mark, and the
search goes on behind the match. A text is settled for a pattern when every match in it is already
what would be put for it. `Cuts` matches a text with the result of a pass, letter by letter.
-/

namespace ChessStack.Library

universe u

/-- A match: how many letters stay, how many after them are hidden, and the mark put for these. -/
structure Hit (α : Type u) where
  kept : Nat
  hidden : Nat
  mark : List α
  deriving Repr, DecidableEq

/-- What a pattern matches behind a letter, if there is one. -/
abbrev Pattern (α : Type u) := Option α → List α → Option (Hit α)

variable {α : Type u} {m : Pattern α} {prev : Option α} {text : List α}

/-- The text with every match replaced; `skip` letters belong to the last match. -/
def replaceAll (m : Pattern α) : Option α → Nat → List α → List α
  | _, _, [] => []
  | _, skip + 1, c :: text => replaceAll m (some c) skip text
  | prev, 0, c :: text =>
    match m prev (c :: text) with
    | some hit => (c :: text).take hit.kept ++ hit.mark ++
        replaceAll m (some c) (hit.kept + hit.hidden - 1) text
    | none => c :: replaceAll m (some c) 0 text

/-- The letter before the rest of a text, which follows `before`. -/
def lastOr (prev : Option α) (before : List α) : Option α := before.getLast?.or prev

/-- Before no letters the last one is that of before. -/
@[simp] theorem lastOr_nil : lastOr prev [] = prev := rfl

/-- The last letter, one letter on. -/
@[simp] theorem lastOr_cons (c : α) (before : List α) :
    lastOr prev (c :: before) = lastOr (some c) before := by
  cases before <;> simp [lastOr, List.getLast?_cons]

/-- The last letter of two texts. -/
@[simp] theorem lastOr_append (a b : List α) : lastOr prev (a ++ b) = lastOr (lastOr prev a) b := by
  simp only [lastOr, List.getLast?_append, Option.or_assoc]

/-- The pattern matches nowhere. -/
def NoMatch (m : Pattern α) (prev : Option α) (text : List α) : Prop :=
  ∀ before after, text = before ++ after → m (lastOr prev before) after = none

/-- Every match is what would be put for it. -/
def Settled (m : Pattern α) (prev : Option α) (text : List α) : Prop :=
  ∀ before after hit, text = before ++ after → m (lastOr prev before) after = some hit →
    0 < hit.hidden ∧ after.take (hit.kept + hit.hidden) = after.take hit.kept ++ hit.mark

private theorem noMatch_iff : NoMatch m prev text ↔
    ∀ n < text.length + 1, m (lastOr prev (text.take n)) (text.drop n) = none := by
  constructor
  · intro h n _
    exact h _ _ (List.take_append_drop n text).symm
  · rintro h before after rfl
    have hn := h before.length (by simp only [List.length_append]; omega)
    rwa [List.take_left', List.drop_left'] at hn <;> rfl

/-- A text is searched for a match. -/
instance (m : Pattern α) (prev : Option α) (text : List α) : Decidable (NoMatch m prev text) :=
  decidable_of_iff _ noMatch_iff.symm

/-- A text without a match is settled. -/
theorem NoMatch.settled (h : NoMatch m prev text) : Settled m prev text := by
  intro before after hit htext hhit
  rw [h before after htext] at hhit
  cases hhit

private theorem Settled.tail {c : α} (h : Settled m prev (c :: text)) :
    Settled m (some c) text := by
  intro before after hit htext hhit
  apply h (c :: before) after hit
  · rw [htext, List.cons_append]
  · rwa [lastOr_cons]

/-- Replacing leaves a settled text as it is. -/
theorem replaceAll_of_settled (h : Settled m prev text) (skip : Nat) :
    replaceAll m prev skip text = text.drop skip := by
  induction text generalizing prev skip with
  | nil => simp [replaceAll]
  | cons c text ih =>
    cases skip with
    | succ skip => simpa [replaceAll] using ih h.tail skip
    | zero =>
      cases hm : m prev (c :: text) with
      | none => simpa [replaceAll, hm] using ih h.tail 0
      | some hit =>
        obtain ⟨hpos, heq⟩ := h [] (c :: text) hit rfl hm
        have hdrop : text.drop (hit.kept + hit.hidden - 1) =
            (c :: text).drop (hit.kept + hit.hidden) := by
          rw [show hit.kept + hit.hidden = hit.kept + hit.hidden - 1 + 1 by omega,
            List.drop_succ_cons, Nat.add_sub_cancel]
        simp only [replaceAll, hm, ih h.tail]
        rw [hdrop, ← heq, List.take_append_drop, List.drop_zero]

/-! ### Patterns that stop at a letter -/

/-- The pattern reads neither the letter before it nor past the letter `s`, and its matches lie
within the text. -/
structure StopsAt (m : Pattern α) (s : α) : Prop where
  blind : ∀ prev prev' text, m prev text = m prev' text
  stops : ∀ prev before after, m prev (before ++ s :: after) = m prev before
  within : ∀ {prev text hit}, m prev text = some hit →
    0 < hit.kept + hit.hidden ∧ hit.kept + hit.hidden ≤ text.length

private theorem StopsAt.nil {s : α} (h : StopsAt m s) (prev : Option α) : m prev [] = none := by
  cases hm : m prev [] with
  | none => rfl
  | some hit =>
    obtain ⟨hpos, hle⟩ := h.within hm
    exact absurd (Nat.lt_of_lt_of_le hpos hle) (Nat.lt_irrefl 0)

/-- A matcher that ignores the letter before it replaces the same wherever it starts. -/
theorem replaceAll_of_blind (h : ∀ prev prev' text, m prev text = m prev' text)
    (prev prev' : Option α) (skip : Nat) (text : List α) :
    replaceAll m prev skip text = replaceAll m prev' skip text := by
  cases text with
  | nil => simp only [replaceAll]
  | cons c text =>
    cases skip with
    | succ skip => simp only [replaceAll]
    | zero => simp only [replaceAll, h prev prev']

/-- The parts of a text around the letter are replaced on their own. -/
theorem StopsAt.replaceAll {s : α} (h : StopsAt m s) (after : List α) {before : List α} {skip : Nat}
    (hskip : skip ≤ before.length) (prev : Option α) :
    replaceAll m prev skip (before ++ s :: after) =
      replaceAll m prev skip before ++ s :: replaceAll m prev 0 after := by
  induction before generalizing prev skip with
  | nil =>
    obtain rfl := Nat.le_zero.mp hskip
    have hnone : m prev (s :: after) = none := (h.stops prev [] after).trans (h.nil prev)
    simp only [List.nil_append, Library.replaceAll, hnone]
    rw [replaceAll_of_blind h.blind (some s) prev]
  | cons c before ih =>
    cases skip with
    | succ skip =>
      simp only [List.cons_append, Library.replaceAll]
      rw [ih (Nat.le_of_succ_le_succ hskip), replaceAll_of_blind h.blind (some c) prev 0 after]
    | zero =>
      have hsame : m prev (c :: (before ++ s :: after)) = m prev (c :: before) :=
        h.stops prev (c :: before) after
      cases hm : m prev (c :: before) with
      | none =>
        simp only [List.cons_append, Library.replaceAll, hsame, hm]
        rw [ih (Nat.zero_le _), replaceAll_of_blind h.blind (some c) prev 0 after]
      | some hit =>
        obtain ⟨hpos, hle⟩ := h.within hm
        rw [List.length_cons] at hle
        have htake : (c :: (before ++ s :: after)).take hit.kept = (c :: before).take hit.kept := by
          rw [← List.cons_append, List.take_append_of_le_length (by rw [List.length_cons]; omega)]
        simp only [List.cons_append, Library.replaceAll, hsame, hm]
        rw [htake, ih (by omega), replaceAll_of_blind h.blind (some c) prev 0 after,
          List.append_assoc _ _ (s :: _)]

/-- The letters of a text are those it had and those of the marks. -/
theorem mem_replaceAll {mark : List α} (hmark : ∀ {prev text hit}, m prev text = some hit →
    hit.mark = mark) {skip : Nat} {c : α} (hc : c ∈ replaceAll m prev skip text) :
    c ∈ text ∨ c ∈ mark := by
  induction text generalizing prev skip with
  | nil => simp [replaceAll] at hc
  | cons d text ih =>
    cases skip with
    | succ skip =>
      obtain hmem | hmem := ih hc
      · exact .inl (List.mem_cons_of_mem d hmem)
      · exact .inr hmem
    | zero =>
      cases hm : m prev (d :: text) with
      | none =>
        simp only [replaceAll, hm] at hc
        obtain rfl | hc := List.mem_cons.mp hc
        · exact .inl List.mem_cons_self
        · exact (ih hc).imp_left (List.mem_cons_of_mem d)
      | some hit =>
        simp only [replaceAll, hm, hmark hm, List.mem_append] at hc
        obtain (hc | hc) | hc := hc
        · exact .inl (List.mem_of_mem_take hc)
        · exact .inr hc
        · exact (ih hc).imp_left (List.mem_cons_of_mem d)

/-! ### A pass as a matching of two texts -/

/-- The letters of `w` are passed over when they belong to a match. -/
theorem replaceAll_skip (w : List α) :
    replaceAll m prev w.length (w ++ text) = replaceAll m (lastOr prev w) 0 text := by
  induction w generalizing prev with
  | nil => rfl
  | cons c w ih => simpa [replaceAll] using ih

/-- The first match is replaced, and the search goes on after it. -/
theorem replaceAll_hit {a hidden rest mark : List α} (hpos : hidden ≠ [])
    (hm : m prev (a ++ (hidden ++ rest)) = some ⟨a.length, hidden.length, mark⟩) :
    replaceAll m prev 0 (a ++ (hidden ++ rest)) =
      a ++ (mark ++ replaceAll m (lastOr prev (a ++ hidden)) 0 rest) := by
  obtain ⟨c, w, hw⟩ := List.exists_cons_of_ne_nil (List.append_ne_nil_of_right_ne_nil a hpos)
  have htext : a ++ (hidden ++ rest) = c :: (w ++ rest) := by
    rw [← List.append_assoc, hw, List.cons_append]
  have hlen : a.length + hidden.length - 1 = w.length := by
    rw [← List.length_append, hw, List.length_cons, Nat.add_sub_cancel]
  have htake : (c :: (w ++ rest)).take a.length = a := by rw [← htext, List.take_left' rfl]
  rw [htext] at hm ⊢
  simp only [replaceAll, hm]
  rw [htake, hlen, replaceAll_skip, hw, lastOr_cons, List.append_assoc]

/-- Two texts letter by letter: letters kept, of which `Keep` holds with both texts from there on,
and parts of the first text, told by `Cut`, that a mark stands for in the second. -/
inductive Cuts (Keep : List α → List α → List α → Prop)
    (Cut : List α → List α → List α → List α → Prop) :
    List α → List α → List α → List α → Prop
  | nil {before before' : List α} : Cuts Keep Cut before [] before' []
  | keep {before before' text out : List α} {c : α} (hkeep : Keep before (c :: text) (c :: out))
      (rest : Cuts Keep Cut (before ++ [c]) text (before' ++ [c]) out) :
      Cuts Keep Cut before (c :: text) before' (c :: out)
  | hide {before before' hidden text mark out : List α} (hcut : Cut before hidden text mark)
      (rest : Cuts Keep Cut (before ++ hidden) text (before' ++ mark) out) :
      Cuts Keep Cut before (hidden ++ text) before' (mark ++ out)

/-- Where the pattern matches, the second text shows the match with its mark, and then the next
letter, unless a match starts there. -/
def Shown (m : Pattern α) (before text out : List α) : Prop :=
  ∀ hit, m before.getLast? text = some hit →
    ∃ tail, out = text.take hit.kept ++ (hit.mark ++ tail) ∧
      ((∀ prev, m prev (text.drop (hit.kept + hit.hidden)) = none) →
        tail.head? = (text.drop (hit.kept + hit.hidden)).head?)

/-- What the pattern hides is told by `Cut`; no match starts in what a match keeps. -/
structure Tidy (m : Pattern α) (Cut : List α → List α → List α → List α → Prop) : Prop where
  cut : ∀ {before text : List α} {hit}, m before.getLast? text = some hit →
    ∃ a hidden rest, text = a ++ (hidden ++ rest) ∧ hidden ≠ [] ∧
      hit = ⟨a.length, hidden.length, hit.mark⟩ ∧ Cut (before ++ a) hidden rest hit.mark ∧
      ∀ a₁ a₂, a = a₁ ++ a₂ → a₁ ≠ [] → a₂ ≠ [] →
        m (before ++ a₁).getLast? (a₂ ++ (hidden ++ rest)) = none

variable {Keep Keep' : List α → List α → List α → Prop}
  {Cut Cut' : List α → List α → List α → List α → Prop} {before before' out : List α}

/-- Weaker conditions on what is kept and what is cut. -/
theorem Cuts.mono (h : Cuts Keep Cut before text before' out)
    (hkeep : ∀ b t o, Keep b t o → Keep' b t o)
    (hcut : ∀ b hidden a mark, Cut b hidden a mark → Cut' b hidden a mark) :
    Cuts Keep' Cut' before text before' out := by
  induction h with
  | nil => exact .nil
  | keep hk _ ih => exact .keep (hkeep _ _ _ hk) ih
  | hide hc _ ih => exact .hide (hcut _ _ _ _ hc) ih

/-- A run of letters kept. -/
theorem Cuts.keeps {w : List α}
    (hkeep : ∀ w₁ w₂, w = w₁ ++ w₂ → w₂ ≠ [] → Keep (before ++ w₁) (w₂ ++ text) (w₂ ++ out))
    (h : Cuts Keep Cut (before ++ w) text (before' ++ w) out) :
    Cuts Keep Cut before (w ++ text) before' (w ++ out) := by
  induction w generalizing before before' with
  | nil => simpa using h
  | cons c w ih =>
    refine .keep (by simpa using hkeep [] (c :: w) rfl (List.cons_ne_nil c w)) (ih ?_ ?_)
    · intro w₁ w₂ hw hne
      simpa using hkeep (c :: w₁) w₂ (by rw [hw, List.cons_append]) hne
    · simpa using h

private theorem head?_replaceAll (hm : m prev text = none) :
    (replaceAll m prev 0 text).head? = text.head? := by
  cases text with
  | nil => rfl
  | cons c text => simp only [replaceAll, hm, List.head?_cons]

/-- The text and what a tidy pattern makes of it. -/
theorem cuts_replaceAll (hm : Tidy m Cut) (text before before' : List α) :
    Cuts (Shown m) Cut before text before' (replaceAll m before.getLast? 0 text) := by
  induction hn : text.length using Nat.strongRecOn generalizing text before before' with
  | ind n ih =>
    cases text with
    | nil => exact .nil
    | cons c text =>
      cases hhit : m before.getLast? (c :: text) with
      | none =>
        have hrest := ih text.length (by simp [← hn]) text (before ++ [c]) (before' ++ [c]) rfl
        rw [List.getLast?_concat] at hrest
        simp only [replaceAll, hhit]
        refine .keep (fun hit hhit' ↦ ?_) hrest
        rw [hhit] at hhit'
        cases hhit'
      | some hit =>
        obtain ⟨a, hidden, rest, htext, hpos, heq, hcut, hinner⟩ := hm.cut hhit
        have hlen : rest.length < n := by
          have hpos' := List.length_pos_of_ne_nil hpos
          have htotal := congrArg List.length htext
          simp only [List.length_append] at htotal
          omega
        have hrest := ih rest.length hlen rest (before ++ a ++ hidden) (before' ++ a ++ hit.mark) rfl
        rw [htext] at hhit ⊢
        rw [heq] at hhit
        have hlast : lastOr before.getLast? (a ++ hidden) = (before ++ a ++ hidden).getLast? := by
          simp [lastOr, List.getLast?_append, Option.or_assoc]
        rw [replaceAll_hit hpos hhit, hlast]
        refine .keeps (fun a₁ a₂ ha hne ↦ ?_) (.hide hcut hrest)
        by_cases ha₁ : a₁ = []
        · subst ha₁
          obtain rfl : a = a₂ := ha
          intro hit' hhit'
          rw [List.append_nil, hhit] at hhit'
          obtain rfl := Option.some.inj hhit'
          refine ⟨_, by rw [List.take_left' rfl], ?_⟩
          rw [← List.append_assoc, List.drop_left' (by simp)]
          exact fun hedge ↦ head?_replaceAll (hedge _)
        · intro hit' hhit'
          rw [hinner a₁ a₂ ha ha₁ hne] at hhit'
          cases hhit'

/-- A position of the second text stands for one of the first, or lies inside a mark. `Sync` is what
each step leaves of the letters before. -/
theorem Cuts.descend {Sync : List α → List α → List α → Prop}
    (hkeep : ∀ b b' c t, Sync (b ++ [c]) (b' ++ [c]) t)
    (hhide : ∀ b b' hidden a mark, Cut b hidden a mark → Sync (b ++ hidden) (b' ++ mark) a)
    (h : Cuts Keep Cut before text before' out) (hsync : Sync before before' text)
    {o₁ o₂ : List α} (hout : out = o₁ ++ o₂) :
    (∃ t₁ t₂, text = t₁ ++ t₂ ∧ Cuts Keep Cut (before ++ t₁) t₂ (before' ++ o₁) o₂ ∧
      Sync (before ++ t₁) (before' ++ o₁) t₂) ∨
    ∃ b hidden a m₁ m₂ x o₃, Cut b hidden a (m₁ ++ m₂) ∧ m₁ ≠ [] ∧ m₂ ≠ [] ∧
      before' ++ o₁ = x ++ m₁ ∧ o₂ = m₂ ++ o₃ := by
  induction h generalizing o₁ with
  | nil =>
    obtain ⟨rfl, rfl⟩ := List.append_eq_nil_iff.mp hout.symm
    exact .inl ⟨[], [], rfl, .nil, by simpa using hsync⟩
  | @keep before before' text out c hk rest ih =>
    cases o₁ with
    | nil =>
      obtain rfl : c :: out = o₂ := hout
      refine .inl ⟨[], c :: text, rfl, ?_, by simpa using hsync⟩
      simpa using Cuts.keep hk rest
    | cons d o₁ =>
      obtain ⟨rfl, hrest⟩ := List.cons.inj hout
      obtain ⟨t₁, t₂, rfl, hcuts, hsync⟩ | hinside := ih (hkeep _ _ _ _) hrest
      · exact .inl ⟨c :: t₁, t₂, rfl, by simpa using hcuts, by simpa using hsync⟩
      · exact .inr (by simpa using hinside)
  | @hide before before' hidden text mark out hc rest ih =>
    obtain ⟨o, rfl, hrest⟩ | ⟨m₂, rfl, rfl⟩ := List.append_eq_append_iff.mp hout
    · obtain ⟨t₁, t₂, rfl, hcuts, hsync⟩ | hinside := ih (hhide _ _ _ _ _ hc) hrest
      · exact .inl ⟨hidden ++ t₁, t₂, by simp, by simpa using hcuts, by simpa using hsync⟩
      · exact .inr (by simpa using hinside)
    · by_cases ho₁ : o₁ = []
      · subst ho₁
        refine .inl ⟨[], hidden ++ text, rfl, ?_, by simpa using hsync⟩
        simpa using Cuts.hide hc rest
      · by_cases hm₂ : m₂ = []
        · subst hm₂
          refine .inl ⟨hidden, text, rfl, ?_, ?_⟩
          · simpa using rest
          · simpa using hhide before before' hidden text _ hc
        · exact .inr ⟨before, hidden, text, o₁, m₂, before', out, hc, ho₁, hm₂, rfl, rfl⟩

end ChessStack.Library
