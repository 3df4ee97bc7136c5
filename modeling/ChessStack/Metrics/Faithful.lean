import ChessStack.Metrics.Series
import Mathlib.Algebra.BigOperators.Group.List.Basic
import Mathlib.Algebra.Ring.Nat
import Mathlib.Data.List.Sigma

/-!
# The exposition is faithful

Library `Metrics`. What a scraper reads from the exposition after any calls: for each metric and each
tuple of label values it was called with, the samples of what the calls with that tuple add up to.
-/

namespace ChessStack.Metrics

open ChessStack.Js

variable {Amount : Type} [AddMonoidWithOne Amount] [LinearOrder Amount]
  {inherited : Text → Option Text} {print : Amount → Text}

/-! ### What is to be read -/

section

variable (inherited print)

/-- The amounts brought with a tuple of label values. -/
def recorded (labelNames : List Text) (bs : List (Labels × Amount)) (tuple : List Text) :
    List Amount :=
  (bs.filter fun b ↦ values inherited labelNames b.1 = tuple).map Prod.snd

/-- The sample of a counter. -/
def Counter.samples (m : Counter Amount) (tuple : List Text) (amounts : List Amount) : List Sample :=
  [⟨m.name, m.labelNames.zip tuple, print amounts.sum⟩]

/-- The samples of a histogram: each bucket counts the amounts at most its bound. -/
def Histogram.samples (m : Histogram Amount) (tuple : List Text) (amounts : List Amount) :
    List Sample :=
  (m.buckets.map fun bound ↦ ⟨m.name ++ text "_bucket",
    m.labelNames.zip tuple ++ [(text "le", print bound)],
    print (amounts.countP (· ≤ bound) : Amount)⟩) ++
  [⟨m.name ++ text "_bucket", m.labelNames.zip tuple ++ [(text "le", text "+Inf")],
      print (amounts.length : Amount)⟩,
    ⟨m.name ++ text "_sum", m.labelNames.zip tuple, print amounts.sum⟩,
    ⟨m.name ++ text "_count", m.labelNames.zip tuple, print (amounts.length : Amount)⟩]

/-- The samples of a label tuple and its amounts. -/
def Metric.samples : Metric Amount → List Text → List Amount → List Sample
  | .counter m => m.samples print
  | .histogram m => m.samples print

end

/-- The names of the samples of a metric. -/
def Metric.sampleNames : Metric Amount → List Text
  | .counter m => [m.name]
  | .histogram m => [m.name ++ text "_bucket", m.name ++ text "_sum", m.name ++ text "_count"]

/-- The labels of a sample but `le`. -/
def ownLabels (s : Sample) : List (Text × Text) := s.labels.filter fun p ↦ p.1 ≠ text "le"

/-- The sample is one of the metric with these label values. -/
def Belongs (m : Metric Amount) (tuple : List Text) (s : Sample) : Prop :=
  s.name ∈ m.sampleNames ∧ ownLabels s = m.labelNames.zip tuple

/-- Names and labels are compared. -/
instance (m : Metric Amount) (tuple : List Text) (s : Sample) : Decidable (Belongs m tuple s) :=
  inferInstanceAs (Decidable (_ ∧ _))

/-! ### Cells -/

omit [LinearOrder Amount] in
private theorem Counter.fold_add (bs : List (Labels × Amount)) (cell : CounterCell Amount) :
    bs.foldl (fun cell b ↦ { cell with value := cell.value + b.2 }) cell =
      { cell with value := cell.value + (bs.map Prod.snd).sum } := by
  induction bs generalizing cell with
  | nil => simp
  | cons b bs ih => simp [ih, add_assoc]

private theorem Histogram.fold_observed (buckets : List Amount) (bs : List (Labels × Amount))
    (labels : Labels) (before : Amount → ℕ) (sum count : Amount) :
    bs.foldl (HistogramCell.observed buckets)
      ⟨labels, buckets.map fun bound ↦ (before bound : Amount), sum, count⟩ =
      ⟨labels, buckets.map fun bound ↦
          ((before bound + (bs.map Prod.snd).countP (· ≤ bound) : ℕ) : Amount),
        sum + (bs.map Prod.snd).sum, count + (bs.length : Amount)⟩ := by
  induction bs generalizing before sum count with
  | nil => simp
  | cons b bs ih =>
    have hcell : HistogramCell.observed buckets
        ⟨labels, buckets.map fun bound ↦ (before bound : Amount), sum, count⟩ b =
        ⟨labels, buckets.map fun bound ↦
            ((before bound + (if b.2 ≤ bound then 1 else 0) : ℕ) : Amount), sum + b.2, count + 1⟩ := by
      have hcounts : List.zipWith (fun bound c ↦ if b.2 ≤ bound then c + 1 else c) buckets
          (buckets.map fun bound ↦ (before bound : Amount)) = buckets.map fun bound ↦
            ((before bound + (if b.2 ≤ bound then 1 else 0) : ℕ) : Amount) := by
        rw [List.zipWith_map_right, List.zipWith_self]
        refine List.map_congr_left fun bound _ ↦ ?_
        split <;> simp
      simp only [HistogramCell.observed, hcounts]
    rw [List.foldl_cons, hcell, ih]
    have hcount : count + 1 + (bs.length : Amount) = count + ((b :: bs).length : Amount) := by
      rw [List.length_cons, add_assoc, ← Nat.cast_one, ← Nat.cast_add, Nat.add_comm]
    rw [hcount]
    simp only [List.map_cons, List.sum_cons, add_assoc, List.countP_cons]
    congr 1
    refine List.map_congr_left fun bound _ ↦ ?_
    by_cases h : b.2 ≤ bound
    · simp [h, Nat.add_comm]
    · simp [h]

/-! ### Entries -/

section

variable {α : Type} {names : List Text} {fresh : Labels × Amount → α}
  {add : α → Labels × Amount → α} {bs : List (Labels × Amount)}

omit [AddMonoidWithOne Amount] [LinearOrder Amount]

/-- The calls with the key of a call are those with its label values. -/
theorem filter_keyOf (b : Labels × Amount) :
    bs.filter (fun b' ↦ keyOf inherited names b' = keyOf inherited names b) =
      bs.filter fun b' ↦ values inherited names b'.1 = values inherited names b.1 := by
  refine List.filter_congr fun b' _ ↦ ?_
  rw [decide_eq_decide]
  exact labelsKey_inj

/-- An entry holds the calls with the label values of the first of them. -/
theorem entry_of_record {e : Text × α}
    (h : e ∈ (bs.foldl (JsMap.record (keyOf inherited names) fresh add) .empty).entries) :
    ∃ b rest, bs.filter (fun b' ↦ values inherited names b'.1 = values inherited names b.1) =
      b :: rest ∧ e.1 = keyOf inherited names b ∧ e.2 = (b :: rest).foldl add (fresh b) := by
  have hget := JsMap.get_eq_some.mpr h
  rw [JsMap.get_foldl_record] at hget
  cases hgroup : bs.filter fun b ↦ keyOf inherited names b = e.1 with
  | nil =>
    rw [hgroup] at hget
    cases hget
  | cons b rest =>
    rw [hgroup] at hget
    have hmem : b ∈ bs.filter fun b ↦ keyOf inherited names b = e.1 := by
      rw [hgroup]
      exact List.mem_cons_self
    have hkey : keyOf inherited names b = e.1 := by simpa using (List.mem_filter.mp hmem).2
    refine ⟨b, rest, ?_, hkey.symm, (Option.some.inj hget).symm⟩
    rw [← filter_keyOf, hkey, hgroup]

private theorem exists_entry (inherited : Text → Option Text) (names : List Text)
    (fresh : Labels × Amount → α) (add : α → Labels × Amount → α) {b : Labels × Amount} (hb : b ∈ bs) :
    ∃ e ∈ (bs.foldl (JsMap.record (keyOf inherited names) fresh add) .empty).entries,
      e.1 = keyOf inherited names b := by
  have hmem : b ∈ bs.filter fun b' ↦ keyOf inherited names b' = keyOf inherited names b :=
    List.mem_filter.mpr ⟨hb, decide_eq_true rfl⟩
  cases hgroup : bs.filter fun b' ↦ keyOf inherited names b' = keyOf inherited names b with
  | nil =>
    rw [hgroup] at hmem
    cases hmem
  | cons first rest =>
    have hget : (bs.foldl (JsMap.record (keyOf inherited names) fresh add) .empty).get
        (keyOf inherited names b) = some ((first :: rest).foldl add (fresh first)) := by
      rw [JsMap.get_foldl_record, hgroup]
      rfl
    exact ⟨_, JsMap.get_eq_some.mp hget, rfl⟩

/-- The label values of the entries, when each keeps the labels of its first call. -/
theorem tuples_spec (inherited : Text → Option Text) (names : List Text)
    (bs : List (Labels × Amount)) {labelsOf : α → Labels}
    (hlabels : ∀ b bs, labelsOf ((b :: bs).foldl add (fresh b)) = b.1) :
    let entries := (bs.foldl (JsMap.record (keyOf inherited names) fresh add) .empty).entries
    (entries.map fun e ↦ values inherited names (labelsOf e.2)).Nodup ∧
      ∀ tuple, tuple ∈ entries.map (fun e ↦ values inherited names (labelsOf e.2)) ↔
        recorded inherited names bs tuple ≠ [] := by
  intro entries
  have hentry : ∀ e ∈ entries, e.1 = labelsKey inherited names (labelsOf e.2) := by
    intro e he
    obtain ⟨b, rest, -, hkey, hcell⟩ := entry_of_record he
    rw [hkey, hcell, hlabels]
    rfl
  constructor
  · have hnodup := JsMap.nodup (bs.foldl (JsMap.record (keyOf inherited names) fresh add) .empty)
    refine List.Nodup.map_on (fun e he e' he' heq ↦ ?_) hnodup.of_map
    refine List.inj_on_of_nodup_map hnodup he he' ?_
    rw [hentry e he, hentry e' he']
    exact labelsKey_inj.mpr heq
  · intro tuple
    constructor
    · intro hmem
      obtain ⟨e, he, rfl⟩ := List.mem_map.mp hmem
      obtain ⟨b, rest, hgroup, -, hcell⟩ := entry_of_record he
      rw [hcell, hlabels, recorded, hgroup]
      simp
    · intro hne
      obtain ⟨_, hamount⟩ := List.exists_mem_of_ne_nil _ hne
      obtain ⟨b, hb, rfl⟩ := List.mem_map.mp hamount
      obtain ⟨hmem, htuple⟩ := List.mem_filter.mp hb
      obtain ⟨e, he, hkey⟩ := exists_entry inherited names fresh add hmem
      refine List.mem_map.mpr ⟨e, he, ?_⟩
      rw [hentry e he] at hkey
      rw [labelsKey_inj.mp hkey]
      simpa using htuple

end

/-! ### Lines -/

/-- The comments before the samples of a metric. -/
def Metric.comments (m : Metric Amount) : List Text :=
  [text "# HELP " ++ m.name ++ 0x20 :: m.help, text "# TYPE " ++ m.name ++ match m with
    | .counter _ => text " counter"
    | .histogram _ => text " histogram"]

/-- The metric was made and not called yet. -/
def Metric.New : Metric Amount → Prop
  | .counter m => Counter.create m.name m.help m.labelNames = .ok m
  | .histogram m => ∃ buckets, Histogram.create m.name m.help m.labelNames buckets = .ok m

/-- The lines of a metric after calls: its samples for each tuple of label values once. -/
structure Block (inherited : Text → Option Text) (print : Amount → Text) (m : Metric Amount)
    (bs : List (Labels × Amount)) (tuples : List (List Text)) : Prop where
  nodup : tuples.Nodup
  mem : ∀ tuple, tuple ∈ tuples ↔ recorded inherited m.labelNames bs tuple ≠ []
  lines : (m.after inherited bs).exposition inherited print = m.comments ++
    (tuples.flatMap fun tuple ↦
      m.samples print tuple (recorded inherited m.labelNames bs tuple)).map renderSample

private theorem Counter.block {m : Counter Amount} (hm : m.series = .empty)
    (bs : List (Labels × Amount)) :
    ∃ tuples, Block inherited print (.counter m) bs tuples := by
  have hlabels : ∀ (b : Labels × Amount) bs, (((b :: bs).foldl (fun cell b ↦
      { cell with value := cell.value + b.2 }) (⟨b.1, 0⟩ : CounterCell Amount)).labels) = b.1 := by
    intro b bs
    rw [Counter.fold_add]
  have hspec := tuples_spec inherited m.labelNames bs hlabels
  refine ⟨_, hspec.1, hspec.2, ?_⟩
  simp only [Metric.exposition, Metric.after, Counter.exposition, Counter.after, hm,
    Metric.comments, Metric.name, Metric.help]
  congr 1
  rw [List.flatMap_map, List.map_flatMap, List.map_eq_flatMap]
  refine List.flatMap_congr fun e he ↦ ?_
  obtain ⟨b, rest, hgroup, -, hcell⟩ := entry_of_record he
  have hfold := Counter.fold_add (b :: rest) (⟨b.1, 0⟩ : CounterCell Amount)
  rw [hfold] at hcell
  simp only [Metric.samples, Counter.samples, List.map_singleton, Metric.labelNames, hcell, recorded,
    hgroup, zero_add, renderSample, renderLabels_eq]

private theorem Histogram.fold_fresh (buckets : List Amount) (b : Labels × Amount)
    (bs : List (Labels × Amount)) : (b :: bs).foldl (HistogramCell.observed buckets)
      ⟨b.1, buckets.map fun _ ↦ 0, 0, 0⟩ = ⟨b.1, buckets.map fun bound ↦
        (((b :: bs).map Prod.snd).countP (· ≤ bound) : Amount), ((b :: bs).map Prod.snd).sum,
        ((b :: bs).length : Amount)⟩ := by
  have hfold := Histogram.fold_observed buckets (b :: bs) b.1 (fun _ ↦ 0) 0 0
  simp only [Nat.cast_zero, zero_add] at hfold
  exact hfold

private theorem Histogram.block (hprint : ∀ a, Plain (print a)) {m : Histogram Amount}
    (hm : m.series = .empty) (bs : List (Labels × Amount)) :
    ∃ tuples, Block inherited print (.histogram m) bs tuples := by
  have hlabels : ∀ (b : Labels × Amount) bs, ((b :: bs).foldl (HistogramCell.observed m.buckets)
      ⟨b.1, m.buckets.map fun _ ↦ 0, 0, 0⟩).labels = b.1 := by
    intro b bs
    rw [Histogram.fold_fresh]
  have hspec := tuples_spec inherited m.labelNames bs hlabels
  refine ⟨_, hspec.1, hspec.2, ?_⟩
  simp only [Metric.exposition, Metric.after, Histogram.exposition, Histogram.after, hm,
    Metric.comments, Metric.name, Metric.help]
  congr 1
  rw [List.flatMap_map, List.map_flatMap]
  refine List.flatMap_congr fun e he ↦ ?_
  obtain ⟨b, rest, hgroup, -, hcell⟩ := entry_of_record he
  rw [Histogram.fold_fresh] at hcell
  have hall : (text "+Inf").all (fun c ↦ c != 0x5c && c != 0x22) = true := by decide
  have hinf : ∀ c ∈ text "+Inf", c ≠ 0x5c ∧ c ≠ 0x22 := by simpa using hall
  simp only [Histogram.cellLines, Metric.samples, Histogram.samples, Metric.labelNames, hcell, recorded,
    hgroup, List.map_append, List.map_cons, List.map_nil, List.map_map, renderLabels_eq,
    withLe_eq hinf, withLe_eq (hprint _).marks, List.zipWith_map_right, List.zipWith_self,
    renderSample, List.length_map, List.length_cons, Function.comp_def]

private theorem Metric.block (inherited : Text → Option Text) (hprint : ∀ a, Plain (print a))
    {m : Metric Amount} (hm : m.New)
    (bs : List (Labels × Amount)) : ∃ tuples, Block inherited print m bs tuples := by
  cases m with
  | counter m =>
    refine Counter.block ?_ bs
    simp only [Metric.New, Counter.create] at hm
    cases hnames : validateLabelNames m.name m.labelNames with
    | error e =>
      rw [hnames] at hm
      cases hm
    | ok =>
      rw [hnames] at hm
      exact (congrArg Counter.series (Except.ok.inj hm)).symm
  | histogram m =>
    refine Histogram.block hprint ?_ bs
    obtain ⟨buckets, hm⟩ := hm
    simp only [Histogram.create] at hm
    cases hnames : validateLabelNames m.name m.labelNames with
    | error e =>
      rw [hnames] at hm
      cases hm
    | ok =>
      rw [hnames] at hm
      exact (congrArg Histogram.series (Except.ok.inj hm)).symm

/-! ### The registry -/

/-- New metrics whose labels are distinct and none named `le`. -/
structure Created (start : List (Metric Amount)) : Prop where
  new : ∀ m ∈ start, m.New
  labels : ∀ m ∈ start, m.labelNames.Nodup ∧ text "le" ∉ m.labelNames

/-- New metrics with distinct names. -/
structure Registered (start : List (Metric Amount)) : Prop extends Created start where
  distinctNames : (start.map Metric.name).Nodup

/-- Scrapers know the names: metric names are valid, label names hold no colon, no two metrics have
a sample name in common, and no help text breaks its line. -/
structure Scrapable (start : List (Metric Amount)) : Prop extends Created start where
  colons : ∀ m ∈ start, ∀ name ∈ m.labelNames, (0x3a : UInt16) ∉ name
  names : ∀ m ∈ start, validName m.name = true
  distinct : (start.flatMap Metric.sampleNames).Nodup
  help : ∀ m ∈ start, (0x0a : UInt16) ∉ m.help

private theorem validateLabelNames_ok {metricName : Text} {names : List Text}
    (h : validateLabelNames metricName names = .ok ()) : ∀ name ∈ names, validName name = true := by
  induction names with
  | nil => nofun
  | cons name names ih =>
    unfold validateLabelNames at h
    simp only [List.forM] at h
    by_cases hname : validName name = true
    · rw [hname] at h
      by_cases hreserved : lower name ∈ RESERVED_LABEL_NAMES
      · simp [hreserved, bind, Except.bind] at h
      · simp only [hreserved, Bool.not_true, Bool.false_eq_true, if_false] at h
        exact List.forall_mem_cons.mpr ⟨hname, ih h⟩
    · simp [hname, bind, Except.bind] at h

omit [AddMonoidWithOne Amount] in
private theorem Metric.New.validName {m : Metric Amount} (h : m.New) :
    ∀ name ∈ m.labelNames, validName name = true := by
  cases m with
  | counter m =>
    cases hnames : validateLabelNames m.name m.labelNames with
    | error e =>
      simp only [Metric.New, Counter.create, hnames] at h
      cases h
    | ok => exact validateLabelNames_ok hnames
  | histogram m =>
    obtain ⟨buckets, h⟩ := h
    cases hnames : validateLabelNames m.name m.labelNames with
    | error e =>
      simp only [Histogram.create, hnames] at h
      cases h
    | ok => exact validateLabelNames_ok hnames

omit [AddMonoidWithOne Amount] in
/-- The bounds of a histogram are in order. -/
theorem Histogram.sorted {m : Histogram Amount} (h : (Metric.histogram m).New) :
    m.buckets.Pairwise (· ≤ ·) := by
  obtain ⟨buckets, h⟩ := h
  cases hnames : validateLabelNames m.name m.labelNames with
  | error e =>
    simp only [Histogram.create, hnames] at h
    cases h
  | ok =>
    simp only [Histogram.create, hnames] at h
    have hbuckets : buckets.mergeSort (fun a b ↦ decide (a ≤ b)) = m.buckets :=
      congrArg Histogram.buckets (Except.ok.inj h)
    rw [← hbuckets]
    have hsorted := @List.pairwise_mergeSort _ (fun a b : Amount ↦ decide (a ≤ b))
      (fun a b c hab hbc ↦ by
        simp only [decide_eq_true_eq] at hab hbc ⊢
        exact le_trans hab hbc)
      (fun a b ↦ by simpa using le_total a b) buckets
    simpa using hsorted

private theorem validName_append {name suffix : Text} (h : validName name = true)
    (hsuffix : suffix.all namePart = true) : validName (name ++ suffix) = true := by
  cases name with
  | nil => cases h
  | cons c name =>
    simp only [validName, Bool.and_eq_true] at h
    simp [validName, h.1, List.all_append, h.2, hsuffix]

/-- The samples of a metric for a tuple have its names and labels. -/
theorem Metric.mem_samples (hprint : ∀ a, Plain (print a)) {m : Metric Amount} {tuple : List Text}
    {amounts : List Amount} {s : Sample} (hs : s ∈ m.samples print tuple amounts) :
    s.name ∈ m.sampleNames ∧ (∃ a, s.value = print a) ∧
      (s.labels = m.labelNames.zip tuple ∨ ∃ le, (0x0a : UInt16) ∉ le ∧
        s.labels = m.labelNames.zip tuple ++ [(text "le", le)]) := by
  cases m with
  | counter m =>
    obtain rfl := List.mem_singleton.mp hs
    exact ⟨List.mem_singleton.mpr rfl, ⟨_, rfl⟩, .inl rfl⟩
  | histogram m =>
    obtain hs | hs := List.mem_append.mp hs
    · obtain ⟨bound, -, rfl⟩ := List.mem_map.mp hs
      exact ⟨by simp [Metric.sampleNames], ⟨_, rfl⟩, .inr ⟨_, (hprint bound).feed, rfl⟩⟩
    · simp only [List.mem_cons, List.not_mem_nil, or_false] at hs
      obtain rfl | rfl | rfl := hs
      · exact ⟨by simp [Metric.sampleNames], ⟨_, rfl⟩, .inr ⟨_, by decide, rfl⟩⟩
      · exact ⟨by simp [Metric.sampleNames], ⟨_, rfl⟩, .inl rfl⟩
      · exact ⟨by simp [Metric.sampleNames], ⟨_, rfl⟩, .inl rfl⟩

private theorem Metric.belongs (hprint : ∀ a, Plain (print a)) {m : Metric Amount}
    (hle : text "le" ∉ m.labelNames) {tuple : List Text} {amounts : List Amount} {s : Sample}
    (hs : s ∈ m.samples print tuple amounts) : Belongs m tuple s := by
  obtain ⟨hname, -, hlabels⟩ := Metric.mem_samples hprint hs
  refine ⟨hname, ?_⟩
  have hown : (m.labelNames.zip tuple).filter (fun p ↦ p.1 ≠ text "le") = m.labelNames.zip tuple := by
    refine List.filter_eq_self.mpr fun p hp ↦ decide_eq_true ?_
    intro heq
    exact hle (heq ▸ (List.of_mem_zip (a := p.1) (b := p.2) hp).1)
  obtain h | ⟨le, -, h⟩ := hlabels
  · rw [ownLabels, h, hown]
  · rw [ownLabels, h, List.filter_append, hown]
    simp

omit [AddMonoidWithOne Amount] in
private theorem Scrapable.name {start : List (Metric Amount)} (h : Scrapable start)
    {m : Metric Amount}
    (hm : m ∈ start) {name : Text} (hname : name ∈ m.sampleNames) : validName name = true := by
  have hvalid := h.names m hm
  cases m with
  | counter m =>
    obtain rfl := List.mem_singleton.mp hname
    exact hvalid
  | histogram m =>
    simp only [Metric.sampleNames, List.mem_cons, List.not_mem_nil, or_false] at hname
    obtain rfl | rfl | rfl := hname
    · exact validName_append hvalid (by decide)
    · exact validName_append hvalid (by decide)
    · exact validName_append hvalid (by decide)

/-- The samples of a recorded tuple are well formed, each on a line of its own. -/
theorem Scrapable.wellformed (hprint : ∀ a, Plain (print a)) {start : List (Metric Amount)}
    (h : Scrapable start) {m : Metric Amount} (hm : m ∈ start) {bs : List (Labels × Amount)}
    {tuple : List Text} (htuple : recorded inherited m.labelNames bs tuple ≠ []) {s : Sample}
    (hs : s ∈ m.samples print tuple (recorded inherited m.labelNames bs tuple)) :
    Wellformed s ∧ (0x0a : UInt16) ∉ renderSample s := by
  obtain ⟨hname, ⟨a, hvalue⟩, hlabels⟩ := Metric.mem_samples hprint hs
  have hpair : ∀ p ∈ m.labelNames.zip tuple, validLabel p.1 = true ∧ (0x0a : UInt16) ∉ p.1 ∧
      (0x0a : UInt16) ∉ p.2 := by
    intro p hp
    obtain ⟨hp₁, hp₂⟩ := List.of_mem_zip (a := p.1) (b := p.2) hp
    have hvalid := (h.new m hm).validName p.1 hp₁
    refine ⟨validLabel_of_validName hvalid (h.colons m hm p.1 hp₁), not_mem_validName hvalid, ?_⟩
    -- the value is that of a call, which was sanitised
    obtain ⟨_, hamount⟩ := List.exists_mem_of_ne_nil _ htuple
    obtain ⟨b, hb, -⟩ := List.mem_map.mp hamount
    obtain rfl : values inherited m.labelNames b.1 = tuple := by
      simpa using (List.mem_filter.mp hb).2
    obtain ⟨name, -, heq⟩ := List.mem_map.mp hp₂
    exact heq ▸ not_mem_sanitizeLabelValue _
  have hall : ∀ p ∈ s.labels, validLabel p.1 = true ∧ (0x0a : UInt16) ∉ p.1 ∧
      (0x0a : UInt16) ∉ p.2 := by
    obtain hs | ⟨le, hle, hs⟩ := hlabels
    · rw [hs]
      exact hpair
    · rw [hs]
      intro p hp
      obtain hp | hp := List.mem_append.mp hp
      · exact hpair p hp
      · obtain rfl := List.mem_singleton.mp hp
        have hlabel : validLabel (text "le") = true ∧ (0x0a : UInt16) ∉ text "le" := by decide
        exact ⟨hlabel.1, hlabel.2, hle⟩
  have hwell : Wellformed s :=
    ⟨h.name hm hname, fun p hp ↦ (hall p hp).1, hvalue ▸ hprint a⟩
  exact ⟨hwell, not_mem_renderSample hwell fun p hp ↦ (hall p hp).2⟩

omit [AddMonoidWithOne Amount] in
private theorem Scrapable.comments {start : List (Metric Amount)} (h : Scrapable start)
    {m : Metric Amount}
    (hm : m ∈ start) : readLines m.comments = some [] ∧
      ∀ line ∈ m.comments, (0x0a : UInt16) ∉ line := by
  have hname := not_mem_validName (h.names m hm)
  have hhelp := h.help m hm
  constructor
  · have hcomment : ∀ t u, readLine (text "# HELP " ++ t ++ u) = some [] ∧
        readLine (text "# TYPE " ++ t ++ u) = some [] :=
      fun t u ↦ ⟨readLine_comment _, readLine_comment _⟩
    simp only [Metric.comments, readLines, (hcomment _ _).1, (hcomment _ _).2, Option.bind_eq_bind,
      Option.bind_some, List.append_nil]
  · intro line hline
    have hhead : (0x0a : UInt16) ∉ text "# HELP " ∧ (0x0a : UInt16) ∉ text "# TYPE " ∧
        (0x0a : UInt16) ∉ text " counter" ∧ (0x0a : UInt16) ∉ text " histogram" := by decide
    simp only [Metric.comments, List.mem_cons, List.not_mem_nil, or_false] at hline
    obtain rfl | rfl := hline
    · simp [hhead.1, hname, hhelp]
    · cases m with
      | counter m => simp [hhead.2.1, hname, hhead.2.2.1]
      | histogram m => simp [hhead.2.1, hname, hhead.2.2.2]

/-! ### The whole exposition -/

private theorem readLines_flatMap {β : Type} {l : List β} {f : β → List Text} {g : β → List Sample}
    (h : ∀ b ∈ l, readLines (f b) = some (g b)) : readLines (l.flatMap f) = some (l.flatMap g) := by
  induction l with
  | nil => rfl
  | cons b l ih =>
    rw [List.flatMap_cons, List.flatMap_cons]
    exact readLines_append (h b List.mem_cons_self) (ih fun c hc ↦ h c (List.mem_cons_of_mem b hc))

/-- Only one element of a list gives anything the filter keeps. -/
theorem filter_flatMap_of_unique {β γ : Type} {l : List β} {f : β → List γ} {p : γ → Bool} {b : β}
    (hnodup : l.Nodup) (hb : b ∈ l) (hother : ∀ c ∈ l, c ≠ b → (f c).filter p = []) :
    (l.flatMap f).filter p = (f b).filter p := by
  induction l with
  | nil => cases hb
  | cons c l ih =>
    obtain ⟨hc, hnodup⟩ := List.nodup_cons.mp hnodup
    rw [List.flatMap_cons, List.filter_append]
    by_cases heq : c = b
    · subst heq
      have hrest : (l.flatMap f).filter p = [] := by
        rw [List.filter_flatMap, List.flatMap_eq_nil_iff]
        exact fun d hd ↦ hother d (List.mem_cons_of_mem c hd) fun h ↦ hc (h ▸ hd)
      rw [hrest, List.append_nil]
    · rw [hother c List.mem_cons_self heq, List.nil_append]
      exact ih hnodup (List.mem_of_ne_of_mem (Ne.symm heq) hb) fun d hd ↦
        hother d (List.mem_cons_of_mem c hd)

/-- Scrapers read, for each metric and each tuple of label values, exactly the samples of what was
brought with the tuple, nothing else, and bucket counts in the order of the bounds never decrease. -/
def Faithful (inherited : Text → Option Text) (print : Amount → Text) (start : List (Metric Amount))
    (calls : List (Call Amount)) : Prop :=
  ∃ samples, readExposition (exposition inherited print (run inherited start calls)) = some samples ∧
    (∀ i m, start[i]? = some m → ∀ tuple : List Text, tuple.length = m.labelNames.length →
      let amounts := recorded inherited m.labelNames
        (accepted m.labelNames (calls.filter (·.metric = i))) tuple
      samples.filter (fun s ↦ Belongs m tuple s) =
        if amounts = [] then [] else m.samples print tuple amounts) ∧
    (∀ s ∈ samples, ∃ m ∈ start, ∃ tuple : List Text, tuple.length = m.labelNames.length ∧
      Belongs m tuple s) ∧
    ∀ m, .histogram m ∈ start → m.buckets.Pairwise (· ≤ ·) ∧ ∀ amounts : List Amount,
      (m.buckets.map fun bound ↦ amounts.countP (· ≤ bound)).Pairwise (· ≤ ·)

omit [AddMonoidWithOne Amount] in
private theorem counts_sorted {bounds : List Amount} (h : bounds.Pairwise (· ≤ ·))
    (amounts : List Amount) :
    (bounds.map fun bound ↦ amounts.countP (· ≤ bound)).Pairwise (· ≤ ·) := by
  refine List.pairwise_map.mpr (h.imp fun {a b} hab ↦ List.countP_mono_left fun x _ hx ↦ ?_)
  rw [decide_eq_true_eq] at hx ⊢
  exact le_trans hx hab

omit [AddMonoidWithOne Amount] [LinearOrder Amount] in
private theorem length_of_recorded {labelNames : List Text} {bs : List (Labels × Amount)}
    {tuple : List Text}
    (h : recorded inherited labelNames bs tuple ≠ []) : tuple.length = labelNames.length := by
  obtain ⟨_, hamount⟩ := List.exists_mem_of_ne_nil _ h
  obtain ⟨b, hb, -⟩ := List.mem_map.mp hamount
  obtain rfl : values inherited labelNames b.1 = tuple := by simpa using (List.mem_filter.mp hb).2
  exact length_values

private theorem zip_inj {names tuple tuple' : List Text} (h : tuple.length = names.length)
    (h' : tuple'.length = names.length) (heq : names.zip tuple = names.zip tuple') :
    tuple = tuple' := by
  have hfirst : (names.zip tuple).map Prod.snd = tuple := List.map_snd_zip (Nat.le_of_eq h)
  rw [← hfirst, heq, List.map_snd_zip (Nat.le_of_eq h')]

omit [AddMonoidWithOne Amount] in
/-- Two metrics have no sample name in common. -/
theorem Scrapable.disjoint {start : List (Metric Amount)} (h : Scrapable start) {i j : ℕ}
    {m m' : Metric Amount} (hm : start[i]? = some m) (hm' : start[j]? = some m') (hne : i ≠ j) :
    m.sampleNames.Disjoint m'.sampleNames := by
  have hpair := (List.nodup_flatMap.mp h.distinct).2
  obtain ⟨hi, rfl⟩ := List.getElem?_eq_some_iff.mp hm
  obtain ⟨hj, rfl⟩ := List.getElem?_eq_some_iff.mp hm'
  obtain hlt | hgt := Nat.lt_or_gt_of_ne hne
  · exact List.pairwise_iff_getElem.mp hpair i j hi hj hlt
  · exact fun _ ha hb ↦ List.pairwise_iff_getElem.mp hpair j i hj hi hgt hb ha

/-- The exposition of a registry scrapers know the names of is faithful, after any calls. -/
theorem exposition_faithful (inherited : Text → Option Text) (hprint : ∀ a, Plain (print a))
    {start : List (Metric Amount)} (h : Scrapable start) (calls : List (Call Amount)) :
    Faithful inherited print start calls := by
  have hblock : ∀ x : Metric Amount × ℕ, ∃ tuples, x ∈ start.zipIdx → Block inherited print x.1
      (accepted x.1.labelNames (calls.filter (·.metric = x.2))) tuples := by
    intro x
    by_cases hx : x ∈ start.zipIdx
    · obtain ⟨tuples, htuples⟩ := Metric.block inherited hprint
        (h.new x.1 (List.fst_mem_of_mem_zipIdx hx)) (accepted x.1.labelNames (calls.filter (·.metric = x.2)))
      exact ⟨tuples, fun _ ↦ htuples⟩
    · exact ⟨[], fun hmem ↦ absurd hmem hx⟩
  choose tuples htuples using hblock
  -- the samples of one metric
  let own : Metric Amount × ℕ → List Text → List Sample := fun x tuple ↦ x.1.samples print tuple
    (recorded inherited x.1.labelNames (accepted x.1.labelNames (calls.filter (·.metric = x.2))) tuple)
  have hown : ∀ x ∈ start.zipIdx, ∀ tuple ∈ tuples x, ∀ s ∈ own x tuple,
      (Wellformed s ∧ (0x0a : UInt16) ∉ renderSample s) ∧ Belongs x.1 tuple s := by
    intro x hx tuple htuple s hs
    have hm := List.fst_mem_of_mem_zipIdx hx
    exact ⟨h.wellformed hprint hm (((htuples x hx).mem tuple).mp htuple) hs,
      Metric.belongs hprint (h.labels x.1 hm).2 hs⟩
  have hlines : (run inherited start calls).flatMap (fun m ↦ m.exposition inherited print) =
      start.zipIdx.flatMap fun x ↦ x.1.comments ++ ((tuples x).flatMap (own x)).map renderSample := by
    rw [run_eq, List.flatMap_map]
    exact List.flatMap_congr fun x hx ↦ (htuples x hx).lines
  refine ⟨start.zipIdx.flatMap fun x ↦ (tuples x).flatMap (own x), ?_, ?_, ?_, ?_⟩
  · rw [exposition, hlines]
    refine readExposition_lines ?_ (readLines_flatMap fun x hx ↦ ?_)
    · intro line hline
      obtain ⟨x, hx, hline⟩ := List.mem_flatMap.mp hline
      obtain hline | hline := List.mem_append.mp hline
      · exact (h.comments (List.fst_mem_of_mem_zipIdx hx)).2 line hline
      · obtain ⟨s, hs, rfl⟩ := List.mem_map.mp hline
        obtain ⟨tuple, htuple, hs⟩ := List.mem_flatMap.mp hs
        exact (hown x hx tuple htuple s hs).1.2
    · refine readLines_append (h.comments (List.fst_mem_of_mem_zipIdx hx)).1
        (readLines_render fun s hs ↦ ?_)
      obtain ⟨tuple, htuple, hs⟩ := List.mem_flatMap.mp hs
      exact (hown x hx tuple htuple s hs).1.1
  · intro i m hm tuple hlength amounts
    have hx : (m, i) ∈ start.zipIdx := List.mem_zipIdx_iff_getElem?.mpr hm
    -- the metrics at other places have other names
    have hother : ∀ x ∈ start.zipIdx, x ≠ (m, i) →
        ((tuples x).flatMap (own x)).filter (fun s ↦ Belongs m tuple s) = [] := by
      rintro ⟨m', j⟩ hx' hne
      have hm' : start[j]? = some m' := List.mem_zipIdx_iff_getElem?.mp hx'
      have hij : i ≠ j := by
        rintro rfl
        exact hne (by rw [Option.some.inj (hm'.symm.trans hm)])
      rw [List.filter_eq_nil_iff]
      intro s hs
      obtain ⟨tuple', htuple', hs⟩ := List.mem_flatMap.mp hs
      rw [decide_eq_true_eq]
      exact fun hbelongs ↦ h.disjoint hm hm' hij hbelongs.1 (hown _ hx' tuple' htuple' s hs).2.1
    rw [filter_flatMap_of_unique (List.nodup_zipIdx_map_snd start).of_map hx hother]
    by_cases hrecorded : amounts = []
    · rw [if_pos hrecorded, List.filter_eq_nil_iff]
      intro s hs
      obtain ⟨tuple', htuple', hs⟩ := List.mem_flatMap.mp hs
      rw [decide_eq_true_eq]
      intro hbelongs
      have hne := ((htuples _ hx).mem tuple').mp htuple'
      have heq := zip_inj hlength (length_of_recorded hne)
        (hbelongs.2.symm.trans (hown _ hx tuple' htuple' s hs).2.2)
      exact hne (heq ▸ hrecorded)
    · rw [if_neg hrecorded]
      have htuple : tuple ∈ tuples (m, i) := ((htuples _ hx).mem tuple).mpr hrecorded
      rw [filter_flatMap_of_unique (htuples _ hx).nodup htuple]
      · refine List.filter_eq_self.mpr fun s hs ↦ decide_eq_true ?_
        exact (hown _ hx tuple htuple s hs).2
      · intro tuple' htuple' hne
        rw [List.filter_eq_nil_iff]
        intro s hs
        rw [decide_eq_true_eq]
        intro hbelongs
        exact hne (zip_inj hlength (length_of_recorded (((htuples _ hx).mem tuple').mp htuple'))
          (hbelongs.2.symm.trans (hown _ hx tuple' htuple' s hs).2.2)).symm
  · intro s hs
    obtain ⟨x, hx, hs⟩ := List.mem_flatMap.mp hs
    obtain ⟨tuple, htuple, hs⟩ := List.mem_flatMap.mp hs
    exact ⟨x.1, List.fst_mem_of_mem_zipIdx hx, tuple,
      length_of_recorded (((htuples x hx).mem tuple).mp htuple), (hown x hx tuple htuple s hs).2⟩
  · intro m hm
    have hsorted := Histogram.sorted (h.new _ hm)
    exact ⟨hsorted, counts_sorted hsorted⟩

/-! ### Runs on natural numbers -/

/-- A natural number as it prints. -/
def printNat (n : ℕ) : Text := (Nat.toDigits 10 n).map fun c ↦ UInt16.ofNat c.toNat

private theorem plain_printNat (n : ℕ) : Plain (printNat n) := by
  have hdigit : ∀ c ∈ printNat n, isDigit c = true := by
    intro c hc
    obtain ⟨d, hd, rfl⟩ := List.mem_map.mp hc
    have hd' := Nat.isDigit_of_mem_toDigits (by omega) (le_refl 10) hd
    simp only [Char.isDigit, Bool.and_eq_true, decide_eq_true_eq] at hd'
    have hlow : 48 ≤ d.toNat := UInt32.le_iff_toNat_le.mp hd'.1
    have hhigh : d.toNat ≤ 57 := UInt32.le_iff_toNat_le.mp hd'.2
    simp only [isDigit, Bool.and_eq_true, decide_eq_true_eq, UInt16.le_iff_toNat_le,
      UInt16.toNat_ofNat']
    rw [Nat.mod_eq_of_lt (by omega)]
    exact ⟨hlow, hhigh⟩
  have hne : ∀ x : UInt16, isDigit x = false → x ∉ printNat n := by
    intro x hx hmem
    rw [hdigit x hmem] at hx
    cases hx
  refine ⟨?_, fun c hc ↦ ?_, fun c hc ↦ ⟨?_, ?_⟩, hne _ (by decide), hne _ (by decide)⟩
  · exact fun h ↦ Nat.toDigits_ne_nil (List.map_eq_nil_iff.mp h)
  · rw [Bool.eq_false_iff]
    intro hblank
    simp only [isBlank, Bool.or_eq_true, beq_iff_eq] at hblank
    obtain rfl | rfl := hblank
    · exact hne _ (by decide) hc
    · exact hne _ (by decide) hc
  · rintro rfl
    exact hne _ (by decide) hc
  · rintro rfl
    exact hne _ (by decide) hc

/-- Requests by a label whose values need escapes, and a histogram of their sizes. -/
def requests : List (Metric ℕ) :=
  [.counter ⟨text "requests", text "Requests", [text "method"], .empty⟩,
    .histogram ⟨text "size", text "Sizes", [], [2, 5], .empty⟩]

/-- Four calls of both metrics. -/
def requestCalls : List (Call ℕ) :=
  [⟨0, JsMap.empty.set (text "method") (some (text "a\"b\\\nc")), 2⟩, ⟨1, .empty, 3⟩,
    ⟨0, .empty, 1⟩, ⟨0, JsMap.empty.set (text "method") (some (text "a\"b\\\r\nc")), 4⟩]

/-- Label values with quotes, backslashes and line breaks are read back. -/
theorem exposition_faithful_requests : Faithful (fun _ ↦ none) printNat requests requestCalls ∧
    (readExposition (exposition (fun _ ↦ none) printNat
      (run (fun _ ↦ none) requests requestCalls))).map (·.take 2) =
      some [⟨text "requests", [(text "method", text "a\"b\\ c")], text "6"⟩,
        ⟨text "requests", [(text "method", [])], text "1"⟩] := by
  refine ⟨exposition_faithful _ plain_printNat ⟨⟨?_, ?_⟩, ?_, ?_, ?_, ?_⟩ _, by decide +kernel⟩
  · intro m hm
    simp only [requests, List.mem_cons, List.not_mem_nil, or_false] at hm
    obtain rfl | rfl := hm
    · have hnames : validateLabelNames (text "requests") [text "method"] = .ok () := by decide +kernel
      simp only [Metric.New, Counter.create, hnames]
      rfl
    · refine ⟨[2, 5], ?_⟩
      have hsort : [2, 5].mergeSort (fun a b : ℕ ↦ decide (a ≤ b)) = [2, 5] :=
        List.mergeSort_of_pairwise (by decide)
      rw [Histogram.create, hsort]
      rfl
  all_goals decide +kernel

private theorem unfaithful_of_unread {start : List (Metric Amount)} {calls : List (Call Amount)}
    (h : readExposition (exposition inherited print (run inherited start calls)) = none) :
    ¬ Faithful inherited print start calls := by
  rintro ⟨samples, hread, -⟩
  rw [h] at hread
  cases hread

/-- A counter with the name of a sample of a histogram. -/
def clashing : List (Metric ℕ) :=
  [.counter ⟨text "h_count", text "Counts", [], .empty⟩, .histogram ⟨text "h", text "Sizes", [], [], .empty⟩]

/-- A label name with a colon. -/
def coloned : List (Metric ℕ) := [.counter ⟨text "m", text "Counts", [text "a:b"], .empty⟩]

/-- A metric name that starts with a digit. -/
def misnamed : List (Metric ℕ) := [.counter ⟨text "9m", text "Counts", [], .empty⟩]

/-- A help text of two lines. -/
def broken : List (Metric ℕ) := [.counter ⟨text "m", text "Counts\n9", [], .empty⟩]

/-- Distinct names alone make no faithful exposition. -/
theorem registered_unfaithful :
    (Registered clashing ∧
      ¬ Faithful (fun _ ↦ none) printNat clashing [⟨0, .empty, 5⟩, ⟨1, .empty, 3⟩]) ∧
    (Registered coloned ∧ ¬ Faithful (fun _ ↦ none) printNat coloned [⟨0, .empty, 5⟩]) ∧
    (Registered misnamed ∧ ¬ Faithful (fun _ ↦ none) printNat misnamed [⟨0, .empty, 5⟩]) ∧
    (Registered broken ∧ ¬ Faithful (fun _ ↦ none) printNat broken [⟨0, .empty, 5⟩]) := by
  have hcounter : ∀ name help names, validateLabelNames name names = .ok () →
      (Metric.counter (⟨name, help, names, .empty⟩ : Counter ℕ)).New := by
    intro name help names hnames
    simp only [Metric.New, Counter.create, hnames]
    rfl
  have hclashing : Registered clashing := by
    refine ⟨⟨?_, by decide⟩, by decide⟩
    intro m hm
    simp only [clashing, List.mem_cons, List.not_mem_nil, or_false] at hm
    obtain rfl | rfl := hm
    · exact hcounter _ _ _ rfl
    · exact ⟨[], by simp only [Histogram.create, List.mergeSort_nil]; rfl⟩
  have hsingle : ∀ m : Metric ℕ, m.New → m.labelNames.Nodup ∧ text "le" ∉ m.labelNames →
      Registered [m] := by
    intro m hnew hlabels
    refine ⟨⟨?_, ?_⟩, List.nodup_singleton _⟩
    · simpa using hnew
    · simpa using hlabels
  have htwice : (readExposition (exposition (fun _ ↦ none) printNat (run (fun _ ↦ none) clashing
      [⟨0, .empty, 5⟩, ⟨1, .empty, 3⟩]))).map (fun samples ↦ (samples.filter fun s ↦
        Belongs (.counter ⟨text "h_count", text "Counts", [], .empty⟩ : Metric ℕ) [] s).length) =
      some 2 := by
    decide +kernel
  refine ⟨⟨hclashing, ?_⟩, ⟨hsingle _ (hcounter _ _ _ (by decide +kernel)) (by decide), ?_⟩,
    ⟨hsingle _ (hcounter _ _ _ rfl) (by decide), ?_⟩,
    ⟨hsingle _ (hcounter _ _ _ rfl) (by decide), ?_⟩⟩
  · rintro ⟨samples, hread, hfilter, -⟩
    have honce := congrArg List.length (hfilter 0 _ rfl [] rfl)
    rw [hread, Option.map_some, Option.some.injEq] at htwice
    rw [htwice] at honce
    revert honce
    decide +kernel
  · exact unfaithful_of_unread (by decide +kernel)
  · exact unfaithful_of_unread (by decide +kernel)
  · exact unfaithful_of_unread (by decide +kernel)

end ChessStack.Metrics
