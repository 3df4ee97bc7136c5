import ChessStack.Metrics.Lines

/-!
# Series and their samples

Library `Metrics`. After any calls a metric has one cell for each tuple of sanitised label values it
was called with, which holds what the calls with that tuple add up to; the key of a cell tells the
tuple, and its lines are those of the tuple's samples.
-/

namespace ChessStack.Metrics

open ChessStack.Js

variable {inherited : Text → Option Text} {labelNames : List Text} {labels labels' : Labels}

/-! ### Keys -/

private theorem key_inj {names : List Text} {f g : Text → Text}
    (h : [0x2c].intercalate (names.map fun name ↦ name ++ 0x3d :: jsonString (f name)) =
      ([0x2c].intercalate (names.map fun name ↦ name ++ 0x3d :: jsonString (g name)) : Text)) :
    names.map f = names.map g := by
  induction names with
  | nil => rfl
  | cons name names ih =>
    cases names with
    | nil =>
      simp only [List.map_cons, List.map_nil, List.intercalate_singleton] at h ⊢
      have hjson := (List.cons.inj (List.append_cancel_left h)).2
      rw [← List.append_nil (jsonString (f name)), ← List.append_nil (jsonString (g name))] at hjson
      rw [(jsonString_append_inj hjson).1]
    | cons next names =>
      rw [List.map_cons, List.map_cons, List.map_cons, List.map_cons, List.intercalate_cons_cons,
        List.intercalate_cons_cons, List.append_assoc, List.append_assoc, List.append_assoc,
        List.append_assoc] at h
      have hjson := (List.cons.inj (List.append_cancel_left h)).2
      obtain ⟨heq, hrest⟩ := jsonString_append_inj hjson
      rw [List.map_cons, heq, ih (List.append_cancel_left hrest), ← List.map_cons]

/-- The key of a series tells its label values. -/
theorem labelsKey_inj : labelsKey inherited labelNames labels = labelsKey inherited labelNames labels' ↔
    values inherited labelNames labels = values inherited labelNames labels' := by
  constructor
  · exact key_inj
  · intro h
    have hsame := List.map_inj_left.mp h
    unfold labelsKey
    rw [List.map_congr_left fun name hname ↦ by rw [hsame name hname]]

/-- As many values as label names. -/
theorem length_values : (values inherited labelNames labels).length = labelNames.length :=
  List.length_map _

/-! ### Labels as printed -/

/-- The labels of a sample are pairs of names and values. -/
theorem renderLabels_eq : renderLabels inherited labelNames labels =
    renderPairs (labelNames.zip (values inherited labelNames labels)) := by
  have hpairs : labelNames.zip (values inherited labelNames labels) = labelNames.map fun name ↦
      (name, sanitizeLabelValue (lookup inherited labels name)) :=
    List.map_prod_left_eq_zip.symm
  rw [hpairs, renderLabels, renderPairs]
  cases labelNames with
  | nil => rfl
  | cons name names =>
    have hparts : ∀ rest : List Text, (rest.map fun name ↦ name ++ text "=\"" ++
        escapeLabelValue (sanitizeLabelValue (lookup inherited labels name)) ++ text "\"") =
        (rest.map fun name ↦ (name, sanitizeLabelValue (lookup inherited labels name))).map
          renderLabel := by
      intro rest
      rw [List.map_map]
      refine List.map_congr_left fun name _ ↦ ?_
      simp only [Function.comp_apply, renderLabel, List.append_assoc]
      rfl
    rw [if_neg (by simp), if_neg (by simp), hparts]

/-- The `le` label is spliced in behind the others. -/
theorem withLe_eq {pairs : List (Text × Text)} {le : Text} (hle : ∀ c ∈ le, c ≠ 0x5c ∧ c ≠ 0x22) :
    withLe (renderPairs pairs) le = renderPairs (pairs ++ [(text "le", le)]) := by
  have hlabel : renderLabel (text "le", le) = text "le=\"" ++ le ++ text "\"" := by
    simp only [renderLabel, escapeLabelValue_self hle]
    rfl
  cases pairs with
  | nil =>
    simp only [withLe, renderPairs, List.nil_append, List.map_singleton, List.intercalate_singleton,
      hlabel]
    simp [text]
  | cons p pairs =>
    have hopen : renderPairs (p :: pairs) =
        0x7b :: ([0x2c].intercalate ((p :: pairs).map renderLabel) ++ [0x7d]) := if_neg (by simp)
    have hdrop : (renderPairs (p :: pairs)).dropLast =
        0x7b :: [0x2c].intercalate ((p :: pairs).map renderLabel) := by
      rw [hopen, ← List.cons_append, List.dropLast_concat]
    have hspliced : renderPairs (p :: pairs ++ [(text "le", le)]) =
        0x7b :: ([0x2c].intercalate ((p :: pairs ++ [(text "le", le)]).map renderLabel) ++ [0x7d]) :=
      if_neg (by simp)
    rw [withLe, if_pos (by rw [hopen]; exact List.cons_ne_nil _ _), hdrop, hspliced, List.map_append,
      List.map_singleton, intercalate_concat (by simp), hlabel]
    simp [text]

/-! ### Calls -/

variable {Amount : Type} [AddMonoidWithOne Amount] [LinearOrder Amount]

/-- The call is made with declared labels and no negative amount. -/
def Accepted (labelNames : List Text) (labels : Labels) (value : Amount) : Prop :=
  (∀ name ∈ labels.entries.map Prod.fst, name ∈ labelNames) ∧ 0 ≤ value

/-- The checks of a call are evaluated. -/
instance (labelNames : List Text) (labels : Labels) (value : Amount) :
    Decidable (Accepted labelNames labels value) := inferInstanceAs (Decidable (_ ∧ _))

private theorem validateSample_ok {metricName : Text} :
    validateSample metricName labelNames labels = .ok () ↔
    ∀ name ∈ labels.entries.map Prod.fst, name ∈ labelNames := by
  unfold validateSample
  induction labels.entries.map Prod.fst with
  | nil => simp [List.forM, pure, Except.pure]
  | cons name names ih =>
    by_cases h : name ∈ labelNames
    · simp only [List.forM, h, not_true_eq_false, if_false, List.forall_mem_cons, true_and, ← ih]
      rfl
    · simp [List.forM, h, bind, Except.bind]

private theorem validateSample_error (metricName : Text)
    (h : ¬ ∀ name ∈ labels.entries.map Prod.fst, name ∈ labelNames) :
    ∃ e, validateSample metricName labelNames labels = .error e := by
  cases hrun : validateSample metricName labelNames labels with
  | error e => exact ⟨e, rfl⟩
  | ok => exact absurd (validateSample_ok.mp hrun) h

variable {value : Amount}

private theorem Counter.inc_accepted {m : Counter Amount} (h : Accepted m.labelNames labels value) :
    m.inc inherited labels value = .ok { m with
      series := m.series.record (fun b : Labels × Amount ↦ labelsKey inherited m.labelNames b.1)
        (fun b ↦ ⟨b.1, 0⟩) (fun cell b ↦ { cell with value := cell.value + b.2 }) (labels, value) } := by
  have hsample : validateSample m.name m.labelNames labels = .ok () :=
    validateSample_ok.mpr h.1
  rw [Counter.inc, hsample]
  simp [h.2, bind, Except.bind, pure, Except.pure, JsMap.record]

private theorem Counter.inc_refused (inherited : Text → Option Text) {m : Counter Amount}
    (h : ¬ Accepted m.labelNames labels value) :
    ∃ e, m.inc inherited labels value = .error e := by
  rw [Counter.inc]
  by_cases hnames : ∀ name ∈ labels.entries.map Prod.fst, name ∈ m.labelNames
  · have hsample : validateSample m.name m.labelNames labels = .ok () :=
      validateSample_ok.mpr hnames
    have hvalue : ¬ 0 ≤ value := fun hle ↦ h ⟨hnames, hle⟩
    rw [hsample]
    simp [hvalue, bind, Except.bind, throw, throwThe, MonadExceptOf.throw]
  · obtain ⟨e, he⟩ := validateSample_error m.name hnames
    exact ⟨e, by rw [he]; rfl⟩

/-- One more observation in a cell. -/
def HistogramCell.observed (buckets : List Amount) (cell : HistogramCell Amount)
    (b : Labels × Amount) : HistogramCell Amount :=
  { cell with
    counts := List.zipWith (fun bound count ↦ if b.2 ≤ bound then count + 1 else count) buckets
      cell.counts
    sum := cell.sum + b.2
    count := cell.count + 1 }

private theorem Histogram.observe_accepted {m : Histogram Amount}
    (h : Accepted m.labelNames labels value) :
    m.observe inherited labels value = .ok { m with
      series := m.series.record (fun b : Labels × Amount ↦ labelsKey inherited m.labelNames b.1)
        (fun b ↦ ⟨b.1, m.buckets.map fun _ ↦ 0, 0, 0⟩) (HistogramCell.observed m.buckets)
        (labels, value) } := by
  have hsample : validateSample m.name m.labelNames labels = .ok () :=
    validateSample_ok.mpr h.1
  rw [Histogram.observe, hsample]
  simp [h.2, bind, Except.bind, pure, Except.pure, JsMap.record, HistogramCell.observed]

private theorem Histogram.observe_refused (inherited : Text → Option Text) {m : Histogram Amount}
    (h : ¬ Accepted m.labelNames labels value) :
    ∃ e, m.observe inherited labels value = .error e := by
  rw [Histogram.observe]
  by_cases hnames : ∀ name ∈ labels.entries.map Prod.fst, name ∈ m.labelNames
  · have hsample : validateSample m.name m.labelNames labels = .ok () :=
      validateSample_ok.mpr hnames
    have hvalue : ¬ 0 ≤ value := fun hle ↦ h ⟨hnames, hle⟩
    rw [hsample]
    simp [hvalue, bind, Except.bind, throw, throwThe, MonadExceptOf.throw]
  · obtain ⟨e, he⟩ := validateSample_error m.name hnames
    exact ⟨e, by rw [he]; rfl⟩

/-! ### Runs -/

/-- What calls bring to a metric with these labels. -/
def accepted (labelNames : List Text) (calls : List (Call Amount)) : List (Labels × Amount) :=
  (calls.filter fun c ↦ Accepted labelNames c.labels c.value).map fun c ↦ (c.labels, c.value)

private theorem accepted_cons (labelNames : List Text) (c : Call Amount)
    (calls : List (Call Amount)) :
    accepted labelNames (c :: calls) =
      (if Accepted labelNames c.labels c.value then [(c.labels, c.value)] else []) ++
        accepted labelNames calls := by
  unfold accepted
  by_cases h : Accepted labelNames c.labels c.value
  · simp [h]
  · simp [h]

section

variable (inherited)

/-- The key of a call. -/
def keyOf (labelNames : List Text) (b : Labels × Amount) : Text :=
  labelsKey inherited labelNames b.1

/-- A counter after some calls of `inc`. -/
def Counter.after (m : Counter Amount) (bs : List (Labels × Amount)) : Counter Amount :=
  { m with series := bs.foldl (JsMap.record (keyOf inherited m.labelNames) (fun b ↦ ⟨b.1, 0⟩)
      fun cell b ↦ { cell with value := cell.value + b.2 }) m.series }

/-- A histogram after some calls of `observe`. -/
def Histogram.after (m : Histogram Amount) (bs : List (Labels × Amount)) : Histogram Amount :=
  { m with series := bs.foldl (JsMap.record (keyOf inherited m.labelNames)
      (fun b ↦ ⟨b.1, m.buckets.map fun _ ↦ 0, 0, 0⟩) (HistogramCell.observed m.buckets)) m.series }

/-- A metric after calls. -/
def Metric.after : Metric Amount → List (Labels × Amount) → Metric Amount
  | .counter m, bs => .counter (m.after inherited bs)
  | .histogram m, bs => .histogram (m.after inherited bs)

end

private theorem Metric.foldl_apply (m : Metric Amount) (calls : List (Call Amount)) :
    calls.foldl (Metric.apply inherited) m = m.after inherited (accepted m.labelNames calls) := by
  induction calls generalizing m with
  | nil => cases m <;> rfl
  | cons c calls ih =>
    rw [List.foldl_cons, ih, accepted_cons]
    cases m with
    | counter m =>
      by_cases h : Accepted m.labelNames c.labels c.value
      · rw [show (Metric.counter m).labelNames = m.labelNames from rfl, if_pos h, Metric.apply,
          Metric.record, Counter.inc_accepted h]
        rfl
      · obtain ⟨e, he⟩ := Counter.inc_refused inherited h
        rw [show (Metric.counter m).labelNames = m.labelNames from rfl, if_neg h, Metric.apply,
          Metric.record, he]
        rfl
    | histogram m =>
      by_cases h : Accepted m.labelNames c.labels c.value
      · rw [show (Metric.histogram m).labelNames = m.labelNames from rfl, if_pos h, Metric.apply,
          Metric.record, Histogram.observe_accepted h]
        rfl
      · obtain ⟨e, he⟩ := Histogram.observe_refused inherited h
        rw [show (Metric.histogram m).labelNames = m.labelNames from rfl, if_neg h, Metric.apply,
          Metric.record, he]
        rfl

/-- Each metric has what the calls of its place bring to it. -/
theorem run_eq (start : List (Metric Amount)) (calls : List (Call Amount)) :
    run inherited start calls = start.zipIdx.map fun x ↦
      x.1.after inherited (accepted x.1.labelNames (calls.filter (·.metric = x.2))) := by
  simp only [← Metric.foldl_apply]
  induction calls generalizing start with
  | nil => simp [run]
  | cons c calls ih =>
    rw [run, List.foldl_cons, ← run, ih]
    apply List.ext_getElem?
    intro i
    simp only [List.getElem?_map, List.getElem?_zipIdx, call, List.getElem?_modify]
    cases hi : start[i]? with
    | none => simp
    | some m =>
      by_cases hc : c.metric = i
      · subst hc
        simp
      · simp [hc]

end ChessStack.Metrics
