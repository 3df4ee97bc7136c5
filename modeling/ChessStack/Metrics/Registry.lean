import ChessStack.Js.Map
import ChessStack.Metrics.Format
import Mathlib.Data.Nat.Cast.Defs
import Mathlib.Order.Lattice

/-!
# The registry of metrics

Library `Metrics`. `Counter`, `Histogram` and `Registry` of
`Chess-Backend/src/metrics/registry.js`. Amounts, bucket bounds and the values of the cells are
numbers of any ordered type with an exact addition. A series is found by the JSON of its label
values and printed with their escaped form.
-/

namespace ChessStack.Metrics

open ChessStack.Js

/-! ### Labels -/

/-- The labels of a call: the own properties of an object, `none` for `null` and `undefined`. -/
abbrev Labels := JsMap Text (Option Text)

/-- How long a label value may be. -/
def MAX_LABEL_VALUE_LENGTH : Nat := 128

/-- `RESERVED_LABEL_NAMES`, `registry.js:11–18`. -/
def RESERVED_LABEL_NAMES : List Text :=
  ["userid", "user_id", "user", "username", "email", "socketid", "socket_id", "socket", "jwt", "token",
    "sessionid", "session_id", "session", "requestid", "request_id", "request", "trace_id", "traceid",
    "span_id", "gameid", "game_id", "game", "roomid", "room_id", "room", "ip", "client_ip", "clientip",
    "path", "url", "query", "body", "password", "secret", "cookie", "authorization"].map text

/-- `NAME_RE.test(name)`, `registry.js:20`. -/
def validName : Text → Bool
  | [] => false
  | c :: rest => nameStart c && rest.all namePart

/-- A line feed or a carriage return. -/
def isBreak (c : UInt16) : Bool := c == 0x0a || c == 0x0d

/-- `text.replace(/[\r\n]+/g, " ")`; `inRun` inside a run. -/
def foldBreaks (inRun : Bool) : Text → Text
  | [] => []
  | c :: rest =>
    if isBreak c then (if inRun then [] else [0x20]) ++ foldBreaks true rest
    else c :: foldBreaks false rest

/-- `sanitizeLabelValue`, `registry.js:22–27`. -/
def sanitizeLabelValue (value : Text) : Text :=
  let text := foldBreaks false value
  if text.length > MAX_LABEL_VALUE_LENGTH then text.take MAX_LABEL_VALUE_LENGTH else text

/-- `escapeLabelValue`, `registry.js:29–31`. -/
def escapeLabelValue (text : Text) : Text :=
  (text.flatMap fun c ↦ if c = 0x5c then [0x5c, 0x5c] else [c]).flatMap fun c ↦
    if c = 0x22 then [0x5c, 0x22] else [c]

section

-- what the properties every object inherits print as
variable (inherited : Text → Option Text)

/-- `labels[name] ?? ""`, as a string. -/
def lookup (labels : Labels) (name : Text) : Text :=
  match labels.get name with
  | some value => value.getD []
  | none => (inherited name).getD []

/-- The sanitised values of the declared labels. -/
def values (labelNames : List Text) (labels : Labels) : List Text :=
  labelNames.map fun name ↦ sanitizeLabelValue (lookup inherited labels name)

/-- `labelsKey`, `registry.js:33–35`. -/
def labelsKey (labelNames : List Text) (labels : Labels) : Text :=
  [0x2c].intercalate (labelNames.map fun name ↦
    name ++ 0x3d :: jsonString (sanitizeLabelValue (lookup inherited labels name)))

/-- `renderLabels`, `registry.js:37–41`. -/
def renderLabels (labelNames : List Text) (labels : Labels) : Text :=
  if labelNames.length = 0 then []
  else 0x7b :: ([0x2c].intercalate (labelNames.map fun name ↦ name ++ text "=\"" ++
    escapeLabelValue (sanitizeLabelValue (lookup inherited labels name)) ++ text "\"") ++ [0x7d])

end

/-- `toLowerCase` of a name. -/
def lower (name : Text) : Text := name.map fun c ↦ if 0x41 ≤ c && c ≤ 0x5a then c + 32 else c

/-- `validateLabelNames`, `registry.js:43–50`. -/
def validateLabelNames (metricName : Text) (labelNames : List Text) : Except Text Unit :=
  labelNames.forM fun name ↦
    if !validName name then
      .error (text "metric " ++ metricName ++ text ": invalid label name " ++ jsonString name)
    else if lower name ∈ RESERVED_LABEL_NAMES then
      .error (text "metric " ++ metricName ++ text ": reserved (unbounded/PII) label name " ++
        jsonString name)
    else .ok ()

/-- `validateSample`, `registry.js:52–59`. -/
def validateSample (metricName : Text) (labelNames : List Text) (labels : Labels) :
    Except Text Unit :=
  (labels.entries.map Prod.fst).forM fun name ↦
    if name ∉ labelNames then
      .error (text "metric " ++ metricName ++ text ": undeclared label " ++ jsonString name ++
        text " (would explode cardinality)")
    else .ok ()

/-! ### Metrics -/

variable {Amount : Type} [AddMonoidWithOne Amount] [LinearOrder Amount]

/-- The cell of a label tuple in a counter. -/
structure CounterCell (Amount : Type) where
  labels : Labels
  value : Amount

/-- A counter. -/
structure Counter (Amount : Type) where
  name : Text
  help : Text
  labelNames : List Text
  series : JsMap Text (CounterCell Amount)

/-- The cell of a label tuple in a histogram. -/
structure HistogramCell (Amount : Type) where
  labels : Labels
  counts : List Amount
  sum : Amount
  count : Amount

/-- A histogram. -/
structure Histogram (Amount : Type) where
  name : Text
  help : Text
  labelNames : List Text
  buckets : List Amount
  series : JsMap Text (HistogramCell Amount)

/-- `new Counter(name, help, labelNames)`. -/
def Counter.create (name help : Text) (labelNames : List Text) : Except Text (Counter Amount) := do
  validateLabelNames name labelNames
  return ⟨name, help, labelNames, .empty⟩

/-- `new Histogram(name, help, labelNames, buckets)`. -/
def Histogram.create (name help : Text) (labelNames : List Text) (buckets : List Amount) :
    Except Text (Histogram Amount) := do
  validateLabelNames name labelNames
  return ⟨name, help, labelNames, buckets.mergeSort (fun a b ↦ decide (a ≤ b)), .empty⟩

section

variable (inherited : Text → Option Text)

/-- `Counter.inc`, `registry.js:67–74`. -/
def Counter.inc (m : Counter Amount) (labels : Labels) (value : Amount) :
    Except Text (Counter Amount) := do
  validateSample m.name m.labelNames labels
  if ¬ 0 ≤ value then
    throw (text "metric " ++ m.name ++ text ": counter increment must be >= 0")
  let key := labelsKey inherited m.labelNames labels
  let cell := (m.series.get key).getD ⟨labels, 0⟩
  return { m with series := m.series.set key { cell with value := cell.value + value } }

/-- `Histogram.observe`, `registry.js:134–148`. -/
def Histogram.observe (m : Histogram Amount) (labels : Labels) (value : Amount) :
    Except Text (Histogram Amount) := do
  validateSample m.name m.labelNames labels
  if ¬ 0 ≤ value then
    throw (text "metric " ++ m.name ++ text ": histogram observation must be >= 0")
  let key := labelsKey inherited m.labelNames labels
  let cell := (m.series.get key).getD ⟨labels, m.buckets.map fun _ ↦ 0, 0, 0⟩
  return { m with series := m.series.set key { cell with
    counts := List.zipWith (fun bound count ↦ if value ≤ bound then count + 1 else count)
      m.buckets cell.counts
    sum := cell.sum + value
    count := cell.count + 1 } }

/-! ### The exposition -/

-- how a number prints
variable (print : Amount → Text)

/-- `Counter.exposition`, `registry.js:75–80`. -/
def Counter.exposition (m : Counter Amount) : List Text :=
  [text "# HELP " ++ m.name ++ 0x20 :: m.help, text "# TYPE " ++ m.name ++ text " counter"] ++
    m.series.entries.map fun e ↦
      m.name ++ renderLabels inherited m.labelNames e.2.labels ++ 0x20 :: print e.2.value

/-- `withLe`, `registry.js:153`. -/
def withLe (base le : Text) : Text :=
  if base ≠ [] then base.dropLast ++ text ",le=\"" ++ le ++ text "\"\x7d"
  else text "\x7ble=\"" ++ le ++ text "\"\x7d"

/-- The lines of a series, `registry.js:151–160`. -/
def Histogram.cellLines (m : Histogram Amount) (cell : HistogramCell Amount) : List Text :=
  let base := renderLabels inherited m.labelNames cell.labels
  List.zipWith (fun bound count ↦
      m.name ++ text "_bucket" ++ withLe base (print bound) ++ 0x20 :: print count)
    m.buckets cell.counts ++
  [m.name ++ text "_bucket" ++ withLe base (text "+Inf") ++ 0x20 :: print cell.count,
    m.name ++ text "_sum" ++ base ++ 0x20 :: print cell.sum,
    m.name ++ text "_count" ++ base ++ 0x20 :: print cell.count]

/-- `Histogram.exposition`, `registry.js:149–162`. -/
def Histogram.exposition (m : Histogram Amount) : List Text :=
  [text "# HELP " ++ m.name ++ 0x20 :: m.help, text "# TYPE " ++ m.name ++ text " histogram"] ++
    m.series.entries.flatMap fun e ↦ m.cellLines inherited print e.2

/-- A metric of the registry. -/
inductive Metric (Amount : Type) where
  | counter (m : Counter Amount)
  | histogram (m : Histogram Amount)

/-- The name of a metric. -/
def Metric.name : Metric Amount → Text
  | .counter m => m.name
  | .histogram m => m.name

/-- The help text of a metric. -/
def Metric.help : Metric Amount → Text
  | .counter m => m.help
  | .histogram m => m.help

/-- The label names of a metric. -/
def Metric.labelNames : Metric Amount → List Text
  | .counter m => m.labelNames
  | .histogram m => m.labelNames

/-- The lines of a metric. -/
def Metric.exposition : Metric Amount → List Text
  | .counter m => m.exposition inherited print
  | .histogram m => m.exposition inherited print

/-- `inc` of a counter, `observe` of a histogram. -/
def Metric.record (labels : Labels) (value : Amount) : Metric Amount → Except Text (Metric Amount)
  | .counter m => .counter <$> m.inc inherited labels value
  | .histogram m => .histogram <$> m.observe inherited labels value

/-- `Registry.exposition`, `registry.js:168–172`. -/
def exposition (metrics : List (Metric Amount)) : Text :=
  [0x0a].intercalate (metrics.flatMap fun m ↦ m.exposition inherited print) ++ [0x0a]

/-! ### Runs -/

/-- A call of the metric registered at a place. -/
structure Call (Amount : Type) where
  metric : Nat
  labels : Labels
  value : Amount

/-- A call that throws leaves the metric as it is. -/
def Metric.apply (m : Metric Amount) (c : Call Amount) : Metric Amount :=
  match m.record inherited c.labels c.value with
  | .ok m' => m'
  | .error _ => m

/-- The metrics after a call. -/
def call (metrics : List (Metric Amount)) (c : Call Amount) : List (Metric Amount) :=
  metrics.modify c.metric fun m ↦ m.apply inherited c

/-- The metrics after some calls. -/
def run (metrics : List (Metric Amount)) (calls : List (Call Amount)) : List (Metric Amount) :=
  calls.foldl (call inherited) metrics

end

end ChessStack.Metrics
