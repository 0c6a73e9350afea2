import ConsumerGroup.Decimal.Shortest
import ConsumerGroup.Metrics.Basic

/-!
# Metrics as text

The text format in which metrics are collected: a family of samples per metric, each family with a
line that explains it and a line with its kind, the families in the order of their names and the
samples of a family in the order of their label values.  Families without samples are left out.
-/

namespace ConsumerGroup.Metrics

/-- A line of numbers with labels. -/
structure Sample where
  /-- what is added to the name of the family -/
  nameEnd : String := ""
  /-- the labels in the order in which they are written -/
  labels : List (String × String)
  /-- the number -/
  value : Float

/-- The kinds of metrics. -/
inductive Kind where
  /-- a number that only grows -/
  | counter
  /-- a number that goes up and down -/
  | gauge
  /-- numbers of observations within bounds -/
  | histogram

/-- The name of the kind. -/
def Kind.name : Kind → String
  | counter => "counter"
  | gauge => "gauge"
  | histogram => "histogram"

/-- A metric with its samples. -/
structure Family where
  /-- the name without the common start -/
  name : String
  /-- what it tells -/
  help : String
  /-- its kind -/
  kind : Kind
  /-- its samples in order -/
  samples : List Sample

/-- What the names of all families start with. -/
def namespaceStart : String := "kafkaesque_consumer_"

/-! ## Families -/

/-- Whether a list of label values is not after another: the first values that differ decide. -/
def valuesLe : List String → List String → Bool
  | [], _ => true
  | _ :: _, [] => false
  | a :: as, b :: bs => if a = b then valuesLe as bs else a < b

/-- The entries of a table as label values and value, in the order of the label values. -/
def sorted {κ ν : Type} (t : Table κ ν) (values : κ → List String) : List (List String × ν) :=
  (t.entries.map fun e => (values e.1, e.2)).mergeSort fun a b => valuesLe a.1 b.1

/-- The samples of a table of whole numbers. -/
def samplesOf {κ : Type} (t : Table κ Int) (names : List String) (values : κ → List String) :
    List Sample :=
  (sorted t values).map fun (vs, n) => { labels := names.zip vs, value := Decimal.ofInt n }

/-- A table of counts as a table of whole numbers. -/
def counts {κ : Type} (t : Table κ Nat) : Table κ Int := ⟨t.entries.map fun e => (e.1, (e.2 : Int))⟩

/-- The samples of one histogram. -/
def histogramSamples (labels : List (String × String)) (h : Histogram) : List Sample :=
  (durationBounds.zip h.within).map (fun (bound, n) =>
    { nameEnd := "_bucket", labels := labels ++ [("le", Decimal.text bound)],
      value := Decimal.ofInt n })
  ++ [{ nameEnd := "_bucket", labels := labels ++ [("le", "+Inf")], value := Decimal.ofInt h.count },
    { nameEnd := "_sum", labels, value := h.sum },
    { nameEnd := "_count", labels, value := Decimal.ofInt h.count }]

/-- The label values of a pair of a topic, or a policy, and something else. -/
def firstLast (k : String × String) : List String := [k.1, k.2]

/-- The label values of a pair, the second first. -/
def lastFirst (k : String × String) : List String := [k.2, k.1]

/-- The label values of a partition. -/
def partitionFirst (k : TopicPartition) : List String := [toString k.partition, k.topic]

/-- All families in the order of their names. -/
def families (m : Metrics) : List Family :=
  [{ name := "committed_offset"
     help := "Last offset marked for commit"
     kind := .gauge
     samples := samplesOf m.committed ["partition", "topic"] partitionFirst },
   { name := "handler_duration_seconds"
     help := "Handler execution time in seconds"
     kind := .histogram
     samples := (sorted m.durations fun topic => [topic]).flatMap fun (vs, h) =>
       histogramSamples (["topic"].zip vs) h },
   { name := "in_flight_messages"
     help := "Messages admitted but not yet completed"
     kind := .gauge
     samples := samplesOf m.inFlight ["partition", "topic"] partitionFirst },
   { name := "messages_consumed_total"
     help := "Messages dispatched to a handler, by outcome"
     kind := .counter
     samples := samplesOf (counts m.handled) ["outcome", "topic"] lastFirst },
   { name := "messages_skipped_total"
     help := "Messages addressed to another consumer group"
     kind := .counter
     samples := samplesOf (counts m.skipped) ["topic"] fun topic => [topic] },
   { name := "redeliveries_total"
     help := "Failed messages by redelivery outcome"
     kind := .counter
     samples := samplesOf (counts m.redeliveries) ["outcome", "topic"] lastFirst },
   { name := "retry_attempts_total"
     help := "Retry policy attempts by policy and result"
     kind := .counter
     samples := samplesOf (counts m.retries) ["policy", "result"] firstLast },
   { name := "session_restarts_total"
     help := "Consumer-group session restarts by reason"
     kind := .counter
     samples := samplesOf (counts m.restarts) ["reason", "topic"] lastFirst }]

/-! ## Text -/

/-- A label value between its quotes. -/
def escapeLabel (s : String) : String :=
  String.join (s.toList.map fun c =>
    if c = '\\' then "\\\\" else if c = '"' then "\\\"" else if c = '\n' then "\\n" else c.toString)

/-- The line of a sample. -/
def Sample.line (name : String) (s : Sample) : String :=
  let labels := s.labels.map fun (k, v) => k ++ "=\"" ++ escapeLabel v ++ "\""
  name ++ s.nameEnd ++ "\x7b" ++ ",".intercalate labels ++ "\x7d " ++ Decimal.text s.value

/-- The lines of a family. -/
def Family.lines (f : Family) : List String :=
  let name := namespaceStart ++ f.name
  if f.samples.isEmpty then []
  else
    ("# HELP " ++ name ++ " " ++ f.help) :: ("# TYPE " ++ name ++ " " ++ f.kind.name)
      :: f.samples.map (Sample.line name)

/-- All lines, each with its end. -/
def text (m : Metrics) : String :=
  String.join ((m.families.flatMap Family.lines).map (· ++ "\n"))

/-- The samples that do not depend on how long handlers ran. -/
def Sample.isTimeless (s : Sample) : Bool := s.nameEnd = "" || s.nameEnd = "_count"

/-- The lines of the samples that do not depend on how long handlers ran. -/
def timelessLines (m : Metrics) : List String :=
  m.families.flatMap fun f =>
    (f.samples.filter Sample.isTimeless).map (Sample.line (namespaceStart ++ f.name))

end ConsumerGroup.Metrics
