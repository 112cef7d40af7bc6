import WorkBundle.Builder
import WorkBundle.ConfigFile
import WorkBundle.Sample
import WorkBundle.Schedule

/-!
# A demonstration

Nine words are looked up somewhere far away, several at a time: each element waits, counts the
characters of its word and emits the word in capitals. How long a look-up takes and how many go on
at a time comes from a configuration.
-/

set_option autoImplicit false

namespace WorkBundle.Demo

def words : List String := ["the", "quick", "brown", "fox", "jumps", "over", "the", "lazy", "dog"]

def standardLatency : Nat := 25

def latency (o : Options) : Nat := (o.count? "latency_ms").getD standardLatency

def enriched (word : String) : String := s!"{word.toUpper} ({word.utf8ByteSize} chars)"

/-- Looks up each word, counts its characters in an aggregator and emits it. The delay stands for a
look-up elsewhere, which is what running the words in parallel saves. -/
def enriching (latency : Nat) : Sample String String where
  processor := { name := "enrich" }
  body word :=
    [.sleep latency, .add "characters" .sum (Int64.ofNat word.utf8ByteSize),
      .emit (.output (.given (enriched word)))]

/-- What is shown of a bundle that has run. The time it took is kept apart from the rest, since it
differs from one machine to the next. -/
structure Shown where
  processor : String
  parallelism : Nat
  outputs : List String
  characters : Int
  elapsed : Elapsed

/-- Runs the bundle as a configuration asks for, on the schedule of one thread
(`Schedule.runBundle`). -/
def run (config : Config) : Except ExecutionError Shown :=
  let sample := enriching (latency config.options)
  match Bound.ofConfig config sample.processor with
  | .error e => .error e
  | .ok (bound, options) =>
    let machine := bound.engine .async default { options }
    let items := words.zipIdx.map fun (word, i) => sample.item i word word
    let s := Schedule.runBundle machine items (words.length * latency options)
    let m := s.machine
    let shown : Shown :=
      { processor := bound.processor.name
        parallelism := bound.parallelism.count
        outputs := m.arrivals.filterMap fun a =>
          match a.emission with
          | .main (.given v) _ => some v
          | _ => none
        characters := ((m.scope.aggregators.get? "characters").map (·.value.toInt)).getD 0
        elapsed := .ofMilliseconds m.now }
    match s.run.result? with
    | some (.answer (.error e)) => .error e
    | _ => .ok shown

namespace Shown

def header (s : Shown) : List String :=
  ["🚀 Intra-bundle parallel processing demo",
    "═══════════════════════════════════════",
    s!"Processor: {s.processor}",
    s!"Max parallelism: {s.parallelism}",
    s!"Elements: {words.length}"]

def summary (s : Shown) : String := s!"{s.outputs.length} outputs, {s.characters} characters"

def column (n : Nat) : String := if n < 10 then s!" {n}" else s!"{n}"

def lines (s : Shown) : List String :=
  s.header ++ [""] ++ (s.outputs.zipIdx.map fun (output, i) => s!"  {column (i + 1)}. {output}") ++
    ["", s!"📊 {s.summary}, {s.elapsed.text}"]

end Shown

def report (message : String) (causes : List String) (numbered : Bool) : String :=
  let below (cause : String) (i : Nat) : String :=
    let mark := if numbered then s!"    {i}: " else "    "
    let indent := String.ofList (List.replicate mark.length ' ')
    mark ++ ("\n" ++ indent).intercalate (cause.splitOn "\n")
  "\n".intercalate
    (s!"Error: {message}" :: "" :: "Caused by:" :: causes.zipIdx.map fun (cause, i) => below cause i)

def reportConfig (path : String) (e : ConfigError) : String :=
  let inDocument :=
    match e with
    | .yaml | .toml => true
    | _ => false
  let text :=
    report s!"Failed to load configuration from {path}" e.chain (inDocument || 1 < e.chain.length)
  if inDocument then text else text ++ "\n"

def outcome (source : Option (String × Stored)) : Except String Shown :=
  let config : Except String Config :=
    match source with
    | none => .ok {}
    | some (path, stored) =>
      match (Config.loadValid path stored).1 with
      | .ok config => .ok config
      | .error e => .error (reportConfig path e)
  config.bind fun config =>
    match run config with
    | .ok shown => .ok shown
    | .error e => .error (report "Bundle failed" e.chain (1 < e.chain.length) ++ "\n")

end WorkBundle.Demo
