import WorkBundle.Config
import WorkBundle.Toml.Document

/-!
# Settings from a TOML document

What a document says about the configuration. A date-time counts as a table with one entry, under
a key that no document would use. A list in place of a table of settings gives the settings in
their order.
-/

set_option autoImplicit false

namespace WorkBundle.Toml

def dateTimeKey : String := "$__toml_private_datetime"

mutual

def Item.value : Item → Value
  | .text s => .text s
  | .int i => .int i
  | .float bits => .float bits
  | .bool b => .bool b
  | .dateTime t => .map [(.text dateTimeKey, .text t)]
  | .array items => .seq (itemValues items)
  | .inline _ es | .table _ es => .map (entryValues es)
  | .tables ts => .seq (tableValues ts).reverse

def itemValues : List Item → List Value
  | [] => []
  | i :: is => i.value :: itemValues is

def entryValues : List (String × Item) → List (Value × Value)
  | [] => []
  | (k, i) :: es => (.text k, i.value) :: entryValues es

def tableValues : List (List (String × Item)) → List Value
  | [] => []
  | t :: ts => .map (entryValues t) :: tableValues ts

end

namespace Item

def entries? : Item → Option Entries
  | .dateTime t => some [(dateTimeKey, .text t)]
  | .inline _ es | .table _ es => some es
  | _ => none

def items? : Item → Option (List Item)
  | .array items => some items
  | .tables ts => some (ts.reverse.map (.table .defined))
  | _ => none

def text? : Item → Option String
  | .text s => some s
  | _ => none

def int? : Item → Option Int
  | .int i => some i
  | _ => none

/-- The settings of a section that is a table, by their names, or a list, by their order. A record
may be written in both ways. -/
def settings? (names : List String) (i : Item) : Option Entries :=
  match i.entries? with
  | some es => some es
  | none => i.items?.map names.zip

end Item

/-- A setting that may be missing. If it is there, it must be of its kind, or the whole
configuration is refused. -/
def optional? {τ : Type} (read : Item → Option τ) (es : Entries) (name : String) : Option (Option τ) :=
  match es.lookup name with
  | none => some none
  | some i => (read i).map some

def parallelism? (i : Item) : Option (Option Int) := do
  if i.items?.any (·.isEmpty) then none
  optional? Item.int? (← i.settings? ["max_parallelism"]) "max_parallelism"

def options? (i : Item) : Option Options := do
  let es ← i.settings? ["job_name", "values"]
  let jobName ← optional? Item.text? es "job_name"
  let values ← optional? Item.entries? es "values"
  return (values.getD []).foldl (fun o e => o.withValue e.1 e.2.value) { jobName }

/-- The configuration that a TOML text describes. What is not mentioned keeps its default, so the
empty text is the default configuration (`Config.load_empty`). -/
def config? (text : String) : Option Config := do
  let root ← ofText? text
  let maxParallelism ← optional? parallelism? root "parallelism"
  let options ← optional? options? root "pipeline_options"
  return { maxParallelism := maxParallelism.join, options := options.getD {} }

end WorkBundle.Toml
