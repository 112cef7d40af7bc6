import WorkBundle.Config
import WorkBundle.Yaml.Grammar
import WorkBundle.Yaml.Scalar

/-!
# Settings from a YAML document

What a document says about the configuration. An alias is followed to the node it stands for; the
reader pays for every alias it follows, so that a document cannot blow up, and nodes may not nest
too deeply. Keys that mean nothing here are passed over with what they hold.
-/

set_option autoImplicit false

namespace WorkBundle.Yaml

/-- A step that reads nodes. The number counts the aliases that may still be followed, so a document
cannot unfold into an endless value. -/
abbrev Decode := StateT Nat Option

namespace Decode

def follow (doc : Document) : Node → Decode Node
  | .alias anchor => do
    match ← get, doc.anchors.lookup anchor with
    | left + 1, some n => set left; return n
    | _, _ => failure
  | n => return n

def text (doc : Document) (n : Node) : Decode String := do
  match ← follow doc n with
  | .scalar _ _ _ text => return text
  | _ => failure

/-- A mapping with texts as keys. A scalar that is not written counts as an empty mapping, so a
section may stand there with nothing in it. -/
def fields (doc : Document) (n : Node) : Decode (List (String × Node)) := do
  match ← follow doc n with
  | .map _ _ entries => entries.mapM fun (k, v) => do return (← text doc k, v)
  | .scalar _ _ .plain "" => return []
  | _ => failure

def field? (name : String) (fs : List (String × Node)) : Decode (Option Node) :=
  match fs.filter (·.1 == name) with
  | [] => return none
  | [(_, n)] => return some n
  | _ => failure

/-- Is a scalar null? A tag of null demands that it is; another tag makes it something else. -/
def absent (n : Node) : Decode Bool :=
  match n with
  | .scalar _ none .plain text => return text.isEmpty || isNull text
  | .scalar _ (some .null) .plain text => if isNull text then return true else failure
  | _ => return false

/-- An integer of 64 bits with a sign. It must be plain, or be tagged as an integer and written as a
literal block. -/
def int (n : Node) : Decode Int :=
  match n with
  | .scalar _ tag style text =>
    let readable := style == .plain || (style == .literal && tag == some .int)
    match (integer? text).filter fun i => -Int.pow 2 63 ≤ i && i < Int.pow 2 63 with
    | some i => if readable then return i else failure
    | none => failure
  | _ => failure

def optional {τ : Type} (doc : Document) (read : Node → Decode τ) : Option Node → Decode (Option τ)
  | none => return none
  | some n => do
    let n ← follow doc n
    if ← absent n then return none else return some (← read n)

def shownTag (name : String) : String :=
  if name.startsWith "!" && name != "!" then name else "!" ++ name

/-- Under a tag of the application, its name and the value; the name must not be empty. -/
def wrap (tag : Option Tag) (dealt : Bool) (read : Bool → Decode Value) : Decode Value :=
  match tag, dealt with
  | some (.local ""), false => failure
  | some (.local name), false => return .tagged (shownTag name) (← read true)
  | _, _ => read dealt

def distinct (entries : List (Value × Value)) : Decode (List (Value × Value)) :=
  entries.foldlM (fun es e => if es.any (·.1.same e.1) then failure else return es ++ [e]) []

/-- A value in at most so many collections. `dealt` says that the tag has been dealt with: so it is
inside a tagged value, and for the keys of a tagged mapping, too. -/
def value (doc : Document) : Nat → Bool → Node → Decode Value
  | depth, dealt, n => do
    let dealt := match n with
      | .alias _ => false
      | _ => dealt
    match ← follow doc n, depth with
    | .scalar _ tag style text, _ =>
      wrap tag dealt fun dealt =>
        match scalarValue? (if dealt then none else tag) style text with
        | some v => return v
        | none => failure
    | .seq _ tag items, depth + 1 =>
      wrap tag dealt fun _ => return .seq (← items.mapM (value doc depth false))
    | .map _ tag entries, depth + 1 =>
      wrap tag dealt fun dealt => do
        let entries ← entries.mapM fun (k, v) => do
          return (← value doc depth dealt k, ← value doc depth false v)
        return .map (← distinct entries)
    | _, _ => failure

def valueDepth : Nat := 125

/-- The pipeline options. A key may come up again among the values; the last one counts
(`Options.withValue`). -/
def options (doc : Document) (n : Node) : Decode Options := do
  let fs ← fields doc n
  let jobName ← optional doc (text doc) (← field? "job_name" fs)
  let values ← match ← field? "values" fs with
    | some n => fields doc n
    | none => pure []
  values.foldlM (fun o e => return o.withValue e.1 (← value doc valueDepth false e.2)) { jobName }

/-- The whole configuration. What is not mentioned keeps its default. -/
def config (doc : Document) : Decode Config := do
  match doc.root with
  | none => return {}
  | some root =>
    let fs ← fields doc root
    let maxParallelism ← match ← field? "parallelism" fs with
      | some n => do optional doc int (← field? "max_parallelism" (← fields doc n))
      | none => pure none
    let options ← match ← field? "pipeline_options" fs with
      | some n => options doc n
      | none => pure {}
    return { maxParallelism, options }

end Decode

def config? (text : String) : Option Config := do
  let doc ← Document.ofText? text
  (Decode.config doc).run' (100 * doc.size)

end WorkBundle.Yaml
