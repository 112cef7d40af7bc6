import WorkBundle.Yaml.Token

/-!
# YAML documents as trees

A document is a tree of scalars, sequences and mappings. Any of them may carry an anchor, and an
alias stands for the node with an anchor, so a document may even contain itself.
-/

set_option autoImplicit false

namespace WorkBundle.Yaml

/-- What a tag says: one of the four types of scalars that it can demand, a tag of the application
by its name (`local`), one whose octets are no text, or any other. -/
inductive Tag where
  | bool
  | int
  | float
  | null
  | local (name : String)
  | unreadable
  | other
  deriving DecidableEq, Repr

def Tag.ofOctets (os : List UInt8) : Tag :=
  let core (name : String) : List UInt8 := ("tag:yaml.org,2002:" ++ name).toUTF8.toList
  if os == core "bool" then .bool
  else if os == core "int" then .int
  else if os == core "float" then .float
  else if os == core "null" then .null
  else
    match os with
    | 0x21 :: rest => ((String.fromUTF8? ⟨rest.toArray⟩).map Tag.local).getD .unreadable
    | _ => .other

/-- A node. An anchor is a number, and an alias has the number of its anchor; nothing is shared
before the aliases are followed (`Decode.follow`). -/
inductive Node where
  | scalar (anchor : Option Nat) (tag : Option Tag) (style : Style) (text : String)
  | seq (anchor : Option Nat) (tag : Option Tag) (items : List Node)
  | map (anchor : Option Nat) (tag : Option Tag) (entries : List (Node × Node))
  | alias (anchor : Nat)
  deriving Repr, Inhabited

namespace Node

def empty : Node := .scalar none none .plain ""

mutual

def size : Node → Nat
  | .scalar .. | .alias _ => 1
  | .seq _ _ items => sizeItems items + 2
  | .map _ _ entries => sizeEntries entries + 2

def sizeItems : List Node → Nat
  | [] => 0
  | n :: ns => n.size + sizeItems ns

def sizeEntries : List (Node × Node) → Nat
  | [] => 0
  | (k, v) :: es => k.size + v.size + sizeEntries es

end

mutual

def anchored : Node → List (Nat × Node)
  | .scalar anchor tag style text => (anchor.map (·, .scalar anchor tag style text)).toList
  | .seq anchor tag items => (anchor.map (·, .seq anchor tag items)).toList ++ anchoredItems items
  | .map anchor tag entries =>
    (anchor.map (·, .map anchor tag entries)).toList ++ anchoredEntries entries
  | .alias _ => []

def anchoredItems : List Node → List (Nat × Node)
  | [] => []
  | n :: ns => n.anchored ++ anchoredItems ns

def anchoredEntries : List (Node × Node) → List (Nat × Node)
  | [] => []
  | (k, v) :: es => k.anchored ++ v.anchored ++ anchoredEntries es

end

end Node

/-- A document: its root, unless it is empty, and the nodes with an anchor. Of several nodes with
the same number the one that begins last counts, so these are listed last first. -/
structure Document where
  root : Option Node
  anchors : List (Nat × Node)
  size : Nat
  deriving Repr

def Document.ofRoot (root : Option Node) : Document :=
  { root
    anchors := (root.map (·.anchored)).getD [] |>.reverse
    size := root.elim 1 (·.size) }

end WorkBundle.Yaml
