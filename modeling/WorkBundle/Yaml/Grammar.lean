import WorkBundle.Yaml.Lexer
import WorkBundle.Yaml.Node

/-!
# From tokens to a document

The grammar of YAML over tokens. A text holds one document at most; a second one is an error.
Where the grammar expects a node and the next token says that none is there, the node is the empty
scalar.

Anchors are numbered by how many names are known when they come up. A name that is given again
keeps no number of its own: it gets the one that the next new name will also get.
-/

set_option autoImplicit false

namespace WorkBundle.Yaml

/-- The tokens that are left, what the tag handles stand for, and the numbers of the anchors by
name, the latest first. -/
structure TokenStream where
  tokens : List Token
  handles : List (String × List UInt8) := []
  anchors : List (String × Nat) := []

abbrev Grammar := StateT TokenStream Option

/-- What may stand where a node is expected: any node, any node or a sequence that is not indented
against its key (`entry`), or no blocks, since it is inside brackets (`flow`). -/
inductive Place where
  | block
  | entry
  | flow
  deriving DecidableEq, Repr

namespace Grammar

def peek : Grammar (Option Token) := return (← get).tokens.head?

def drop : Grammar Unit := modify fun r => { r with tokens := r.tokens.drop 1 }

def accept (t : Token) : Grammar Bool := do
  if (← peek) == some t then drop; return true
  else return false

def expect (t : Token) : Grammar Unit := do
  if !(← accept t) then failure

def sees (ts : List Token) : Grammar Bool := return (← peek).any ts.contains

def declare (name : String) : Grammar Nat := do
  let r ← get
  let number := r.anchors.length
  set { r with anchors := (name, number) :: r.anchors.filter (·.1 != name) }
  return number

def resolve (handle : String) (suffix : List UInt8) : Grammar (List UInt8) := do
  if handle.isEmpty then return suffix
  match (← get).handles.lookup handle with
  | some lead => return lead ++ suffix
  | none => failure

def anchor? : Grammar (Option Nat) := do
  match ← peek with
  | some (.anchor name) => drop; return some (← declare name)
  | _ => return none

def tag? : Grammar (Option (List UInt8)) := do
  match ← peek with
  | some (.tag handle suffix) => drop; return some (← resolve handle suffix)
  | _ => return none

def properties : Grammar (Option Nat × Option (List UInt8)) := do
  match ← anchor? with
  | some a => return (some a, ← tag?)
  | none =>
    let tag ← tag?
    return (← anchor?, tag)

mutual

/-- A node. The number bounds the rounds that are left; every two rounds take a token. Where no node
is, an anchor or a tag still makes an empty scalar. -/
def node : Nat → Place → Grammar Node
  | 0, _ => failure
  | rounds + 1, place => do
    if let some (.alias name) ← peek then
      drop
      match (← get).anchors.lookup name with
      | some number => return .alias number
      | none => failure
    let (anchor, octets) ← properties
    let tag := octets.map Tag.ofOctets
    match ← peek with
    | some (.scalar text style) =>
      drop
      return .scalar anchor (if tag == some (.local "") then none else tag) style text
    | some .flowSeqStart => drop; return .seq anchor tag (← flowItems rounds true)
    | some .flowMapStart => drop; return .map anchor tag (← flowEntries rounds true)
    | some .blockSeqStart =>
      if place == .flow then missing anchor tag
      else drop; return .seq anchor tag (← blockItems rounds)
    | some .blockMapStart =>
      if place == .flow then missing anchor tag
      else drop; return .map anchor tag (← blockEntries rounds)
    | some .blockEntry =>
      if place == .entry then return .seq anchor tag (← entryItems rounds)
      else missing anchor tag
    | _ => missing anchor tag
where
  missing (anchor : Option Nat) (tag : Option Tag) : Grammar Node :=
    if anchor.isSome || tag.isSome then return .scalar anchor tag .plain "" else failure

def nodeUnless (rounds : Nat) (place : Place) (ts : List Token) : Grammar Node :=
  match rounds with
  | 0 => failure
  | rounds + 1 => do
    if ← sees ts then return .empty else node rounds place

def blockItems : Nat → Grammar (List Node)
  | 0 => failure
  | rounds + 1 => do
    if ← accept .blockEnd then return []
    expect .blockEntry
    let item ← nodeUnless rounds .block [.blockEntry, .blockEnd]
    return item :: (← blockItems rounds)

def entryItems : Nat → Grammar (List Node)
  | 0 => failure
  | rounds + 1 => do
    if !(← accept .blockEntry) then return []
    let item ← nodeUnless rounds .block [.blockEntry, .key, .value, .blockEnd]
    return item :: (← entryItems rounds)

def blockEntries : Nat → Grammar (List (Node × Node))
  | 0 => failure
  | rounds + 1 => do
    if ← accept .blockEnd then return []
    expect .key
    let key ← nodeUnless rounds .entry [.key, .value, .blockEnd]
    let value ←
      if ← accept .value then nodeUnless rounds .entry [.key, .value, .blockEnd]
      else pure .empty
    return (key, value) :: (← blockEntries rounds)

def flowItems : Nat → Bool → Grammar (List Node)
  | 0, _ => failure
  | rounds + 1, first => do
    if ← accept .flowSeqEnd then return []
    if !first then expect .flowEntry
    if ← accept .flowSeqEnd then return []
    let item ← if ← accept .key then pair rounds else node rounds .flow
    return item :: (← flowItems rounds false)

/-- A mapping of one entry, written without brackets of its own in a sequence in brackets. If its
key is empty, the token behind the question mark is passed over, whatever it is. -/
def pair : Nat → Grammar Node
  | 0 => failure
  | rounds + 1 => do
    let key ←
      if ← sees [.value, .flowEntry, .flowSeqEnd] then drop; pure .empty
      else node rounds .flow
    let value ←
      if ← accept .value then nodeUnless rounds .flow [.flowEntry, .flowSeqEnd]
      else pure .empty
    return .map none none [(key, value)]

def flowEntries : Nat → Bool → Grammar (List (Node × Node))
  | 0, _ => failure
  | rounds + 1, first => do
    if ← accept .flowMapEnd then return []
    if !first then expect .flowEntry
    if ← accept .flowMapEnd then return []
    let entry ←
      if ← accept .key then do
        let key ← nodeUnless rounds .flow [.value, .flowEntry, .flowMapEnd]
        let value ←
          if ← accept .value then nodeUnless rounds .flow [.flowEntry, .flowMapEnd]
          else pure .empty
        pure (key, value)
      else do
        pure (← node rounds .flow, .empty)
    return entry :: (← flowEntries rounds false)

end

/-- The directives in front of a document: the version at most once, and each tag handle at most
once. -/
def directives : List Token → Bool → List (String × List UInt8) →
    Option (List (String × List UInt8) × List Token)
  | .version major minor :: ts, versioned, handles =>
    if versioned || major != 1 || (minor != 1 && minor != 2) then none
    else directives ts true handles
  | .handle name lead :: ts, versioned, handles =>
    if (handles.lookup name).isSome then none else directives ts versioned ((name, lead) :: handles)
  | ts, _, handles => some (handles, ts)

def standardHandles : List (String × List UInt8) :=
  [("!", octetsOf ['!']), ("!!", octetsOf "tag:yaml.org,2002:".toList)]

def endsDocument : Option Token → Bool
  | none | some (.version ..) | some (.handle ..) | some .documentStart | some .documentEnd => true
  | _ => false

/-- The whole text: nothing at all, or one document. A second document is an error, since a
configuration is one. -/
def document (rounds : Nat) : Grammar (Option Node) := do
  if (← get).tokens.isEmpty then return none
  let (handles, tokens) ← directives (← get).tokens false []
  let explicit := tokens.head? == some .documentStart
  if !explicit && tokens.length != (← get).tokens.length then failure
  set { tokens := if explicit then tokens.drop 1 else tokens, handles := handles ++ standardHandles : TokenStream }
  let root ←
    if explicit && endsDocument (← peek) then pure .empty
    else node rounds .block
  modify fun r => { r with tokens := r.tokens.dropWhile (· == .documentEnd) }
  if (← get).tokens.isEmpty then return some root else failure

end Grammar

def Document.ofText? (text : String) : Option Document := do
  let tokens ← Token.ofText? text
  let root ← (Grammar.document (2 * tokens.length + 4)).run' { tokens }
  return .ofRoot root

end WorkBundle.Yaml
