import WorkBundle.Text.Decimal

/-!
# Words of a TOML text

Blanks, comments, strings, keys and numbers. Each reader takes the text from a place on, and
answers with what it read and the text behind it, or with nothing if the text does not go on that
way.
-/

set_option autoImplicit false

namespace WorkBundle.Toml

/-- What a reader found, and the text behind it. All readers here are functions of the text that is
left, so each can be tried where another has failed. -/
abbrev Found (τ : Type) := Option (τ × List Char)

def isBlank (c : Char) : Bool := c == ' ' || c == '\t'

def isVisible (c : Char) : Bool := c == '\t' || (' ' ≤ c && c != '\x7f')

def skipBlanks (cs : List Char) : List Char := cs.dropWhile isBlank

def lineEnd? : List Char → Option (List Char)
  | '\n' :: cs => some cs
  | '\r' :: '\n' :: cs => some cs
  | _ => none

def skipComment : List Char → List Char
  | '#' :: cs => cs.dropWhile isVisible
  | cs => cs

def endLine? (cs : List Char) : Option (List Char) :=
  match skipComment (skipBlanks cs) with
  | [] => some []
  | cs => lineEnd? cs

/-- Past blanks, comments and line ends. A comment counts only with its line end. -/
def skipLines (rounds : Nat) (cs : List Char) : List Char :=
  match rounds with
  | 0 => cs
  | rounds + 1 =>
    let cs := skipBlanks cs
    match lineEnd? (skipComment cs) with
    | some rest => skipLines rounds rest
    | none => cs

def skipSpace : List Char → List Char
  | '\r' :: '\n' :: cs => skipSpace cs
  | '\n' :: cs => skipSpace cs
  | ' ' :: cs => skipSpace cs
  | '\t' :: cs => skipSpace cs
  | cs => cs

/-! ## Strings -/

def escaped? : Char → Option Char
  | 'b' => some '\x08'
  | 't' => some '\t'
  | 'n' => some '\n'
  | 'f' => some '\x0c'
  | 'r' => some '\r'
  | '"' => some '"'
  | '\\' => some '\\'
  | _ => none

def coded? (length : Nat) (cs : List Char) : Option Char :=
  let digits := cs.take length
  if digits.length < length then none
  else (Text.natural? 16 digits).bind fun n => if n.isValidChar then some (.ofNat n) else none

def escape? : List Char → Found Char
  | 'u' :: cs => (coded? 4 cs).map (·, cs.drop 4)
  | 'U' :: cs => (coded? 8 cs).map (·, cs.drop 8)
  | c :: cs => (escaped? c).map (·, cs)
  | [] => none

/-- A string in quotes on one line, after its opening quote. Only in double quotes a backslash
escapes. The text so far comes last character first. -/
def readLine (quote : Char) (rounds : Nat) (text : List Char) (cs : List Char) : Found String :=
  match rounds, cs with
  | 0, _ | _, [] => none
  | rounds + 1, c :: cs =>
    if c == quote then some (String.ofList text.reverse, cs)
    else if c == '\\' && quote == '"' then
      match escape? cs with
      | some (d, cs) => readLine quote rounds (d :: text) cs
      | none => none
    else if isVisible c then readLine quote rounds (c :: text) cs
    else none

/-- A string in threefold quotes, after its opening quotes. It may go over lines, whose ends are all
read as line feeds, and one or two quotes may stand in it, also right before the closing ones. In
double quotes a backslash escapes (`escape?`), and at the end of a line it takes the blanks and line
ends that follow away. -/
def readLines (quote : Char) (rounds : Nat) (text : List Char) (cs : List Char) : Found String :=
  match rounds, cs with
  | 0, _ | _, [] => none
  | rounds + 1, c :: cs =>
    if c == quote then
      let row := (c :: cs).takeWhile (· == quote)
      if row.length < 3 then readLines quote rounds (row ++ text) (cs.drop (row.length - 1))
      else
        let kept := row.take (min 2 (row.length - 3))
        some (String.ofList (kept ++ text).reverse, cs.drop (kept.length + 2))
    else if c == '\\' && quote == '"' then
      match lineEnd? (skipBlanks cs), escape? cs with
      | some rest, _ => readLines quote rounds text (skipSpace rest)
      | none, some (d, rest) => readLines quote rounds (d :: text) rest
      | none, none => none
    else
      match lineEnd? (c :: cs) with
      | some rest => readLines quote rounds ('\n' :: text) rest
      | none => if isVisible c then readLines quote rounds (c :: text) cs else none

/-- A string of any kind. The line end right after opening threefold quotes does not belong to it.
-/
def string? (cs : List Char) : Found String :=
  let lines (quote : Char) (cs : List Char) : Found String :=
    let cs := (lineEnd? cs).getD cs
    readLines quote (cs.length + 1) [] cs
  match cs with
  | '"' :: '"' :: '"' :: cs => lines '"' cs
  | '\'' :: '\'' :: '\'' :: cs => lines '\'' cs
  | '"' :: cs => readLine '"' (cs.length + 1) [] cs
  | '\'' :: cs => readLine '\'' (cs.length + 1) [] cs
  | _ => none

/-! ## Keys -/

def isKeyChar (c : Char) : Bool := c.isAlphanum || c == '_' || c == '-'

def simpleKey? (cs : List Char) : Found String :=
  match cs with
  | '"' :: cs => readLine '"' (cs.length + 1) [] cs
  | '\'' :: cs => readLine '\'' (cs.length + 1) [] cs
  | cs =>
    let name := cs.takeWhile isKeyChar
    if name.isEmpty then none else some (String.ofList name, cs.dropWhile isKeyChar)

def readKey (rounds : Nat) (cs : List Char) : Found (List String) :=
  match rounds, simpleKey? (skipBlanks cs) with
  | 0, _ | _, none => none
  | rounds + 1, some (part, cs) =>
    match skipBlanks cs with
    | '.' :: cs => (readKey rounds cs).map fun (parts, cs) => (part :: parts, cs)
    | cs => some ([part], cs)

/-- Keys have fewer parts than this, and values nest less deeply. It is what bounds the recursion of
`value?`. -/
def depthLimit : Nat := 80

def key? (cs : List Char) : Found (List String × String) :=
  match readKey (depthLimit - 1) cs with
  | some (parts, cs) => (parts.getLast?).map fun last => ((parts.dropLast, last), cs)
  | none => none

/-! ## Numbers -/

/-- Digits, with low lines between them. -/
def digits? (base : Nat) (cs : List Char) : Found (List Char) :=
  let isPart (c : Char) : Bool := c == '_' || (Text.digit? base c).isSome
  let word := cs.takeWhile isPart
  let wellPlaced := word.head? != some '_' && word.getLast? != some '_' &&
    !(word.zip (word.drop 1)).contains ('_', '_')
  let digits := word.filter (· != '_')
  if !digits.isEmpty && wellPlaced then some (digits, cs.dropWhile isPart) else none

/-- A whole number in base ten, which does not begin with a zero unless it is zero. -/
def whole? (cs : List Char) : Found (List Char) :=
  match cs with
  | '0' :: cs => some (['0'], cs)
  | cs => digits? 10 cs

def exponent? (cs : List Char) : Found (List Char) :=
  let (sign, cs) := Text.splitSign cs
  (digits? 10 cs).map fun (ds, cs) => (sign.toList ++ ds, cs)

def double? (cs : List Char) : Found UInt64 :=
  let (sign, cs) := Text.splitSign cs
  let negative := sign == some '-'
  let bits (numeral : List Char) : Option UInt64 :=
    match Decimal.ofChars? (sign.toList ++ numeral) with
    | none => none
    | some d => if d.doubleBits == infiniteDouble false then none else some d.doubleBits
  match cs with
  | 'i' :: 'n' :: 'f' :: cs => some (infiniteDouble negative, cs)
  | 'n' :: 'a' :: 'n' :: cs => some (undefinedDouble, cs)
  | cs =>
    match whole? cs with
    | none => none
    | some (ds, '.' :: cs) =>
      match digits? 10 cs with
      | none => none
      | some (fs, e :: cs) =>
        if e == 'e' || e == 'E' then
          match exponent? cs with
          | some (es, cs) => (bits (ds ++ '.' :: fs ++ 'e' :: es)).map (·, cs)
          | none => none
        else (bits (ds ++ '.' :: fs)).map (·, e :: cs)
      | some (fs, []) => (bits (ds ++ '.' :: fs)).map (·, [])
    | some (ds, e :: cs) =>
      if e == 'e' || e == 'E' then
        match exponent? cs with
        | some (es, cs) => (bits (ds ++ 'e' :: es)).map (·, cs)
        | none => none
      else none
    | some (_, []) => none

/-- An integer of 64 bits with a sign. Only one in base ten may be written with its sign. -/
def int? (cs : List Char) : Found Int :=
  let number : Found Int :=
    match cs with
    | '0' :: 'x' :: cs => natural 16 cs
    | '0' :: 'o' :: cs => natural 8 cs
    | '0' :: 'b' :: cs => natural 2 cs
    | cs =>
      let (sign, cs) := Text.splitSign cs
      match whole? cs with
      | none => none
      | some (ds, cs) => (Text.integer? 10 (sign.toList ++ ds)).map (·, cs)
  number.filter fun (i, _) => -Int.pow 2 63 ≤ i && i < Int.pow 2 63
where
  natural (base : Nat) (cs : List Char) : Found Int :=
    match digits? base cs with
    | none => none
    | some (ds, cs) => (Text.natural? base ds).map fun n => ((n : Int), cs)

end WorkBundle.Toml
