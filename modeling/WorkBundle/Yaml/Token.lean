/-!
# Tokens of a YAML text

The marks and words that a YAML text is made of. The start and the end of a block by indentation
are tokens like the brackets of a flow collection, and a key is announced by a token of its own.
-/

set_option autoImplicit false

namespace WorkBundle.Yaml

inductive Style where
  | plain
  | singleQuoted
  | doubleQuoted
  | literal
  | folded
  deriving DecidableEq, Repr

/-- A token. Tags and what tag handles stand for are octets, since an escape can write any octet. -/
inductive Token where
  | version (major minor : Nat)
  | handle (name : String) (lead : List UInt8)
  | documentStart
  | documentEnd
  | blockSeqStart
  | blockMapStart
  | blockEnd
  | flowSeqStart
  | flowSeqEnd
  | flowMapStart
  | flowMapEnd
  | blockEntry
  | flowEntry
  | key
  | value
  | alias (name : String)
  | anchor (name : String)
  | tag (handle : String) (suffix : List UInt8)
  | scalar (text : String) (style : Style)
  deriving DecidableEq, Repr

end WorkBundle.Yaml
