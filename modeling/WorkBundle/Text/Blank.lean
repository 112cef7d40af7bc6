/-!
# Blank text

White space in the sense of the Unicode property `White_Space`, and texts made of nothing else.
A job name is refused when it is blank, so the exact set matters: a no-break space is blank, a
zero-width space is not.
-/

set_option autoImplicit false

namespace WorkBundle.Text

/-- The code points with the property `White_Space`, as closed ranges in ascending order. -/
def whiteSpaceRanges : List (Nat × Nat) :=
  [(0x9, 0xD), (0x20, 0x20), (0x85, 0x85), (0xA0, 0xA0), (0x1680, 0x1680), (0x2000, 0x200A),
    (0x2028, 0x2029), (0x202F, 0x202F), (0x205F, 0x205F), (0x3000, 0x3000)]

def inRanges (ranges : List (Nat × Nat)) (code : Nat) : Bool :=
  ranges.any fun r => r.1 ≤ code && code ≤ r.2

def isWhiteSpace (c : Char) : Bool := inRanges whiteSpaceRanges c.toNat

/-- Is the text empty, or made of white space only? White space is what Unicode calls so
(`whiteSpaceRanges`), which is more than the blanks a keyboard writes. -/
def isBlank (s : String) : Bool := s.toList.all isWhiteSpace

end WorkBundle.Text
