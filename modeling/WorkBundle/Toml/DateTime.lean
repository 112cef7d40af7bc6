import WorkBundle.Toml.Lexeme

/-!
# Dates and times in a TOML text

A date, a time of day, or both, the latter also with an offset from universal time. They are kept
as text in one spelling: a `T` between date and time, fractions of a second to nine places without
trailing zeros, and `Z` or hours and minutes for the offset.
-/

set_option autoImplicit false

namespace WorkBundle.Toml

def fixed? (places least most : Nat) (cs : List Char) : Found Nat :=
  let digits := cs.take places
  if digits.length < places then none
  else
    ((Text.natural? 10 digits).filter fun n => least ≤ n && n ≤ most).map (·, cs.drop places)

def padded (places n : Nat) : String := String.ofList ((Nat.toDigits 10 (Nat.pow 10 places + n)).drop 1)

def daysOf (year month : Nat) : Nat :=
  if month == 2 then
    if year % 4 == 0 && (year % 100 != 0 || year % 400 == 0) then 29 else 28
  else if [4, 6, 9, 11].contains month then 30
  else 31

def date? (cs : List Char) : Found String :=
  match fixed? 4 0 9999 cs with
  | some (year, '-' :: cs) =>
    match fixed? 2 1 12 cs with
    | some (month, '-' :: cs) =>
      (fixed? 2 1 (daysOf year month) cs).map fun (day, cs) =>
        (s!"{padded 4 year}-{padded 2 month}-{padded 2 day}", cs)
    | _ => none
  | _ => none

/-- The fraction of a second, if one is here. What is beyond the ninth place is cut off. -/
def fraction? : List Char → Found String
  | '.' :: cs =>
    let digits := cs.takeWhile Text.isDigit
    let kept := ((digits.take 9).reverse.dropWhile (· == '0')).reverse
    if digits.isEmpty then none
    else some (String.ofList (if kept.isEmpty then [] else '.' :: kept), cs.drop digits.length)
  | cs => some ("", cs)

def clock? (cs : List Char) : Found (Nat × Nat) :=
  match fixed? 2 0 23 cs with
  | some (hour, ':' :: cs) => (fixed? 2 0 59 cs).map fun (minute, cs) => ((hour, minute), cs)
  | _ => none

/-- A time of day. A minute may have a leap second, so its seconds go up to sixty. -/
def time? (cs : List Char) : Found String :=
  match clock? cs with
  | some ((hour, minute), ':' :: cs) =>
    match fixed? 2 0 60 cs with
    | some (second, cs) =>
      (fraction? cs).map fun (fraction, cs) =>
        (s!"{padded 2 hour}:{padded 2 minute}:{padded 2 second}{fraction}", cs)
    | none => none
  | _ => none

def offset? : List Char → Found String
  | 'Z' :: cs | 'z' :: cs => some ("Z", cs)
  | '+' :: cs => numbered "+" cs
  | '-' :: cs => numbered "-" cs
  | cs => some ("", cs)
where
  numbered (sign : String) (cs : List Char) : Found String :=
    (clock? cs).map fun ((hours, minutes), cs) =>
      let sign := if hours == 0 && minutes == 0 then "+" else sign
      (s!"{sign}{padded 2 hours}:{padded 2 minutes}", cs)

/-- A date, a time, or both. It is kept as text in one spelling (`padded`), since the options only
show it. -/
def dateTime? (cs : List Char) : Found String :=
  match date? cs with
  | none => time? cs
  | some (date, cs) =>
    match cs with
    | c :: rest =>
      if c == 'T' || c == 't' || c == ' ' then
        match time? rest with
        | some (time, rest) => (offset? rest).map fun (offset, rest) => (s!"{date}T{time}{offset}", rest)
        | none => some (date, c :: rest)
      else some (date, c :: rest)
    | [] => some (date, [])

end WorkBundle.Toml
