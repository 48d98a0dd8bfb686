import PropertyRisk.Time.Stamp
import PropertyRisk.Text.Blank
import PropertyRisk.Number.Digit

/-!
# Reading a timestamp

A date is `YYYY-MM-DD`, `YYYYMMDD`, `YYYY-Www`, `YYYYWww`, `YYYY-Www-D` or
`YYYYWwwD`. After it may stand any one character and a time, `HH`, `HH:MM`,
`HH:MM:SS`, `HHMM` or `HHMMSS`, with a fraction after seconds, of which six
digits count; after the time an offset, `+` or `-` and the same shapes. Where a
week date could end in two places, `splitPoint` decides.

Around the text there may be blanks, and a final `Z` stands for `+00:00`. A
text without an offset is in UTC.
-/

namespace PropertyRisk.Time

/-- The number written by exactly `width` digits in front, and the rest. -/
def takeNumber (width : Nat) (cs : List Char) : Option (Nat × List Char) :=
  let digits := (cs.take width).filterMap Number.asciiDigit?
  if digits.length = width then some (Number.ofDigits digits, cs.drop width) else none

/-- A number of `width` digits that is the whole text. -/
def wholeNumber (width : Nat) (cs : List Char) : Option Nat :=
  match takeNumber width cs with
  | some (n, []) => some n
  | _ => none

/-- The week and weekday after `W`; the weekday is Monday when none is given. -/
def readWeek (dashed : Bool) (year : Nat) (cs : List Char) : Option Date :=
  match takeNumber 2 cs with
  | none => none
  | some (week, []) => Date.ofWeek? year week 1
  | some (week, c :: rest) =>
    if dashed then
      if c == '-' then (wholeNumber 1 rest).bind (Date.ofWeek? year week) else none
    else (wholeNumber 1 (c :: rest)).bind (Date.ofWeek? year week)

/-- The month and day after the year. -/
def readMonthDay (dashed : Bool) (year : Nat) (cs : List Char) : Option Date :=
  match takeNumber 2 cs with
  | none => none
  | some (month, rest) =>
    if dashed then
      match rest with
      | '-' :: rest => (wholeNumber 2 rest).bind (Date.of? year month)
      | _ => none
    else (wholeNumber 2 rest).bind (Date.of? year month)

/-- A date that is the whole text. -/
def readDate (cs : List Char) : Option Date :=
  match takeNumber 4 cs with
  | none => none
  | some (year, '-' :: 'W' :: rest) => readWeek true year rest
  | some (year, '-' :: rest) => readMonthDay true year rest
  | some (year, 'W' :: rest) => readWeek false year rest
  | some (year, rest) => readMonthDay false year rest

/-- The length of the date in front of a text of at least seven characters.
After `YYYY-Www-` the date goes on with a weekday unless two digits follow, and
the digits after `YYYYWww` are a time of an even number of digits, with a
weekday before the separating character when that leaves the count even. -/
def splitPoint (cs : List Char) : Nat :=
  if cs.length = 7 then 7
  else if cs[4]? = some '-' then
    if cs[5]? = some 'W' then
      if cs[8]? = some '-' then
        if (cs[10]?.map Char.isDigit).getD false then 8 else 10
      else 8
    else 10
  else if cs[4]? = some 'W' then
    let last := 7 + ((cs.drop 7).takeWhile Char.isDigit).length
    if last < 9 then last else if last % 2 = 0 then 7 else 8
  else 8

/-- Hours, minutes, seconds and microseconds of a time or an offset, before any
check of their ranges. -/
structure Parts where
  hour : Nat
  minute : Nat
  second : Nat
  micro : Nat

/-- The digits after a decimal mark, cut to six. -/
def readFraction (cs : List Char) : Option Nat :=
  if cs.isEmpty || !cs.all Char.isDigit then none
  else
    let digits := ((cs.take 6).filterMap Number.asciiDigit?)
    some (Number.ofDigits (digits ++ List.replicate (6 - digits.length) 0))

def readSecondAndFraction (hour minute : Nat) (cs : List Char) : Option Parts :=
  match takeNumber 2 cs with
  | none => none
  | some (second, []) => some ⟨hour, minute, second, 0⟩
  | some (second, c :: rest) =>
    if c == '.' || c == ',' then (readFraction rest).map (⟨hour, minute, second, ·⟩) else none

def readMinute (colons : Bool) (hour : Nat) (cs : List Char) : Option Parts :=
  match takeNumber 2 cs with
  | none => none
  | some (minute, []) => some ⟨hour, minute, 0, 0⟩
  | some (minute, c :: rest) =>
    if colons then
      if c == ':' then readSecondAndFraction hour minute rest else none
    else readSecondAndFraction hour minute (c :: rest)

/-- A time or an offset without its sign, which is the whole text. -/
def readParts (cs : List Char) : Option Parts :=
  match takeNumber 2 cs with
  | none => none
  | some (hour, []) => some ⟨hour, 0, 0, 0⟩
  | some (hour, ':' :: rest) => readMinute true hour rest
  | some (hour, rest) => readMinute false hour rest

def isSign (c : Char) : Bool := c == '+' || c == '-'

def readOffset (negative : Bool) (cs : List Char) : Option Offset :=
  (readParts cs).bind fun p =>
    let size := microsOf p.hour p.minute p.second p.micro
    Offset.of? (if negative then -size else size)

/-- A time with an optional offset; UTC when there is none. -/
def readTime (cs : List Char) : Option (TimeOfDay × Offset) :=
  let clock := cs.takeWhile (!isSign ·)
  (readParts clock).bind fun p =>
    (TimeOfDay.of? p.hour p.minute p.second p.micro).bind fun time =>
      match cs.dropWhile (!isSign ·) with
      | [] => some (time, .utc)
      | sign :: rest => (readOffset (sign == '-') rest).map (time, ·)

/-- Read a text without blanks around it. -/
def readStamp (cs : List Char) : Option Stamp :=
  if cs.length < 7 then none
  else
    let split := splitPoint cs
    (readDate (cs.take split)).bind fun date =>
      match cs.drop split with
      | [] => some ⟨date, .midnight, .utc⟩
      | _ :: rest => (readTime rest).map fun (time, offset) => ⟨date, time, offset⟩

/-- Replace a final `Z` by `+00:00`. -/
def expandZulu (cs : List Char) : List Char :=
  if cs.getLast? = some 'Z' then cs.dropLast ++ ['+', '0', '0', ':', '0', '0'] else cs

/-- Read a timestamp. -/
def Stamp.read? (s : String) : Option Stamp :=
  readStamp (expandZulu (Text.trimBy Text.isBlank s.toList))

end PropertyRisk.Time
