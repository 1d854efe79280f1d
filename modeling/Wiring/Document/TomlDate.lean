/-!
# Dates and times

The dates and times that TOML documents hold, read and written. The written form is uniform: a `T`
between date and time, and no zeros at the end of a fraction.
-/

namespace Wiring.Document.Toml

/-- Exactly `n` digits, as a number. -/
def exactly? (n : Nat) (s : List Char) : Option (Nat × List Char) :=
  let ds := s.take n
  if ds.length = n && ds.all Char.isDigit then
    some (ds.foldl (fun v d => v * 10 + (d.toNat - '0'.toNat)) 0, s.drop n)
  else none

/-- A number with leading zeros up to a width. -/
def padded (width n : Nat) : List Char :=
  let ds := (toString n).toList
  List.replicate (width - ds.length) '0' ++ ds

/-- A character that must come next. -/
def expect? (p : Char → Bool) : List Char → Option (List Char)
  | c :: rest => if p c then some rest else none
  | [] => none

/-- The number of days of a month. -/
def daysIn (year month : Nat) : Nat :=
  if month = 2 then
    if year % 4 = 0 && (year % 100 ≠ 0 || year % 400 = 0) then 29 else 28
  else if [4, 6, 9, 11].contains month then 30
  else 31

/-- Read a date and write it. -/
def date? (s : List Char) : Option (List Char × List Char) := do
  let (year, s) ← exactly? 4 s
  let s ← expect? (· == '-') s
  let (month, s) ← exactly? 2 s
  let s ← expect? (· == '-') s
  let (day, s) ← exactly? 2 s
  if 1 ≤ month && month ≤ 12 && 1 ≤ day && day ≤ daysIn year month then
    pure (padded 4 year ++ '-' :: padded 2 month ++ '-' :: padded 2 day, s)
  else none

/-- Read the fraction of a second and write it: at most nine digits, without zeros at the end. -/
def fraction? (s : List Char) : Option (List Char × List Char) :=
  match s with
  | '.' :: rest =>
    let (ds, rest) := rest.span Char.isDigit
    if ds.isEmpty then none
    else
      let kept := ((ds.take 9).reverse.dropWhile (· == '0')).reverse
      some (if kept.isEmpty then [] else '.' :: kept, rest)
  | s => some ([], s)

/-- Read a time and write it. -/
def time? (s : List Char) : Option (List Char × List Char) := do
  let (hour, s) ← exactly? 2 s
  let s ← expect? (· == ':') s
  let (minute, s) ← exactly? 2 s
  let s ← expect? (· == ':') s
  let (second, s) ← exactly? 2 s
  if hour ≤ 23 && minute ≤ 59 && second ≤ 60 then
    let (fraction, s) ← fraction? s
    pure (padded 2 hour ++ ':' :: padded 2 minute ++ ':' :: padded 2 second ++ fraction, s)
  else none

/-- Read the distance from universal time, if there is one, and write it. -/
def offset? (s : List Char) : Option (List Char × List Char) :=
  match s with
  | [] => some ([], [])
  | c :: rest =>
    if c == 'Z' || c == 'z' then some (['Z'], rest)
    else if c == '+' || c == '-' then do
      let (hours, rest) ← exactly? 2 rest
      let rest ← expect? (· == ':') rest
      let (minutes, rest) ← exactly? 2 rest
      if hours ≤ 23 && minutes ≤ 59 then
        let sign := if c == '-' && 0 < hours + minutes then '-' else '+'
        pure (sign :: padded 2 hours ++ ':' :: padded 2 minutes, rest)
      else none
    else some ([], s)

/-- Read a date, a time, or both, and write it. -/
def dateTime? (s : List Char) : Option String :=
  match date? s with
  | some (date, []) => some (String.ofList date)
  | some (date, c :: rest) =>
    if c == 'T' || c == 't' || c == ' ' then
      match time? rest with
      | some (time, rest) =>
        match offset? rest with
        | some (offset, []) => some (String.ofList (date ++ 'T' :: time ++ offset))
        | _ => none
      | none => none
    else none
  | none =>
    match time? s with
    | some (time, []) => some (String.ofList time)
    | _ => none

end Wiring.Document.Toml
