import ClassLinker.Text.Number
import ClassLinker.Toml.Basic

/-!
The dates and times of TOML documents: a date, a time, or both, and behind both possibly the
distance from universal time. Seconds may be left out.
-/

namespace ClassLinker.Toml

/-- Takes a number of exactly `n` digits. -/
def takeNumber? (n : Nat) (t : Text) : Option (Nat × Text) :=
  let ds := t.take n
  if ds.length = n then do
    return ((← ds.mapM Text.digit?).foldl (fun value d => value * 10 + d) 0, t.drop n)
  else none

/-- Takes a byte. -/
def takeByte? (c : Char) : Text → Option Text
  | [] => none
  | b :: t => if b = Text.byte c then some t else none

/-- The number of days in a month. -/
def daysIn (year month : Nat) : Nat :=
  if month = 2 then
    if year % 4 = 0 && (year % 100 ≠ 0 || year % 400 = 0) then 29 else 28
  else if month = 4 || month = 6 || month = 9 || month = 11 then 30
  else 31

/-- Takes a date. -/
def takeDate? (t : Text) : Option Text := do
  let (year, t) ← takeNumber? 4 t
  let (month, t) ← takeNumber? 2 (← takeByte? '-' t)
  let (day, t) ← takeNumber? 2 (← takeByte? '-' t)
  if 1 ≤ month && month ≤ 12 && 1 ≤ day && day ≤ daysIn year month then return t else none

/-- Takes the fraction of a second, if there is one. -/
def takeFraction (t : Text) : Text :=
  match takeByte? '.' t with
  | none => t
  | some rest =>
    let behind := rest.dropWhile fun b => (Text.digit? b).isSome
    if behind.length = rest.length then t else behind

/-- Takes a time of the day. -/
def takeTime? (t : Text) : Option Text := do
  let (hour, t) ← takeNumber? 2 t
  let (minute, t) ← takeNumber? 2 (← takeByte? ':' t)
  if 24 ≤ hour || 60 ≤ minute then none
  match takeByte? ':' t with
  | none => return t
  | some t => do
    let (second, t) ← takeNumber? 2 t
    if 60 ≤ second then none
    return takeFraction t

/-- Whether a text is a distance from universal time. -/
def isZone (t : Text) : Bool :=
  t = (Text.ofString "Z") || (do
    let t ← (takeByte? '+' t).or (takeByte? '-' t)
    let (hour, t) ← takeNumber? 2 t
    let (minute, t) ← takeNumber? 2 (← takeByte? ':' t)
    return hour ≤ 24 && minute ≤ 60 && t = [] : Option Bool) = some true

/-- Whether a text is a date, a time or both. The letters may be small. -/
def isMoment (t : Text) : Bool :=
  let t := t.map Text.upperByte
  match takeDate? t with
  | some [] => true
  | some rest =>
    match (takeByte? 'T' rest).bind takeTime? with
    | some [] => true
    | some zone => isZone zone
    | none => false
  | none => takeTime? t = some []

end ClassLinker.Toml
