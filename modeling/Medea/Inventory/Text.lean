import Mathlib.Data.List.Sort

/-!
# Text the code builds and reads

The few functions of the Go standard library that the control plane uses on strings: the `%q`
verb, `strings.TrimPrefix`, `sort.Strings`, `filepath.Join`, and the `time.RFC3339` layout.

A time is a number of nanoseconds since the Unix epoch. `parseRFC3339` reads the layout that
`formatRFC3339` writes; time zones other than `Z` and fractions of a second, which no writer of
these fields produces, are refused.
-/

set_option autoImplicit false

namespace Medea

/-- One character of a quoted string. -/
def quoteChar (c : Char) : String :=
  if c = '"' then "\\\""
  else if c = '\\' then "\\\\"
  else if c = '\x07' then "\\a"
  else if c = '\x08' then "\\b"
  else if c = '\x0c' then "\\f"
  else if c = '\n' then "\\n"
  else if c = '\r' then "\\r"
  else if c = '\t' then "\\t"
  else if c = '\x0b' then "\\v"
  else if c.toNat < 0x20 ∨ c.toNat = 0x7f then
    "\\x" ++ String.singleton (Nat.digitChar (c.toNat / 16)) ++
      String.singleton (Nat.digitChar (c.toNat % 16))
  else String.singleton c

/-- The `%q` verb: quoted and escaped. Characters beyond ASCII are kept as they are. -/
def quote (s : String) : String :=
  "\"" ++ String.join (s.toList.map quoteChar) ++ "\""

/-- `strings.TrimPrefix`. -/
def trimLeading (s lead : String) : String :=
  if lead.toList.isPrefixOf s.toList then String.ofList (s.toList.drop lead.length) else s

theorem trimLeading_append (lead rest : String) : trimLeading (lead ++ rest) lead = rest := by
  have hlead : lead.toList.isPrefixOf (lead ++ rest).toList = true := by
    rw [String.toList_append, List.isPrefixOf_iff_prefix]
    exact List.prefix_append ..
  rw [trimLeading, if_pos hlead, ← String.toList_inj, String.toList_ofList, String.toList_append]
  exact List.drop_left' String.length_toList

/-- `sort.Strings`. -/
def sortStrings (xs : List String) : List String := xs.insertionSort (· ≤ ·)

/-! ## Paths -/

/-- One component of `filepath.Clean`: the components kept so far are newest first. -/
def cleanStep (rooted : Bool) (kept : List String) (part : String) : List String :=
  if part = "" ∨ part = "." then kept
  else if part = ".." then
    match kept with
    -- the root has no parent
    | [] => if rooted then [] else [".."]
    -- a path that already climbs keeps climbing
    | last :: rest => if last = ".." then ".." :: kept else rest
  else part :: kept

/-- The components of a path, split at the slashes. -/
def components : List Char → List (List Char)
  | [] => [[]]
  | c :: cs =>
    match components cs with
    | [] => [[c]]
    | part :: rest => if c = '/' then [] :: part :: rest else (c :: part) :: rest

/-- `filepath.Clean`. -/
def cleanPath (path : String) : String :=
  let rooted := path.toList.head? == some '/'
  let kept := ((components path.toList).map String.ofList).foldl (cleanStep rooted) []
  let joined := String.intercalate "/" kept.reverse
  if rooted then "/" ++ joined else if joined = "" then "." else joined

/-- `filepath.Join` of two elements. -/
def joinPath (dir name : String) : String :=
  if dir = "" then (if name = "" then "" else cleanPath name)
  else if name = "" then cleanPath dir
  else cleanPath (dir ++ "/" ++ name)

/-! ## Times -/

/-- Nanoseconds in a second. -/
def second : Nat := 1000000000

/-- Nanoseconds in a minute. -/
def minute : Nat := 60 * second

/-- Year, month and day of a day counted from the epoch. -/
def civilOfDays (days : Nat) : Nat × Nat × Nat :=
  -- eras of 400 years that begin on the first of March
  let z := days + 719468
  let era := z / 146097
  let doe := z % 146097
  let yoe := (doe - doe / 1460 + doe / 36524 - doe / 146096) / 365
  let doy := doe - (365 * yoe + yoe / 4 - yoe / 100)
  let mp := (5 * doy + 2) / 153
  let day := doy - (153 * mp + 2) / 5 + 1
  let month := if mp < 10 then mp + 3 else mp - 9
  let year := yoe + era * 400 + (if month ≤ 2 then 1 else 0)
  (year, month, day)

/-- Days from the epoch to a date, negative before it. -/
def daysOfCivil (year month day : Nat) : Int :=
  let y : Int := if month ≤ 2 then (year : Int) - 1 else year
  let era := y / 400
  let yoe := y - era * 400
  let mp : Int := if month > 2 then (month : Int) - 3 else (month : Int) + 9
  let doy := (153 * mp + 2) / 5 + (day : Int) - 1
  let doe := yoe * 365 + yoe / 4 - yoe / 100 + doy
  era * 146097 + doe - 719468

/-- A number in decimal, padded with zeros to a width. -/
def padded (width n : Nat) : String :=
  let digits := Nat.toDigits 10 n
  String.ofList (List.replicate (width - digits.length) '0' ++ digits)

/-- `Format(time.RFC3339)` of a UTC time. -/
def formatRFC3339 (now : Nat) : String :=
  let secs := now / second
  let (year, month, day) := civilOfDays (secs / 86400)
  let rest := secs % 86400
  padded 4 year ++ "-" ++ padded 2 month ++ "-" ++ padded 2 day ++ "T" ++
    padded 2 (rest / 3600) ++ ":" ++ padded 2 (rest / 60 % 60) ++ ":" ++ padded 2 (rest % 60) ++ "Z"

def digitOf (c : Char) : Option Nat :=
  if '0' ≤ c ∧ c ≤ '9' then some (c.toNat - '0'.toNat) else none

/-- The number written by a list of digits. -/
def numberOf (cs : List Char) : Option Nat :=
  cs.foldl (fun acc c => acc.bind fun n => (digitOf c).map fun d => 10 * n + d) (some 0)

def isLeap (year : Nat) : Bool := year % 4 == 0 && (year % 100 != 0 || year % 400 == 0)

def daysIn (year month : Nat) : Nat :=
  match month with
  | 2 => if isLeap year then 29 else 28
  | 4 | 6 | 9 | 11 => 30
  | _ => 31

/-- `time.Parse(time.RFC3339, s)` on the layout written by `formatRFC3339`. -/
def parseRFC3339 (s : String) : Option Int :=
  match s.toList with
  | [y1, y2, y3, y4, '-', m1, m2, '-', d1, d2, 'T', h1, h2, ':', n1, n2, ':', s1, s2, 'Z'] => do
      let year ← numberOf [y1, y2, y3, y4]
      let month ← numberOf [m1, m2]
      let day ← numberOf [d1, d2]
      let hour ← numberOf [h1, h2]
      let min ← numberOf [n1, n2]
      let sec ← numberOf [s1, s2]
      -- `Parse` checks the ranges of the fields, leap days included
      if 1 ≤ month ∧ month ≤ 12 ∧ 1 ≤ day ∧ day ≤ daysIn year month ∧ hour < 24 ∧ min < 60 ∧
          sec < 60 then
        some (((daysOfCivil year month day * 86400) + (hour * 3600 + min * 60 + sec : Nat)) * second)
      else none
  | _ => none

example : formatRFC3339 (1752331445 * second + 7) = "2025-07-12T14:44:05Z" := by decide

example : parseRFC3339 "2025-07-12T14:44:05Z" = some (1752331445 * second : Nat) := by decide

end Medea
