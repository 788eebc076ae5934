import Mathlib.Data.List.TakeWhile
import Medea.Inventory.Text

/-!
# URLs

`Parse` of the package `net/url`, as far as scheme, host and path go. The fragment is cut off at the first
`#` and the query at the first `?`; what is left has a scheme, perhaps an authority, and a path, which is
percent-decoded. A byte beyond ASCII that is decoded stands as the character of that code. Zones of IPv6
addresses are read like the rest of the host.

`parse_address`: after a scheme and an authority, the path is read by `readPath`.
-/

set_option autoImplicit false

namespace Medea

structure Url where
  scheme : String
  host : String
  path : String
  deriving DecidableEq

namespace Url

def hexDigit (c : Char) : Option Nat :=
  if '0' ≤ c ∧ c ≤ '9' then some (c.toNat - '0'.toNat)
  else if 'a' ≤ c ∧ c ≤ 'f' then some (c.toNat - 'a'.toNat + 10)
  else if 'A' ≤ c ∧ c ≤ 'F' then some (c.toNat - 'A'.toNat + 10)
  else none

/-- `unescape`; `plain` and `coded` are the characters that may stand as they are or be encoded. -/
def unescape (plain : Char → Bool) (coded : Nat → Bool) : List Char → Except String (List Char)
  | [] => .ok []
  | '%' :: a :: b :: cs =>
    match hexDigit a, hexDigit b with
    | some m, some n =>
      if coded (16 * m + n) then (unescape plain coded cs).map (Char.ofNat (16 * m + n) :: ·)
      else .error ("invalid URL escape " ++ quote (String.ofList ['%', a, b]))
    | _, _ => .error ("invalid URL escape " ++ quote (String.ofList ['%', a, b]))
  | c :: cs =>
    if c = '%' then .error ("invalid URL escape " ++ quote (String.ofList (c :: cs)))
    else if plain c then (unescape plain coded cs).map (c :: ·)
    else .error ("invalid character " ++ quote (String.singleton c) ++ " in host name")

/-- Percent-decoding outside of hosts. -/
def decode : List Char → Except String (List Char) := unescape (fun _ => true) fun _ => true

/-- `strings.Cut` -/
def cut (c : Char) (cs : List Char) : List Char × List Char :=
  (cs.takeWhile (· != c), (cs.dropWhile (· != c)).drop 1)

def isControl (c : Char) : Bool := c.toNat < 0x20 || c.toNat == 0x7f

def isLetter (c : Char) : Bool := ('a' ≤ c && c ≤ 'z') || ('A' ≤ c && c ≤ 'Z')

def getScheme (cs : List Char) : Except String (List Char × List Char) :=
  let scheme := cs.takeWhile fun c => isLetter c || c.isDigit || "+-.".toList.contains c
  match cs.drop scheme.length with
  | ':' :: rest =>
    if scheme = [] then .error "missing protocol scheme"
    else if scheme.head?.any isLetter then .ok (scheme, rest) else .ok ([], cs)
  | _ => .ok ([], cs)

def validOptionalPort : List Char → Bool
  | [] => true
  | c :: digits => c == ':' && digits.all Char.isDigit

/-- What follows the last occurrence of a character, with it. -/
def fromLast (c : Char) (cs : List Char) : List Char :=
  if c ∈ cs then c :: (cs.reverse.takeWhile (· != c)).reverse else []

def isHostChar (c : Char) : Bool :=
  c.toNat ≥ 0x80 || isLetter c || c.isDigit || "-_.~!$&'()*+,;=:[]<>\"".toList.contains c

def parseHost (host : List Char) : Except String (List Char) :=
  let bracketed := host.head? == some '['
  let port := if bracketed then (fromLast ']' host).drop 1 else fromLast ':' host
  if bracketed && !host.contains ']' then .error "missing ']' in host"
  else if validOptionalPort port then unescape isHostChar (fun n => n ≥ 0x80 || n == 0x25) host
  else .error ("invalid port " ++ quote (String.ofList port) ++ " after host")

def isUserChar (c : Char) : Bool :=
  isLetter c || c.isDigit || "-._:~!$&'()*+,;=%@".toList.contains c

def parseAuthority (authority : List Char) : Except String (List Char) := do
  if '@' ∈ authority then
    let user := authority.take (authority.length - (fromLast '@' authority).length)
    let host ← parseHost ((fromLast '@' authority).drop 1)
    if user.all isUserChar then
      let _ ← decode (cut ':' user).1
      let _ ← decode (cut ':' user).2
      return host
    else .error "net/url: invalid userinfo"
  else parseHost authority

/-- The part before the fragment. -/
def parseMain (cs : List Char) : Except String Url := do
  if cs.any isControl then .error "net/url: invalid control character in URL"
  else if cs = ['*'] then return ⟨"", "", "*"⟩
  else
    let (scheme, rest) ← getScheme cs
    let scheme := String.ofList (scheme.map Char.toLower)
    match (cut '?' rest).1 with
    | '/' :: '/' :: rest =>
      -- without a scheme, three slashes are a path
      if scheme = "" ∧ rest.head? = some '/' then
        return ⟨scheme, "", String.ofList (← decode ('/' :: '/' :: rest))⟩
      else
        let host ← parseAuthority (rest.takeWhile (· != '/'))
        return ⟨scheme, String.ofList host, String.ofList (← decode (rest.dropWhile (· != '/')))⟩
    | '/' :: rest => return ⟨scheme, "", String.ofList (← decode ('/' :: rest))⟩
    | rest =>
      if scheme ≠ "" then return ⟨scheme, "", ""⟩
      else if ':' ∈ (cut '/' rest).1 then .error "first path segment in URL cannot contain colon"
      else return ⟨"", "", String.ofList (← decode rest)⟩

/-- `url.Parse` -/
def parse (rawURL : String) : Except String Url :=
  let (main, fragment) := cut '#' rawURL.toList
  match parseMain main with
  | .error e => .error ("parse " ++ quote (String.ofList main) ++ ": " ++ e)
  | .ok u =>
    match decode fragment with
    | .error e => .error ("parse " ++ quote rawURL ++ ": " ++ e)
    | .ok _ => .ok u

/-! ## Paths after an address -/

/-- The path that a text stands for at the end of a URL, if it can stand there. -/
def readPath (text : String) : Option String :=
  let (main, fragment) := cut '#' text.toList
  if main.any isControl || !(decode fragment).isOk then none
  else ((decode (cut '?' main).1).map String.ofList).toOption

/-- A host, perhaps with a port, that is read as it is. -/
structure Address (host : String) : Prop where
  plain : ∀ c ∈ host.toList, c ≠ '/' ∧ c ≠ '?' ∧ c ≠ '#' ∧ isControl c = false
  read : parseAuthority host.toList = .ok host.toList

theorem cut_append {c : Char} {pre : List Char} (h : c ∉ pre) (cs : List Char) :
    cut c (pre ++ cs) = (pre ++ (cut c cs).1, (cut c cs).2) := by
  have hpre : ∀ x ∈ pre, (x != c) = true := by
    intro x hx
    rw [bne_iff_ne]
    rintro rfl
    exact h hx
  rw [cut, cut, List.takeWhile_append_of_pos hpre, List.dropWhile_append_of_pos hpre]

theorem decode_append {pre : List Char} (h : '%' ∉ pre) (cs : List Char) :
    decode (pre ++ cs) = (decode cs).map (pre ++ ·) := by
  induction pre with
  | nil => cases hcs : decode cs <;> simp [hcs, Except.map]
  | cons c pre ih =>
    have hc : c ≠ '%' := fun heq => h (heq ▸ List.mem_cons_self)
    have hstep : decode (c :: (pre ++ cs)) = (decode (pre ++ cs)).map (c :: ·) := by
      unfold decode
      rw [unescape]
      · simp [hc]
      · exact fun _ _ _ heq _ => hc heq
    rw [List.cons_append, hstep, ih fun hmem => h (List.mem_cons_of_mem _ hmem)]
    cases decode cs <;> rfl

theorem readPath_append {pre : String} (hcut : '#' ∉ pre.toList) (hquery : '?' ∉ pre.toList)
    (hcode : '%' ∉ pre.toList) (hcontrol : pre.toList.any isControl = false) (text : String) :
    readPath (pre ++ text) = (readPath text).map (pre ++ ·) := by
  simp only [readPath, String.toList_append, cut_append hcut, cut_append hquery, decode_append hcode,
    List.any_append, hcontrol, Bool.false_or]
  split
  · rfl
  · cases decode (cut '?' (cut '#' text.toList).1).1 with
    | error e => rfl
    | ok p => simp [Except.map, Except.toOption, String.ofList_append]

section Address

variable {scheme host : String} (hscheme : scheme = "http" ∨ scheme = "https") (hhost : Address host)
include hscheme hhost

theorem parseMain_address (cs : List Char) :
    parseMain (scheme.toList ++ ("://".toList ++ (host.toList ++ '/' :: cs))) =
      if cs.any isControl then .error "net/url: invalid control character in URL"
      else (decode (cut '?' cs).1).map fun p => ⟨scheme, host, "/" ++ String.ofList p⟩ := by
  have hplain : host.toList.any isControl = false := by
    rw [List.any_eq_false]
    intro c hc
    simp [(hhost.plain c hc).2.2.2]
  have hcontrol : (scheme.toList ++ ("://".toList ++ (host.toList ++ '/' :: cs))).any isControl =
      cs.any isControl := by
    have hfixed : scheme.toList.any isControl = false := by rcases hscheme with rfl | rfl <;> decide
    simp only [List.any_append, List.any_cons, hfixed, hplain, Bool.false_or]
    rw [show "://".toList.any isControl = false by decide, show isControl '/' = false by decide,
      Bool.false_or, Bool.false_or]
  have hstar : scheme.toList ++ ("://".toList ++ (host.toList ++ '/' :: cs)) ≠ ['*'] := by
    rcases hscheme with rfl | rfl <;> simp
  have hget : getScheme (scheme.toList ++ ("://".toList ++ (host.toList ++ '/' :: cs))) =
      .ok (scheme.toList, '/' :: '/' :: (host.toList ++ '/' :: cs)) := by
    rcases hscheme with rfl | rfl <;> rfl
  have hlower : String.ofList (scheme.toList.map Char.toLower) = scheme := by
    rcases hscheme with rfl | rfl <;> decide
  have hquery : '?' ∉ '/' :: '/' :: (host.toList ++ ['/']) := by
    simp only [List.mem_cons, List.mem_append, List.not_mem_nil, or_false]
    rintro (h | h | h | h)
    · exact absurd h (by decide)
    · exact absurd h (by decide)
    · exact (hhost.plain _ h).2.1 rfl
    · exact absurd h (by decide)
  have hcut : (cut '?' ('/' :: '/' :: (host.toList ++ '/' :: cs))).1 =
      '/' :: '/' :: (host.toList ++ '/' :: (cut '?' cs).1) := by
    have := congrArg Prod.fst (cut_append hquery cs)
    simpa using this
  have hname : ∀ c ∈ host.toList, (c != '/') = true := fun c hc => by
    simpa using (hhost.plain c hc).1
  have hauthority : (host.toList ++ '/' :: (cut '?' cs).1).takeWhile (· != '/') = host.toList := by
    rw [List.takeWhile_append_of_pos hname]
    simp
  have hrest : (host.toList ++ '/' :: (cut '?' cs).1).dropWhile (· != '/') =
      '/' :: (cut '?' cs).1 := by
    rw [List.dropWhile_append_of_pos hname]
    simp
  have hschemed : ¬(scheme = "" ∧ (host.toList ++ '/' :: (cut '?' cs).1).head? = some '/') := by
    rcases hscheme with rfl | rfl <;> simp
  have hdecode : decode ('/' :: (cut '?' cs).1) = (decode (cut '?' cs).1).map ('/' :: ·) :=
    decode_append (show '%' ∉ ['/'] by decide) _
  rw [parseMain, hcontrol]
  by_cases hc : cs.any isControl = true
  · rw [if_pos hc, if_pos hc]
  rw [if_neg hc, if_neg hc, if_neg hstar, hget]
  simp only [bind, Except.bind, hlower, hcut, if_neg hschemed, hauthority, hrest, hhost.read, hdecode]
  cases decode (cut '?' cs).1 with
  | error e => rfl
  | ok p => simp [Except.map, pure, Except.pure, String.ofList_cons]

theorem parse_address {text : String} {u : Url} :
    parse (scheme ++ "://" ++ host ++ "/" ++ text) = .ok u ↔
      ∃ p, readPath text = some p ∧ u = ⟨scheme, host, "/" ++ p⟩ := by
  have hhash : '#' ∉ (scheme ++ "://" ++ host ++ "/").toList := by
    have hfixed : '#' ∉ scheme.toList := by rcases hscheme with rfl | rfl <;> decide
    simp only [String.toList_append, List.mem_append, not_or]
    exact ⟨⟨⟨hfixed, by decide⟩, fun h => (hhost.plain _ h).2.2.1 rfl⟩, by decide⟩
  have hsplit : (scheme ++ "://" ++ host ++ "/").toList ++ (cut '#' text.toList).1 =
      scheme.toList ++ ("://".toList ++ (host.toList ++ '/' :: (cut '#' text.toList).1)) := by
    simp
  rw [parse, String.toList_append, cut_append hhash]
  dsimp only
  rw [hsplit, parseMain_address hscheme hhost, readPath]
  dsimp only
  cases decode (cut '#' text.toList).2 with
  | error e =>
    simp only [Except.isOk, Except.toBool, Bool.not_false, Bool.or_true, if_true]
    constructor
    · intro h
      split at h <;> cases h
    · rintro ⟨p, h, -⟩
      cases h
  | ok rest =>
    by_cases hcontrol : (cut '#' text.toList).1.any isControl = true
    · simp [hcontrol]
    · simp only [Bool.not_eq_true] at hcontrol
      cases decode (cut '?' (cut '#' text.toList).1).1 with
      | error e => simp [hcontrol, Except.map, Except.toOption]
      | ok p => simp [hcontrol, Except.map, Except.toOption, Except.isOk, Except.toBool, eq_comm]

end Address

end Url

end Medea
