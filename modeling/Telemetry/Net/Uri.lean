import Telemetry.Text.Bytes
import Telemetry.Text.Decimal

/-! Absolute URIs such as `https://host:830/path?query`: the scheme, and an authority that a host
and a port are read from. The path, the query and the fragment are checked and not kept. -/

namespace Telemetry

inductive UriFault
  | tooLong
  | empty
  | schemeTooLong
  | invalidCharacter
  | invalidAuthority
  | invalidFormat
  deriving DecidableEq, Repr

def UriFault.message : UriFault → String
  | .tooLong => "uri too long"
  | .empty => "empty string"
  | .schemeTooLong => "scheme too long"
  | .invalidCharacter => "invalid uri character"
  | .invalidAuthority => "invalid authority"
  | .invalidFormat => "invalid format"

/-- The two schemes of the web, in any case, or another one as it is written. -/
inductive Scheme
  | http
  | https
  | other (name : List Char)
  deriving DecidableEq, Repr

/-- What stands between the scheme and the path: a host, possibly after user information, and
possibly before a port. -/
structure Authority where
  text : List Char
  deriving DecidableEq, Repr

structure Uri where
  scheme : Option Scheme := none
  authority : Option Authority := none
  deriving DecidableEq, Repr

namespace Authority

/-- A character that ends an authority. -/
def isEnd (c : Char) : Bool := c == '/' || c == '?' || c == '#'

/-- A character that an authority may hold. The percent sign has a rule of its own. -/
def isAllowed (c : Char) : Bool :=
  c.isAlphanum || "!$&'()*+,-.:;=@[]_~".toList.contains c

/-- How many colons a part of an authority may hold: those of an IPv6 address and its port. -/
def maxColons : Nat := 8

/-- What has been seen of an authority. The colons and the percent sign are those of the part that
has not ended in `@` or `]`. -/
structure Scan where
  colons : Nat := 0
  opened : Bool := false
  closed : Bool := false
  percent : Bool := false
  deriving DecidableEq, Repr

/-- Goes on by a character. Brackets enclose one part at most, and user information and brackets
may hold percent signs and colons. -/
def Scan.step (s : Scan) (c : Char) : Except UriFault Scan :=
  if c = ':' then
    if maxColons ≤ s.colons then .error .invalidAuthority
    else .ok { s with colons := s.colons + 1 }
  else if c = '[' then
    if s.percent || s.opened then .error .invalidAuthority else .ok { s with opened := true }
  else if c = ']' then
    if !s.opened || s.closed then .error .invalidAuthority
    else .ok { s with closed := true, colons := 0, percent := false }
  else if c = '@' then .ok { s with colons := 0, percent := false }
  else if c = '%' then .ok { s with percent := true }
  else if isAllowed c then .ok s
  else .error .invalidCharacter

def Scan.run (s : Scan) : List Char → Except UriFault Scan
  | [] => .ok s
  | c :: cs => (s.step c).bind fun s => s.run cs

/-- An authority is complete when its brackets are balanced, and when at most one colon and no
percent sign is left outside of user information and brackets. -/
def Scan.isComplete (s : Scan) : Bool :=
  s.opened == s.closed && s.colons ≤ 1 && !s.percent

/-- Reads a whole text as an authority. Something must follow `@`. -/
def parse (cs : List Char) : Except UriFault Authority := do
  let s ← ({} : Scan).run cs
  if s.isComplete && cs.getLast? != some '@' then return ⟨cs⟩ else .error .invalidAuthority

/-- What follows the user information. -/
def hostAndPort (a : Authority) : List Char :=
  (a.text.reverse.takeWhile (· != '@')).reverse

/-- The host: up to the closing bracket, which belongs to it, or else up to the first colon. -/
def host (a : Authority) : List Char :=
  match a.hostAndPort with
  | '[' :: rest => '[' :: rest.takeWhile (· != ']') ++ [']']
  | cs => cs.takeWhile (· != ':')

/-- The port: what follows the last colon, if that is a number of sixteen bits. -/
def port? (a : Authority) : Option Nat :=
  if a.text.contains ':' then Text.readPort? (a.text.reverse.takeWhile (· != ':')).reverse
  else none

end Authority

namespace Uri

/-- The longest URI, in bytes. -/
def maxLength : Nat := 65534

def maxSchemeLength : Nat := 64

def isSchemeChar (c : Char) : Bool := c.isAlphanum || "+-.~".toList.contains c

/-- Splits off a scheme and the `://` after it. A text without a scheme is left as it is. -/
def splitScheme (cs : List Char) : Except UriFault (Option Scheme × List Char) :=
  let lower := cs.map Char.toLower
  if "http://".toList.isPrefixOf lower then .ok (some .http, cs.drop 7)
  else if "https://".toList.isPrefixOf lower then .ok (some .https, cs.drop 8)
  else
    let name := cs.takeWhile isSchemeChar
    match cs.dropWhile isSchemeChar with
    | ':' :: '/' :: '/' :: rest =>
      if name.isEmpty && rest.isEmpty then .ok (none, cs)
      else if maxSchemeLength < name.length then .error .schemeTooLong
      else .ok (some (.other name), rest)
    | _ => .ok (none, cs)

/-- A character that a path may hold. The deletion character, 0x7F, is one of them. -/
def isPathChar (c : Char) : Bool :=
  let n := c.toNat
  n == 0x21 || n == 0x22 || (0x24 ≤ n && n ≤ 0x3B) || n == 0x3D || (0x40 ≤ n && n ≤ 0x5F) ||
    0x61 ≤ n

def isQueryChar (c : Char) : Bool :=
  let n := c.toNat
  n == 0x21 || (0x24 ≤ n && n ≤ 0x3B) || n == 0x3D || 0x3F ≤ n

/-- What follows the authority: a path up to `?`, a query up to `#`, and anything after it. -/
def isValidTail (cs : List Char) : Bool :=
  let beforeFragment := cs.takeWhile (· != '#')
  let path := beforeFragment.takeWhile (· != '?')
  path.all isPathChar && (beforeFragment.drop (path.length + 1)).all isQueryChar

def checkTail (u : Uri) (cs : List Char) : Except UriFault Uri :=
  if isValidTail cs then .ok u else .error .invalidCharacter

/-- Reads a text that does not start with its path. Without a scheme the whole of it has to be an
authority. -/
def parseFull (cs : List Char) : Except UriFault Uri := do
  let (scheme, rest) ← splitScheme cs
  if rest.isEmpty then .error .empty
  else
    let authority ← Authority.parse (rest.takeWhile (!Authority.isEnd ·))
    let tail := rest.dropWhile (!Authority.isEnd ·)
    match scheme with
    | none => if tail.isEmpty then return ⟨none, some authority⟩ else .error .invalidFormat
    | some s =>
      if authority.text.isEmpty then .error .invalidFormat
      else checkTail ⟨some s, some authority⟩ tail

/-- A text that starts with a slash is only a path. -/
def parse (cs : List Char) : Except UriFault Uri :=
  if maxLength < Text.utf8Length cs then .error .tooLong
  else if cs.head? = some '/' then checkTail {} cs
  else parseFull cs

end Uri

end Telemetry
