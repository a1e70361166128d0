import Telemetry.Json.NumberReader

/-! Reading a JSON text. `parse` takes the whole text, so that a text either is the text of one
document or has a first fault with a place. -/

namespace Telemetry.Json

def isSpace (b : UInt8) : Bool := b == 32 || b == 10 || b == 9 || b == 13

def skipSpace (s : Bytes) : Bytes := s.dropWhile isSpace

/-- The rest of a word, byte by byte. -/
def word : Bytes → Reader Unit
  | [], s => .ok ((), s)
  | _ :: _, [] => stop .eofInValue []
  | w :: ws, b :: r => if b = w then word ws r else stop .expectedIdent r

namespace StringReader

def hexDigit? (b : UInt8) : Option Nat :=
  if 48 ≤ b && b ≤ 57 then some (b.toNat - 48)
  else if 97 ≤ b && b ≤ 102 then some (b.toNat - 87)
  else if 65 ≤ b && b ≤ 70 then some (b.toNat - 55)
  else none

def hexEscape : Reader Nat
  | a :: b :: c :: d :: r =>
    match hexDigit? a, hexDigit? b, hexDigit? c, hexDigit? d with
    | some a, some b, some c, some d => .ok (((a * 16 + b) * 16 + c) * 16 + d, r)
    | _, _, _, _ => stop .invalidEscape r
  | _ => stop .eofInString []

def codePoint (n : Nat) : Bytes := Text.utf8 (String.singleton (Char.ofNat n))

/-- The next byte has to be `expected`. -/
def expectByte (expected : UInt8) : Reader Unit
  | [] => stop .eofInString []
  | b :: r => if b = expected then .ok ((), r) else stop .endOfHexEscape r

/-- A code point by its number, or by two surrogates of which the second has to follow. -/
def unicodeEscape (s : Bytes) : Except Fault (Bytes × Bytes) := do
  let (n, s) ← hexEscape s
  if 0xDC00 ≤ n && n ≤ 0xDFFF then stop .loneSurrogate s
  else if n < 0xD800 || 0xDBFF < n then return (codePoint n, s)
  else
    let ((), s) ← expectByte 92 s
    let ((), s) ← expectByte 117 s
    let (m, s) ← hexEscape s
    if m < 0xDC00 || 0xDFFF < m then stop .loneSurrogate s
    else return (codePoint ((n - 0xD800) * 0x400 + (m - 0xDC00) + 0x10000), s)

def escape : Reader Bytes
  | [] => stop .eofInString []
  | b :: r =>
    match b with
    | 34 => .ok ([34], r)
    | 92 => .ok ([92], r)
    | 47 => .ok ([47], r)
    | 98 => .ok ([8], r)
    | 102 => .ok ([12], r)
    | 110 => .ok ([10], r)
    | 114 => .ok ([13], r)
    | 116 => .ok ([9], r)
    | 117 => unicodeEscape r
    | _ => stop .invalidEscape r

/-- The bytes of a string up to its closing quote, of which every piece takes at least one byte
of `fuel`. -/
def body : (fuel : Nat) → Reader Bytes
  | 0, s => stop .eofInString s
  | fuel + 1, s =>
    match s with
    | [] => stop .eofInString []
    | 34 :: r => .ok ([], r)
    | 92 :: r => do
      let (piece, r) ← escape r
      let (pieces, r) ← body fuel r
      return (piece ++ pieces, r)
    | b :: r =>
      if b < 32 then stop .controlCharacter r
      else do
        let (bytes, r) ← body fuel r
        return (b :: bytes, r)

end StringReader

/-- A string behind its opening quote. Where its bytes are no text, the place of the fault lies as
many bytes before the closing quote as the string has from its first byte of no character on. The
count is of what the escapes stand for, so escapes move the place towards the quote. -/
def string (s : Bytes) : Except Fault (String × Bytes) := do
  let (bytes, r) ← StringReader.body (s.length + 1) s
  match Text.ofUtf8? bytes with
  | some text => return (text, r)
  | none => .error ⟨.invalidCodePoint, r.length + (bytes.length - Text.validLength bytes)⟩

/-- The items of an array up to its closing bracket, of which every one takes at least one byte
of `fuel`. -/
def items (item : Reader Document) : (fuel : Nat) → (first : Bool) → Reader (List Document)
  | 0, _, s => stop .eofInList s
  | fuel + 1, first, s =>
    let more (s : Bytes) : Except Fault (List Document × Bytes) := do
      let (x, s) ← item s
      let (xs, s) ← items item fuel false s
      return (x :: xs, s)
    match skipSpace s with
    | [] => stopAtNext .eofInList []
    | b :: r =>
      if b == 93 then .ok ([], r)
      else if first then more (b :: r)
      else if b == 44 then
        match skipSpace r with
        | [] => stopAtNext .eofInValue []
        | c :: r => if c == 93 then stopAtNext .trailingComma (c :: r) else more (c :: r)
      else stopAtNext .expectedListCommaOrEnd (b :: r)

def colon (s : Bytes) : Except Fault (Unit × Bytes) :=
  match skipSpace s with
  | [] => stopAtNext .eofInObject []
  | b :: r => if b == 58 then .ok ((), r) else stopAtNext .expectedColon (b :: r)

/-- The members of an object up to its closing brace, of which every one takes at least one byte
of `fuel`. -/
def members (item : Reader Document) :
    (fuel : Nat) → (first : Bool) → Reader (List (String × Document))
  | 0, _, s => stop .eofInObject s
  | fuel + 1, first, s =>
    let more (s : Bytes) : Except Fault (List (String × Document) × Bytes) := do
      let (name, s) ← string s
      let ((), s) ← colon s
      let (x, s) ← item s
      let (xs, s) ← members item fuel false s
      return ((name, x) :: xs, s)
    match skipSpace s with
    | [] => stopAtNext .eofInObject []
    | b :: r =>
      if b == 125 then .ok ([], r)
      else if first then
        if b == 34 then more r else stopAtNext .keyMustBeString (b :: r)
      else if b == 44 then
        match skipSpace r with
        | [] => stopAtNext .eofInValue []
        | c :: r =>
          if c == 34 then more r
          else if c == 125 then stopAtNext .trailingComma (c :: r)
          else stopAtNext .keyMustBeString (c :: r)
      else stopAtNext .expectedObjectCommaOrEnd (b :: r)

/-- A document, with blanks before it, in which arrays and objects nest at most `depth` deep. -/
def value (depth : Nat) (s : Bytes) : Except Fault (Document × Bytes) :=
  match skipSpace s with
  | [] => stopAtNext .eofInValue []
  | b :: r =>
    if b == 110 then do
      let ((), r) ← word [117, 108, 108] r
      return (.null, r)
    else if b == 116 then do
      let ((), r) ← word [114, 117, 101] r
      return (.bool true, r)
    else if b == 102 then do
      let ((), r) ← word [97, 108, 115, 101] r
      return (.bool false, r)
    else if b == 45 then do
      let (n, r) ← NumberReader.number false r
      return (.number n, r)
    else if NumberReader.isDigit b then do
      let (n, r) ← NumberReader.number true (b :: r)
      return (.number n, r)
    else if b == 34 then do
      let (text, r) ← string r
      return (.string text, r)
    else if b == 91 then
      match depth with
      | 0 => stopAtNext .tooDeep (b :: r)
      | d + 1 => do
        let (xs, r) ← items (value d) (r.length + 1) true r
        return (.array xs, r)
    else if b == 123 then
      match depth with
      | 0 => stopAtNext .tooDeep (b :: r)
      | d + 1 => do
        let (ms, r) ← members (value d) (r.length + 1) true r
        return (.ofMembers ms, r)
    else stopAtNext .expectedValue (b :: r)

def maxDepth : Nat := 127

/-- The document of a text, or the first fault of the text. -/
def parse (text : Bytes) : Except SyntaxError Document :=
  let read : Except Fault Document := do
    let (doc, rest) ← value maxDepth text
    match skipSpace rest with
    | [] => return doc
    | rest => stopAtNext .trailingCharacters rest
  read.mapError (Fault.locate text)

end Telemetry.Json
