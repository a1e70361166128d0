import Telemetry.Number.Binary64
import Telemetry.Text.Bytes

/-! JSON documents as values, and what is wrong with a text that is none. A number is an integer when
it is written as one that fits 64 bits, and a binary64 number otherwise. -/

namespace Telemetry.Json

inductive Number
  | integer (n : Int)
  | real (x : Binary64)
  deriving DecidableEq, Inhabited

/-- The members of an object have different names; their order carries no meaning. -/
inductive Document
  | null
  | bool (b : Bool)
  | number (n : Number)
  | string (s : String)
  | array (items : List Document)
  | object (members : List (String × Document))
  deriving Inhabited

namespace Document

def integer (n : Int) : Document := .number (.integer n)

/-- A real number, or null where JSON has no number to write. -/
def real (x : Binary64) : Document :=
  if x.isFinite then .number (.real x) else .null

/-- The members with `v` for the name `k`, in place of what they had for it. -/
def setMember (k : String) (v : Document) : List (String × Document) → List (String × Document)
  | [] => [(k, v)]
  | m :: ms => if m.1 = k then (k, v) :: ms else m :: setMember k v ms

/-- The object with the given members, of which the last of a name counts. -/
def ofMembers (ms : List (String × Document)) : Document :=
  .object (ms.foldl (fun acc m => setMember m.1 m.2 acc) [])

end Document

/-! ## Faults of texts -/

inductive Cause
  | eofInValue
  | eofInList
  | eofInObject
  | eofInString
  | expectedValue
  | expectedIdent
  | expectedColon
  | expectedListCommaOrEnd
  | expectedObjectCommaOrEnd
  | keyMustBeString
  | trailingComma
  | trailingCharacters
  | invalidNumber
  | numberOutOfRange
  | invalidEscape
  | invalidCodePoint
  | endOfHexEscape
  | loneSurrogate
  | controlCharacter
  | tooDeep
  deriving DecidableEq, Repr

def Cause.message : Cause → String
  | .eofInValue => "EOF while parsing a value"
  | .eofInList => "EOF while parsing a list"
  | .eofInObject => "EOF while parsing an object"
  | .eofInString => "EOF while parsing a string"
  | .expectedValue => "expected value"
  | .expectedIdent => "expected ident"
  | .expectedColon => "expected `:`"
  | .expectedListCommaOrEnd => "expected `,` or `]`"
  | .expectedObjectCommaOrEnd => "expected `,` or `\x7d`"
  | .keyMustBeString => "key must be a string"
  | .trailingComma => "trailing comma"
  | .trailingCharacters => "trailing characters"
  | .invalidNumber => "invalid number"
  | .numberOutOfRange => "number out of range"
  | .invalidEscape => "invalid escape"
  | .invalidCodePoint => "invalid unicode code point"
  | .endOfHexEscape => "unexpected end of hex escape"
  | .loneSurrogate => "lone leading surrogate in hex escape"
  | .controlCharacter => "control character (\\u0000-\\u001F) found while parsing a string"
  | .tooDeep => "recursion limit exceeded"

/-- A fault in a text of which `unread` bytes lie behind the place of the fault. -/
structure Fault where
  cause : Cause
  unread : Nat

/-- A fault by line and column: lines count from one, columns are the bytes since the last
newline. -/
structure SyntaxError where
  cause : Cause
  line : Nat
  column : Nat
  deriving DecidableEq, Repr

/-- The place of a fault in the text that was read. -/
def Fault.locate (text : Bytes) (f : Fault) : SyntaxError :=
  let seen := text.take (text.length - f.unread)
  { cause := f.cause
    line := 1 + seen.count 10
    column := (seen.reverse.takeWhile (· != 10)).length }

def SyntaxError.message (e : SyntaxError) : String :=
  e.cause.message ++ " at line " ++ toString e.line ++ " column " ++ toString e.column

end Telemetry.Json
