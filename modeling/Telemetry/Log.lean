/-! Log records: what the library reports while it works, as values. What they are about is shown by
quoted texts, truth values and records with the names of their fields. -/

namespace Telemetry

inductive LogLevel
  | debug
  | info
  | warning
  deriving DecidableEq, Repr

/-- A record with the texts of its fields. -/
structure LogRecord where
  level : LogLevel
  message : String
  fields : List (String × String) := []
  deriving DecidableEq, Repr

end Telemetry

namespace Telemetry.Text

/-- A character inside of quotes. `isShown` holds of the characters that are shown as they are; what
they are is a table of Unicode. -/
def quotedChar (isShown : Char → Bool) (c : Char) : List Char :=
  match c with
  | '\x00' => ['\\', '0']
  | '\t' => ['\\', 't']
  | '\r' => ['\\', 'r']
  | '\n' => ['\\', 'n']
  | '\\' => ['\\', '\\']
  | '"' => ['\\', '"']
  | c => if isShown c then [c] else ['\\', 'u', '\x7b'] ++ Nat.toDigits 16 c.toNat ++ ['\x7d']

def quoted (isShown : Char → Bool) (s : String) : String :=
  "\"" ++ String.ofList (s.toList.flatMap (quotedChar isShown)) ++ "\""

def showBool (b : Bool) : String := if b then "true" else "false"

/-- A record: its name, and its fields in order. -/
def showRecord (name : String) (fields : List (String × String)) : String :=
  name ++ " \x7b " ++ ", ".intercalate (fields.map fun (field, value) => field ++ ": " ++ value)
    ++ " \x7d"

end Telemetry.Text
