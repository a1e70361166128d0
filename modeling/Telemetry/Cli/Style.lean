import Telemetry.Dial

/-! How outcomes are shown: in colours if the terminal has them. -/

namespace Telemetry.Cli

inductive Color
  | red
  | green
  | cyan
  deriving DecidableEq, Repr

def Color.code : Color → String
  | .red => "31"
  | .green => "32"
  | .cyan => "36"

/-- How the text of an outcome is written. -/
structure Style where
  colored : Bool := false
  deriving DecidableEq, Repr

namespace Style

def between (codes text : String) : String :=
  "\x1b[" ++ codes ++ "m" ++ text ++ "\x1b[0m"

def paint (s : Style) (c : Color) (text : String) : String :=
  if s.colored then between c.code text else text

def paintBold (s : Style) (c : Color) (text : String) : String :=
  if s.colored then between ("1;" ++ c.code) text else text

def connection (s : Style) (c : Connection) : String :=
  s.paintBold .green "Connected" ++ " " ++ c.address.display ++ " ("
    ++ s.paint .cyan (if c.isTls then "TLS" else "plaintext") ++ ")"

/-- A message and the causes that it does not hold. -/
def withCauses (message : String) (causes : List String) : String :=
  ": ".intercalate (message :: causes)

/-- A fault in one line. The message holds the nearest cause already. -/
def fault (s : Style) (f : DialFault) : String :=
  s.paintBold .red "Dial failed:" ++ " " ++ withCauses f.message f.causes.tail

def outcome (s : Style) : Except DialFault Connection → String
  | .ok c => s.connection c
  | .error f => s.fault f

def failure (s : Style) (label reason : String) : String :=
  s.paintBold .red label ++ "\n\n'" ++ reason ++ "'"

end Style

/-- A text as it is shown by itself: with an empty line before it. -/
def displayed (text : String) : String := "\n" ++ text ++ "\n"

end Telemetry.Cli
