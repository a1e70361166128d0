import Telemetry.Net.Ip
import Telemetry.Text.Blank

/-! The hosts that are reached without a proxy: a list of domains, addresses and networks with
commas between them. -/

namespace Telemetry

/-- What one entry of the list stands for. -/
inductive Exclusion
  | network (network : IpNetwork)
  | address (address : IpAddress)
  | domain (name : List Char)
  deriving DecidableEq, Repr

namespace Exclusion

/-- An entry without the brackets of its host or the port after it. An entry with several colons
has no port. -/
def withoutPort (entry : List Char) : List Char :=
  match entry with
  | '[' :: rest => ((Text.splitFirst ']' rest).map Prod.fst).getD entry
  | _ =>
    match Text.splitLast ':' entry with
    | some (host, port) =>
      if !host.contains ':' && (Text.readPort? port).isSome then host else entry
    | none => entry

/-- What a text without blanks around it stands for. -/
def classify (text : List Char) : Exclusion :=
  match IpNetwork.parse? text, IpAddress.parse? text with
  | some n, _ => .network n
  | none, some a => .address a
  | none, none => .domain text

/-- What an entry stands for, if it is not blank. -/
def ofEntry? (entry : List Char) : Option Exclusion :=
  let text := Text.trim (withoutPort (Text.trim entry))
  if text.isEmpty then none else some (classify text)

def ofList (list : List Char) : List Exclusion :=
  (Text.fieldsAt ',' list).filterMap ofEntry?

/-- A domain stands for the host of its name and for the hosts below it; a point in front of the
domain changes nothing. The domain `*` stands for every host, but for those that end in a star
after something else than a point. -/
def domainCovers (domain host : List Char) : Bool :=
  let above := host.take (host.length - domain.length)
  let below := host.drop (host.length - domain.length)
  if Text.eqIgnoringCase domain host then true
  else if domain.head? == some '.' && Text.eqIgnoringCase domain.tail host then true
  else if Text.eqIgnoringCase below domain then
    domain.head? == some '.' || above.getLast? == some '.'
  else domain == ['*']

/-- Addresses are compared with addresses and networks, and names with domains. -/
def covers (host : List Char) (e : Exclusion) : Bool :=
  match IpAddress.parse? host, e with
  | some a, .network n => n.contains a
  | some a, .address b => a == b
  | none, .domain d => domainCovers d host
  | _, _ => false

end Exclusion

end Telemetry
