import Telemetry.Duration
import Telemetry.Net.Uri

/-! What is wrong with a setting. Such faults are found before a connection is tried. -/

namespace Telemetry

/-- What is wrong with the address of a target. `other` is a reason in words. -/
inductive AddressFault
  | emptyAddress
  | missingBracket
  | textAfterBracket
  | emptyHost
  | invalidPort
  | uri (fault : UriFault)
  | other (reason : String)
  deriving DecidableEq, Repr

def AddressFault.message : AddressFault → String
  | .emptyAddress => "empty address"
  | .missingBracket => "missing closing ']'"
  | .textAfterBracket => "unexpected characters after ']'"
  | .emptyHost => "empty host"
  | .invalidPort => "port must be a number between 0 and 65535"
  | .uri fault => fault.message
  | .other reason => reason

/-- What is wrong with the name of a proxy. `other` is a reason in words. -/
inductive ProxyFault
  | uri (fault : UriFault)
  | unsupportedScheme
  | missingHost
  | credentials
  | other (reason : String)
  deriving DecidableEq, Repr

def ProxyFault.message : ProxyFault → String
  | .uri fault => fault.message
  | .unsupportedScheme => "only http:// proxies are supported"
  | .missingHost => "missing host"
  | .credentials => "proxy credentials are not supported"
  | .other reason => reason

inductive CredentialField
  | username
  | password
  deriving DecidableEq, Repr

def CredentialField.name : CredentialField → String
  | .username => "username"
  | .password => "password"

/-- A setting that cannot be used, with its text where that may be shown. -/
inductive ConfigFault
  | timeout (value : String) (fault : SpanError)
  | address (value : String) (fault : AddressFault)
  | credentials (field : CredentialField)
  | proxy (value : String) (fault : ProxyFault)
  deriving DecidableEq, Repr

/-- A fault that ends the program at once. It is not reported. -/
def ConfigFault.aborts : ConfigFault → Bool
  | .timeout _ .abort => true
  | _ => false

def ConfigFault.quoted (label value reason : String) : String :=
  "Invalid " ++ label ++ " '" ++ value ++ "': " ++ reason

def ConfigFault.message : ConfigFault → String
  | .timeout value fault => quoted "timeout" value fault.message
  | .address value fault => quoted "address" value fault.message
  | .credentials field => "Invalid " ++ field.name ++ ": failed to parse metadata value"
  | .proxy value fault => quoted "proxy" value fault.message

end Telemetry
