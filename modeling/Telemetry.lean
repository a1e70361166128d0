import Telemetry.Address
import Telemetry.Aggregator
import Telemetry.Cancellation
import Telemetry.Certificate
import Telemetry.Cli.Arguments
import Telemetry.Cli.DialRun
import Telemetry.Cli.Program
import Telemetry.Cli.Style
import Telemetry.Config
import Telemetry.Config.Fault
import Telemetry.Der
import Telemetry.Dial
import Telemetry.Dial.Call
import Telemetry.Dial.Network
import Telemetry.Duration
import Telemetry.Files
import Telemetry.Json.Document
import Telemetry.Json.NumberReader
import Telemetry.Json.Reader
import Telemetry.Log
import Telemetry.Main
import Telemetry.Net.Ip
import Telemetry.Net.Uri
import Telemetry.Notification
import Telemetry.Number.Binary64
import Telemetry.Path
import Telemetry.Pem
import Telemetry.Pem.Base64
import Telemetry.PrivateKey
import Telemetry.PrivateKey.Arithmetic
import Telemetry.PrivateKey.Rsa
import Telemetry.PrivateKey.Sha512
import Telemetry.Proxy
import Telemetry.Proxy.Exclusions
import Telemetry.Proxy.Tunnel
import Telemetry.Sink
import Telemetry.Text.Blank
import Telemetry.Text.Bytes
import Telemetry.Text.Decimal
import Telemetry.Tls.Identity
import Telemetry.Tls.Material
import Telemetry.Tls.TrustPool
import Telemetry.Value
import Telemetry.Wire.Decode
import Telemetry.Wire.Encode
import Telemetry.Wire.Field
import Telemetry.Wire.Varint
import Telemetry.Proofs.Aggregator.Delivery
import Telemetry.Proofs.Aggregator.Printing
import Telemetry.Proofs.Aggregator.Refusal
import Telemetry.Proofs.Aggregator.Stopping
import Telemetry.Proofs.Net.HostSpelling
import Telemetry.Proofs.Net.UriParts
import Telemetry.Proofs.Proxy.Coverage
import Telemetry.Proofs.Proxy.RequestHead
import Telemetry.Proofs.Tls.FailClosed
import Telemetry.Proofs.Wire.RoundTrip
import Telemetry.Proofs.Address.Display
import Telemetry.Proofs.Address.UriHost
import Telemetry.Proofs.Cli.DialSteps
import Telemetry.Proofs.Cli.DialEnding
import Telemetry.Proofs.Cli.DialDelivery
import Telemetry.Proofs.Cli.Reporting
import Telemetry.Proofs.Proxy.ResponseHead
import Telemetry.Proofs.Pem.Sections
import Telemetry.Proofs.Tls.Bundle
import Telemetry.Proofs.Dial.Secrecy
import Telemetry.Proofs.Wire.Grammar
import Telemetry.Proofs.Wire.Schema
import Telemetry.Proofs.Wire.Runs
import Telemetry.Proofs.Wire.Compatibility
import Telemetry.Proofs.Path.Unambiguous
import Telemetry.Proofs.Results
import Telemetry.Proofs.Value.Conversion
import Telemetry.Proofs.Notification.Rendering
import Telemetry.Proofs.Pem.Passages
import Telemetry.Proofs.Tls.IdentityLoading
import Telemetry.Proofs.Address.Forms
import Telemetry.Proofs.Aggregator.Observation
import Telemetry.Proofs.Sink.Capacity
import Telemetry.Proofs.Aggregator.PrintEnding
import Telemetry.Proofs.Path.Listing
import Telemetry.Proofs.Wire.Reordering
import Telemetry.Proofs.Wire.EntryOrder
import Telemetry.Proofs.Number.Rounding
import Telemetry.Proofs.Number.Magnitude
import Telemetry.Proofs.Value.Decimals
import Telemetry.Proofs.Proxy.Wildcard
import Telemetry.Proofs.Net.AuthorityParts
import Telemetry.Proofs.Proxy.Naming
import Telemetry.Proofs.Duration.Sums
import Telemetry.Proofs.Duration.SpanTexts
import Telemetry.Proofs.Duration.Timeouts
import Telemetry.Proofs.Dial.Opening
import Telemetry.Proofs.Dial.Receiving
import Telemetry.Proofs.Dial.Deadline
