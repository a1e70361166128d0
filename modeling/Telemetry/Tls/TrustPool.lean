import Telemetry.Log
import Telemetry.Text.Decimal
import Telemetry.Tls.Identity

/-! The trust pool: the certificates of a bundle that are trusted by themselves. What cannot be used
in a bundle is skipped and reported. -/

namespace Telemetry

/-- The trusted certificates, in the order of the bundle. -/
structure TrustPool where
  anchors : List Certificate := []
  deriving DecidableEq, Repr

namespace TrustPool

def showCount (n : Nat) : String := String.ofList (Text.decimal n)

def skippedBlock (path : String) (fault : Pem.Fault) : LogRecord where
  level := .debug
  message := "skipped malformed PEM block"
  fields := [("path", path), ("error", fault.message)]

def skippedCertificates (path : String) (added skipped : Nat) : LogRecord where
  level := .debug
  message := "skipped unusable CA certificates"
  fields := [("path", path), ("added", showCount added), ("skipped", showCount skipped)]

/-- The faults among the results of reading. -/
def faults (results : List (Except Pem.Fault Bytes)) : List Pem.Fault :=
  results.filterMap fun
    | .error fault => some fault
    | .ok _ => none

/-- The trusted certificates among the results of reading. -/
def anchorsOf (results : List (Except Pem.Fault Bytes)) : List Certificate :=
  results.filterMap fun
    | .error _ => none
    | .ok content => Certificate.anchor? content

/-- The pool of a bundle, and what is reported of it. -/
def ofBundle (path : String) (bundle : Bytes) : Except LoadFault TrustPool × List LogRecord :=
  let results := Pem.certificates bundle
  let anchors := anchorsOf results
  let skipped := results.length - anchors.length
  let summary := if skipped = 0 then [] else [skippedCertificates path anchors.length skipped]
  (if anchors.isEmpty then .error (.noCertificates path) else .ok ⟨anchors⟩,
    (faults results).map (skippedBlock path) ++ summary)

/-- Loads the bundle that a path names. An empty path names an empty pool. -/
def load (files : Files) (path : String) : Except LoadFault TrustPool × List LogRecord :=
  if path = "" then (.ok {}, [])
  else
    match files.read path with
    | .error fault => (.error (.file path fault), [])
    | .ok bundle => ofBundle path bundle

end TrustPool

end Telemetry
