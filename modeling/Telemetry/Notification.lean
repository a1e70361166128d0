import Telemetry.Path
import Telemetry.Value

/-! Notifications: the changes that a target reports at one time, and the document in which they
are shown. -/

namespace Telemetry

structure Update where
  path : Option Path := none
  value : Option TypedValue := none
  duplicates : UInt32 := 0
  deriving Inhabited

/-- The changes of one time. The paths of the updates and deletes are relative to `base`. -/
structure Notification where
  timestamp : Int64 := 0
  base : Option Path := none
  updates : List Update := []
  deletes : List Path := []
  atomic : Bool := false
  deriving Inhabited

open Json (Document)

/-- The value of an update; one that is absent is shown like one that is not set. -/
def Update.reported (u : Update) : TypedValue := u.value.getD .unset

/-- An update as an entry of a document: its path, and its value under that path. -/
def Update.render (u : Update) : Except DecodeError Document :=
  match u.reported.decode with
  | .error e => .error e
  | .ok value =>
    value.toJson.map fun doc =>
      .object [("Path", .string (xpath u.path)), ("values", .object [(xpath u.path, doc)])]

/-- The entries of the updates in order, or the error of the first one that has none. -/
def renderUpdates : List Update → Except DecodeError (List Document)
  | [] => .ok []
  | u :: us =>
    match u.render with
    | .error e => .error e
    | .ok entry => (renderUpdates us).map (entry :: ·)

/-- The document of a notification from `source`. An empty common path, and empty lists of updates
and deletes, are left out. -/
def Notification.render (source : String) (n : Notification) : Except DecodeError Document :=
  (renderUpdates n.updates).map fun entries =>
    let base := xpath n.base
    .object <|
      [("source", .string source), ("timestamp", .integer n.timestamp.toInt)]
        ++ (if base = "" then [] else [("prefix", .string base)])
        ++ (if entries = [] then [] else [("updates", .array entries)])
        ++ (if n.deletes = [] then []
            else [("deletes", .array (n.deletes.map fun p => .string p.xpath))])

end Telemetry
