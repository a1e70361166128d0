import Telemetry.Text.Bytes

/-! Files that can be read by their paths, and a tree of files and directories in which they stand. -/

namespace Telemetry

/-- The ways in which a file fails to be read. `other` is a reason in words. -/
inductive FileFault
  | notFound
  | notADirectory
  | isADirectory
  | nameTooLong
  | zeroInName
  | other (reason : String)
  deriving DecidableEq, Repr

def FileFault.message : FileFault → String
  | .notFound => "No such file or directory (os error 2)"
  | .notADirectory => "Not a directory (os error 20)"
  | .isADirectory => "Is a directory (os error 21)"
  | .nameTooLong => "File name too long (os error 36)"
  | .zeroInName => "file name contained an unexpected NUL byte"
  | .other reason => reason

/-- What reading a path leads to. -/
structure Files where
  read : String → Except FileFault Bytes

namespace Files

/-- The files of a list of paths. Nothing is found at another path. -/
def ofList (results : List (String × Except FileFault Bytes)) : Files where
  read path := (results.lookup path).getD (.error .notFound)

end Files

/-! ## Trees -/

inductive FileNode
  | file (content : Bytes)
  | directory
  deriving DecidableEq, Repr

/-- The files and directories of a tree by the names on the way to them. The directories on the
way to an entry are part of the tree. -/
structure FileTree where
  entries : List (List String × FileNode) := []
  deriving DecidableEq, Repr

namespace FileTree

def names (path : String) : List String :=
  (path.toList.splitOnP (· == '/')).map String.ofList

/-- The tree of entries that are named by relative paths. -/
def ofPaths (entries : List (String × FileNode)) : FileTree :=
  ⟨entries.map fun (path, node) => (names path, node)⟩

/-- The longest path and the longest name, in bytes. -/
def maxPath : Nat := 4095
def maxName : Nat := 255

/-- What stands at a place. The root is a directory. -/
def node? (t : FileTree) (place : List String) : Option FileNode :=
  match t.entries.find? fun (p, _) => p == place with
  | some (_, node) => some node
  | none =>
    if place.isEmpty || t.entries.any fun (p, _) => place.isPrefixOf p then some .directory
    else none

/-- Follows names from a directory. An empty name and a point stay in it, and two points lead back,
where the root leads out of the tree. -/
def walk (t : FileTree) (place : List String) : List String → Except FileFault FileNode
  | [] => .ok .directory
  | name :: rest =>
    if name == "" || name == "." then t.walk place rest
    else if name == ".." then
      if place.isEmpty then .error .notFound else t.walk place.dropLast rest
    else if maxName < name.utf8ByteSize then .error .nameTooLong
    else
      let place := place ++ [name]
      match t.node? place with
      | none => .error .notFound
      | some .directory => t.walk place rest
      | some (.file content) => if rest.isEmpty then .ok (.file content) else .error .notADirectory

/-- Reads the file at a path. Nothing is found at a path that starts with a slash. -/
def read (t : FileTree) (path : String) : Except FileFault Bytes := do
  if path.toList.contains '\x00' then .error .zeroInName
  else if path == "" then .error .notFound
  else if maxPath < path.utf8ByteSize then .error .nameTooLong
  else if path.toList.head? == some '/' then .error .notFound
  else
    match ← t.walk [] (names path) with
    | .file content => return content
    | .directory => .error .isADirectory

def files (t : FileTree) : Files := ⟨t.read⟩

end FileTree

end Telemetry
