import Supervision.Path.Basic

/-!
# Trees of files

Directories and files by their names from the root on. A path is followed part by part: every part
but the last must be a directory, `.` stays and `..` goes up.
-/

namespace Supervision

/-- What a name stands for. -/
inductive Node
  | directory
  | file (content : List UInt8)

/-- The parts of a name, from the root on. -/
abbrev Name := List (List UInt8)

/-- A tree of files, and the directory from which relative paths start. -/
structure FileTree where
  nodes : List (Name × Node)
  current : Name

namespace FileTree

/-- What a name stands for. The root is a directory. -/
def node? (t : FileTree) : Name → Option Node
  | [] => some .directory
  | name => t.nodes.lookup name

/-- Whether a name stands for a file. -/
def isFile (t : FileTree) (name : Name) : Bool :=
  match t.node? name with
  | some (.file _) => true
  | _ => false

def put (t : FileTree) (name : Name) (node : Node) : FileTree :=
  { t with nodes := (name, node) :: t.nodes.filter (fun e => e.1 ≠ name) }

/-- Sets what a name stands for, and makes the directories above it that are missing. -/
def plant (t : FileTree) (name : Name) (node : Node) : FileTree :=
  let above := (List.range name.length).map name.take
  (above.foldl (fun t n => if (t.node? n).isSome then t else t.put n .directory) t).put name node

/-- The part that stays in a directory. -/
def here : List UInt8 := [0x2E]

def above : List UInt8 := [0x2E, 0x2E]

/-- Follows parts from a name. The last need not stand for anything. -/
def follow (t : FileTree) : Name → List (List UInt8) → Except FileFault Name
  | name, [] => .ok name
  | name, part :: rest =>
    match t.node? name with
    | none => .error .notFound
    | some (.file _) => .error .notADirectory
    | some .directory =>
      if part.isEmpty || part == here then t.follow name rest
      else if part == above then t.follow name.dropLast rest
      else t.follow (name ++ [part]) rest

/-- The name that a path leads to. -/
def locate (t : FileTree) (p : Path) : Except FileFault Name :=
  if p.bytes.isEmpty then .error .notFound
  else t.follow (if p.isAbsolute then [] else t.current) (Path.split p.bytes)

def find (t : FileTree) (p : Path) : Except FileFault Node :=
  match t.locate p with
  | .error why => .error why
  | .ok name =>
    match t.node? name with
    | some node => .ok node
    | none => .error .notFound

def read (t : FileTree) (p : Path) : Except FileFault (List UInt8) :=
  match t.find p with
  | .ok (.file content) => .ok content
  | .ok .directory => .error .isADirectory
  | .error why => .error why

/-- Why a path does not lead to a directory. -/
def obstacle (t : FileTree) (p : Path) : Option FileFault :=
  match t.find p with
  | .ok .directory => none
  | .ok (.file _) => some .notADirectory
  | .error why => some why

/-- Makes the directories below a name that are missing. -/
def makeBelow (t : FileTree) : Name → List (List UInt8) → Except FileFault FileTree
  | _, [] => .ok t
  | name, part :: rest =>
    if part.isEmpty || part == here then t.makeBelow name rest
    else if part == above then t.makeBelow name.dropLast rest
    else
      let name := name ++ [part]
      match t.node? name with
      | some .directory => t.makeBelow name rest
      | some (.file _) => .error (if rest.isEmpty then .exists else .notADirectory)
      | none => (t.put name .directory).makeBelow name rest

/-- Makes a directory and those above it that are missing. -/
def makeDirectories (t : FileTree) (p : Path) : Except FileFault FileTree :=
  t.makeBelow (if p.isAbsolute then [] else t.current) (Path.split p.bytes)

/-- Opens a file to append to it; it is made if it is missing. -/
def openToAppend (t : FileTree) (p : Path) : Except FileFault FileTree :=
  match t.locate p with
  | .error why => .error why
  | .ok name =>
    match t.node? name with
    | some .directory => .error .isADirectory
    | some (.file _) => .ok t
    | none => .ok (t.put name (.file []))

end FileTree

end Supervision
