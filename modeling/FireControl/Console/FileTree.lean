import FireControl.Console.PathName

/-!
# File Trees

Files and directories in memory, with the failures of a file system. Every node of a tree has a
number. A directory knows the directory above it and what it holds; so a path leads from directory
to directory, one name at a time, and may lead up again.

Besides what is put into it a tree has the directories and devices that every system has. A file is
created in the directory in which its last name stands, which must be there. A directory is created
together with those on the way to it, but only if what is asked for is a new name: a path that ends
in a dot leads into the directory that it is about to name.

## Main definitions

* `FileNode`, `FileTree`: A node, and a tree.
* `FileTree.ofFiles`: The tree of a list of files.
* `FileTree.locate`, `FileTree.node`: The place that a path leads to, and the file there.
* `FileTree.read`, `FileTree.write`, `FileTree.createDirectories`: The operations on files.
-/

namespace FireControl

/-- What stands at a place. -/
inductive FileNode where
  | file (bytes : ByteArray)
  /-- A directory, with the one above it. -/
  | directory (above : Nat) (entries : List (String × Nat))
  /-- A directory in which nothing can be looked up or created, with the one above it. -/
  | sealed (above : Nat)
  /-- A device that takes and forgets everything. -/
  | sink
  /-- A device that takes nothing. -/
  | full
  /-- A device that cannot be opened. -/
  | detached
  /-- A device that shows the operator what is written to it. -/
  | screen
  /-- A device that shows it among the reports of failures. -/
  | reports

/-- Whether a node is a directory. -/
def FileNode.isDirectory : FileNode → Bool
  | .directory _ _ => true
  | .sealed _ => true
  | _ => false

/-- Files and directories by their numbers. -/
structure FileTree where
  nodes : Array FileNode

namespace FileTree

/-- The number of the root. -/
def root : Nat := 0

/-- The number of the working directory. -/
def workingDirectory : Nat := 2

/-- Whether a directory has a number. -/
def isDirectory (tree : FileTree) (n : Nat) : Bool :=
  tree.nodes[n]?.any FileNode.isDirectory

/-- The tree with a new node under a name in a directory, and the number of the node. -/
def attach (tree : FileTree) (here : Nat) (name : String) (node : FileNode) : FileTree × Nat :=
  let n := tree.nodes.size
  let enter : FileNode → FileNode
    | .directory above entries => .directory above ((name, n) :: entries)
    | other => other
  (⟨(tree.nodes.push node).modify here enter⟩, n)

/-- What a directory holds under a name, if anything. -/
def lookup (tree : FileTree) (here : Nat) (name : String) : Except IoFailure (Option Nat) :=
  match tree.nodes[here]? with
  | some (.directory above entries) =>
    if name = "." then .ok (some here)
    else if name = ".." then .ok (some above)
    else if PathName.maxNameSize < name.utf8ByteSize then .error .nameTooLong
    else .ok (entries.lookup name)
  | some (.sealed above) =>
    if name = "." then .ok (some here)
    else if name = ".." then .ok (some above)
    else .error .notFound
  | _ => .error .notADirectory

/-- Where a path starts. -/
def start (path : PathName) : Nat :=
  if path.isAbsolute then root else workingDirectory

/-- The place that names lead to. -/
def walk (tree : FileTree) : List String → Nat → Except IoFailure Nat
  | [], here => .ok here
  | name :: rest, here => do
    match ← tree.lookup here name with
    | some next => tree.walk rest next
    | none => .error .notFound

/-- The place that a path leads to. -/
def locate (tree : FileTree) (text : String) : Except IoFailure Nat := do
  let path ← PathName.read text
  let n ← tree.walk path.names (start path)
  if path.isClosed && !tree.isDirectory n then .error .notADirectory else return n

/-- The directory in which the last name of a path stands. -/
def enclosing (tree : FileTree) (path : PathName) : Except IoFailure Nat := do
  let n ← tree.walk path.above (start path)
  if tree.isDirectory n then return n else .error .notADirectory

/-- The file that a path leads to. -/
def node (tree : FileTree) (text : String) : Except IoFailure FileNode := do
  match tree.nodes[← tree.locate text]? with
  | none => .error .notFound
  | some (.directory _ _) => .error .isADirectory
  | some (.sealed _) => .error .isADirectory
  | some .detached => .error .noDevice
  | some node => return node

/-- The contents of a file. -/
def read (tree : FileTree) (text : String) : Except IoFailure ByteArray := do
  match ← tree.node text with
  | .file bytes => return bytes
  | _ => return .empty

/-- The tree after a node was written over. -/
def overwrite (tree : FileTree) (n : Nat) (bytes : ByteArray) : Except IoFailure FileTree :=
  match tree.nodes[n]? with
  | none => .error .notFound
  | some (.file _) => .ok ⟨tree.nodes.setIfInBounds n (.file bytes)⟩
  | some (.directory _ _) => .error .isADirectory
  | some (.sealed _) => .error .isADirectory
  | some .full => .error .storageFull
  | some .detached => .error .noDevice
  | some .sink => .ok tree
  | some .screen => .ok tree
  | some .reports => .ok tree

/-- The tree after a file was written, as a new one or over an old one. -/
def write (tree : FileTree) (text : String) (bytes : ByteArray) : Except IoFailure FileTree := do
  let path ← PathName.read text
  let here ← tree.enclosing path
  if path.isClosed || PathName.isDots path.last then .error .isADirectory
  else
    match ← tree.lookup here path.last with
    | some n => tree.overwrite n bytes
    | none => return (tree.attach here path.last (.file bytes)).1

/-- The tree after a directory was created in one that is there. -/
def createDirectory (tree : FileTree) (path : PathName) : Except IoFailure FileTree := do
  let here ← tree.enclosing path
  if PathName.isDots path.last then .error .alreadyExists
  else
    match ← tree.lookup here path.last with
    | some _ => .error .alreadyExists
    | none => return (tree.attach here path.last (.directory here [])).1

/-- The tree with all directories that names lead through, and the last of them. -/
def createAlong (tree : FileTree) : List String → Nat → Except IoFailure (FileTree × Nat)
  | [], here => .ok (tree, here)
  | name :: rest, here => do
    match ← tree.lookup here name with
    | some next =>
      if tree.isDirectory next then tree.createAlong rest next else .error .alreadyExists
    | none =>
      let (tree, next) := tree.attach here name (.directory here [])
      tree.createAlong rest next

/-- The tree after a directory was created in one that is there, or was there before. -/
def ensureDirectory (tree : FileTree) (path : PathName) : Except IoFailure FileTree :=
  match tree.createDirectory path with
  | .ok tree => .ok tree
  | .error e =>
    match tree.walk path.names (start path) with
    | .ok n => if tree.isDirectory n then .ok tree else .error e
    | .error _ => .error e

/-- The tree with a directory, and all directories on the way to it. An empty path asks for
nothing. -/
def createDirectories (tree : FileTree) (text : String) : Except IoFailure FileTree :=
  if text.isEmpty then .ok tree
  else do
    let path ← PathName.read text
    match tree.ensureDirectory path with
    | .ok tree => return tree
    | .error e =>
      if e ≠ .notFound then .error e
      else
        let names := path.names.filter fun name => name ≠ "."
        let (tree, _) ← tree.createAlong names.dropLast (start path)
        tree.ensureDirectory path

/-- The tree with a node at a path, and the directories on the way to it. -/
def put (tree : FileTree) (text : String) (node : FileNode) : Except IoFailure FileTree := do
  let path ← PathName.read text
  let (tree, here) ← tree.createAlong path.above (start path)
  return (tree.attach here path.last node).1

/-- The tree with nodes at their paths. What cannot be put there is left out. -/
def putAll (tree : FileTree) (nodes : List (String × FileNode)) : FileTree :=
  nodes.foldl (fun tree (text, node) => (tree.put text node).toOption.getD tree) tree

/-- The directories of every system. -/
def systemDirectories : List String :=
  ["/bin", "/boot", "/dev/pts", "/dev/shm", "/etc", "/home", "/lib", "/media", "/mnt", "/opt",
    "/root", "/run", "/sbin", "/srv", "/sys", "/usr/bin", "/usr/lib", "/usr/share", "/var/log",
    "/var/tmp"]

/-- The devices of every system, and what it shows of itself. -/
def systemNodes : List (String × FileNode) :=
  [("/dev/null", .sink), ("/dev/zero", .sink), ("/dev/full", .full), ("/dev/tty", .detached),
    ("/dev/stdin", .sink), ("/dev/stdout", .screen), ("/dev/stderr", .reports),
    ("/proc", .sealed root)]

/-- The tree of an empty working directory. -/
def empty : FileTree :=
  let bare : FileTree :=
    ⟨#[.directory root [("tmp", 1)], .directory root [("work", workingDirectory)],
      .directory 1 []]⟩
  let furnished := systemDirectories.foldl
    (fun tree text => (tree.createDirectories text).toOption.getD tree) bare
  furnished.putAll systemNodes

/-- The tree of files with their paths. -/
def ofFiles (files : List (String × ByteArray)) : FileTree :=
  empty.putAll (files.map fun (text, bytes) => (text, .file bytes))

/-- The text of a file. -/
def text? (tree : FileTree) (text : String) : Option String :=
  match tree.read text with
  | .error _ => none
  | .ok bytes => String.fromUTF8? bytes

end FileTree

end FireControl
