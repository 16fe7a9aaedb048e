import ImpLang.Cli.Host
import ImpLang.Cli.Path

/-!
A host in memory: a tree of files, a text to read and two to write.
-/

namespace ImpLang.Cli

/-- A node of a file tree. -/
inductive FileNode where
  | dir
  | file (bytes : ByteArray)
  /-- The device that has nothing to read and takes in whatever is written. -/
  | null

/-- The nodes of a file system, each under the names that lead to it from the root. -/
structure FileTree where
  nodes : List (List String × FileNode)

namespace FileTree

/-- An empty current directory. -/
def empty : FileTree := ⟨[(["dev"], .dir), (["dev", "null"], .null)]⟩

instance : Inhabited FileTree := ⟨empty⟩

/-- The place of the current directory. What it and those above it are called is not known: no path
has empty names in it. -/
def here : List String := ["", ""]

def node? (tree : FileTree) (place : List String) : Option FileNode :=
  if place.isPrefixOf here then some .dir else tree.nodes.lookup place

/-- The longest name that a directory can hold, in bytes. -/
def nameLimit : Nat := 255

/-- The longest path that the system takes, in bytes. -/
def pathLimit : Nat := 4095

/-- One step from a directory. The root is above itself. -/
def stepFrom (place : List String) (step : String) : List String :=
  if step = "." then place
  else if step = ".." then place.dropLast
  else place ++ [step]

/-- Follow steps from a directory. All but the last have to lead to directories; the last may lead
to a place where nothing is. -/
def follow (tree : FileTree) : List String → List String → Except FileError (List String)
  | place, [] => .ok place
  | place, step :: steps =>
    if nameLimit < step.utf8ByteSize then .error .nameTooLong
    else
      let next := stepFrom place step
      if steps = [] then .ok next
      else
        match tree.node? next with
        | none => .error .notFound
        | some .dir => follow tree next steps
        | some _ => .error .notADirectory

/-- The place that a path leads to. -/
def locate (tree : FileTree) (path : String) : Except FileError (List String) :=
  if path.toList.contains '\x00' then .error .nulInPath
  else if path = "" then .error .notFound
  else if pathLimit < path.utf8ByteSize then .error .nameTooLong
  else tree.follow (if Path.isAbsolute path then [] else here) (Path.steps path)

def put (tree : FileTree) (place : List String) (node : FileNode) : FileTree :=
  ⟨(place, node) :: tree.nodes.filter fun entry => entry.1 != place⟩

/-- Whether a path leads to a directory. -/
def isDir (tree : FileTree) (path : String) : Bool :=
  match tree.locate path with
  | .error _ => false
  | .ok place =>
    match tree.node? place with
    | some .dir => true
    | _ => false

/-- The entry that a node is of the directory at a place. -/
def entryOf? (place : List String) (node : List String × FileNode) : Option DirEntry :=
  match node.1.reverse with
  | [] => none
  | name :: up =>
    if up.reverse = place then
      match node.2 with
      | .dir => some ⟨name, true, false⟩
      | .file _ => some ⟨name, false, true⟩
      | .null => some ⟨name, false, false⟩
    else none

/-- The entries of a directory. -/
def entries (tree : FileTree) (path : String) : Except FileError (List DirEntry) := do
  let place ← tree.locate path
  match tree.node? place with
  | some .dir => return tree.nodes.filterMap (entryOf? place)
  | some _ => throw .notADirectory
  | none => throw .notFound

/-- The content of a file. -/
def read (tree : FileTree) (path : String) : Except FileError ByteArray := do
  let place ← tree.locate path
  match tree.node? place with
  | some .dir => throw .isADirectory
  | some node =>
    if Path.wantsDirectory path then throw .notADirectory
    else
      match node with
      | .file bytes => return bytes
      | _ => return ByteArray.empty
  | none => throw .notFound

/-- Make a directory in a directory that exists. -/
def makeDir (tree : FileTree) (path : String) : Except FileError FileTree := do
  let place ← tree.locate path
  match tree.node? place with
  | some _ => throw .alreadyExists
  | none => return tree.put place .dir

/-- Write a file, which is made if need be. The path must not end with a slash. -/
def write (tree : FileTree) (path text : String) : Except FileError FileTree := do
  let place ← tree.locate path
  if Path.wantsDirectory path then throw .isADirectory
  else
    match tree.node? place with
    | some .dir => throw .isADirectory
    | some .null => return tree
    | _ => return tree.put place (.file text.toUTF8)

/-- The places on the way from one place to another that lies below it. -/
def between : List String → List String → List (List String)
  | place, step :: steps => (place ++ [step]) :: between (place ++ [step]) steps
  | _, [] => []

/-- Put a node and the directories that lead to it from the current one. -/
def plant (tree : FileTree) (path : String) (node : FileNode) : FileTree :=
  let place := (Path.steps path).foldl stepFrom here
  let grow (tree : FileTree) (directory : List String) : FileTree :=
    if (tree.node? directory).isSome then tree else tree.put directory .dir
  ((between [] place.dropLast).foldl grow tree).put place node

end FileTree

/-- The state of a host in memory. -/
structure World where
  tree : FileTree
  stdin : ByteArray
  out : String
  err : String

namespace World

/-- Change the files, or leave everything as it is and tell why. -/
def update (change : FileTree → Except FileError FileTree) : StateM World (Except FileError Unit) :=
  modifyGet fun world =>
    match change world.tree with
    | .ok tree => (.ok (), { world with tree := tree })
    | .error e => (.error e, world)

instance : Host (StateM World) where
  stdin := return .ok (← get).stdin
  isDir path := return (← get).tree.isDir path
  entries path := return (← get).tree.entries path
  read path := return (← get).tree.read path
  makeDir path := update (·.makeDir path)
  write path text := update (·.write path text)
  putOut text := modify fun world => { world with out := world.out ++ text }
  putErr text := modify fun world => { world with err := world.err ++ text }

end World

end ImpLang.Cli
