import Landscape.Files.Path

namespace Landscape

/-- A file with its bytes, or a folder with its named entries. -/
inductive Node where
  | file (bytes : ByteArray)
  | folder (entries : List (String × Node))

def longestName : Nat := 255

def tooLong (name : String) : Bool :=
  longestName < name.utf8ByteSize

/-- Entries with one of them put in place of the first of its name, or at the end. -/
def setEntry (name : String) (node : Node) : List (String × Node) → List (String × Node)
  | [] => [(name, node)]
  | (other, old) :: rest =>
    if other = name then (name, node) :: rest else (other, old) :: setEntry name node rest

def dropEntry (name : String) : List (String × Node) → List (String × Node)
  | [] => []
  | (other, old) :: rest => if other = name then rest else (other, old) :: dropEntry name rest

namespace Node

def empty : Node := .folder []

def isFolder : Node → Bool
  | .folder _ => true
  | .file _ => false

def find? : List String → Node → Option Node
  | [], node => some node
  | _ :: _, .file _ => none
  | name :: rest, .folder entries => (entries.lookup name).bind (find? rest)

def reach : List String → Node → Except FileError Node
  | [], node => .ok node
  | _ :: _, .file _ => .error .notFolder
  | name :: rest, .folder entries =>
    if tooLong name then .error .nameTooLong
    else match entries.lookup name with
      | none => .error .missing
      | some node => reach rest node

/-- Whether there can be a file at the end of a way: what lies before it are folders, and it is not a
folder itself. -/
def holdsFile : List String → Node → Except FileError Unit
  | _, .file _ => .error .notFolder
  | [], .folder _ => .error .isFolder
  | name :: rest, .folder entries =>
    if tooLong name then .error .nameTooLong
    else match entries.lookup name, rest with
      | none, [] => .ok ()
      | some (.file _), [] => .ok ()
      | some (.folder _), [] => .error .isFolder
      | none, _ :: _ => .error .missing
      | some node, _ :: _ => holdsFile rest node

def put : List String → Node → Node → Node
  | [], _, new => new
  | _ :: _, .file bytes, _ => .file bytes
  | name :: rest, .folder entries, new =>
    .folder (setEntry name (put rest ((entries.lookup name).getD empty) new) entries)

def drop : List String → Node → Node
  | _, .file bytes => .file bytes
  | [], .folder entries => .folder entries
  | [name], .folder entries => .folder (dropEntry name entries)
  | name :: rest, .folder entries =>
    match entries.lookup name with
    | none => .folder entries
    | some node => .folder (setEntry name (drop rest node) entries)

/-- Whether all of some ways lead to folders, or the first refusal. -/
def standIn : List (List String) → Node → Except FileError Unit
  | [], _ => .ok ()
  | way :: rest, tree => do
    match ← tree.reach way with
    | .folder _ => standIn rest tree
    | .file _ => .error .notFolder

def follow (path : Path) (tree : Node) : Except FileError Node := do
  tree.standIn path.turns
  tree.reach path.names

/-- Folders made along a way, as far as they are missing. What was made before a refusal stays. -/
def makeAlong : List String → Node → Except FileError Unit × Node
  | _, .file bytes => (.error .exists, .file bytes)
  | [], .folder entries => (.ok (), .folder entries)
  | name :: rest, .folder entries =>
    if tooLong name then (.error .nameTooLong, .folder entries)
    else
      let (result, node) := makeAlong rest ((entries.lookup name).getD empty)
      (result, .folder (setEntry name node entries))

def makeWays : List (List String) → Node → Except FileError Unit × Node
  | [], tree => (.ok (), tree)
  | way :: rest, tree =>
    match makeAlong way tree with
    | (.error e, tree) => (.error e, tree)
    | (.ok (), tree) => makeWays rest tree

/-- The folders of a path made of which at least one is missing. If the path ends in a dot, only the
folders before its last are made, and that has to be there then. -/
def makeMissing (path : Path) (tree : Node) : Except FileError Unit × Node :=
  if path.ending = .dot then
    match makeWays (path.turns ++ [path.names.dropLast]) tree with
    | (.error e, tree) => (.error e, tree)
    | (.ok (), tree) => (tree.standIn (path.turns ++ [path.names]), tree)
  else makeWays (path.turns ++ [path.names]) tree

def makePath (path : Path) (tree : Node) : Except FileError Unit × Node :=
  match tree.follow path with
  | .ok (.folder _) => (.ok (), tree)
  | .ok (.file _) => (.error (if path.ending = .dot then .notFolder else .exists), tree)
  | .error .missing => makeMissing path tree
  | .error e => (.error e, tree)

def makeFolders (text : String) (tree : Node) : Except FileError Unit × Node :=
  match Path.ofText text with
  | .error e => (.error e, tree)
  | .ok path => makePath path tree

/-- Whether a file can be created at a path. A path that ends in a slash or in dots names a folder, so
there can be no file. -/
def checkFile (path : Path) (tree : Node) : Except FileError Unit := do
  tree.standIn path.turns
  match path.ending with
  | .name => if path.names = [] then .error .missing else tree.holdsFile path.names
  | .slash =>
    match ← tree.reach path.names.dropLast with
    | .folder _ => .error .isFolder
    | .file _ => .error .notFolder
  | .dot | .up =>
    match ← tree.reach path.names with
    | .folder _ => .error .isFolder
    | .file _ => .error .notFolder

def wayToFile (text : String) (tree : Node) : Except FileError (List String) := do
  let path ← Path.ofText text
  tree.checkFile path
  return path.names

def write (text : String) (bytes : ByteArray) (tree : Node) : Except FileError Node := do
  return tree.put (← tree.wayToFile text) (.file bytes)

def read? (text : String) (tree : Node) : Option ByteArray :=
  match Path.ofText text with
  | .ok ⟨turns, names, .name⟩ =>
    match tree.standIn turns, tree.find? names with
    | .ok (), some (.file bytes) => some bytes
    | _, _ => none
  | _ => none

def remove? (text : String) (tree : Node) : Option Node :=
  (tree.read? text).map fun _ => tree.drop (Path.namesOf text)

def entryText (folder name : String) : String :=
  if folder = "" then name else folder ++ "/" ++ name

mutual

/-- The texts of everything in a node; a folder's text ends in a slash. -/
def texts (text : String) : Node → List String
  | .file _ => [text]
  | .folder entries => (text ++ "/") :: entriesTexts text entries

def entriesTexts (folder : String) : List (String × Node) → List String
  | [] => []
  | (name, node) :: rest => texts (entryText folder name) node ++ entriesTexts folder rest

end

def listing : Node → List String
  | .file _ => []
  | .folder entries => (entriesTexts "" entries).mergeSort fun a b => !decide (b < a)

end Node
end Landscape
