namespace Landscape

inductive FileError where
  | zeroCharacter
  | missing
  | exists
  | notFolder
  | isFolder
  | nameTooLong
  deriving DecidableEq, Repr

def FileError.message : FileError → String
  | .zeroCharacter => "file name contained an unexpected NUL byte"
  | .missing => "No such file or directory (os error 2)"
  | .exists => "File exists (os error 17)"
  | .notFolder => "Not a directory (os error 20)"
  | .isFolder => "Is a directory (os error 21)"
  | .nameTooLong => "File name too long (os error 36)"

/-- How a path's text ends, which matters where the last entry does not exist yet. -/
inductive Ending where
  | name
  | slash
  /-- With a dot that stands for the folder before it. -/
  | dot
  /-- With two dots that stand for the folder above. -/
  | up
  deriving DecidableEq, Repr

/-- A path from the root of a tree, which is also the working folder. Two dots leave a folder for the one
above it, the root for itself, and the folders that are left have to be there. -/
structure Path where
  /-- The ways to the folders that are left. -/
  turns : List (List String)
  names : List String
  ending : Ending
  deriving DecidableEq, Repr

namespace Path

def parts (text : String) : List String :=
  (text.toList.splitOn '/').map String.ofList

/-- Whether a part stays in the folder it stands in. -/
def stays (part : String) : Bool :=
  part = "" || part = "."

def steps (text : String) : List String :=
  (parts text).filter (!stays ·)

def afterStep (way : List String) (step : String) : List String :=
  if step = ".." then way.dropLast else way ++ [step]

def namesOf (text : String) : List String :=
  (steps text).foldl afterStep []

/-- The ways that steps leave upwards, in their order. -/
def turnsFrom (way : List String) : List String → List (List String)
  | [] => []
  | step :: rest =>
    let turns := turnsFrom (afterStep way step) rest
    if step = ".." then way :: turns else turns

def turnsOf (text : String) : List (List String) :=
  turnsFrom [] (steps text)

def endingOf (text : String) : Ending :=
  if (steps text).getLast? = some ".." then .up
  else match ((parts text).filter (· ≠ "")).getLast? with
    | some "." => .dot
    | _ => if (parts text).getLast? = some "" ∧ text ≠ "" then .slash else .name

def longestText : Nat := 4095

def ofText (text : String) : Except FileError Path :=
  if text.contains (Char.ofNat 0) then .error .zeroCharacter
  else if longestText < text.utf8ByteSize then .error .nameTooLong
  else .ok ⟨turnsOf text, namesOf text, endingOf text⟩

/-- What follows the last dot of a name; a dot at the front does not count. -/
def extension? (name : String) : Option String :=
  match (name.splitOn ".").reverse with
  | last :: stem :: rest => if stem = "" ∧ rest = [] then none else some last
  | _ => none

def joinText (folder name : String) : String :=
  if folder = "" then name
  else if folder.endsWith "/" then folder ++ name
  else folder ++ "/" ++ name

end Path
end Landscape
