import Landscape.Program

namespace Landscape.Main

def levelText : Level → String
  | .info => "INFO"
  | .debug => "DEBUG"

/-- What has a name in the working folder. A file that cannot be read is there all the same. -/
def entryOf (name : String) : IO (Option Node) := do
  try
    return some (.file (← IO.FS.readBinFile name))
  catch
    | .noFileOrDirectory .. => return none
    | .inappropriateType .. => return some (.folder [])
    | _ => return some (.file ByteArray.empty)

def workingFolder : IO Node := do
  let entries ← Theme.all.filterMapM fun theme => do
    return (← entryOf theme.fileName).map (theme.fileName, ·)
  return .folder entries

def pictures (tree after : Node) : List (String × ByteArray) :=
  Theme.all.filterMap fun theme =>
    match after.read? theme.fileName with
    | none => none
    | some file =>
      if tree.read? theme.fileName == some file then none else some (theme.fileName, file)

def report : Failure → String
  | .crash fault => fault.message
  | .problem p =>
    match p.causes with
    | [] => "Error: " ++ p.message
    | causes => "Error: " ++ p.message ++ "\n\nCaused by:" ++ "".intercalate (causes.map ("\n    " ++ ·))

end Landscape.Main

open Landscape in
def main : IO UInt32 := do
  let tree ← Main.workingFolder
  let outcome := Program.run .blank tree
  for (name, file) in Main.pictures tree outcome.tree do
    IO.FS.writeBinFile name file
  for note in outcome.notes do
    if note.level = .info then IO.eprintln (Main.levelText note.level ++ " " ++ note.text)
  match outcome.result with
  | .ok () => return 0
  | .error failure =>
    IO.eprintln (Main.report failure)
    return 1
