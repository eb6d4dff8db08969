import Landscape.Fault
import Landscape.Files.Tree
import Landscape.Png.Image
import Landscape.Settings
import Landscape.Theme

namespace Landscape

inductive DrawError where
  | fontUnavailable
  deriving DecidableEq, Repr

def DrawError.message : DrawError → String
  | .fontUnavailable => "backend error: Font loading error: FontUnavailable"

inductive Problem where
  | settings (error : SettingsError)
  | unknownTheme (name : String)
  | shapesDiffer (relief mesh : Nat)
  | notDrawn (theme : Theme) (error : DrawError)
  | sizeTooLarge
  | bufferMismatch (expected got : Nat)
  | fileNotCreated (path : String) (error : FileError)
  | notEncoded (path : String) (error : Png.EncodeError)
  | folderNotCreated (path : String) (error : FileError)

namespace Problem

def themeNames : String :=
  "[" ++ ", ".intercalate (Theme.all.map fun t => "\"" ++ t.name ++ "\"") ++ "]"

def message : Problem → String
  | .settings error => error.message
  | .unknownTheme name => "Invalid theme '" ++ name ++ "'. Must be one of: " ++ themeNames
  | .shapesDiffer relief mesh =>
    s!"Field shape ({relief}, {relief}) does not match grid shape ({mesh}, {mesh})"
  | .notDrawn theme error => s!"Failed to draw {theme.name} surface: {error.message}"
  | .sizeTooLarge => "image dimensions overflow when computing buffer size"
  | .bufferMismatch expected got =>
    s!"PNG writer requires tight RGBA8 buffer: expected {expected} bytes, got {got}"
  | .fileNotCreated path _ => "failed to create output PNG at " ++ path
  | .notEncoded path _ => "failed to encode PNG at " ++ path
  | .folderNotCreated path _ => "failed to create output directory " ++ path

/-- The messages of the causes behind a problem. -/
def causes : Problem → List String
  | .fileNotCreated _ error => [error.message]
  | .notEncoded _ error => [error.message]
  | .folderNotCreated _ error => [error.message]
  | _ => []

end Problem

inductive Failure where
  | problem (p : Problem)
  | crash (f : Fault)

instance : Coe Problem Failure := ⟨.problem⟩

instance : Coe Fault Failure := ⟨.crash⟩

/-- A computation that can only crash, as one that can fail. -/
def orCrash {α : Type} (x : Except Fault α) : Except Failure α :=
  x.mapError .crash

def Theme.parse (name : String) : Except Problem Theme :=
  match Theme.ofName? name with
  | some t => .ok t
  | none => .error (.unknownTheme name)

end Landscape
