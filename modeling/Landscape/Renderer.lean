import Landscape.Chart
import Landscape.Color

namespace Landscape

inductive Level where
  | info
  | debug
  deriving DecidableEq, Repr

structure Note where
  level : Level
  text : String
  deriving DecidableEq, Repr

structure Outcome (α : Type) where
  result : Except Failure α
  tree : Node
  notes : List Note

/-- A picture written to the file at a path: the buffer has to fit the size exactly, and a picture
that cannot be encoded leaves its file empty. -/
def savePicture (path : String) (picture : Png.Image) (tree : Node)
    (codec : Png.Codec := .stored) : Except Failure Unit × Node :=
  let expected := picture.width.toNat * picture.height.toNat * 4
  if UInt64.size ≤ expected then (.error Problem.sizeTooLarge, tree)
  else if picture.rgba.size ≠ expected then
    (.error (Problem.bufferMismatch expected picture.rgba.size), tree)
  else match tree.wayToFile path with
    | .error e => (.error (Problem.fileNotCreated path e), tree)
    | .ok names =>
      match codec.encode picture with
      | .error e => (.error (Problem.notEncoded path e), tree.put names (.file ByteArray.empty))
      | .ok file => (.ok (), tree.put names (.file file))

def pictureExtensions : List String := ["png", "apng"]

/-- The picture in the file at a path, which is known for a picture by its extension. -/
def openPicture? (path : String) (tree : Node) (codec : Png.Codec := .stored) : Option Png.Image := do
  let extension ← Path.extension? (← (Path.namesOf path).getLast?)
  if pictureExtensions.contains extension.toLower then
    codec.decode? (← tree.read? path)
  else none

/-- Where and how large pictures are made, and which sample lines are drawn: every `stride`-th. -/
structure Renderer where
  folder : String
  width : UInt32
  height : UInt32
  stride : Nat

namespace Renderer

/-- A renderer for a folder, which is made if it is missing. The settings are not checked. -/
def make (folder : String) (s : Settings) (tree : Node) : Except Failure Renderer × Node :=
  match tree.makeFolders folder with
  | (.error e, tree) => (.error (Problem.folderNotCreated folder e), tree)
  | (.ok (), tree) => (.ok ⟨folder, s.pixelWidth, s.pixelHeight, s.stride⟩, tree)

def target (r : Renderer) (theme : Theme) : String :=
  Path.joinText r.folder theme.fileName

def pixels (r : Renderer) : Nat :=
  r.width.toNat * r.height.toNat

def canvasBytes (r : Renderer) : Nat :=
  r.pixels * 3

/-- Whether width and height are positive as signed words, so that the canvas can be filled. -/
def fillable (r : Renderer) : Bool :=
  0 < Word.signed r.width && 0 < Word.signed r.height

/-- A canvas has to have fewer than `2 ^ 63` bytes, its pixels are counted in a word of 32 bits, and
in a signed one where the canvas is filled. -/
def checkCanvas (r : Renderer) : Except Fault Unit :=
  if UInt64.size ≤ r.canvasBytes then .error (.overflow .product)
  else if UInt64.size / 2 ≤ r.canvasBytes then .error .bufferTooLarge
  else if UInt32.size ≤ r.pixels ∨ r.fillable ∧ UInt32.size / 2 ≤ r.pixels then
    .error (.overflow .product)
  else .ok ()

def chart (r : Renderer) (typeface : Typeface) (m : Mesh) (relief : Relief) (theme : Theme) :
    Except Failure Chart :=
  if m.size ≠ relief.size then .error (Problem.shapesDiffer relief.size m.size)
  else do
    orCrash r.checkCanvas
    Chart.of typeface r.width r.height r.stride m relief theme

def canvas (r : Renderer) (chart : Chart) (theme : Theme) : Canvas r.width.toNat r.height.toNat :=
  chart.paint theme r.width.toNat r.height.toNat

def picture (r : Renderer) (chart : Chart) (theme : Theme) : Png.Image :=
  ⟨r.width, r.height, Transparency.keyOut (r.canvas chart theme).bytes theme.background⟩

def render (r : Renderer) (typeface : Typeface) (m : Mesh) (relief : Relief) (theme : Theme)
    (tree : Node) (codec : Png.Codec := .stored) : Outcome String :=
  match r.chart typeface m relief theme with
  | .error e => ⟨.error e, tree, []⟩
  | .ok chart =>
    let path := r.target theme
    let drawing : Note :=
      ⟨.debug, s!"Drawing {chart.surface.length} surface patches ({theme.name} theme)"⟩
    match savePicture path (r.picture chart theme) tree codec with
    | (.error e, tree) => ⟨.error e, tree, [drawing]⟩
    | (.ok (), tree) => ⟨.ok path, tree, [drawing, ⟨.info, "Saved render: " ++ path⟩]⟩

def renderNamed (r : Renderer) (typeface : Typeface) (m : Mesh) (relief : Relief) (name : String)
    (tree : Node) (codec : Png.Codec := .stored) : Outcome String :=
  match Theme.parse name with
  | .error e => ⟨.error e, tree, []⟩
  | .ok theme => r.render typeface m relief theme tree codec

end Renderer
end Landscape
