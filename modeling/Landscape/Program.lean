import Landscape.Renderer

namespace Landscape.Program

def evaluated (m : Mesh) (r : Relief) : Note :=
  ⟨.info, s!"Evaluated |1 + z²| on {m.size}x{m.size} grid (range "
    ++ Decimal.fixed 4 r.low ++ ".." ++ Decimal.fixed 4 r.high ++ ")"⟩

/-- The picture in each theme, one after another, up to the first failure. -/
def renderAll (r : Renderer) (typeface : Typeface) (m : Mesh) (relief : Relief)
    (codec : Png.Codec := .stored) : List Theme → Node → Outcome Unit
  | [], tree => ⟨.ok (), tree, []⟩
  | theme :: rest, tree =>
    match r.render typeface m relief theme tree codec with
    | ⟨.error e, tree, notes⟩ => ⟨.error e, tree, notes⟩
    | ⟨.ok _, tree, notes⟩ =>
      let after := renderAll r typeface m relief codec rest tree
      { after with notes := notes ++ after.notes }

def runWith (s : Settings) (typeface : Typeface) (tree : Node) (codec : Png.Codec := .stored) :
    Outcome Unit :=
  match s.check with
  | .error e => ⟨.error (Problem.settings e), tree, []⟩
  | .ok () =>
    let m := Mesh.ofSpans s.real s.imaginary s.samples
    let relief := Relief.ofMesh m
    match Renderer.make "." s tree with
    | (.error e, tree) => ⟨.error e, tree, [evaluated m relief]⟩
    | (.ok r, tree) =>
      let after := renderAll r typeface m relief codec Theme.all tree
      { after with notes := evaluated m relief :: after.notes }

def run (typeface : Typeface) (tree : Node) (codec : Png.Codec := .stored) : Outcome Unit :=
  runWith {} typeface tree codec

end Landscape.Program
