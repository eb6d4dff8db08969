import Landscape.Color

namespace Landscape

inductive Theme where
  | light
  | dark
  deriving DecidableEq, Repr

namespace Theme

def all : List Theme := [.light, .dark]

def name : Theme → String
  | .light => "light"
  | .dark => "dark"

instance : ToString Theme where
  toString := name

/-- The colour of the empty canvas; it is transparent in the finished picture. -/
def background : Theme → Color
  | .light => Color.white
  | .dark => Color.black

def foreground : Theme → Color
  | .light => Color.black
  | .dark => Color.white

/-- The colours of the surface, from low to high. -/
def gradient : Theme → Gradient
  | .light => Gradient.viridis
  | .dark => Gradient.plasma

def fileName (t : Theme) : String :=
  "z2." ++ t.name ++ ".png"

def ofName? : String → Option Theme
  | "light" => some .light
  | "dark" => some .dark
  | _ => none

end Theme
end Landscape
