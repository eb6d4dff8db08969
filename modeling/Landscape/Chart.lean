import Landscape.Chart.Frame
import Landscape.Double.Basic
import Landscape.Failure
import Landscape.Patch

namespace Landscape

def title : String := "f(z) = |1 + z²|"

/-- A line of text set in type: its height, and its pixels around the middle of its upper edge with the
strength of their ink. -/
structure Line where
  height : UInt32
  pixels : List (Dot × Float)

def Line.marks (l : Line) (place : Dot) (color : Color) : List Mark :=
  l.pixels.map fun (p, strength) => .pixel ⟨place.x + p.x, place.y + p.y⟩ ⟨color, strength⟩

structure Typeface where
  set : String → Except DrawError Line

namespace Typeface

/-- A typeface without outlines: its text takes room and leaves no mark. -/
def blank : Typeface := ⟨fun _ => .ok ⟨22, []⟩⟩

def unavailable : Typeface := ⟨fun _ => .error .fontUnavailable⟩

end Typeface

def Patch.color (p : Patch) (theme : Theme) (relief : Relief) : Color :=
  theme.gradient.color (Double.toSingle (relief.level p.height))

def Vertex.toBox (v : Vertex) : BoxPoint :=
  #v[v.real, v.height, v.imaginary]

def Patch.mark (p : Patch) (theme : Theme) (relief : Relief) (view : View) : Mark :=
  .polygon (p.corners.map fun v => view.dot v.toBox) ⟨p.color theme relief, 1.0⟩

structure Chart where
  caption : List Mark
  frame : List Mark
  surface : List Mark

namespace Chart

def box (m : Mesh) (r : Relief) : Except Fault Box := do
  let real ← m.realExtent
  let imaginary ← m.imaginaryExtent
  return #v[real, ⟨r.low, r.high⟩, imaginary]

def of (typeface : Typeface) (width height : UInt32) (stride : Nat) (m : Mesh) (r : Relief)
    (theme : Theme) : Except Failure Chart := do
  let box ← orCrash (box m r)
  let area ← orCrash (Area.inside width height)
  let caption ← (typeface.set title).mapError fun e => Failure.problem (.notDrawn theme e)
  let below ← orCrash (area.below caption.height)
  let view ← orCrash (View.ofArea below box)
  let grid ← orCrash (Frame.gridOf box)
  let frame ← orCrash (Frame.marks view grid theme.foreground)
  let patches ← orCrash (patches m r stride)
  return ⟨caption.marks (area.captionPlace caption.height) theme.foreground, frame,
    patches.map (·.mark theme r view)⟩

def paint (c : Chart) (theme : Theme) (width height : Nat) : Canvas width height :=
  (c.caption ++ c.frame ++ c.surface).foldl Canvas.draw (Canvas.filled width height theme.background)

end Chart
end Landscape
