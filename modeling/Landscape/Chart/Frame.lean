import Landscape.Canvas.Polygon
import Landscape.Chart.Ticks
import Landscape.Chart.View

namespace Landscape

inductive Mark where
  | pixel (place : Dot) (ink : Ink)
  | polygon (corners : List Dot) (ink : Ink)
  | path (places : List Dot) (ink : Ink)

def Canvas.draw {width height : Nat} (c : Canvas width height) : Mark → Canvas width height
  | .pixel place ink => c.dab place ink.color ink.strength
  | .polygon corners ink => c.polygon corners ink
  | .path places ink => c.strokes ink places

namespace Frame

def axes : List (Fin 3) := List.finRange 3

def others (i : Fin 3) : List (Fin 3) :=
  axes.filter (· != i)

structure Grid where
  light : Vector (List Float) 3
  bold : Vector (List Float) 3

/-- At most ten bold values and a hundred light ones per axis. -/
def gridOf (box : Box) : Except Fault Grid := do
  let bold ← box.mapM (Ticks.values · 10)
  let light ← box.mapM (Ticks.values · 100)
  return ⟨light, bold⟩

structure Panel where
  first : BoxPoint
  last : BoxPoint

/-- The hidden one of the two sides across axis `i`. -/
def panel (v : View) (i : Fin 3) : Panel :=
  let a := v.box.starts
  let d := v.box.stops
  let b := d.set i (a.get i)
  let c := a.set i (d.get i)
  if v.depth a < v.depth c then ⟨c, d⟩ else ⟨a, b⟩

def Panel.ring (p : Panel) (v : View) (i : Fin 3) : List Dot :=
  let j := nextAxis i
  let k := nextAxis j
  [v.dot p.first, v.dot (p.first.set j (p.last.get j)), v.dot p.last,
    v.dot (p.first.set k (p.last.get k))]

def Panel.lines (p : Panel) (v : View) (i : Fin 3) (values : Vector (List Float) 3) (ink : Ink) :
    List Mark :=
  (others i).flatMap fun k => (values.get k).map fun value =>
    .path [v.dot (p.first.set k value), v.dot (p.last.set k value)] ink

def Panel.marks (p : Panel) (v : View) (i : Fin 3) (grid : Grid) (color : Color) : List Mark :=
  let ring := p.ring v i
  [.polygon ring ⟨color, 0.04⟩, .path (ring ++ ring.take 1) ⟨color, 0.25⟩]
    ++ p.lines v i grid.light ⟨color, 0.1⟩ ++ p.lines v i grid.bold ⟨color, 0.25⟩

structure Edge where
  start : BoxPoint
  stop : BoxPoint

/-- The edges along axis `i` that lie on a drawn side. -/
def edges (v : View) (panels : Vector Panel 3) (i : Fin 3) : List Edge :=
  (others i).flatMap fun p =>
    ((others i).filter (· != p)).flatMap fun (j : Fin 3) =>
      [(panels.get p).first, (panels.get p).last].map fun corner =>
        let along (q : BoxPoint) := (q.set p ((panels.get p).first.get p)).set j (corner.get j)
        ⟨along v.box.starts, along v.box.stops⟩

/-- An edge with the sums, over its two ends, of the depths and of the places down the canvas. -/
structure Placed where
  edge : Edge
  depth : Int
  level : Int

def Edge.placed (v : View) (e : Edge) : Except Fault Placed := do
  let depth ← Word.sum (v.depth e.start) (v.depth e.stop)
  let level ← Word.sum (v.project e.start).y (v.project e.stop).y
  return ⟨e, depth, level⟩

/-- Whether an edge lies before another one: deeper last, then lower on the canvas last. -/
def Placed.nearer (a b : Placed) : Bool :=
  decide (a.depth < b.depth) || (decide (a.depth = b.depth) && decide (a.level < b.level))

def nearest (v : View) (es : List Edge) : Except Fault Edge := do
  match ← es.mapM (Edge.placed v) with
  | [] => return ⟨v.box.starts, v.box.stops⟩
  | e :: rest => return (rest.foldl (fun best e => if e.nearer best then e else best) e).edge

def tickLength (a : Area) : Int :=
  let shorter := min ((a.right - a.left) % 0x100000000) ((a.bottom - a.top) % 0x100000000)
  min 5 (Double.nearestWord (0.05 * Double.ofInt shorter)).toNat

/-- The offset of the ticks of an edge: outwards, and along the direction that leaves the edge
sooner. -/
def tickOffset (v : View) (e : Edge) : Dot :=
  let tick := tickLength v.area
  let a := v.project e.start
  let b := v.project e.stop
  let level := if a.x < v.centre.x then -tick else tick
  let upright := if a.y < v.centre.y then -tick else tick
  if (level * (b.x - a.x)).natAbs < (upright * (b.y - a.y)).natAbs then ⟨level, 0⟩ else ⟨0, upright⟩

def axisInk : Ink := ⟨Color.black, 0.8⟩

def axisMarks (v : View) (panels : Vector Panel 3) (grid : Grid) (i : Fin 3) :
    Except Fault (List Mark) := do
  let edge ← nearest v (edges v panels i)
  let offset := tickOffset v edge
  return .path [v.dot edge.start, v.dot edge.stop] axisInk ::
    (grid.bold.get i).map fun value =>
      let p := v.dot (edge.start.set i value)
      .path [p, ⟨p.x + offset.x, p.y + offset.y⟩] axisInk

def marks (v : View) (grid : Grid) (color : Color) : Except Fault (List Mark) := do
  let panels : Vector Panel 3 := .ofFn (panel v)
  let axesMarks ← axes.mapM (axisMarks v panels grid)
  return axes.flatMap (fun i => (panels.get i).marks v i grid color) ++ axesMarks.flatten

end Frame
end Landscape
