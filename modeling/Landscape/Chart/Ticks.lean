import Landscape.Double.Basic
import Landscape.Fault
import Landscape.Settings

namespace Landscape.Ticks

def epsilon : Float := 2.220446049250313e-16

/-- How far `x` lies beyond a multiple of `step`; almost a whole step counts as nothing. -/
def remainder (x step : Float) : Float :=
  let r := x - Double.floor (x / step) * step
  if (r - step).abs < epsilon then 0.0 else r

def firstFrom (x step : Float) : Float :=
  let left := x - remainder x step
  if left < x then left + step else left

def lastTo (x step : Float) : Float :=
  x - remainder x step

def fits (lo hi : Float) (limit : Nat) (scale divisor : Float) : Bool :=
  let step := scale / divisor
  let values := 1.0 + (lastTo hi step - firstFrom lo step) / scale * divisor
  (Double.nearestWord values).toNat ≤ limit

/-- A step of the axis, and the grain to whose multiples the values are counted. -/
structure Step where
  scale : Float
  grain : Float

/-- The step refined by 2, 5 and 10 in turn, and again, as long as the values fit; at most `rounds`
times. -/
def refine (lo hi : Float) (limit : Nat) (s : Step) : Nat → Step
  | 0 => s
  | rounds + 1 =>
    let fits := fits lo hi limit s.scale
    if !fits 2.0 then s
    else if !fits 5.0 then { s with scale := s.scale / 2.0 }
    else if !fits 10.0 then { s with scale := s.scale / 5.0 }
    else refine lo hi limit ⟨s.scale / 10.0, s.grain / 10.0⟩ rounds

/-- The power of ten below the length of the axis, or the next one if that alone makes too many
values. -/
def coarsest (lo hi : Float) (limit : Nat) : Step :=
  let scale := Float.pow 10.0 (Double.floor (Float.log (hi - lo) / Float.log 10.0))
  let s : Step := ⟨scale, scale / 10.0⟩
  if limit < 1 + (Double.floor ((hi - lo) / scale)).toUInt64.toNat then
    ⟨s.scale * 10.0, s.grain * 10.0⟩
  else s

def upTo (s : Step) (base right offset : Float) : Nat → List Float
  | 0 => []
  | count + 1 =>
    if -epsilon ≤ right - offset - base then
      let offset := if offset / s.grain ≤ -0.5 then offset + s.grain else offset
      (offset + base) :: upTo s base right (offset + s.scale) count
    else []

/-- The most rounds of refinement. On a finite axis the steps have become too small before that; on an
infinite one they stay as they are and would be refined for ever, so that the values given for it are only
those after the last round. -/
def maxRounds : Nat := 700

/-- The round values of an axis, at most about `limit`. An axis with one end that is no number has
the other end as its only value. -/
def values (axis : Span) (limit : Nat) : Except Fault (List Float) :=
  if axis.start.isNaN && axis.stop.isNaN then .error .axisWithoutEnds
  else
    let lo := Double.lesser axis.start axis.stop
    let hi := Double.greater axis.start axis.stop
    if (lo - hi).abs < epsilon then .ok [lo]
    else
      let s := refine lo hi limit (coarsest lo hi limit) maxRounds
      let base := Double.floor (firstFrom lo s.scale / s.grain) * s.grain
      .ok (upTo s base (lastTo hi s.scale) (firstFrom lo s.scale - base) (100 * limit))

end Landscape.Ticks
