import Landscape.Decimal.Text
import Landscape.Double.Basic

namespace Landscape

/-- The two ends of an interval, in the order in which it is walked. -/
structure Span where
  start : Float
  stop : Float

inductive Axis where
  | real
  | imaginary
  deriving DecidableEq, Repr

/-- The settings of a picture; the figure is measured in inches. -/
structure Settings where
  real : Span := ⟨-0.5, 0.5⟩
  imaginary : Span := ⟨-1.5, 1.5⟩
  samples : Nat := 100
  stride : Nat := 2
  width : Float := 7.0
  height : Float := 6.0
  dpi : Float := 100.0

inductive SettingsError where
  | notIncreasing (axis : Axis) (span : Span)
  | fewSamples (samples : Nat)
  | strideOutside (samples stride : Nat)
  | figureNotPositive (width height : Float)
  | dpiNotPositive (dpi : Float)

def Axis.rangeName : Axis → String
  | .real => "a_range"
  | .imaginary => "b_range"

open Decimal in
def SettingsError.message : SettingsError → String
  | .notIncreasing axis span =>
    axis.rangeName ++ " must be increasing (start=" ++ plain span.start ++ ", end=" ++ plain span.stop ++ ")"
  | .fewSamples samples => s!"samples must be at least 2, got {samples}"
  | .strideOutside samples stride => s!"stride must be in [1, {samples}), got {stride}"
  | .figureNotPositive width height =>
    "Figure size must be positive (width=" ++ plain width ++ ", height=" ++ plain height ++ ")"
  | .dpiNotPositive dpi => "dpi must be positive, got " ++ plain dpi

namespace Settings

/-- The settings are accepted when no condition fails; the first that does is the refusal. -/
def check (s : Settings) : Except SettingsError Unit :=
  if ¬ s.real.start < s.real.stop then .error (.notIncreasing .real s.real)
  else if ¬ s.imaginary.start < s.imaginary.stop then .error (.notIncreasing .imaginary s.imaginary)
  else if s.samples < 2 then .error (.fewSamples s.samples)
  else if s.stride = 0 ∨ s.samples ≤ s.stride then .error (.strideOutside s.samples s.stride)
  else if s.width ≤ 0.0 ∨ s.height ≤ 0.0 then .error (.figureNotPositive s.width s.height)
  else if s.dpi ≤ 0.0 then .error (.dpiNotPositive s.dpi)
  else .ok ()

def pixelWidth (s : Settings) : UInt32 :=
  Double.nearestWord (s.width * s.dpi)

def pixelHeight (s : Settings) : UInt32 :=
  Double.nearestWord (s.height * s.dpi)

end Settings
end Landscape
