import FamicomDisk.Capture.Search
import FamicomDisk.Fault
import FamicomDisk.Text.Integer
import FamicomDisk.Text.Split

/-!
# Thresholds

Recovering a disk of unknown layout is guided by five numbers. They may be any integers; they are
given as `name=value` with colons between them, and what is not given keeps its usual value.

* `Thresholds`, `Setting`: the five numbers, and their names.
* `Thresholds.parse?` reads settings from left to right, `Thresholds.text?` writes all five.
-/

namespace FamicomDisk

/-- The numbers that guide the recovery of a disk. -/
structure Thresholds where
  /-- The most pulses between a glitch and the gap it precedes. -/
  glitchWindow : Int := 16
  /-- The zeros that count as a gap after a glitch, and those that must follow a block's end. -/
  shortGap : Int := 16
  /-- The zeros across which the start of a gap is pulled back. -/
  longGap : Int := 900
  /-- The zeros before a gap-end mark, and the smallest gap that is valid. -/
  minGap : Int := FamicomDisk.minGap
  /-- The pulses in which the first disk header is looked for. -/
  window : Int := signatureWindow
  deriving DecidableEq

/-- The names of the thresholds. -/
inductive Setting where
  | glitchWindow
  | shortGap
  | longGap
  | minGap
  | window
  deriving DecidableEq

namespace Setting

/-- All settings, in the order in which they are written. -/
def all : List Setting := [.glitchWindow, .shortGap, .longGap, .minGap, .window]

/-- What a setting is called. -/
def name : Setting → String
  | .glitchWindow => "glitch_window"
  | .shortGap => "short_gap"
  | .longGap => "long_gap"
  | .minGap => "min_gap"
  | .window => "window"

/-- The setting of a name. -/
def ofName? (s : String) : Option Setting := all.find? (·.name = s)

theorem mem_all (s : Setting) : s ∈ all := by cases s <;> simp [all]

end Setting

namespace Thresholds

/-- The value of a setting. -/
def get (t : Thresholds) : Setting → Int
  | .glitchWindow => t.glitchWindow
  | .shortGap => t.shortGap
  | .longGap => t.longGap
  | .minGap => t.minGap
  | .window => t.window

/-- Give a setting another value. -/
def set (t : Thresholds) (s : Setting) (n : Int) : Thresholds :=
  match s with
  | .glitchWindow => { t with glitchWindow := n }
  | .shortGap => { t with shortGap := n }
  | .longGap => { t with longGap := n }
  | .minGap => { t with minGap := n }
  | .window => { t with window := n }

theorem get_set (t : Thresholds) (s s' : Setting) (n : Int) :
    (t.set s n).get s' = if s' = s then n else t.get s' := by
  cases s <;> cases s' <;> simp [set, get]

/-- Apply one setting, written as name and value. -/
def withSetting? (t : Thresholds) (setting : List Char) : Option Thresholds :=
  match Text.split '=' setting with
  | [name, value] => do
      let s ← Setting.ofName? (String.ofList name)
      pure (t.set s (← Text.readAnyInt? (String.ofList value)))
  | _ => none

/-- Apply settings with colons between them; empty ones are passed over. -/
def withSettings? (t : Thresholds) (spec : String) : Option Thresholds :=
  ((Text.split ':' spec.toList).filter (!·.isEmpty)).foldlM withSetting? t

/-- The thresholds that a text sets, the others having their usual values. -/
def parse? (spec : String) : Option Thresholds := withSettings? {} spec

/-- All settings, as they are read. -/
def text? (t : Thresholds) : Option String := do
  let settings ← Setting.all.mapM fun s => (Text.decimal? (t.get s)).map fun n => s!"{s.name}={n}"
  pure (":".intercalate settings)

end Thresholds

end FamicomDisk
