import FamicomDisk.Mfm
import FamicomDisk.Recovery.Thresholds
import Std.Data.TreeSet

/-!
# Marks

The recovery of a disk marks the offsets in a capture at which a block ends and its gap begins.
Offsets are integers: with a negative smallest gap a place before the first pulse can be reached, and
it is counted from the end of the capture.

* `Recovery.readFrom`: the pulses that are read from an offset on.
* `Recovery.glitchGaps`: splices and the start of the track show up as a glitch just before a gap;
  the gap behind each glitch is found, and `Recovery.addGlitchGaps` adds it to other marks.
* `Recovery.findStart`: where the first block begins.
* `Recovery.consolidate`: marks are pulled back across long runs of zeros, and across glitches just
  before them, to the true end of the block.
-/

namespace FamicomDisk

/-- Offsets at which gaps begin. -/
abbrev Marks := Std.TreeSet Int

namespace Recovery

/-- The pulses that are read from `offset` on. From a negative offset as many pulses are read from the
end of the capture, and then all of it. -/
def readFrom (pulses : List Pulse) (offset : Int) : Except Fault (List Pulse) :=
  if 0 ≤ offset then pure (pulses.drop offset.toNat)
  else
    let length := pulses.length
    if (length : Int) < -offset then throw .noSuchPlace
    else pure (pulses.drop (length - (-offset).toNat) ++ pulses)

/-- The pulses from an offset on, where a negative one counts from the end of the capture and the
place with the offset, counted from the start. -/
def placeAt (pulses : List Pulse) (offset : Int) : Capture.Head :=
  if 0 ≤ offset then .ofOffset pulses offset.toNat
  else .ofOffset pulses (pulses.length + offset).toNat

/-- Whether an integer is a length or an offset that can be asked for. -/
def inRange (n : Int) : Bool := -Mfm.maxLength - 1 ≤ n ∧ n ≤ Mfm.maxLength

/-! ### Gaps behind glitches -/

/-- The least number of repetitions that is too large. -/
def maxRepetition : Int := 0xffffffff

/-- The offset of the first run of `least` short pulses. The last `run` pulses before `offset` were
short, and the run may begin at most `limit` pulses behind the first of them. -/
def firstRun? (least run offset : Nat) (limit : Int) (rest : List Pulse) : Option Nat :=
  if limit < 0 then none
  else if run = least then some (offset - run)
  else
    match rest with
    | [] => none
    | .short :: ps => firstRun? least (run + 1) (offset + 1) limit ps
    | _ :: ps => firstRun? least 0 (offset + 1) (limit - run - 1) ps

/-- The gap that begins at most a window behind a glitch. The pulses after the glitch begin at
`offset`. A gap is a run of more than `shortGap` short pulses. -/
def gapBehind? (th : Thresholds) (offset : Nat) (rest : List Pulse) : Option Nat :=
  if th.shortGap < -1 then none
  else firstRun? (th.shortGap + 1).toNat 0 offset (th.glitchWindow - 1) rest

/-- The gaps behind the glitches of a capture whose first pulse is at `offset`, added to those found
before, newest first. -/
def glitchGapsFrom (th : Thresholds) (found : List Nat) (offset : Nat) :
    List Pulse → Except Fault (List Nat)
  | [] => pure found
  | .glitch :: ps =>
      if inRange (offset + th.glitchWindow + th.shortGap + 2) then
        glitchGapsFrom th ((gapBehind? th (offset + 1) ps).toList ++ found) (offset + 1) ps
      else throw (.range .offset)
  | _ :: ps => glitchGapsFrom th found (offset + 1) ps

/-- The starts of the gaps behind the glitches of a capture, in the order of the glitches. -/
def glitchGaps (pulses : List Pulse) (th : Thresholds) : Except Fault (List Nat) := do
  if (Text.decimal? (th.shortGap + 1)).isNone then throw (.value .tooManyDigits)
  if maxRepetition ≤ th.shortGap + 1 then throw (.range .repetition)
  pure (← glitchGapsFrom th [] 0 pulses).reverse

/-- The marks, with the starts of the gaps behind the glitches of a capture added. -/
def addGlitchGaps (pulses : List Pulse) (marks : Marks) (th : Thresholds) : Except Fault Marks := do
  pure (marks.insertMany ((← glitchGaps pulses th).map Int.ofNat))

/-! ### The first block -/

/-- The first gap end at or behind a place. A smallest gap below zero is no gap at all, and moves the
answer back by as much. -/
def nextGapEnd? (th : Thresholds) (h : Capture.Head) : Except Fault (Option Int) := do
  unless inRange th.minGap do throw (.range .length)
  pure ((h.seekMark? th.minGap.toNat).map fun mark => (mark.offset : Int) - 1 + min 0 th.minGap)

/-- The number of pulses in which the header is looked for; a negative number leaves out as many at
the end of the capture. -/
def headerBound (th : Thresholds) (length : Nat) : Nat :=
  let bound := th.window + Capture.headerSignature.length
  if 0 ≤ bound then (min bound length).toNat else (length + bound).toNat

/-- Where the first block begins: at the disk header, or else at the first gap end. -/
def findStart (pulses : List Pulse) (th : Thresholds) : Except Fault Int := do
  match Capture.findHeader? (headerBound th pulses.length) pulses with
  | some offset => pure offset
  | none =>
      match ← nextGapEnd? th ⟨0, pulses⟩ with
      | some offset => pure offset
      | none => throw (.gapNotFound 0)

/-! ### Pulling marks back -/

/-- The offset of the last glitch before `stop` that is not before `first`. -/
def lastGlitch? (pulses : Array Pulse) (first : Nat) : Nat → Option Nat
  | 0 => none
  | i + 1 =>
      if i < first then none
      else if pulses[i]? = some .glitch then some i
      else lastGlitch? pulses first i

theorem lt_of_lastGlitch? {pulses : Array Pulse} {first stop g : Nat}
    (h : lastGlitch? pulses first stop = some g) : g < stop := by
  induction stop with
  | zero => simp [lastGlitch?] at h
  | succ i ih =>
    rw [lastGlitch?] at h
    split at h
    · simp at h
    · split at h
      · simp only [Option.some.injEq] at h; omega
      · exact Nat.lt_succ_of_lt (ih h)

/-- The start of a splice that ends before `stop`: glitches are passed over as long as the next one is
no more than a window away. -/
def spliceStart (pulses : Array Pulse) (window : Int) (stop : Nat) : Nat :=
  match _h : lastGlitch? pulses (stop - window).toNat stop with
  | some g => spliceStart pulses window g
  | none => stop
termination_by stop
decreasing_by exact lt_of_lastGlitch? _h

/-- The start of the run of short pulses that ends before `stop`. -/
def runStart (pulses : Array Pulse) : Nat → Nat
  | 0 => 0
  | i + 1 => if pulses[i]? = some .short then runStart pulses i else i + 1

/-- A mark pulled back: over a splice just before it, and over the run of zeros before that if it is
long. A run that is not long leaves the mark where it is. -/
def pullBack (pulses : Array Pulse) (th : Thresholds) (mark : Int) : Except Fault Int :=
  let size : Int := pulses.size
  let stop := if mark < 0 then size + mark else min mark size
  let stop : Int :=
    match lastGlitch? pulses (mark - th.glitchWindow).toNat stop.toNat with
    | some g => spliceStart pulses th.glitchWindow g
    | none => mark
  if size < stop then throw .noSuchPlace
  else
    let run : Int := stop.toNat - runStart pulses stop.toNat
    pure (if th.longGap < run then stop - run else mark)

/-- All marks pulled back. -/
def consolidate (pulses : List Pulse) (marks : Marks) (th : Thresholds) : Except Fault Marks := do
  let pulses := pulses.toArray
  let pulled ← marks.toList.mapM (pullBack pulses th)
  pure (.ofList pulled)

end Recovery

end FamicomDisk
