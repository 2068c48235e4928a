import ShaderBench.Gpu.Compile
/-
What a preview shows over time: its clock, which can be paused, its pointer and its frames.
-/
namespace ShaderBench.Preview
open Gpu

def second : Nat := 1000000000

def seconds (span : Nat) : Single :=
  .ofNat (span / second) + .ofNat (span % second) / .ofNat second

/-- The start moves on by every pause that is over. -/
structure Clock where
  start : Nat
  pausedAt : Option Nat
  deriving DecidableEq, Repr

namespace Clock

def startAt (now : Nat) : Clock := ⟨now, none⟩

def isPaused (c : Clock) : Bool := c.pausedAt.isSome

def span (c : Clock) (now : Nat) : Nat := c.pausedAt.getD now - c.start

def elapsed (c : Clock) (now : Nat) : Single := seconds (c.span now)

def toggle (c : Clock) (now : Nat) : Clock :=
  match c.pausedAt with
  | some pause => ⟨c.start + (now - pause), none⟩
  | none => ⟨c.start, some now⟩

def restart (c : Clock) (now : Nat) : Clock := ⟨now, c.pausedAt.map fun _ => now⟩

end Clock

/- The frame rate, over the frames of the last second. -/

structure FrameRate where
  frames : List Nat
  deriving DecidableEq, Repr

namespace FrameRate

def empty : FrameRate := ⟨[]⟩

/-- Adds a frame, and drops the oldest frames as long as they are more than a second old. -/
def record (r : FrameRate) (now : Nat) : FrameRate :=
  ⟨(r.frames ++ [now]).dropWhile fun frame => second < now - frame⟩

def rate (r : FrameRate) : Single :=
  match r.frames.head?, r.frames.getLast? with
  | some first, some last =>
    let span := seconds (last - first)
    if Single.zero.lt span then .ofNat (r.frames.length - 1) / span else .zero
  | _, _ => .zero

end FrameRate

/- The pointer, moved and placed on a grid whose rows count downwards. -/

structure Size where
  width : Nat
  height : Nat
  deriving DecidableEq, Repr

def Size.positive (s : Size) : Size := ⟨max s.width 1, max s.height 1⟩

def whole (n : Int) : Single := .ofQuotient (n < 0) ⟨n.natAbs, 1⟩

def intoUnit (x : Single) : Single := (x.clamp? .zero (.ofNat 1)).getD x

def center : Point := ⟨.ofDecimal 5 (-1), .ofDecimal 5 (-1)⟩

def move (p : Point) (dx dy : Int) (grid : Size) : Point :=
  let grid := grid.positive
  ⟨intoUnit (p.x + whole dx / .ofNat grid.width), intoUnit (p.y - whole dy / .ofNat grid.height)⟩

def pointAt (x y : Single) (grid : Size) : Point :=
  let grid := grid.positive
  ⟨intoUnit (x / .ofNat grid.width), intoUnit (.ofNat 1 - y / .ofNat grid.height)⟩

/- Frames, and the place where one waits to be shown. -/

structure Color where
  red : UInt8
  green : UInt8
  blue : UInt8
  deriving DecidableEq, Repr

def Color.black : Color := ⟨0, 0, 0⟩

structure Frame where
  pixels : Array UInt8
  size : Size
  deriving DecidableEq, Repr

/-- The color of a pixel; past the end of the pixels all is black. -/
def Frame.color (f : Frame) (x y : Nat) : Color :=
  let start := (y * f.size.width + x) * 4
  match f.pixels[start]?, f.pixels[start + 1]?, f.pixels[start + 2]? with
  | some red, some green, some blue => ⟨red, green, blue⟩
  | _, _, _ => .black

/-- A frame waits to be shown; the next one takes its place, and then it is lost. -/
structure FrameSlot where
  next : Option Frame
  lost : Nat
  deriving DecidableEq, Repr

namespace FrameSlot

def empty : FrameSlot := ⟨none, 0⟩

def put (s : FrameSlot) (f : Frame) : FrameSlot :=
  ⟨some f, if s.next.isSome then s.lost + 1 else s.lost⟩

def take (s : FrameSlot) : Option Frame × FrameSlot := (s.next, { s with next := none })

end FrameSlot
end ShaderBench.Preview
