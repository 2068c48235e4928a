import ShaderBench.Control.Desk
/-
The keys in what a terminal sends, and their commands.
-/
namespace ShaderBench.View
open Control

inductive TerminalKey where
  | char (c : Char)
  | up
  | down
  | left
  | right
  | tab
  | backTab
  | enter
  | backspace
  | escape
  | other
  deriving DecidableEq, Repr

structure TerminalPress where
  key : TerminalKey
  control : Bool
  deriving DecidableEq, Repr

def charCommand? (c : Char) : Option Command :=
  match c with
  | 'q' | 'Q' => some .quit
  | ' ' => some .togglePause
  | 'r' => some .restartTime
  | 'c' => some .nextComponent
  | '+' | '=' => some .increase
  | '-' | '_' => some .decrease
  | '0' => some .resetParam
  | 'u' => some .undo
  | 'U' => some .redo
  | 'g' => some .openPrompt
  | 'e' => some .explainError
  | _ => none

def TerminalPress.command? (p : TerminalPress) : Option Command :=
  match p.key with
  | .char c => if c = 'c' ∧ p.control then some .quit else charCommand? c
  | .up => some (.movePointer 0 (-1))
  | .down => some (.movePointer 0 1)
  | .left => some (.movePointer (-1) 0)
  | .right => some (.movePointer 1 0)
  | .tab => some .nextParam
  | .backTab => some .prevParam
  | .escape => some .dismiss
  | .enter | .backspace | .other => none

/- The keys in what a terminal sends: characters, control characters and escape sequences. -/

def sequenceKey (last : Char) : TerminalKey :=
  match last with
  | 'A' => .up
  | 'B' => .down
  | 'C' => .right
  | 'D' => .left
  | 'Z' => .backTab
  | _ => .other

/-- The press that sends one character. Control characters stand for the letters and digits with
    which they are typed. -/
def charPress (c : Char) : TerminalPress :=
  match c with
  | '\r' => ⟨.enter, false⟩
  | '\t' => ⟨.tab, false⟩
  | '\x7f' => ⟨.backspace, false⟩
  | '\x1b' => ⟨.escape, false⟩
  | '\x00' => ⟨.char ' ', true⟩
  | c =>
    if c.toNat < 0x1b then ⟨.char (Char.ofNat (c.toNat + 0x60)), true⟩
    else if c.toNat < 0x20 then ⟨.char (Char.ofNat (c.toNat + 0x18)), true⟩
    else ⟨.char c, false⟩

def goesOn (c : Char) : Bool := c.toNat < 0x40 || 0x7e < c.toNat

def sequencePress (s : List Char) : List TerminalPress :=
  (s.find? fun c => !goesOn c).toList.map fun last => ⟨sequenceKey last, false⟩

def afterSequence (s : List Char) : List Char := (s.dropWhile goesOn).tail

theorem length_afterSequence_le (s : List Char) : (afterSequence s).length ≤ s.length :=
  ((List.tail_sublist _).trans (List.dropWhile_sublist goesOn)).length_le

def presses : List Char → List TerminalPress
  | [] => []
  | '\x1b' :: '[' :: rest =>
    have := length_afterSequence_le rest
    sequencePress rest ++ presses (afterSequence rest)
  | '\x1b' :: 'O' :: last :: rest => ⟨sequenceKey last, false⟩ :: presses rest
  | '\x1b' :: c :: rest => charPress c :: presses rest
  | c :: rest => charPress c :: presses rest
termination_by s => s.length

end ShaderBench.View
