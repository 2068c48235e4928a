import ShaderBench.Gpu.Layout
import ShaderBench.Shader.Assembly
/-
Compilation: a program is lowered and handed to a translator, whose complaints are told in lines
of the document. Lowering makes members of one block of the declared parameters; the block takes the
place of the parameter mark, and the declarations become comments. On a device a program runs with a
buffer for that block.
-/
namespace ShaderBench.Gpu
open Shader Text

inductive Origin where
  | document (line : Nat)
  | host (line : Nat)
  deriving DecidableEq, Repr

structure Lowered where
  glsl : List Char
  layout : Layout
  bodyLine : Option Nat
  deriving DecidableEq, Repr

def Lowered.locate (l : Lowered) (line : Nat) : Origin :=
  match l.bodyLine with
  | some first => if first ≤ line then .document (line - first + 1) else .host line
  | none => .host line

inductive LoweringError where
  | markMissing
  /-- A position at which the text was to be cut is past its end or inside a character. -/
  | badCut
  deriving DecidableEq, Repr

/-- A declaration that can become a member of the block, with its type there. -/
structure Member where
  declaration : Declaration
  type : MemberType
  deriving DecidableEq, Repr

def member? (position : Nat) (d : Declaration) : Option Member :=
  if position ≤ d.start && !isReserved d.name then
    ((UniformType.ofName? d.typeName).bind MemberType.ofUniform?).map fun type => ⟨d, type⟩
  else none

def members (position : Nat) (program : List Char) : List Member :=
  (declarations program).filterMap (member? position)

def lastOfName : List Member → List Member
  | [] => []
  | m :: ms =>
    if ms.any fun later => later.declaration.name = m.declaration.name then lastOfName ms
    else m :: lastOfName ms

def comments (program : List Char) : List Member → List Edit
  | [] => []
  | m :: ms =>
    let name := m.declaration.name
    let comment :=
      if ms.any fun later => later.declaration.name = name then s!"/* {name} (redeclared) */"
      else s!"/* {name} -> Params */"
    let breaks := newlines (m.declaration.text program)
    ⟨m.declaration.start, m.declaration.stop, comment.toList ++ blankLines breaks⟩ ::
      comments program ms

def layoutOf (ms : List Member) : Layout :=
  (lastOfName ms).foldl (fun l m => l.push m.declaration.name m.type) .empty

def blockSet : Nat := 0
def blockBinding : Nat := 1

/-- The first line of the document in a program that begins with the preamble and one more
    character: none if it does not begin so, or badCut if it is not even that long. -/
def bodyLine? (program block : List Char) : Except LoweringError (Option Nat) :=
  if preamble.toList.isPrefixOf program then
    match cutAt? (byteLength preamble.toList + 1) program with
    | some (before, _) => .ok (some (newlines before + newlines block + 1))
    | none => .error .badCut
  else .ok none

def lower (program : List Char) : Except LoweringError Lowered :=
  match splitAround? parameterMark.toList program with
  | none => .error .markMissing
  | some (before, after) =>
    let position := byteLength before + byteLength parameterMark.toList
    let found := members position program
    let layout := layoutOf found
    let block := (layout.declaration blockSet blockBinding).toList
    match splice position after (comments program found) with
    | none => .error .badCut
    | some rest =>
      (bodyLine? program block).map fun bodyLine => ⟨before ++ block ++ rest, layout, bodyLine⟩

structure Complaint where
  line : Option Nat
  message : String
  deriving DecidableEq, Repr

inductive Verdict where
  | accepted (wgsl : String)
  | unreadable (complaints : List Complaint)
  | invalid (message : String)
  | unwritable (message : String)
  deriving DecidableEq, Repr

/-- A translator is a fixed function of the lowered program. -/
abbrev Translator := List Char → Verdict

structure Diagnostic where
  origin : Option Origin
  message : String
  deriving DecidableEq, Repr

def Diagnostic.text (d : Diagnostic) : String :=
  match d.origin with
  | some (.document line) => s!"line {line}: {d.message}"
  | some (.host line) => s!"preamble line {line}: {d.message}"
  | none => d.message

inductive CompileError where
  | lowering (error : LoweringError)
  | parse (diagnostics : List Diagnostic)
  | validation (message : String)
  | backend (message : String)
  deriving DecidableEq, Repr

def CompileError.message : CompileError → String
  | .lowering .markMissing => "program has no '" ++ parameterMark ++ "' insertion point"
  | .lowering .badCut => "program ends inside its preamble"
  | .parse diagnostics => String.intercalate "\n" (diagnostics.map Diagnostic.text)
  | .validation message => s!"validation failed: {message}"
  | .backend message => s!"WGSL generation failed: {message}"

def Diagnostic.documentLine? (d : Diagnostic) : Option Nat :=
  match d.origin with
  | some (.document line) => some line
  | _ => none

def CompileError.documentLine? : CompileError → Option Nat
  | .parse diagnostics => diagnostics.findSome? Diagnostic.documentLine?
  | _ => none

structure Program where
  wgsl : String
  layout : Layout
  deriving DecidableEq, Repr

def Lowered.diagnostic (l : Lowered) (c : Complaint) : Diagnostic :=
  ⟨c.line.map l.locate, c.message⟩

def Lowered.translate (translator : Translator) (l : Lowered) : Except CompileError Program :=
  match translator l.glsl with
  | .accepted wgsl => .ok ⟨wgsl, l.layout⟩
  | .unreadable complaints => .error (.parse (complaints.map l.diagnostic))
  | .invalid message => .error (.validation message)
  | .unwritable message => .error (.backend message)

@[irreducible] def compile (translator : Translator) (program : List Char) : Except CompileError Program :=
  match lower program with
  | .ok lowered => lowered.translate translator
  | .error e => .error (.lowering e)

/- Programs on a device, each with the buffer that holds its parameters, and what the host supplies
for every frame. -/

structure Point where
  x : Single
  y : Single
  deriving DecidableEq, Repr

def Point.bytes (p : Point) : List UInt8 := p.x.bytes ++ p.y.bytes

structure Inputs where
  width : Nat
  height : Nat
  time : Single
  pointer : Point
  deriving DecidableEq, Repr

/-- The bytes of the host's block: resolution and pointer, each of them twice, the time twice, and
    eight bytes of padding. -/
def Inputs.bytes (i : Inputs) : List UInt8 :=
  let resolution := (Point.mk (.ofNat i.width) (.ofNat i.height)).bytes
  resolution ++ i.pointer.bytes ++ resolution ++ i.pointer.bytes ++ i.time.bytes ++ i.time.bytes ++
    List.replicate 8 0

def isSrgb (format : String) : Bool := "Srgb".toList.isSuffixOf format.toList

/-- The first format with linear colors, else the first one, else a format that all targets have. -/
def surfaceFormat (formats : List String) : String :=
  (formats.find? fun f => !isSrgb f).getD (formats.headD "Bgra8Unorm")

structure Device where
  fault? : Program → Option String
  picture : Program → List UInt8 → Inputs → Array UInt8

def Device.blank (fault? : Program → Option String) : Device :=
  ⟨fault?, fun _ _ i => Array.replicate (i.width * i.height * 4) 0⟩

structure Pipeline where
  program : Program
  buffer : List UInt8
  deriving DecidableEq, Repr

namespace Pipeline

def create (device : Device) (program : Program) : Except String Pipeline :=
  match device.fault? program with
  | some fault => .error s!"Pipeline creation failed: {fault}"
  | none => .ok ⟨program, List.replicate program.layout.size 0⟩

def write (p : Pipeline) (bytes : List UInt8) : Pipeline :=
  { p with buffer := bytes.take p.buffer.length ++ p.buffer.drop bytes.length }

end Pipeline
end ShaderBench.Gpu
