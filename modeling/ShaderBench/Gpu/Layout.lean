import ShaderBench.Param.Basic
import ShaderBench.Shader.Declaration
/-
The block of parameters on the GPU: the std140 places of its members, its declaration, and the
bytes of parameter values in it.
-/
namespace ShaderBench.Gpu
open Shader Param

inductive MemberType where
  | float
  | int
  | uint
  | vec2
  | vec3
  | vec4
  deriving DecidableEq, Repr

def MemberType.ofUniform? : UniformType → Option MemberType
  | .float => some .float
  | .float2 => some .vec2
  | .float3 => some .vec3
  | .float4 => some .vec4
  | .int => some .int
  | .uint => some .uint
  | .bool => none

def MemberType.glslName : MemberType → String
  | .float => "float"
  | .int => "int"
  | .uint => "uint"
  | .vec2 => "vec2"
  | .vec3 => "vec3"
  | .vec4 => "vec4"

def MemberType.alignment : MemberType → Nat
  | .float | .int | .uint => 4
  | .vec2 => 8
  | .vec3 | .vec4 => 16

def MemberType.components : MemberType → Nat
  | .float | .int | .uint => 1
  | .vec2 => 2
  | .vec3 => 3
  | .vec4 => 4

def MemberType.size (t : MemberType) : Nat := 4 * t.components

structure Slot where
  name : String
  type : MemberType
  offset : Nat
  deriving DecidableEq, Repr

def Slot.stop (s : Slot) : Nat := s.offset + s.type.size

structure Layout where
  slots : List Slot
  deriving DecidableEq, Repr

/-- The least multiple of a positive number that is not below n. -/
def roundUp (n multiple : Nat) : Nat := (n + multiple - 1) / multiple * multiple

namespace Layout

def empty : Layout := ⟨[]⟩

def contains (l : Layout) (name : String) : Bool := l.slots.any fun s => s.name = name

def stop (l : Layout) : Nat := (l.slots.getLast?.map Slot.stop).getD 0

/-- Appends a member, unless there is one of its name. -/
def push (l : Layout) (name : String) (type : MemberType) : Layout :=
  if l.contains name then l
  else ⟨l.slots ++ [⟨name, type, roundUp l.stop type.alignment⟩]⟩

def size (l : Layout) : Nat := roundUp (max l.stop 4) 16

def declaration (l : Layout) (set binding : Nat) : String :=
  let members := if l.slots.isEmpty then ["    float shaderlab_unused;\n"]
    else l.slots.map fun s => s!"    {s.type.glslName} {s.name};\n"
  s!"layout(set = {set}, binding = {binding}) uniform Params \x7b\n" ++ String.join members ++
    "\x7d;"

end Layout

def wordBytes (n : UInt32) : List UInt8 := Single.bytes ⟨n⟩

/-- The bytes of some numbers as a member: cut or filled with zeros to its components, or the first
    one as an integer. -/
def MemberType.encode (t : MemberType) (xs : List Single) : List UInt8 :=
  match t with
  | .float | .vec2 | .vec3 | .vec4 =>
    ((xs ++ List.replicate t.components Single.zero).take t.components).flatMap Single.bytes
  | .int => wordBytes (UInt32.ofInt
      ((xs.headD Single.zero).roundInto Int32.minValue.toInt Int32.maxValue.toInt))
  | .uint => wordBytes (UInt32.ofInt ((xs.headD Single.zero).roundInto 0 (UInt32.size - 1)))

def Slot.encode (s : Slot) (ps : List Parameter) : List UInt8 :=
  match ps.find? fun p => p.name = s.name with
  | some p => s.type.encode p.value.components
  | none => List.replicate s.type.size 0

def encodeFrom (ps : List Parameter) : Nat → List Slot → List UInt8
  | _, [] => []
  | position, s :: rest =>
    List.replicate (s.offset - position) 0 ++ s.encode ps ++ encodeFrom ps s.stop rest

/-- The bytes of the block. Each slot holds the first parameter of its name, or zeros. -/
def Layout.pack (l : Layout) (ps : List Parameter) : List UInt8 :=
  encodeFrom ps 0 l.slots ++ List.replicate (l.size - l.stop) 0

end ShaderBench.Gpu
