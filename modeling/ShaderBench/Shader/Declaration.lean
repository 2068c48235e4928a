import ShaderBench.Shader.Token
import ShaderBench.Text.Word
/-
Uniform declarations: the keyword, a type, a name, an optional initializer and a semicolon. Those of
inputs that the host itself supplies become comments, with their line breaks, so that all later
lines keep their numbers.
-/
namespace ShaderBench.Shader
open Text

inductive UniformType where
  | float
  | float2
  | float3
  | float4
  | int
  | uint
  | bool
  deriving DecidableEq, Repr

def UniformType.ofName? : String → Option UniformType
  | "float" => some .float
  | "float2" | "vec2" => some .float2
  | "float3" | "vec3" => some .float3
  | "float4" | "vec4" => some .float4
  | "int" => some .int
  | "uint" => some .uint
  | "bool" => some .bool
  | _ => none

def UniformType.glslName : UniformType → String
  | .float => "float"
  | .float2 => "vec2"
  | .float3 => "vec3"
  | .float4 => "vec4"
  | .int => "int"
  | .uint => "uint"
  | .bool => "bool"

inductive Builtin where
  | time
  | resolution
  | mouse
  deriving DecidableEq, Repr

def Builtin.all : List Builtin := [.time, .resolution, .mouse]

def Builtin.name : Builtin → String
  | .time => "time"
  | .resolution => "resolution"
  | .mouse => "mouse"

def Builtin.alias : Builtin → String
  | .time => "iTime"
  | .resolution => "iResolution"
  | .mouse => "iMouse"

def Builtin.typeName : Builtin → String
  | .time => "float"
  | .resolution | .mouse => "float2"

def Builtin.ofName? (name : String) : Option Builtin :=
  Builtin.all.find? fun b => b.name = name || b.alias = name

def isReserved (name : String) : Bool := (Builtin.ofName? name).isSome

structure Declaration where
  /-- Bytes from the keyword through the semicolon. -/
  start : Nat
  stop : Nat
  typeName : String
  name : String
  initializer : Option (List Char)
  deriving DecidableEq, Repr

def textOf (source : List Char) (ts : List Token) : List Char :=
  match ts.head?, ts.getLast? with
  | some first, some last => (slice? first.start last.stop source).getD []
  | _, _ => []

def declarationAt? (source : List Char) : List Token → Option (Declaration × List Token)
  | keyword :: type :: name :: mark :: rest =>
    let declared (stop : Nat) (initializer : Option (List Char)) : Declaration :=
      ⟨keyword.start, stop, String.ofList type.text, String.ofList name.text, initializer⟩
    if keyword.isIdent && keyword.text = "uniform".toList && type.isIdent && name.isIdent then
      if mark.isPunct ';' then some (declared mark.stop none, rest)
      else if mark.isPunct '=' then
        let expression := rest.takeWhile fun t => !t.isPunct ';'
        match rest.dropWhile fun t => !t.isPunct ';' with
        | [] => none
        | semicolon :: rest =>
          if expression.isEmpty then none
          else some (declared semicolon.stop (some (trim (textOf source expression))), rest)
      else none
    else none
  | _ => none

theorem declarationAt?_shorter {source : List Char} {ts rest : List Token} {d : Declaration}
    (found : declarationAt? source ts = some (d, rest)) : rest.length < ts.length := by
  unfold declarationAt? at found
  split at found
  · rename_i keyword type name mark after
    simp only at found
    split at found
    · split at found
      · cases found
        simp only [List.length_cons]
        omega
      · split at found
        · split at found
          · cases found
          · rename_i semicolon later hdrop
            split at found
            · cases found
            · cases found
              have := (List.dropWhile_suffix (l := after) fun t : Token => !t.isPunct ';').length_le
              simp only [hdrop, List.length_cons] at this ⊢
              omega
        · cases found
    · cases found
  · cases found

def collect (source : List Char) : List Token → List Declaration
  | [] => []
  | t :: ts =>
    match _found : declarationAt? source (t :: ts) with
    | some (d, rest) => d :: collect source rest
    | none => collect source ts
termination_by ts => ts.length
decreasing_by
  · exact declarationAt?_shorter _found
  · simp

def declarations (source : List Char) : List Declaration := collect source (tokens source)

def Declaration.text (d : Declaration) (document : List Char) : List Char :=
  (slice? d.start d.stop document).getD []

def Declaration.after (d : Declaration) (document : List Char) : List Char :=
  ((cutAt? d.stop document).map Prod.snd).getD []

/-- The comment for a redeclared input. It goes to the end of the line if nothing else does. -/
def Builtin.comment (b : Builtin) (d : Declaration) (document : List Char) : List Char :=
  let summary := s!"[Built-in] uniform {b.typeName} {d.name};"
  let breaks := newlines (d.text document)
  let comment :=
    if (trim (restOfLine (d.after document))).isEmpty && breaks = 0 then s!"// {summary}"
    else s!"/* {summary} */"
  comment.toList ++ blankLines breaks

def redeclarations (document : List Char) : List Edit :=
  (declarations document).filterMap fun d =>
    (Builtin.ofName? d.name).map fun b => ⟨d.start, d.stop, b.comment d document⟩

def neutralize (document : List Char) : List Char :=
  (splice 0 document (redeclarations document)).getD document

end ShaderBench.Shader
