import ShaderBench.Shader.Declaration
import ShaderBench.Shader.ZeroInit
/-
The program made of a document: the preamble, a line break, and the document without semantics,
without declarations of the host's inputs, and with typed zeros.
-/
namespace ShaderBench.Shader
open Text

def unlines (lines : List String) : String := String.join (lines.map fun l => l ++ "\n")

/-- Stands before every document: spellings of types and functions, the inputs of the host, and
    the entry point. -/
def preamble : String := unlines [
  "#version 450",
  "",
  "// --- HLSL compatibility macros ---",
  "#define float2 vec2",
  "#define float3 vec3",
  "#define float4 vec4",
  "#define float2x2 mat2",
  "#define float3x3 mat3",
  "#define float4x4 mat4",
  "#define lerp mix",
  "#define frac fract",
  "#define atan2 atan",
  "#define fmod mod",
  "#define tex2D texture",
  "#define static",
  "",
  "// --- Host inputs ---",
  "layout(location = 0) in vec2 vUv;",
  "layout(location = 0) out vec4 fragColor;",
  "",
  "layout(set = 0, binding = 0) uniform Builtins \x7b",
  "    vec2 iResolution;",
  "    vec2 iMouse;",
  "    vec2 resolution;",
  "    vec2 mouse;",
  "    float iTime;",
  "    float time;",
  "\x7d;",
  "",
  "// @user-params",
  "",
  "float4 mainImage(float2 uv);",
  "",
  "void main() \x7b",
  "    fragColor = mainImage(vUv);",
  "\x7d"
  ]

def parameterMark : String := "// @user-params"

def sampleDocument : String := unlines [
  "// HLSL-style syntax is supported via macros!",
  "// Try changing variables or ask the AI to generate a new effect.",
  "",
  "uniform float time;",
  "uniform float2 resolution;",
  "uniform float3 colorAccent;",
  "uniform float intensity;",
  "",
  "float4 mainImage(float2 uv) \x7b",
  "    // Normalize coordinates to center",
  "    float2 p = (uv - 0.5) * 2.0;",
  "    p.x *= resolution.x / resolution.y;",
  "",
  "    // Simple animation",
  "    float len = length(p);",
  "    float angle = atan2(p.y, p.x);",
  "",
  "    float wave = sin(len * 10.0 - time * 2.0) * 0.5 + 0.5;",
  "    float spiral = sin(angle * 5.0 + time) * 0.5 + 0.5;",
  "",
  "    float3 col = lerp(float3(0.0, 0.0, 0.0), colorAccent, wave * spiral * intensity);",
  "",
  "    // Add a glow center",
  "    col += (1.0 / (len * 5.0)) * float3(0.1, 0.5, 1.0);",
  "",
  "    return float4(col, 1.0);",
  "\x7d"
  ]

def vertexStage : String := unlines [
  "// Full-screen triangle; uv runs 0..1 with the origin at the bottom-left",
  "struct VertexOutput \x7b",
  "    @builtin(position) position: vec4<f32>,",
  "    @location(0) uv: vec2<f32>,",
  "\x7d",
  "",
  "@vertex",
  "fn vs_main(@builtin(vertex_index) vertex_index: u32) -> VertexOutput \x7b",
  "    var out: VertexOutput;",
  "    let x = f32((vertex_index << 1u) & 2u);",
  "    let y = f32(vertex_index & 2u);",
  "    out.position = vec4<f32>(x * 2.0 - 1.0, y * 2.0 - 1.0, 0.0, 1.0);",
  "    out.uv = vec2<f32>(x, y);",
  "    return out;",
  "\x7d"
  ]

/-
Semantics: the marks after a colon that bind a value to a pipeline slot, as in : TEXCOORD0. They
are removed from a document before it is compiled.
-/

def foldsTo (lower c : Char) : Bool := c.toLower = lower || lower = 's' && c = '\u017f'

def afterWord? : List Char → List Char → Option (List Char)
  | [], s => some s
  | _ :: _, [] => none
  | w :: ws, c :: s => if foldsTo w c then afterWord? ws s else none

def semanticNames : List (List Char) :=
  ["sv_target".toList, "sv_position".toList, "texcoord".toList, "color".toList]

/-- What follows a semantic at the start of a text: a colon, blanks, a known name, and digits up
    to the end of the word. -/
def afterSemantic? : List Char → Option (List Char)
  | ':' :: s =>
    match semanticNames.findSome? fun name => afterWord? name (s.dropWhile isBlank) with
    | some rest =>
      if wordEnds (rest.dropWhile isDecimal) then some (rest.dropWhile isDecimal) else none
    | none => none
  | _ => none

theorem afterWord?_length_le {word s rest : List Char} (h : afterWord? word s = some rest) :
    rest.length ≤ s.length := by
  induction word generalizing s with
  | nil => cases h; exact Nat.le_refl _
  | cons w ws ih =>
    cases s with
    | nil => cases h
    | cons c s =>
      simp only [afterWord?] at h
      split at h
      · have := ih h
        simp only [List.length_cons]
        omega
      · cases h

theorem afterSemantic?_shorter {s rest : List Char} (h : afterSemantic? s = some rest) :
    rest.length < s.length := by
  unfold afterSemantic? at h
  split at h
  · rename_i t
    split at h
    · rename_i found hfound
      obtain ⟨_, _, hword⟩ := List.exists_of_findSome?_eq_some hfound
      have bound := afterWord?_length_le hword
      have blanks := (List.dropWhile_suffix (l := t) isBlank).length_le
      have digits := (List.dropWhile_suffix (l := found) isDecimal).length_le
      split at h
      · cases h
        simp only [List.length_cons]
        omega
      · cases h
    · cases h
  · cases h

def stripSemantics : List Char → List Char
  | [] => []
  | c :: s =>
    match _found : afterSemantic? (c :: s) with
    | some rest => stripSemantics rest
    | none => c :: stripSemantics s
termination_by s => s.length
decreasing_by
  · exact afterSemantic?_shorter _found
  · simp

def body (document : List Char) : List Char :=
  coerceZeros (neutralize (stripSemantics document))

def assemble (document : List Char) : List Char :=
  preamble.toList ++ '\n' :: body document

end ShaderBench.Shader
