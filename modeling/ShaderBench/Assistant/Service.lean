import ShaderBench.Shader.Assembly
import ShaderBench.Json.Read
import ShaderBench.Json.Write
import ShaderBench.Number.Decimal
import ShaderBench.Assistant.Requests
import ShaderBench.Settings
/-
The text service behind a network, and the messages that go to it and come from it.
-/
namespace ShaderBench.Assistant
open Json

def instructions : String := Shader.unlines [
  "You are an expert shader graphics programmer.",
  "Write a single fragment shader function in an HLSL/GLSL hybrid style.",
  "",
  "The environment wraps your code with a preamble that defines:",
  "- float2, float3, float4 (as vec2, vec3, vec4)",
  "- lerp (as mix), frac (as fract), atan2 (as atan), fmod (as mod)",
  "- automatic uniforms: time (float), resolution (float2), mouse (float2, 0..1)",
  "- the entry point calls mainImage(float2 uv) returning float4, with uv in 0..1",
  "",
  "Strict syntax rules:",
  "1. Float literals always use a decimal point: 0.0, 1.0. Never 0 or 1 for floats.",
  "2. Never assign a scalar to a vector. Use constructors such as float3(0.0).",
  "3. Do not mix int and float in arithmetic. Write float(i) + 0.5, not i + 0.5.",
  "4. Loop iterators are int, loop bounds are integer constants, and the iterator is cast",
  "   with float(i) before use in float math.",
  "",
  "Output only the shader code. Do not output the preamble. Do not use Markdown fences.",
  "",
  "Declare custom parameters with 'uniform type name;' at the top.",
  "Parameter types with UI controls: float, float2, float3 (names containing \"col\" get a color control).",
  "",
  "Example:",
  "",
  "uniform float speed;",
  "uniform float3 mainColor;",
  "",
  "float4 mainImage(float2 uv) \x7b",
  "    float3 col = float3(0.0);",
  "    for (int i = 0; i < 5; i++) \x7b",
  "        float fi = float(i);",
  "        col += mainColor * sin(uv.x * fi + time * speed) * 0.2;",
  "    \x7d",
  "    return float4(col, 1.0);",
  "\x7d"
  ]

/- The messages that go to the text service and come from it, in JSON. -/

def partsOf (message : String) : String × Json :=
  ("parts", .array [.object [("text", .string message.toList)]])

def messageBody (withInstructions : Bool) (message : String) : Json :=
  let system := if withInstructions then
      [("systemInstruction", .object [partsOf instructions])]
    else []
  .object (system ++
    [("contents", .array [.object [("role", .string "user".toList), partsOf message]])])

/-- The value of the only field of a record, none where it is left out. A record is an object, or
    an array of its fields, which may be empty where that is allowed. Fields of other names have no
    meaning, but all names must make sense and no field is given twice. -/
def onlyField (field : String) (mayBeEmpty : Bool) : Node → Option (Option Node)
  | .object members => do
    let named ← members.mapM fun (name, value) => (chars? name).map fun name => (name, value)
    match named.filter fun (name, _) => name = field.toList with
    | [] => some none
    | [(_, value)] => some (some value)
    | _ => none
  | .array [] => if mayBeEmpty then some none else none
  | .array [value] => some (some value)
  | _ => none

def listOf : Option Node → Option (List Node)
  | none => some []
  | some (.array items) => some items
  | some _ => none

def nullable {α : Type} (read : Node → Option α) : Option Node → Option (Option α)
  | none | some .null => some none
  | some v => (read v).map some

def stringOf : Node → Option (List Char)
  | .string parts => chars? parts
  | _ => none

def partText (v : Node) : Option (Option (List Char)) :=
  onlyField "text" true v >>= nullable stringOf

def contentTexts (v : Node) : Option (List (List Char)) := do
  let parts ← onlyField "parts" true v >>= listOf
  let texts ← parts.mapM partText
  some (texts.filterMap id)

def candidateTexts (v : Node) : Option (Option (List (List Char))) :=
  onlyField "content" false v >>= nullable contentTexts

def answerTexts (v : Node) : Option (List (Option (List (List Char)))) := do
  (← onlyField "candidates" true v >>= listOf).mapM candidateTexts

/-- The text of an answer: the parts of the first candidate, one after the other. An answer whose
    form is wrong anywhere has none, and is told from one without text. -/
def answerText (body : List Char) : Option (List Char) := do
  let candidates ← read? body >>= answerTexts
  some ((candidates.head?.bind id).getD []).flatten

structure Call where
  address : List Char
  key : List Char
  body : List Char
  deriving DecidableEq, Repr

structure Return where
  status : Nat
  body : List Char
  deriving DecidableEq, Repr

abbrev Network := Call → Option Return

/-- What a client for the web says of calls that fail: why one cannot be sent or does not reach the
    service, and why what comes back is refused or cannot be read. -/
structure Client where
  unsendable? : Call → Option String
  unreachable : Call → String
  refused? : Return → Option String
  unreadable : Return → String

def isSlash (c : Char) : Bool := c = '/'

/-- Whether a host comes first, and then nothing, a port of 16 bits, or what else follows a host. -/
def beginsWithHost (address : List Char) : Bool :=
  let inHost (c : Char) : Bool := ' ' < c && !"#%<>@[]^|\\/?:\x7f".toList.contains c
  (address.takeWhile inHost != []) &&
    match address.dropWhile inHost with
    | [] => true
    | ':' :: port =>
      Single.digitValue (port.takeWhile Char.isDigit) < UInt16.size &&
        (port.dropWhile Char.isDigit).head?.all isSlash
    | c :: _ => "/?#".toList.contains c

/-- A client without words of its own. It sends what goes to a host of the web and has a key without
    control characters other than the tab, and takes every status below 400. -/
def Client.plain : Client where
  unsendable? call :=
    let scheme := (call.address.takeWhile (· ≠ ':')).map Char.toLower
    let host := (call.address.drop (scheme.length + 1)).dropWhile isSlash
    let sends := (scheme = "http".toList || scheme = "https".toList) && beginsWithHost host &&
      call.key.all fun c => c = '\t' || ' ' ≤ c && c ≠ '\x7f'
    if sends then none else some ""
  unreachable _ := ""
  refused? answer := if 400 ≤ answer.status then some "" else none
  unreadable _ := ""

structure Service where
  endpoint : List Char
  model : List Char
  key : Option (List Char)
  keyName : String
  contextLength : Nat
  deriving DecidableEq, Repr

def fallbackKeyName : String := "API_KEY"

/-- The service of some settings. A blank key is no key. -/
def Service.ofSettings (s : Settings.Assistant) (environment : String → Option String) : Service :=
  let key := (environment s.keyName <|> environment fallbackKeyName).map String.toList
  { endpoint := (s.endpoint.toList.reverse.dropWhile isSlash).reverse
    model := s.model.toList
    key := key.filter fun k => !(Text.trim k).isEmpty
    keyName := s.keyName
    contextLength := s.contextLength }

def Request.isGenerate : Request → Bool
  | .generate _ _ => true
  | .explain _ _ => false

namespace Service

def address (s : Service) : List Char :=
  s.endpoint ++ "/models/".toList ++ s.model ++ ":generateContent".toList

def call (client : Client) (s : Service) (r : Request) : Except Failure Call :=
  match s.key with
  | none => .error (.keyMissing s.keyName)
  | some key =>
    let call : Call := ⟨s.address, key,
      (messageBody r.isGenerate (r.message s.contextLength)).compact⟩
    match client.unsendable? call with
    | none => .ok call
    | some reason => .error (@Failure.unsendable reason)

def reading (client : Client) (answer : Return) : Reply :=
  match client.refused? answer with
  | some reason => .error (@Failure.refused reason answer.status)
  | none =>
    match answerText answer.body with
    | none => .error (@Failure.unreadable (client.unreadable answer))
    | some text => if text.isEmpty then .error .empty else .ok (String.ofList text)

def ask (network : Network) (s : Service) (r : Request) (client : Client := .plain) : Reply := do
  let call ← s.call client r
  match network call with
  | none => .error (@Failure.unreachable (client.unreachable call))
  | some answer => reading client answer

end Service
end ShaderBench.Assistant
