import ShaderBench.Number.Decimal
import ShaderBench.Param.Basic
import ShaderBench.Shader.Declaration
/-
The parameters that a document declares, with the defaults that their initializers give.
-/
namespace ShaderBench.Param
open Shader

def numberOf? (text : List Char) : Option Single :=
  Single.read? (text.reverse.dropWhile fun c => c = 'f' || c = 'F').reverse

inductive Expecting where
  | number (negative : Bool)
  | comma
  deriving DecidableEq, Repr

/-- Numbers between commas; before each stand any number of plus signs and at most one minus,
    which is the last of the signs. -/
def numbersFrom : Expecting → List Token → Option (List Single)
  | .comma, [] => some []
  | .number _, [] => none
  | .number negative, t :: ts =>
    if t.isPunct '-' && !negative then numbersFrom (.number true) ts
    else if t.isPunct '+' && !negative then numbersFrom (.number false) ts
    else if t.kind = .number then do
      let x ← numberOf? t.text
      let xs ← numbersFrom .comma ts
      some ((if negative then -x else x) :: xs)
    else none
  | .comma, t :: ts => if t.isPunct ',' then numbersFrom (.number false) ts else none

def numbers? (ts : List Token) : Option (List Single) := numbersFrom (.number false) ts

def arguments? : List Token → Option (List Token)
  | opening :: rest =>
    if opening.isPunct '(' && (rest.getLast?.any fun t => t.isPunct ')') then some rest.dropLast
    else none
  | [] => none

def constructs : UniformType → Kind → Bool
  | .float2, .vector2 => true
  | .float3, .vector3 | .float3, .color => true
  | _, _ => false

def Kind.ofNumbers? : Kind → List Single → Option Value
  | .scalar, [x] => some (.scalar x)
  | .vector2, [x] => some (.vector2 x x)
  | .vector2, [x, y] => some (.vector2 x y)
  | .vector3, [x] | .color, [x] => some (.vector3 x x x)
  | .vector3, [x, y, z] | .color, [x, y, z] => some (.vector3 x y z)
  | _, _ => none

def literal? (kind : Kind) (initializer : List Char) : Option Value := do
  let ts := tokens initializer
  let first ← ts.head?
  let xs ← if first.isIdent then do
      let type ← UniformType.ofName? (String.ofList first.text)
      let inside ← arguments? ts.tail
      if constructs type kind then numbers? inside else none
    else numbers? ts
  kind.ofNumbers? xs

def suggestsColor (name : String) : Bool :=
  Text.occurs "col".toList (name.toList.map Char.toLower)

def kindOf? (type : UniformType) (name : String) : Option Kind :=
  match type with
  | .float => some .scalar
  | .float2 => some .vector2
  | .float3 => some (if suggestsColor name then .color else .vector3)
  | .float4 | .int | .uint | .bool => none

def ofDeclaration? (seeding : Bool) (d : Declaration) : Option Parameter := do
  if isReserved d.name then none
  let type ← UniformType.ofName? d.typeName
  let kind ← kindOf? type d.name
  let plain := Parameter.ofKind d.name kind
  some <| match seeding, d.initializer.bind (literal? kind) with
    | true, some v => plain.seed v
    | _, _ => plain

def place (ps : List Parameter) (p : Parameter) : List Parameter :=
  if ps.any fun q => q.name = p.name then ps.map fun q => if q.name = p.name then p else q
  else ps ++ [p]

/-- The editable parameters of a document, in the order of their first declarations; the last
    declaration of a name decides. -/
def extract (seeding : Bool) (document : List Char) : List Parameter :=
  ((declarations document).filterMap (ofDeclaration? seeding)).foldl place []

end ShaderBench.Param
