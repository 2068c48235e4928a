import ShaderBench.Json.Write
import ShaderBench.Number.Decimal
import ShaderBench.Param.Basic
/-
Parameters as text, in messages and in JSON, and their adjustment by steps of one component.
-/
namespace ShaderBench.Param

def Kind.name : Kind → String
  | .scalar => "Scalar"
  | .vector2 => "Vector2"
  | .vector3 => "Vector3"
  | .color => "Color"
  | .boolean => "Boolean"

def detailedText (x : Single) : String := String.ofList (x.write .detailed)

def Value.detailed : Value → String
  | .scalar x => s!"Scalar({detailedText x})"
  | .vector2 x y => s!"Vector2([{detailedText x}, {detailedText y}])"
  | .vector3 x y z => s!"Vector3([{detailedText x}, {detailedText y}, {detailedText z}])"
  | .boolean b => if b then "Boolean(true)" else "Boolean(false)"

def Refusal.message : Refusal → String
  | .unknown name => "no parameter named '" ++ name ++ "'"
  | .mismatch name kind value =>
    s!"value {value.detailed} does not fit parameter '{name}' of type {kind.name}"

/-- In JSON numbers are positional from 0.000001 and below 10^13; an exponent shows its sign. -/
def jsonNumber : Number.NumberStyle := ⟨some (-6), some 12, true, true, .toEven⟩

def toJson (x : Single) : Json :=
  if x.isNaN || x.isInfinite then .null else .number (x.write jsonNumber)

def Value.toJson : Value → Json
  | .scalar x => Param.toJson x
  | .vector2 x y => .array [Param.toJson x, Param.toJson y]
  | .vector3 x y z => .array [Param.toJson x, Param.toJson y, Param.toJson z]
  | .boolean b => .bool b

def Parameter.toJson (p : Parameter) : Json :=
  .object <|
    [("name", .string p.name.toList), ("semantic_type", .string p.kind.name.toList),
      ("value", p.value.toJson), ("default", p.default.toJson)] ++
    match p.range with
    | some r => [("range", .array [Param.toJson r.low, Param.toJson r.high])]
    | none => []

def listJson (ps : List Parameter) : Json := .array (ps.map Parameter.toJson)

inductive Direction where
  | up
  | down
  deriving DecidableEq, Repr

def Direction.apply (d : Direction) (step : Single) : Single :=
  match d with
  | .up => step
  | .down => -step

def vectorStep : Single := .ofDecimal 5 (-2)

/-- The share of its range by which a scalar moves. -/
def scalarShare : Single := .ofDecimal 1 (-2)

def unitRange : Range := ⟨.zero, .ofNat 1⟩

def Kind.components : Kind → Nat
  | .scalar | .boolean => 1
  | .vector2 => 2
  | .vector3 | .color => 3

inductive Adjusted where
  | unchanged
  | changed (p : Parameter)
  | badRange
  deriving DecidableEq, Repr

def stepComponent (kind : Kind) (d : Direction) (x : Single) : Single :=
  let moved := x + d.apply vectorStep
  if kind = .color then (moved.clamp? .zero (.ofNat 1)).getD moved else moved

def stepAt (kind : Kind) (d : Direction) (component number : Nat) (x : Single) : Single :=
  if component = number then stepComponent kind d x else x

/-- The value after one step; none if it does not have the shape of its kind. -/
def nextValue? (p : Parameter) (component : Nat) (d : Direction) : Option (Option Value) :=
  let step := stepAt p.kind d component
  match p.kind, p.value with
  | .scalar, .scalar x =>
    let r := p.range.getD unitRange
    some (((x + d.apply ((r.high - r.low) * scalarShare)).clamp? r.low r.high).map .scalar)
  | .vector2, .vector2 x y => some (some (.vector2 (step 0 x) (step 1 y)))
  | .vector3, .vector3 x y z | .color, .vector3 x y z =>
    some (some (.vector3 (step 0 x) (step 1 y) (step 2 z)))
  | .boolean, .boolean b => some (some (.boolean !b))
  | _, _ => none

def Parameter.adjust (p : Parameter) (component : Nat) (d : Direction) : Adjusted :=
  match nextValue? p component d with
  | none => .unchanged
  | some none => .badRange
  | some (some v) => if v.same p.value then .unchanged else .changed { p with value := v }

def placesText (x : Single) : String := String.ofList (x.writeFixed 2)

def displayText (x : Single) : String := String.ofList (x.write .display)

def componentTexts (selected : Option Nat) (number : Nat) : List Single → List String
  | [] => []
  | x :: xs =>
    (if selected = some number then s!"[{placesText x}]" else placesText x) ::
      componentTexts selected (number + 1) xs

def componentsText (v : Value) (selected : Option Nat) : String :=
  String.intercalate ", " (componentTexts selected 0 v.components)

def Parameter.describe (p : Parameter) (selected : Option Nat) : String :=
  match p.kind, p.value with
  | .scalar, .scalar x =>
    match p.range with
    | some r => s!"{p.name} {placesText x} ({displayText r.low}..{displayText r.high})"
    | none => s!"{p.name} {placesText x}"
  | .color, v => s!"{p.name} rgb({componentsText v selected})"
  | .vector2, v | .vector3, v => s!"{p.name} ({componentsText v selected})"
  | .boolean, .boolean b => p.name ++ if b then " on" else " off"
  | _, v => s!"{p.name} {v.detailed}"

end ShaderBench.Param
