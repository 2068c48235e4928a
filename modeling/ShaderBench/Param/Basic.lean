import ShaderBench.Number.Single
/-
Parameters of a shader: what kind of control each has, its live and default values, and how the
live values outlast a change of the document.
-/
namespace ShaderBench.Param

inductive Kind where
  | scalar
  | vector2
  | vector3
  | color
  | boolean
  deriving DecidableEq, Repr

inductive Value where
  | scalar (x : Single)
  | vector2 (x y : Single)
  | vector3 (x y z : Single)
  | boolean (b : Bool)
  deriving DecidableEq, Repr

def Value.components : Value → List Single
  | .scalar x => [x]
  | .vector2 x y => [x, y]
  | .vector3 x y z => [x, y, z]
  | .boolean b => [if b then .ofNat 1 else .zero]

def Value.same : Value → Value → Bool
  | .scalar x, .scalar x' => x.same x'
  | .vector2 x y, .vector2 x' y' => x.same x' && y.same y'
  | .vector3 x y z, .vector3 x' y' z' => x.same x' && y.same y' && z.same z'
  | .boolean b, .boolean b' => b = b'
  | _, _ => false

def Value.fits : Value → Kind → Bool
  | .scalar _, .scalar => true
  | .vector2 _ _, .vector2 => true
  | .vector3 _ _ _, .vector3 | .vector3 _ _ _, .color => true
  | .boolean _, .boolean => true
  | _, _ => false

structure Range where
  low : Single
  high : Single
  deriving DecidableEq, Repr

structure Parameter where
  name : String
  kind : Kind
  value : Value
  default : Value
  range : Option Range
  deriving DecidableEq, Repr

def half : Single := .ofDecimal 5 (-1)

def Kind.defaultValue : Kind → Value
  | .scalar => .scalar half
  | .vector2 => .vector2 half half
  | .vector3 => .vector3 half half half
  | .color => .vector3 (.ofNat 1) half (.ofDecimal 2 (-1))
  | .boolean => .boolean false

def Kind.defaultRange : Kind → Option Range
  | .scalar => some ⟨.zero, .ofNat 5⟩
  | _ => none

def Parameter.ofKind (name : String) (kind : Kind) : Parameter :=
  ⟨name, kind, kind.defaultValue, kind.defaultValue, kind.defaultRange⟩

def Range.widen (r : Range) (x : Single) : Range := ⟨r.low.min x, r.high.max x⟩

/-- Takes a value that fits as the new default and live value; the range of a scalar grows to
    hold it. -/
def Parameter.seed (p : Parameter) (v : Value) : Parameter :=
  if v.fits p.kind then
    let range := match v, p.range with
      | .scalar x, some r => some (r.widen x)
      | _, r => r
    { p with value := v, default := v, range := range }
  else p

inductive Refusal where
  | unknown (name : String)
  | mismatch (name : String) (kind : Kind) (value : Value)
  deriving DecidableEq, Repr

def Parameter.set (p : Parameter) (v : Value) : Except Refusal Parameter :=
  if v.fits p.kind then .ok { p with value := v } else .error (.mismatch p.name p.kind v)

def Parameter.reset (p : Parameter) : Parameter := { p with value := p.default }

def setNamed (name : String) (v : Value) : List Parameter → Except Refusal (List Parameter)
  | [] => .error (.unknown name)
  | p :: ps =>
    if p.name = name then (p.set v).map (· :: ps) else (setNamed name v ps).map (p :: ·)

/-- Carries live values over to newly extracted parameters of the same name and kind. -/
def reconcile (previous extracted : List Parameter) : List Parameter :=
  extracted.map fun p =>
    match previous.find? fun old => old.name = p.name && old.kind = p.kind with
    | some old => { p with value := old.value }
    | none => p

end ShaderBench.Param
