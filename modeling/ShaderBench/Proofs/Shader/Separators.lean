import ShaderBench.Proofs.Shader.Semantics
/-
Colons. A colon separates the alternatives of a conditional, ends a label, or begins the mark that
binds a value to a pipeline slot. Which of these it is shows only from the tokens before it; the
semantics are removed by what follows the colon alone.
-/
namespace ShaderBench.Shader
open Text

inductive Opening where
  | conditional
  | label
  | bracket
  deriving DecidableEq, Repr

def Token.isLabel (t : Token) : Bool :=
  t.isIdent && (t.text = "case".toList || t.text = "default".toList)

def Token.opensBracket (t : Token) : Bool := t.isPunct '(' || t.isPunct '[' || t.isPunct '{'

def Token.closesBracket (t : Token) : Bool := t.isPunct ')' || t.isPunct ']' || t.isPunct '}'

/-- What is open after a token other than a colon. A closing bracket and the end of a statement
    leave nothing open that was begun inside. -/
def openAfter (opened : List Opening) (t : Token) : List Opening :=
  if t.isLabel then .label :: opened
  else if t.isPunct '?' then .conditional :: opened
  else if t.opensBracket then .bracket :: opened
  else if t.closesBracket then (opened.dropWhile (· ≠ .bracket)).tail
  else if t.isPunct ';' then opened.dropWhile (· ≠ .bracket)
  else opened

def dropScopes : List Token → List Token
  | t :: u :: ts =>
    if t.isPunct ':' && u.isPunct ':' && u.start = t.stop then dropScopes ts
    else t :: dropScopes (u :: ts)
  | ts => ts

def separators (opened : List Opening) : List Token → List Token
  | [] => []
  | t :: ts =>
    if t.isPunct ':' then
      match opened with
      | .conditional :: outer | .label :: outer => t :: separators outer ts
      | _ => separators opened ts
    else separators (openAfter opened t) ts

example :
    (separators [] (dropScopes (tokens
      "case n ? (a ? b : c) : d: x = s::y; default: f(float4 p : COLOR);".toList))).map
        Token.start = [16, 21, 24, 43] := by
  decide +kernel

def Separates (before after : List Char) : Prop :=
  ∃ t ∈ separators [] (dropScopes (tokens (before ++ ':' :: after))), t.start = byteLength before

/-- A colon and the text up to the next one come through, between what the text before it and the
    text from the next colon on come to by themselves. -/
def Spared (before after : List Char) : Prop :=
  stripSemantics (before ++ ':' :: after) =
    stripSemantics before ++
      ':' :: (after.takeWhile (· ≠ ':') ++ stripSemantics (after.dropWhile (· ≠ ':')))

def SeparatorsSpared (source : List Char) : Prop :=
  ∀ before after, source = before ++ ':' :: after → Separates before after → Spared before after

theorem spared_iff {before after : List Char} :
    Spared before after ↔ ¬ BeginsSemantic after := by
  rw [beginsSemantic_iff, Spared, stripSemantics_append, List.append_cancel_left_eq]
  constructor
  · rintro spared ⟨rest, found⟩
    obtain ⟨semantic, text, is, _⟩ := afterSemantic?_some.mp found
    have all : ∀ c ∈ semantic, decide (c ≠ ':') = true := by
      intro c member
      rw [decide_eq_true_eq]
      intro colon
      exact is.colonless (colon ▸ member)
    -- Up to the next colon at least the semantic is missing.
    rw [stripSemantics_found found, stripSemantics_upToColon rest, text,
      List.takeWhile_append_of_pos all, List.dropWhile_append_of_pos all] at spared
    have lengths := congrArg List.length spared
    simp only [List.length_append, List.length_cons] at lengths
    omega
  · intro none
    have missed : afterSemantic? (':' :: after) = Option.none := by
      by_contra found
      exact none (Option.ne_none_iff_exists'.mp found)
    rw [stripSemantics_none missed]
    exact congrArg (List.cons ':') (stripSemantics_upToColon after)

/-- The colons of conditionals and labels come through with the text behind them exactly if none of
    them has the name of a semantic behind it, as a word up to its digits. -/
theorem separators_spared_iff (source : List Char) :
    SeparatorsSpared source ↔
      ∀ before after, source = before ++ ':' :: after → Separates before after →
        ¬ BeginsSemantic after := by
  constructor
  · intro spared before after text separates
    exact spared_iff.mp (spared before after text separates)
  · intro free before after text separates
    exact spared_iff.mpr (free before after text separates)

theorem operand_stripped : ¬ SeparatorsSpared "float3 c = flag ? base : color;".toList := by
  intro spared
  have here := spared "float3 c = flag ? base ".toList " color;".toList (by decide)
    (by unfold Separates; decide +kernel)
  apply spared_iff.mp here
  refine ⟨" color".toList, ";".toList, by decide, ⟨[' '], "color".toList, [], by decide, ?_⟩, by decide⟩
  exact ⟨List.forall_mem_singleton.mpr (by decide), by decide, fun c none => nomatch none⟩

end ShaderBench.Shader
