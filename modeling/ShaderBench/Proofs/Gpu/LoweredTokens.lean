import ShaderBench.Proofs.Gpu.Controls
import ShaderBench.Proofs.Shader.Commented
import ShaderBench.Proofs.Shader.ZeroTokens
/-
The tokens of a lowered program. Where the declarations of the members are statements by themselves,
lowering takes their tokens away and puts those of the block in the place of the mark.
-/
namespace ShaderBench.Gpu
open Shader Param Text

def closesStatement (t : Token) : Bool := t.isPunct ';' || t.isPunct '{' || t.isPunct '}'

/-- Whether the last token before a declaration lets a statement begin. -/
def beginsStatement (d : Declaration) (source : List Char) : Bool :=
  ((tokens source).filter fun t => t.start < d.start).getLast?.any closesStatement

/-- Whether a declaration is a statement by itself, with no directive sign behind it on its last
    line. -/
def Removable (source : List Char) (d : Declaration) : Prop :=
  beginsStatement d source ∧ firstSolid (d.after source) ≠ some '#'

instance (source : List Char) (d : Declaration) : Decidable (Removable source d) :=
  inferInstanceAs (Decidable (_ ∧ _))

theorem no_slash_before {d : Declaration} {source : List Char} (begins : beginsStatement d source)
    {t : Token} (listed : t ∈ tokens source) (slash : t.isPunct '/') : t.stop ≠ d.start := by
  intro meets
  obtain ⟨_, text⟩ := isPunct_iff.mp slash
  have one : t.stop = t.start + 1 := by
    rw [Token.stop, text]
    rfl
  have listed' : t ∈ (tokens source).filter fun t => t.start < d.start :=
    List.mem_filter.mpr ⟨listed, by simp only [decide_eq_true_eq]; omega⟩
  have ordered := (Apart.ordered (tokens_apart source)).sublist
    (List.filter_sublist (p := fun t : Token => t.start < d.start))
  obtain ⟨last, ends, closes⟩ := (Option.any_eq_true _ _).mp begins
  have early : last.start < d.start := by
    simpa using (List.mem_filter.mp (List.mem_of_getLast? ends)).2
  obtain ⟨front, parts⟩ := List.getLast?_eq_some_iff.mp ends
  rw [parts] at listed' ordered
  rcases List.mem_append.mp listed' with inside | here
  · -- The slash ends where the declaration begins, so no other token comes between them.
    have order := (List.pairwise_append.mp ordered).2.2 t inside last List.mem_cons_self
    omega
  · rw [List.mem_singleton.mp here] at text
    simp [closesStatement, Token.isPunct, text] at closes

/- The comments. -/

theorem outside_comments (program : List Char) (ms : List Member) (t : Token) :
    outside (comments program ms) t = (ms.map Member.declaration).all fun d => !among d t := by
  apply outside_eq
  rw [comments_span, List.map_map]
  rfl

theorem comments_commented {program : List Char} {position : Nat}
    (removable : ∀ m ∈ members position program, Removable program m.declaration) {e : Edit}
    (listed : e ∈ comments program (members position program)) {before old after : List Char}
    (text : program = before ++ old ++ after) (first : e.start = byteLength before)
    (last : e.stop = e.start + byteLength old) : Commented before old after e.text := by
  obtain ⟨m, member, span, inner, starless, _, comment⟩ :=
    comments_block (fun m member => declarations_name (members_declared member).1) listed
  obtain ⟨begins, solid⟩ := removable m member
  have declared := (members_declared member).1
  simp only [Edit.span, Declaration.span, Prod.mk.injEq] at span
  rw [span.1] at first last
  rw [span.2] at last
  subst text
  refine commented_of_declared declared first last
    (fun t listed' slash => no_slash_before begins listed' slash) ?_
  rw [comment]
  exact .block inner _ starless (.inr solid)

/- The block. -/

def Calm (s : String) : Prop := ∀ c ∈ s.toList, calm c

instance (s : String) : Decidable (Calm s) := List.decidableBAll _ _

theorem Calm.append {s t : String} (first : Calm s) (last : Calm t) : Calm (s ++ t) := by
  intro c listed
  rw [String.toList_append] at listed
  rcases List.mem_append.mp listed with here | there
  · exact first c here
  · exact last c there

theorem calm_join {lines : List String} (each : ∀ line ∈ lines, Calm line) :
    Calm (String.join lines) := by
  intro c listed
  rw [String.toList_join] at listed
  obtain ⟨line, member, inside⟩ := List.mem_flatMap.mp listed
  exact each line member c inside

theorem MemberType.glslName_calm (t : MemberType) : Calm t.glslName := by
  cases t <;> decide

theorem slotName_calm {ms : List Member}
    (named : ∀ m ∈ ms, ∀ c ∈ m.declaration.name.toList, continuesName c) {s : Slot}
    (listed : s ∈ (layoutOf ms).slots) : Calm s.name := by
  intro c inside
  have name : s.name ∈ (ms.map fun m => m.declaration.name).dedup := by
    rw [← names_layoutOf]
    exact List.mem_map_of_mem listed
  obtain ⟨m, member, same⟩ := List.mem_map.mp (List.mem_dedup.mp name)
  rw [← same] at inside
  exact calm_of_word (isWord_of_continuesName (named m member c inside))

theorem line_calm {ms : List Member}
    (named : ∀ m ∈ ms, ∀ c ∈ m.declaration.name.toList, continuesName c) {s : Slot}
    (listed : s ∈ (layoutOf ms).slots) : Calm s!"    {s.type.glslName} {s.name};\n" := by
  have indent : Calm "    " := by decide
  have space : Calm " " := by decide
  have ends : Calm ";\n" := by decide
  exact (((indent.append s.type.glslName_calm).append space).append
    (slotName_calm named listed)).append ends

theorem blockOf_calm {ms : List Member}
    (named : ∀ m ∈ ms, ∀ c ∈ m.declaration.name.toList, continuesName c) :
    ∃ x, blockOf ms = x ++ [';'] ∧ ∀ c ∈ x, calm c := by
  have opening : Calm s!"layout(set = {blockSet}, binding = {blockBinding}) uniform Params \x7b\n" := by
    decide
  have closing : Calm "\x7d" := by decide
  have lines : ∀ line ∈ (if (layoutOf ms).slots.isEmpty then ["    float shaderlab_unused;\n"]
      else (layoutOf ms).slots.map fun s => s!"    {s.type.glslName} {s.name};\n"), Calm line := by
    intro line listed
    split at listed
    · rw [List.mem_singleton.mp listed]
      decide
    · obtain ⟨slot, member, same⟩ := List.mem_map.mp listed
      rw [← same]
      exact line_calm named member
  have parts : ∀ s : String, (s ++ "\x7d;").toList = (s ++ "\x7d").toList ++ [';'] := by
    intro s
    rw [String.toList_append, String.toList_append, List.append_assoc]
    rfl
  exact ⟨_, parts _, (opening.append (calm_join lines)).append closing⟩

theorem contents_semicolon {x : List Char} (quiet : ∀ c ∈ x, calm c) (rest : List Char) :
    contents (roles .start (x ++ [';'] ++ rest)) =
      contents (roles .start (x ++ [';'])) ++ contents (roles ⟨.between false, .empty⟩ rest) := by
  have settled := settled_after (s := .start) quiet (.inr rfl) (some ';')
  have active : (ReadState.start.after x (some ';')).region.active := by
    rw [← Region.active_settled, settled]
    rfl
  have state : ReadState.start.after (x ++ [';']) rest.head? = ⟨.between false, .empty⟩ := by
    rw [ReadState.after_append]
    change (ReadState.start.after x (some ';')).next ';' rest.head? = _
    rw [next_semicolon, settled]
    rfl
  have same : ∀ next, rolesBefore next .start (x ++ [';']) =
      rolesBefore (some ';') .start x ++ [(';', .opens .punct)] := by
    intro next
    rw [rolesBefore_append]
    simp only [rolesBefore, List.head?_cons, List.head?_nil, Option.some_or, Option.none_or,
      read_mark (c := ';') (by decide) active]
  rw [roles_append, state, contents_append _ _ (after_fresh (.inl ⟨false, rfl⟩) rest), same,
    ← rolesBefore_end .start, same]

/- The whole program. -/

theorem mark_read :
    contents (rolesBefore (some '\n') .start parameterMark.toList) = [] ∧
      (ReadState.start.after parameterMark.toList (some '\n')).region = .lineComment := by
  decide

theorem tokens_parted {before after : List Char} (inert : Inert before)
    (whole : ∀ c ∈ before.getLast?, c = '\n') (line : after.head? = some '\n') :
    tokens (before ++ parameterMark.toList ++ after) =
      tokens before ++ gather (byteLength (before ++ parameterMark.toList))
        (roles (ReadState.start.after (before ++ parameterMark.toList) after.head?) after) := by
  obtain ⟨none, region⟩ := mark_read
  have state : ReadState.start.after before (parameterMark.toList.head?.or (some '\n')) = .start :=
    (inert _).1
  have fresh : ∀ p ∈ (roles (ReadState.start.after (before ++ parameterMark.toList)
      after.head?) after).head?, p.2 ≠ .continues := by
    apply after_fresh
    rw [line, ReadState.after_append, state]
    exact .inr region
  have empty : gather (0 + byteLength before)
      (rolesBefore (some '\n') .start parameterMark.toList) = [] := by
    rw [← List.map_eq_nil_iff (f := Token.content), content_gather]
    exact none
  rw [tokens, roles_append, gather_append _ _ _ fresh, map_fst_rolesBefore, Nat.zero_add, line,
    rolesBefore_append, state, gather_append _ _ _ (rolesBefore_start_fresh _ _),
    map_fst_rolesBefore, empty, List.append_nil, rolesBefore_breaks whole _ _ Option.none,
    rolesBefore_end]
  rfl

/-- The tokens of a program that are in none of some declarations and not before a position. -/
def tokensWithout (program : List Char) (position : Nat) (ds : List Declaration) : List Token :=
  (tokens program).filter fun t => position ≤ t.start && ds.all fun d => !among d t

theorem filter_gather {position : Nat} {s : ReadState} {x : List Char} {keep : Token → Bool}
    (front : List Token) (early : ∀ t ∈ front, t.start < position) :
    (front ++ gather position (roles s x)).filter (fun t => position ≤ t.start && keep t) =
      (gather position (roles s x)).filter keep := by
  have none : front.filter (fun t => decide (position ≤ t.start) && keep t) = [] := by
    refine List.filter_eq_nil_iff.mpr fun t listed => ?_
    have before := early t listed
    simp [Nat.not_le_of_lt before]
  rw [List.filter_append, none, List.nil_append]
  refine List.filter_congr fun t listed => ?_
  have late := (gather_bounds listed).1
  simp [late]

/-- Lowering takes the tokens of removable declarations away and adds those of the block. -/
theorem tokenTexts_lowered {program before after : List Char}
    (split : splitAround? parameterMark.toList program = some (before, after)) (inert : Inert before)
    (whole : ∀ c ∈ before.getLast?, c = '\n') (line : after.head? = some '\n') :
    let position := byteLength before + byteLength parameterMark.toList
    let found := members position program
    (∀ m ∈ found, Removable program m.declaration) →
    tokenTexts (rewritten (loweredPieces program)) =
      tokenTexts before ++ tokenTexts (blockOf found) ++
        (tokensWithout program position (found.map Member.declaration)).map Token.content := by
  intro position found removable
  have text := splitAround?_eq split
  have place : byteLength (before ++ parameterMark.toList) = position := byteLength_append _ _
  have apart := comments_apart (before ++ parameterMark.toList) after
  rw [place, ← text] at apart
  obtain ⟨x, block, quiet⟩ := @blockOf_calm found
    fun m member => declarations_name (members_declared member).1
  -- After the mark's line the program is read as after the block.
  have agree : Agree after (ReadState.start.after (before ++ parameterMark.toList) after.head?)
      ⟨.between false, .empty⟩ := by
    refine .passing ?_ (.inl ⟨false, rfl⟩) ?_
    · rw [line, ReadState.after_append, (inert _).1]
      exact .inr mark_read.2
    · cases after with
      | nil => cases line
      | cons c after =>
        cases line
        intro c listed
        cases listed
  have later := @contents_commented (before ++ parameterMark.toList) after _
    (comments program found) (by rw [place]; exact apart) agree
    (fun e listed before' old after' parts =>
      comments_commented removable listed (text.trans parts))
  have early : ∀ t ∈ tokens before, t.start < position := by
    intro t listed
    have bounds := gather_bounds listed
    rw [map_fst_roles] at bounds
    omega
  have kept : tokensWithout program position (found.map Member.declaration) =
      (gather position (roles (ReadState.start.after (before ++ parameterMark.toList) after.head?)
        after)).filter (outside (comments program found)) := by
    rw [tokensWithout, text, tokens_parted inert whole line, place, filter_gather _ early]
    congr 1
    funext t
    rw [outside_comments]
  rw [place] at later
  rw [(loweredPieces_split split).1, rewritten_append, rewritten_untouched, rewritten_cons, Piece.new]
  change tokenTexts (before ++ (blockOf found ++ _)) = _
  rw [tokenTexts, tokens, content_gather, roles_append, (inert _).1,
    contents_append _ _ (roles_start_fresh _), block, contents_semicolon quiet, later, ← kept,
    rolesBefore_breaks whole _ _ none, rolesBefore_end, List.append_assoc]
  rfl

theorem tokens_before {before after : List Char} (inert : Inert before)
    (whole : ∀ c ∈ before.getLast?, c = '\n') (line : after.head? = some '\n') :
    (tokens (before ++ parameterMark.toList ++ after)).filter (fun t => t.start < byteLength before) =
      tokens before := by
  have kept : (tokens before).filter (fun t => t.start < byteLength before) = tokens before := by
    refine List.filter_eq_self.mpr fun t listed => ?_
    have bounds := gather_bounds listed
    rw [map_fst_roles, Nat.zero_add] at bounds
    exact decide_eq_true bounds.2
  rw [tokens_parted inert whole line, List.filter_append, kept]
  refine List.append_right_eq_self.mpr (List.filter_eq_nil_iff.mpr fun t listed => ?_)
  have bounds := gather_bounds listed
  rw [byteLength_append] at bounds
  simp only [decide_eq_true_eq]
  omega

def MembersRemovable (program : List Char) : Prop :=
  ∀ before after, splitAround? parameterMark.toList program = some (before, after) →
    ∀ m ∈ members (byteLength before + byteLength parameterMark.toList) program,
      Removable program m.declaration

theorem Removable.moved {x y : List Char} {d : Declaration} (inert : Inert x)
    (removable : Removable y d) : Removable (x ++ y) (d.moved (byteLength x)) := by
  obtain ⟨begins, solid⟩ := removable
  have after : (d.moved (byteLength x)).after (x ++ y) = d.after y := by
    rw [Declaration.after, Declaration.moved, cutAt?_past, Option.map_map]
    rfl
  refine ⟨?_, by rw [after]; exact solid⟩
  obtain ⟨last, ends, closes⟩ := (Option.any_eq_true _ _).mp begins
  have moved : (((tokens y).map (Token.moved (byteLength x))).filter
      fun t => t.start < (d.moved (byteLength x)).start) =
      ((tokens y).filter fun t => t.start < d.start).map (Token.moved (byteLength x)) := by
    rw [List.filter_map]
    congr 1
    refine List.filter_congr fun t _ => ?_
    simp [Declaration.moved]
  rw [beginsStatement, inert.tokens, List.filter_append, moved, List.getLast?_append,
    List.getLast?_map, ends]
  exact closes

theorem membersRemovable_assemble {document : List Char}
    (each : ∀ d ∈ declarations (body document), Removable (body document) d) :
    MembersRemovable (assemble document) := by
  intro before after _ m member
  have declared := (members_declared member).1
  rw [declarations_assemble] at declared
  obtain ⟨d, listed, same⟩ := List.mem_map.mp declared
  rw [← same, assemble_eq]
  exact (each d listed).moved header_inert

/-- A program is lowered to its own tokens without those of its members' declarations, and with
    those of the block in the place of the mark. The block has one member for each name, in the
    order of the names' last declarations and with their types. -/
def MovesMembers (program : List Char) : Prop :=
  ∃ before after lowered,
    splitAround? parameterMark.toList program = some (before, after) ∧
    lower program = .ok lowered ∧
    let position := byteLength before + byteLength parameterMark.toList
    let found := members position program
    tokenTexts lowered.glsl =
      ((tokens program).filter fun t => t.start < byteLength before).map Token.content ++
        tokenTexts (lowered.layout.declaration 0 1).toList ++
        (tokensWithout program position (found.map Member.declaration)).map Token.content ∧
    lowered.layout.slots.map Slot.name = (found.map fun m => m.declaration.name).dedup ∧
    ∀ s ∈ lowered.layout.slots, lastNamed s.name (found.map Member.entry) = some s.type

theorem lowering_moves_members {document : List Char}
    (removable : MembersRemovable (assemble document)) : MovesMembers (assemble document) := by
  obtain ⟨before, after, inert, whole, text, parted⟩ := assemble_parted
  have split := parted document
  obtain ⟨lowered, made, glsl, layout, _⟩ := lowered_parts document
  have early : byteLength before + byteLength parameterMark.toList ≤ byteLength header := by
    rw [text, byteLength_append, byteLength_append]
    omega
  refine ⟨before, _, lowered, split, made, ?_⟩
  rw [glsl, layout, ← members_assemble document early]
  refine ⟨?_, names_layoutOf _, fun s listed => type_layoutOf listed⟩
  rw [splitAround?_eq split, tokens_before inert whole rfl, ← splitAround?_eq split]
  exact tokenTexts_lowered split inert whole rfl (removable _ _ split)

theorem lowering_moves_gain_and_tint :
    MembersRemovable (assemble
      "float x;\nuniform float gain;\nuniform int gain\n= 3; uniform float3 tint;\n".toList) ∧
    shared (body
      "float x;\nuniform float gain;\nuniform int gain\n= 3; uniform float3 tint;\n".toList) =
      [("gain", .float), ("gain", .int), ("tint", .vec3)] ∧
    MovesMembers (assemble
      "float x;\nuniform float gain;\nuniform int gain\n= 3; uniform float3 tint;\n".toList) := by
  have removable : MembersRemovable (assemble
      "float x;\nuniform float gain;\nuniform int gain\n= 3; uniform float3 tint;\n".toList) :=
    membersRemovable_assemble (by decide +kernel)
  exact ⟨removable, by decide +kernel, lowering_moves_members removable⟩

end ShaderBench.Gpu
