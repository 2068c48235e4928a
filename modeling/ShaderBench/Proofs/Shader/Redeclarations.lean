import ShaderBench.Proofs.Shader.Commented
import ShaderBench.Proofs.Shader.DeclaredNames
import ShaderBench.Proofs.Shader.Preamble
/-
Declarations of the host's inputs. They are taken out in one pass, so that the words before one and
those after it may come to stand side by side and declare it again.
-/
namespace ShaderBench.Shader
open Text

/-- Whether some tokens, the last one first, end in a keyword with fewer than so many names after
    it: more of a declaration may follow. -/
def openHead : Nat → List Token → Bool
  | 0, _ => false
  | _ + 1, [] => false
  | n + 1, t :: ts => t.isKeyword || t.isIdent && openHead n ts

theorem openHead_append {n : Nat} {ts : List Token} (opened : openHead n ts) (us : List Token) :
    openHead n (ts ++ us) := by
  induction n generalizing ts with
  | zero => cases opened
  | succ n ih =>
    cases ts with
    | nil => cases opened
    | cons t ts =>
      simp only [openHead, Bool.or_eq_true, Bool.and_eq_true] at opened
      simp only [List.cons_append, openHead, Bool.or_eq_true, Bool.and_eq_true]
      rcases opened with here | ⟨ident, later⟩
      · exact .inl here
      · exact .inr ⟨ident, ih later⟩

theorem filter_first {keep : Token → Bool} {ts rest : List Token} {a : Token}
    (same : ts.filter keep = a :: rest) (stays : ∀ y zs, ts = y :: zs → keep y = true) :
    ∃ zs, ts = a :: zs ∧ keep a ∧ zs.filter keep = rest := by
  cases ts with
  | nil => cases same
  | cons y zs =>
    have kept := stays y zs rfl
    rw [List.filter_cons_of_pos kept] at same
    cases same
    exact ⟨zs, rfl, kept, rfl⟩

theorem exists_semicolon {ts : List Token} {t : Token} (listed : t ∈ ts) (ends : t.isPunct ';') :
    ∃ c later, (ts.dropWhile fun t => !t.isPunct ';') = c :: later ∧ c.isPunct ';' := by
  cases dropped : ts.dropWhile fun t => !t.isPunct ';' with
  | nil =>
    have every := List.dropWhile_eq_nil_iff.mp dropped t listed
    rw [ends] at every
    cases every
  | cons c later =>
    have first := List.head?_dropWhile_not (fun t : Token => !t.isPunct ';') ts
    rw [dropped] at first
    exact ⟨c, later, rfl, by simpa using first⟩

section Filtered
variable {source : List Char} {t : Token} {ts : List Token} {keep : Token → Bool}

theorem opening_kept (keyword : t.isKeyword)
    (first : ∀ xs y zs, ts = xs ++ y :: zs → (∀ x ∈ xs, keep x) → keep y = false →
      openHead 3 (xs.reverse ++ [t]) = false ∧ y.isIdent)
    {type name mark : Token} {rest : List Token}
    (left : ts.filter keep = type :: name :: mark :: rest) (word : type.isIdent)
    (word' : name.isIdent) :
    ∃ zs, ts = type :: name :: mark :: zs ∧ zs.filter keep = rest ∧
      ∀ y zs', zs = y :: zs' → keep y = false → y.isIdent := by
  obtain ⟨ts₁, same₁, kept₁, left₁⟩ := filter_first left fun y zs same => by
    by_contra gone
    have shut := (first [] y zs same (by simp) (Bool.eq_false_iff.mpr gone)).1
    simp [openHead, keyword] at shut
  obtain ⟨ts₂, same₂, kept₂, left₂⟩ := filter_first left₁ fun y zs same => by
    by_contra gone
    have shut := (first [type] y zs (by rw [same₁, same]; rfl) (by simpa using kept₁)
      (Bool.eq_false_iff.mpr gone)).1
    simp [openHead, keyword, word] at shut
  obtain ⟨ts₃, same₃, kept₃, left₃⟩ := filter_first left₂ fun y zs same => by
    by_contra gone
    have shut := (first [type, name] y zs (by rw [same₁, same₂, same]; rfl)
      (by simpa using ⟨kept₁, kept₂⟩) (Bool.eq_false_iff.mpr gone)).1
    simp [openHead, keyword, word, word'] at shut
  refine ⟨ts₃, by rw [same₁, same₂, same₃], left₃, fun y zs same gone => ?_⟩
  exact (first [type, name, mark] y zs (by rw [same₁, same₂, same₃, same]; rfl)
    (by simpa using ⟨kept₁, kept₂, kept₃⟩) gone).2

theorem value_kept (ident : ∀ y zs, ts = y :: zs → keep y = false → y.isIdent)
    {r : List (TokenKind × List Char)}
    (filled : (((ts.filter keep).map Token.content).takeWhile fun c => !isSemicolon c) ≠ [])
    (ends : (((ts.filter keep).map Token.content).dropWhile fun c => !isSemicolon c) =
      (.punct, [';']) :: r) :
    ((ts.map Token.content).takeWhile fun c => !isSemicolon c) ≠ [] ∧
      ∃ r', ((ts.map Token.content).dropWhile fun c => !isSemicolon c) = (.punct, [';']) :: r' := by
  rw [takeWhile_content] at filled ⊢
  rw [dropWhile_content] at ends ⊢
  constructor
  · cases ts with
    | nil => exact filled
    | cons y zs =>
      have other : y.isPunct ';' = false := by
        cases kept : keep y with
        | true =>
          rw [List.filter_cons_of_pos kept] at filled
          by_contra stops
          simp [stops] at filled
        | false =>
          have word := of_decide_eq_true (ident y zs rfl kept)
          simp [Token.isPunct, word]
      simp [other]
  · obtain ⟨place, later, dropped, _⟩ := tokens_of_content ends
    have inside : ⟨.punct, place, [';']⟩ ∈ ts := by
      apply (List.filter_sublist (p := keep)).subset
      apply (List.dropWhile_suffix fun t : Token => !t.isPunct ';').subset
      rw [dropped]
      exact List.mem_cons_self
    obtain ⟨c, later', dropped', stops⟩ := exists_semicolon inside rfl
    exact ⟨_, by rw [dropped', List.map_cons, content_punct stops]⟩

/-- Where no declaration begins, none does when tokens go, unless one does right behind an open
    head. -/
theorem declarationAt?_filtered (absent : declarationAt? source (t :: ts) = none)
    (first : ∀ xs y zs, ts = xs ++ y :: zs → (∀ x ∈ xs, keep x) → keep y = false →
      openHead 3 (xs.reverse ++ [t]) = false ∧ y.isIdent) :
    declarationAt? source (t :: ts.filter keep) = none := by
  rw [Option.eq_none_iff_forall_ne_some]
  rintro ⟨d, rest⟩ found
  have declares := declares_of_declarationAt? found
  suffices whole : ∃ head r, Declares ((t :: ts).map Token.content) head r by
    obtain ⟨head, r, declares'⟩ := whole
    obtain ⟨d', rest', found', _⟩ := declarationAt?_of_declares source declares'
    rw [absent] at found'
    cases found'
  generalize same : (t :: ts.filter keep).map Token.content = cs at declares
  generalize rest.map Token.content = r at declares
  generalize d.head = head at declares
  cases declares with
  | plain =>
    obtain ⟨_, _, _, _, _, opened, _⟩ := tokens_of_opening same
    obtain ⟨rfl, left⟩ := List.cons.inj opened
    obtain ⟨zs, rfl, _, _⟩ := opening_kept (by rfl) first left rfl rfl
    exact ⟨_, _, .plain⟩
  | valued filled ends =>
    obtain ⟨_, _, _, _, _, opened, value⟩ := tokens_of_opening same
    obtain ⟨rfl, left⟩ := List.cons.inj opened
    obtain ⟨zs, rfl, rest, ident⟩ := opening_kept (by rfl) first left rfl rfl
    subst value rest
    obtain ⟨filled', r', ends'⟩ := value_kept ident filled ends
    exact ⟨_, r', .valued filled' ends'⟩

end Filtered

theorem first_dropped {source s : List Char} {position : Nat} {t : Token} {ts : List Token}
    (apart : Apart position s ((t :: ts).map Token.span)) (wide : ∀ u ∈ t :: ts, u.start < u.stop)
    {ds : List Declaration} (declared : ∀ d ∈ ds, d ∈ collect source ts) {xs zs : List Token}
    {y : Token} (parts : ts = xs ++ y :: zs) (kept : ∀ x ∈ xs, ds.all fun d => !among d x)
    (dropped : (ds.all fun d => !among d y) = false) :
    ∃ d ∈ ds, (t :: ts).filter (fun u => u.start < d.start) = t :: xs ∧ y.isKeyword := by
  obtain ⟨d, listed, here⟩ := List.all_eq_false.mp dropped
  simp only [among, Bool.not_eq_true', Bool.not_eq_false, Bool.and_eq_true, decide_eq_true_eq] at here
  obtain ⟨keyword, member, semicolon, member', ident, text, _, start, stop, order⟩ :=
    collect_ends apart.tail (declared d listed)
  have ordered := Apart.ordered apart
  subst parts
  rw [← List.cons_append, List.pairwise_append] at ordered
  obtain ⟨_, behind, front⟩ := ordered
  have same : keyword = y := by
    rcases List.mem_append.mp member with early | late
    · -- A keyword before would be among the tokens of its own declaration.
      have out := List.all_eq_true.mp (kept keyword early) d listed
      have wide₁ := wide keyword (List.mem_cons_of_mem t member)
      have wide₂ := wide semicolon (List.mem_cons_of_mem t member')
      simp only [among, Bool.not_eq_true', Bool.and_eq_false_iff, decide_eq_false_iff_not] at out
      omega
    · rcases List.mem_cons.mp late with here' | later
      · exact here'
      · have far := (List.pairwise_cons.mp behind).1 keyword later
        have wide' := wide y (by simp)
        omega
  subst same
  refine ⟨d, listed, ?_, ?_⟩
  · have before : (t :: xs).filter (fun u => u.start < d.start) = t :: xs := by
      refine List.filter_eq_self.mpr fun u inside => ?_
      have far := front u inside keyword List.mem_cons_self
      have wide' := wide u (by
        rw [← List.cons_append]
        exact List.mem_append_left _ inside)
      simp only [decide_eq_true_eq]
      omega
    have after : (keyword :: zs).filter (fun u => u.start < d.start) = [] := by
      refine List.filter_eq_nil_iff.mpr fun u inside => ?_
      simp only [decide_eq_true_eq]
      rcases List.mem_cons.mp inside with here' | later
      · rw [here', start]
        omega
      · have far := (List.pairwise_cons.mp behind).1 u later
        have wide' := wide keyword (by simp)
        omega
    rw [← List.cons_append, List.filter_append, before, after, List.append_nil]
  · exact Token.isKeyword_iff.mpr ⟨ident, text⟩

theorem openHead_behind {n : Nat} {front ts : List Token} {early : Token → Bool}
    (shut : openHead n ((front ++ ts).filter early).reverse = false) :
    openHead n (ts.filter early).reverse = false := by
  rw [Bool.eq_false_iff] at shut ⊢
  intro opened
  apply shut
  rw [List.filter_append, List.reverse_append]
  exact openHead_append opened _

theorem among_own {own : List Token} {first last : Token} {inner : List Token} {d : Declaration}
    (parts : own = first :: inner ++ [last]) (start : d.start = first.start)
    (stop : d.stop = last.stop) (ordered : own.Pairwise fun t u => t.stop ≤ u.start)
    (wide : ∀ t ∈ own, t.start < t.stop) : ∀ t ∈ own, among d t := by
  intro t listed
  have wide' := wide t listed
  subst parts
  have begins : first.start ≤ t.start := by
    rcases List.mem_cons.mp listed with here | later
    · exact Nat.le_of_eq (congrArg Token.start here).symm
    · have far := (List.pairwise_cons.mp ordered).1 t later
      have wide₁ := wide first List.mem_cons_self
      omega
  have ends : t.start < last.stop := by
    rcases List.mem_append.mp listed with early | here
    · have far := (List.pairwise_append.mp ordered).2.2 t early last List.mem_cons_self
      have wide₁ := wide last (by simp)
      omega
    · rw [← List.mem_singleton.mp here]
      exact wide'
  simp only [among, Bool.and_eq_true, decide_eq_true_eq]
  omega

theorem not_among_later {source s : List Char} {position : Nat} {ts : List Token}
    (apart : Apart position s (ts.map Token.span)) {t : Token} (wide : t.start < t.stop)
    (far : ∀ u ∈ ts, t.stop ≤ u.start) {d : Declaration} (declared : d ∈ collect source ts) :
    among d t = false := by
  obtain ⟨keyword, member, _, _, _, _, _, start, _⟩ := collect_ends apart declared
  have later := far keyword member
  simp only [among, Bool.and_eq_false_iff, decide_eq_false_iff_not]
  omega

structure Ahead (source : List Char) (d : Declaration) (own rest : List Token) : Prop where
  inside : ∀ t ∈ own, among d t
  outside : ∀ t ∈ rest, among d t = false
  before : ∀ t ∈ own, ∀ u ∈ rest, t.stop ≤ u.start
  read : ∀ later, collect source (own ++ later) = d :: collect source later

theorem ahead_of_declarationAt? {source s : List Char} {position : Nat} {t : Token}
    {ts rest : List Token} {d : Declaration}
    (found : declarationAt? source (t :: ts) = some (d, rest))
    (apart : Apart position s ((t :: ts).map Token.span))
    (wide : ∀ u ∈ t :: ts, u.start < u.stop) :
    ∃ own, t :: ts = own ++ rest ∧ Ahead source d own rest := by
  obtain ⟨first, inner, last, parts, _, _, _, start, stop, again⟩ := declarationAt?_ends found
  have whole : t :: ts = (first :: inner ++ [last]) ++ rest := by rw [parts]; simp
  rw [whole] at apart wide
  have ordered := List.pairwise_append.mp (Apart.ordered apart)
  refine ⟨first :: inner ++ [last], whole, ?_, ?_, ordered.2.2, ?_⟩
  · exact among_own rfl start stop ordered.1 fun u listed => wide u (List.mem_append_left rest listed)
  · intro u listed
    have far := ordered.2.2 last (by simp) u listed
    simp only [among, stop, Bool.and_eq_false_iff, decide_eq_false_iff_not]
    omega
  · intro later
    have reads := again later
    rw [List.cons_append] at reads
    rw [List.append_assoc, List.singleton_append, List.cons_append, collect, reads]

theorem Ahead.dropped {source : List Char} {d : Declaration} {own rest : List Token}
    (ahead : Ahead source d own rest) (gone : List Declaration) :
    (own ++ rest).filter (fun t => (d :: gone).all fun d => !among d t) =
      rest.filter fun t => gone.all fun d => !among d t := by
  have none : own.filter (fun t => (d :: gone).all fun d => !among d t) = [] := by
    refine List.filter_eq_nil_iff.mpr fun t listed => ?_
    simp [ahead.inside t listed]
  have same : rest.filter (fun t => (d :: gone).all fun d => !among d t) =
      rest.filter fun t => gone.all fun d => !among d t := by
    refine List.filter_congr fun t listed => ?_
    rw [List.all_cons, ahead.outside t listed, Bool.not_false, Bool.true_and]
  rw [List.filter_append, none, same, List.nil_append]

theorem Ahead.kept {source : List Char} {d : Declaration} {own rest : List Token}
    (ahead : Ahead source d own rest) {gone : List Declaration}
    (others : ∀ t ∈ own, ∀ d ∈ gone, among d t = false) :
    collect source ((own ++ rest).filter fun t => gone.all fun d => !among d t) =
      d :: collect source (rest.filter fun t => gone.all fun d => !among d t) := by
  have every : own.filter (fun t => gone.all fun d => !among d t) = own := by
    refine List.filter_eq_self.mpr fun t listed => List.all_eq_true.mpr fun d member => ?_
    rw [others t listed d member]
    rfl
  rw [List.filter_append, every, ahead.read]

/-- Without the tokens of some declarations there are the others, if none of those that go stands
    right behind an open head. -/
theorem collect_without {source s : List Char} {position : Nat} {ts : List Token}
    (drop : Declaration → Bool) (apart : Apart position s (ts.map Token.span))
    (wide : ∀ t ∈ ts, t.start < t.stop)
    (clear : ∀ d ∈ collect source ts, drop d →
      openHead 3 (ts.filter fun t => t.start < d.start).reverse = false) :
    collect source (ts.filter fun t => ((collect source ts).filter drop).all fun d => !among d t) =
      (collect source ts).filter fun d => !drop d := by
  induction ts using collect.induct source generalizing position s with
  | case1 => simp [collect]
  | case2 t ts d rest found ih =>
    obtain ⟨own, whole, ahead⟩ := ahead_of_declarationAt? found apart wide
    rw [whole] at apart wide clear ⊢
    rw [ahead.read] at clear ⊢
    have apart' : Apart position s (rest.map Token.span) :=
      apart.sublist ((List.sublist_append_right own rest).map Token.span)
    have later := ih apart' (fun x listed => wide x (List.mem_append_right own listed))
      fun d' declared gone => openHead_behind (clear d' (List.mem_cons_of_mem d declared) gone)
    cases dropped : drop d with
    | true =>
      rw [List.filter_cons_of_pos dropped, ahead.dropped, later,
        List.filter_cons_of_neg (by simp [dropped])]
    | false =>
      have others : ∀ x ∈ own, ∀ d' ∈ (collect source rest).filter drop, among d' x = false :=
        fun x listed d' declared =>
          not_among_later apart' (wide x (List.mem_append_left rest listed))
            (ahead.before x listed) (List.mem_filter.mp declared).1
      rw [List.filter_cons_of_neg (by simp [dropped]), ahead.kept others, later,
        List.filter_cons_of_pos (by simp [dropped])]
  | case3 t ts absent ih =>
    have all : collect source (t :: ts) = collect source ts := by rw [collect, absent]
    rw [all] at clear ⊢
    have ordered := List.pairwise_cons.mp (Apart.ordered apart)
    have apart' := Apart.tail apart
    have kept : (((collect source ts).filter drop).all fun d => !among d t) = true := by
      refine List.all_eq_true.mpr fun d declared => ?_
      rw [not_among_later apart' (wide t List.mem_cons_self) ordered.1
        (List.mem_filter.mp declared).1]
      rfl
    have absent' : declarationAt? source (t :: ts.filter fun t =>
        ((collect source ts).filter drop).all fun d => !among d t) = none := by
      apply declarationAt?_filtered absent
      intro xs y zs parts early gone
      obtain ⟨d, declared, before, keyword⟩ := first_dropped apart wide
        (fun d declared => (List.mem_filter.mp declared).1) parts early gone
      obtain ⟨listed, dropped⟩ := List.mem_filter.mp declared
      have shut := clear d listed dropped
      rw [before, List.reverse_cons] at shut
      exact ⟨shut, (Bool.and_eq_true_iff.mp keyword).1⟩
    rw [List.filter_cons_of_pos (by exact kept), collect, absent']
    exact ih apart' (fun x listed => wide x (List.mem_cons_of_mem t listed))
      fun d declared dropped => @openHead_behind 3 [t] ts _ (clear d declared dropped)

/- The text. -/

def redeclared (document : List Char) : List Declaration :=
  (declarations document).filter fun d => isReserved d.name

def tokensLeft (document : List Char) : List Token :=
  (tokens document).filter fun t => (redeclared document).all fun d => !among d t

theorem redeclarations_span (document : List Char) :
    (redeclarations document).map Edit.span = (redeclared document).map Declaration.span := by
  unfold redeclarations redeclared
  induction declarations document with
  | nil => rfl
  | cons d ds ih =>
    cases builtin : Builtin.ofName? d.name with
    | none =>
      have free : isReserved d.name = false := by rw [isReserved, builtin]; rfl
      rw [List.filterMap_cons, builtin, List.filter_cons_of_neg (by simp [free])]
      exact ih
    | some b =>
      have reserved : isReserved d.name := by rw [isReserved, builtin]; rfl
      rw [List.filterMap_cons, builtin,
        List.filter_cons_of_pos (p := fun d : Declaration => isReserved d.name) reserved]
      exact congrArg (d.span :: ·) ih

/-- Where the comment for a declaration takes away its tokens and no others: no slash ends where
    it begins, no directive sign comes after its line breaks, and where it is the last on its line,
    only space that the reader passes over follows. -/
structure Effaceable (document : List Char) (d : Declaration) : Prop where
  slash : ∀ t ∈ tokens document, t.isPunct '/' → t.stop ≠ d.start
  below : newlines (d.text document) ≠ 0 → firstSolid (d.after document) ≠ some '#'
  beside : newlines (d.text document) = 0 → (trim (restOfLine (d.after document))).isEmpty →
    (restOfLine (d.after document)).all isSpacing

instance (document : List Char) (d : Declaration) : Decidable (Effaceable document d) :=
  decidable_of_iff
    ((∀ t ∈ tokens document, t.isPunct '/' → t.stop ≠ d.start) ∧
      (newlines (d.text document) ≠ 0 → firstSolid (d.after document) ≠ some '#') ∧
      (newlines (d.text document) = 0 → (trim (restOfLine (d.after document))).isEmpty →
        (restOfLine (d.after document)).all isSpacing))
    ⟨fun ⟨slash, below, beside⟩ => ⟨slash, below, beside⟩,
      fun ⟨slash, below, beside⟩ => ⟨slash, below, beside⟩⟩

theorem Effaceable.comment {document : List Char} {d : Declaration}
    (effaceable : Effaceable document d) (named : ∀ c ∈ d.name.toList, continuesName c)
    (b : Builtin) : Comment (d.after document) (b.comment d document) := by
  have text := b.comment_text named document
  generalize same : newlines (d.text document) = breaks at text
  generalize b.comment d document = new at text ⊢
  cases text with
  | block breaks open' unbroken =>
    refine .block _ _ open' ?_
    by_cases none : breaks = 0
    · exact .inl none
    · exact .inr (effaceable.below (same ▸ none))
  | line unbroken alone =>
    exact .line _ unbroken (List.all_eq_true.mp (effaceable.beside same alone))

theorem tokenTexts_neutralize {document : List Char}
    (effaceable : ∀ d ∈ redeclared document, Effaceable document d) :
    tokenTexts (neutralize document) = (tokensLeft document).map Token.content := by
  have left := @contents_commented [] document .start (redeclarations document)
    (redeclarations_apart document) (.same rfl) (by
      intro e listed before old after text first last
      obtain ⟨d, declared, made⟩ := List.mem_filterMap.mp listed
      obtain ⟨b, builtin, same⟩ := Option.map_eq_some_iff.mp made
      subst same
      rw [List.nil_append] at text
      have reserved : isReserved d.name := by rw [isReserved, builtin]; rfl
      have ready := effaceable d (List.mem_filter.mpr ⟨declared, reserved⟩)
      have comment := ready.comment (declarations_name declared) b
      subst text
      exact commented_of_declared declared first last ready.slash comment)
  rw [tokenTexts, tokens, content_gather, ← rewritten_redeclaredPieces]
  refine left.trans ?_
  congr 1
  refine List.filter_congr fun t _ => ?_
  exact outside_eq (redeclarations_span document) t

theorem harmless_untouched (x : List Char) (s : ReadState) : Harmless s (untouched x) := by
  induction x generalizing s with
  | nil => trivial
  | cons c x ih => exact ⟨trivial, ih _⟩

theorem heads_assemble {document : List Char}
    (effaceable : ∀ d ∈ redeclared (stripSemantics document),
      Effaceable (stripSemantics document) d)
    (harmless : Harmless .start (zeroPieces false (neutralize (stripSemantics document)))) :
    (declarations (assemble document)).map Declaration.head =
      (collect (stripSemantics document) (tokensLeft (stripSemantics document))).map
        Declaration.head := by
  have zeros := zero_tokens_iff (neutralize (stripSemantics document))
  have coerced := (zeros.2 (zeros.1.mpr harmless)).zeroed
  rw [tokenTexts_neutralize effaceable] at coerced
  have heads := collect_zeroed (stripSemantics document) (body document) coerced
  rw [declarations_assemble, List.map_map]
  exact heads

theorem reserved_of_heads {ds ds' : List Declaration}
    (heads : ds.map Declaration.head = ds'.map Declaration.head) :
    (∀ d ∈ ds, isReserved d.name = false) ↔ ∀ d ∈ ds', isReserved d.name = false := by
  have names : ∀ ds : List Declaration, (∀ d ∈ ds, isReserved d.name = false) ↔
      ∀ head ∈ ds.map Declaration.head, isReserved head.2 = false := by
    intro ds
    rw [List.forall_mem_map]
    rfl
  rw [names, names ds', heads]

def behindHead (source : List Char) (d : Declaration) : Bool :=
  openHead 3 ((tokens source).filter fun t => t.start < d.start).reverse

/-- When a program declares none of the host's inputs: exactly if the tokens that are left in its
    document declare none. Where no declaration that goes stands right behind an open head, they do
    not, and the program has the other declarations of the document. -/
theorem inputs_undeclared {document : List Char}
    (effaceable : ∀ d ∈ redeclared (stripSemantics document),
      Effaceable (stripSemantics document) d)
    (harmless : Harmless .start (zeroPieces false (neutralize (stripSemantics document)))) :
    ((∀ d ∈ declarations (assemble document), isReserved d.name = false) ↔
      ∀ d ∈ collect (stripSemantics document) (tokensLeft (stripSemantics document)),
        isReserved d.name = false) ∧
    ((∀ d ∈ redeclared (stripSemantics document),
        behindHead (stripSemantics document) d = false) →
      (∀ d ∈ declarations (assemble document), isReserved d.name = false) ∧
        (declarations (assemble document)).map Declaration.head =
          ((declarations (stripSemantics document)).filter fun d => !isReserved d.name).map
            Declaration.head) := by
  have heads := heads_assemble effaceable harmless
  refine ⟨reserved_of_heads heads, fun clear => ?_⟩
  have left : collect (stripSemantics document) (tokensLeft (stripSemantics document)) =
      (declarations (stripSemantics document)).filter fun d => !isReserved d.name := by
    refine collect_without (fun d => isReserved d.name) (tokens_apart _)
      (fun t listed => gather_wide listed) fun d declared reserved => ?_
    exact clear d (List.mem_filter.mpr ⟨declared, reserved⟩)
  rw [left] at heads
  refine ⟨(reserved_of_heads heads).mpr fun d listed => ?_, heads⟩
  simpa using (List.mem_filter.mp listed).2

theorem time_and_resolution_undeclared :
    (∀ d ∈ declarations (assemble
        "layout(binding = 1) uniform float time;\nuniform vec2\n iResolution; uniform int n;".toList),
      isReserved d.name = false) ∧
    (declarations (assemble
        "layout(binding = 1) uniform float time;\nuniform vec2\n iResolution; uniform int n;".toList)).map
      Declaration.head = [("int", "n")] := by
  have bare : zeroPieces false (neutralize (stripSemantics
      "layout(binding = 1) uniform float time;\nuniform vec2\n iResolution; uniform int n;".toList)) =
      untouched (neutralize (stripSemantics
        "layout(binding = 1) uniform float time;\nuniform vec2\n iResolution; uniform int n;".toList)) := by
    decide +kernel
  obtain ⟨free, heads⟩ := (inputs_undeclared (by decide +kernel)
    (bare ▸ harmless_untouched _ _)).2 (by decide +kernel)
  refine ⟨free, heads.trans ?_⟩
  decide +kernel

/-- The words before a declaration that goes and those after it declare the input again. -/
theorem time_declared_again :
    ¬ ∀ d ∈ declarations (assemble "uniform uniform float time; float time;".toList),
      isReserved d.name = false := by
  intro none
  have again : ∃ d ∈ declarations (body "uniform uniform float time; float time;".toList),
      isReserved d.name := by
    decide +kernel
  obtain ⟨d, listed, reserved⟩ := again
  rw [declarations_assemble] at none
  have free := none _ (List.mem_map_of_mem listed)
  rw [Declaration.moved] at free
  rw [reserved] at free
  cases free

end ShaderBench.Shader
