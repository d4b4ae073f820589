import BlockDiagram.Proofs.Block.Decoded
import BlockDiagram.Proofs.Reference.Dependency

/-!
# What the literal of a text keeps

A text in quotes is kept whole. A text that stands bare is kept but for the delimiters around it and
the white space inside them, if it is one interpolation of something. Two sorts of texts are taken
for that and are not: an interpolation of white space, of which nothing is left, and one that a line
feed follows, which is dropped.

* `isQuotedOf_quote`: a text in quotes.
* `wholeBody?_interpolation`: which texts stand bare.
* `isKept_textLiteral_iff`: a text is kept unless it is of one of the two sorts.
* `literal_text_kept`: the same at every level, with what stands bare otherwise.
-/

namespace BlockDiagram.Block

open Reference (whole? wholeBody? isPlain)

/-! ## Texts that are kept -/

/-- A text is another one in quotes, with escapes that give that one back. -/
def IsQuotedOf (t s : String) : Prop :=
  ∃ body, t.toList = '"' :: body ∧ readQuoted body = some (s.toList, [])

/-- A text is not empty and has no braces, and stands between the delimiters of an interpolation
that is all of another text, with nothing but white space around it. -/
def IsBareOf (t s : String) : Prop :=
  t ≠ "" ∧ (∀ c ∈ t.toList, isPlain c = true) ∧ ∃ before after,
    (∀ c ∈ before, Text.isBlank c = true) ∧ (∀ c ∈ after, Text.isBlank c = true) ∧
      s.toList = '$' :: '\x7b' :: (before ++ t.toList ++ after ++ ['\x7d'])

/-- Nothing of a text is lost in another one. -/
def IsKept (t s : String) : Prop := IsQuotedOf t s ∨ IsBareOf t s

/-- A text is an interpolation of white space, or an interpolation that a line feed follows. -/
def LosesText (s : String) : Prop :=
  ∃ body following, body ≠ [] ∧ (∀ c ∈ body, isPlain c = true) ∧
    s.toList = '$' :: '\x7b' :: (body ++ '\x7d' :: following) ∧
      (following = ['\n'] ∨ following = [] ∧ ∀ c ∈ body, Text.isBlank c = true)

/-! ## Quotes -/

theorem isQuotedOf_quote (s : String) : IsQuotedOf (quote s) s :=
  ⟨_, toList_quote s, readQuoted_escaped s.toList []⟩

theorem length_of_readQuoted {cs body rest : List Char} (h : readQuoted cs = some (body, rest)) :
    body.length < cs.length := by
  fun_induction readQuoted cs generalizing body rest with
  | case1 => cases h
  | case2 c tail ih =>
    obtain ⟨⟨found, following⟩, hfound, heq⟩ := Option.map_eq_some_iff.1 h
    cases heq
    have hshorter := ih hfound
    simp only [List.length_cons]
    omega
  | case3 =>
    cases h
    simp
  | case4 c tail _ _ ih =>
    obtain ⟨⟨found, following⟩, hfound, heq⟩ := Option.map_eq_some_iff.1 h
    cases heq
    have hshorter := ih hfound
    simp only [List.length_cons]
    omega

/-- What is in quotes is longer than what it stands for. -/
theorem IsQuotedOf.length_lt {t s : String} (h : IsQuotedOf t s) :
    s.toList.length < t.toList.length := by
  obtain ⟨body, ht, hbody⟩ := h
  have hshorter := length_of_readQuoted hbody
  rw [ht, List.length_cons]
  omega

/-! ## Interpolations -/

theorem wholeBody?_interpolation {body following : List Char} (hne : body ≠ [])
    (hplain : ∀ c ∈ body, isPlain c = true) (hfollowing : following = [] ∨ following = ['\n']) :
    wholeBody? ('$' :: '\x7b' :: (body ++ '\x7d' :: following)) = some (Text.strip body) := by
  simp only [wholeBody?, Reference.body?_append hne hplain, if_pos hfollowing]

/-- The body of an interpolation ends at the first closing brace. -/
theorem interpolation_inj {body body' following following' : List Char}
    (hplain : ∀ c ∈ body, isPlain c = true) (hplain' : ∀ c ∈ body', isPlain c = true)
    (h : '$' :: '\x7b' :: (body ++ '\x7d' :: following)
      = '$' :: '\x7b' :: (body' ++ '\x7d' :: following')) :
    body = body' ∧ following = following' := by
  have hbrace : ∀ cs : List Char, (∀ c ∈ cs, isPlain c = true) → '\x7d' ∉ cs := by
    intro cs hcs hmem
    cases hcs _ hmem
  exact Text.append_mark_inj (hbrace body hplain) (hbrace body' hplain')
    (List.cons.inj (List.cons.inj h).2).2

/-- A text that stands bare stands for an interpolation, without the white space inside it and
without the line feed that may follow it. -/
theorem exists_of_whole? {s expression : String} (h : whole? s = some expression) :
    ∃ body following, expression = String.ofList (Text.strip body) ∧ body ≠ [] ∧
      (∀ c ∈ body, isPlain c = true) ∧ (following = [] ∨ following = ['\n']) ∧
      s.toList = '$' :: '\x7b' :: (body ++ '\x7d' :: following) := by
  obtain ⟨cs, hcs, rfl⟩ := Option.map_eq_some_iff.1 h
  obtain ⟨body, following, hfollowing, hne, hplain, rfl, hs⟩ := Reference.wholeBody?_eq_some hcs
  exact ⟨body, following, rfl, hne, hplain, hfollowing, hs⟩

/-- What stands bare is shorter than the text, so it is not the text in quotes. -/
theorem not_isQuotedOf_strip {s : String} {body following : List Char}
    (hs : s.toList = '$' :: '\x7b' :: (body ++ '\x7d' :: following)) :
    ¬ IsQuotedOf (String.ofList (Text.strip body)) s := by
  intro hquoted
  have hlonger := hquoted.length_lt
  have hstrip := Text.length_strip_le body
  rw [String.toList_ofList, hs] at hlonger
  simp only [List.length_cons, List.length_append] at hlonger
  omega

theorem isBareOf_strip {s : String} {body : List Char} (hplain : ∀ c ∈ body, isPlain c = true)
    (hs : s.toList = '$' :: '\x7b' :: (body ++ ['\x7d'])) (hstrip : Text.strip body ≠ []) :
    IsBareOf (String.ofList (Text.strip body)) s := by
  obtain ⟨before, after, hbefore, hafter, hbody⟩ := Text.exists_append_strip body
  refine ⟨?_, ?_, before, after, hbefore, hafter, ?_⟩
  · intro hempty
    apply hstrip
    simpa using congrArg String.toList hempty
  · intro c hc
    rw [String.toList_ofList] at hc
    exact hplain c (Text.mem_of_mem_strip hc)
  · rw [String.toList_ofList, ← hbody, hs]

/-- A text is kept in its literal unless it is an interpolation of white space or a line feed
follows the interpolation. -/
theorem isKept_textLiteral_iff (s : String) : IsKept (textLiteral s) s ↔ ¬ LosesText s := by
  cases hwhole : whole? s with
  | none =>
    have hkept : IsKept (textLiteral s) s := by
      rw [textLiteral, hwhole]
      exact .inl (isQuotedOf_quote s)
    refine ⟨fun _ hloses => ?_, fun _ => hkept⟩
    obtain ⟨body, following, hne, hplain, hs, hend⟩ := hloses
    have hbody := wholeBody?_interpolation hne hplain (hend.symm.imp_left And.left)
    rw [whole?, hs, hbody] at hwhole
    cases hwhole
  | some expression =>
    obtain ⟨body, following, rfl, hne, hplain, hfollowing, hs⟩ := exists_of_whole? hwhole
    have ht : textLiteral s = String.ofList (Text.strip body) := by
      rw [textLiteral, hwhole]
    rw [ht]
    constructor
    · rintro hkept ⟨body', following', -, hplain', hs', hend⟩
      obtain ⟨rfl, rfl⟩ := interpolation_inj hplain hplain' (hs.symm.trans hs')
      obtain ⟨hempty, -, before, after, -, -, hbare⟩ :=
        hkept.resolve_left (not_isQuotedOf_strip hs)
      rcases hend with rfl | ⟨-, hblank⟩
      · -- One way of writing the text ends in a line feed, the other one in a brace.
        have hends := congrArg List.reverse (hs.symm.trans hbare)
        simp at hends
      · apply hempty
        rw [Text.strip_eq_nil_iff.2 (List.all_eq_true.2 hblank)]
    · intro hnot
      have hend : following = [] := by
        apply hfollowing.resolve_right
        intro hbreak
        exact hnot ⟨body, following, hne, hplain, hs, .inl hbreak⟩
      subst hend
      right
      apply isBareOf_strip hplain hs
      intro hnil
      have hblank := List.all_eq_true.1 (Text.strip_eq_nil_iff.1 hnil)
      exact hnot ⟨body, [], hne, hplain, hs, .inr ⟨rfl, hblank⟩⟩

/-- Every text has a literal at every level. It is the text in quotes, or what stands in the text
between the delimiters of an interpolation and white space, and not empty, unless the text is an
interpolation of white space or a line feed follows the interpolation. Then it is still what stands
between the delimiters and white space. -/
theorem literal_text_kept (s : String) (limit : Nat) (level : Int) :
    ∃ t, literal limit (.text s) level = .ok t ∧ (IsKept t s ↔ ¬ LosesText s) ∧
      (LosesText s → (∀ c ∈ t.toList, isPlain c = true) ∧ ∃ before after following,
        (∀ c ∈ before, Text.isBlank c = true) ∧ (∀ c ∈ after, Text.isBlank c = true) ∧
          (following = [] ∧ t = "" ∨ following = ['\n']) ∧
          s.toList
            = '$' :: '\x7b' :: (before ++ t.toList ++ after ++ '\x7d' :: following)) := by
  refine ⟨textLiteral s, rfl, isKept_textLiteral_iff s, ?_⟩
  rintro ⟨body, following, hne, hplain, hs, hend⟩
  have hwhole := wholeBody?_interpolation hne hplain (hend.symm.imp_left And.left)
  have ht : textLiteral s = String.ofList (Text.strip body) := by
    rw [textLiteral, whole?, hs, hwhole]
    rfl
  obtain ⟨before, after, hbefore, hafter, hbody⟩ := Text.exists_append_strip body
  rw [ht, String.toList_ofList]
  refine ⟨?_, before, after, following, hbefore, hafter, ?_, ?_⟩
  · intro c hc
    exact hplain c (Text.mem_of_mem_strip hc)
  · rcases hend with hbreak | ⟨hnil, hblank⟩
    · exact .inr hbreak
    · rw [Text.strip_eq_nil_iff.2 (List.all_eq_true.2 hblank)]
      exact .inl ⟨hnil, rfl⟩
  · rw [← hbody, hs]

/-- Nothing is left of an interpolation of white space, and a line feed behind an interpolation is
lost. -/
theorem exists_text_not_kept :
    (∃ t, literal 0 (.text "$\x7b \x7d") 0 = .ok t ∧ t = "" ∧ ¬ IsKept t "$\x7b \x7d") ∧
      ∃ t, literal 0 (.text "$\x7ba\x7d\n") 0 = .ok t ∧ t = "a" ∧ ¬ IsKept t "$\x7ba\x7d\n" := by
  constructor
  · refine ⟨_, rfl, by decide, ?_⟩
    rw [isKept_textLiteral_iff, not_not]
    exact ⟨[' '], [], List.cons_ne_nil _ _, List.forall_mem_singleton.2 rfl, rfl,
      .inr ⟨rfl, List.forall_mem_singleton.2 rfl⟩⟩
  · refine ⟨_, rfl, by decide, ?_⟩
    rw [isKept_textLiteral_iff, not_not]
    exact ⟨['a'], ['\n'], List.cons_ne_nil _ _, List.forall_mem_singleton.2 rfl, rfl, .inl rfl⟩

end BlockDiagram.Block
