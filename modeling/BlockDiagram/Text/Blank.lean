import BlockDiagram.Text.Ranges

/-!
# White space

The blank characters are those with the Unicode property `White_Space` and the four information
separators U+001C to U+001F. A zero-width space is not blank.

* `strip_eq_nil_iff`: stripping leaves nothing exactly of a blank text.
* `strip_eq_self`, `strip_strip`: stripping leaves alone what has no white space around it.
* `exists_append_strip`: stripping takes white space off both ends and nothing else.
* `isStripped_iff`: what stripping leaves is what stands between white space at both ends.
-/

namespace BlockDiagram.Text

def blankRanges : Ranges := [
  (0x9, 0xd), (0x1c, 0x20), (0x85, 0x85), (0xa0, 0xa0), (0x1680, 0x1680), (0x2000, 0x200a),
  (0x2028, 0x2029), (0x202f, 0x202f), (0x205f, 0x205f), (0x3000, 0x3000)]

/-- Whether a character is white space. -/
def isBlank (c : Char) : Bool := blankRanges.has c.toNat

/-- A text without the white space at its start. -/
def stripLeft (cs : List Char) : List Char := cs.dropWhile isBlank

/-- A text without the white space at its end. -/
def stripRight (cs : List Char) : List Char := (cs.reverse.dropWhile isBlank).reverse

/-- A text without the white space around it. -/
def strip (cs : List Char) : List Char := stripRight (stripLeft cs)

theorem dropWhile_eq_nil_iff_all {p : Char → Bool} {cs : List Char} :
    cs.dropWhile p = [] ↔ cs.all p = true := by
  induction cs with
  | nil => simp
  | cons c cs ih => by_cases h : p c <;> simp [h, ih]

theorem takeWhile_append_of_stops {p : Char → Bool} {cs rest : List Char}
    (hcs : ∀ c ∈ cs, p c = true) (hrest : ∀ c ∈ rest.head?, p c = false) :
    (cs ++ rest).takeWhile p = cs ∧ (cs ++ rest).dropWhile p = rest := by
  rw [List.takeWhile_append_of_pos hcs, List.dropWhile_append_of_pos hcs]
  cases rest with
  | nil => simp
  | cons c rest => simp [hrest c rfl]

theorem stripRight_eq_nil_iff {cs : List Char} : stripRight cs = [] ↔ cs.all isBlank = true := by
  rw [stripRight, List.reverse_eq_nil_iff, dropWhile_eq_nil_iff_all, List.all_reverse]

theorem strip_eq_nil_iff {cs : List Char} : strip cs = [] ↔ cs.all isBlank = true := by
  rw [strip, stripRight_eq_nil_iff, stripLeft]
  induction cs with
  | nil => simp
  | cons c cs ih => by_cases h : isBlank c <;> simp [h, ih]

/-- A text that neither starts nor ends with white space. -/
theorem strip_eq_self {cs : List Char} (hfirst : ∀ c ∈ cs.head?, isBlank c = false)
    (hlast : ∀ c ∈ cs.getLast?, isBlank c = false) : strip cs = cs := by
  have hdrop : ∀ {ds : List Char}, (∀ c ∈ ds.head?, isBlank c = false) →
      ds.dropWhile isBlank = ds := by
    intro ds hds
    cases ds with
    | nil => rfl
    | cons d ds => exact List.dropWhile_cons_of_neg (by simp [hds d rfl])
  have hreverse : ∀ c ∈ cs.reverse.head?, isBlank c = false := by
    rwa [List.head?_reverse]
  rw [strip, stripLeft, hdrop hfirst, stripRight, hdrop hreverse, List.reverse_reverse]

/-- White space at the end of a text does not count. -/
theorem strip_append_blank {c : Char} (h : isBlank c = true) (cs : List Char) :
    strip (cs ++ [c]) = strip cs := by
  rw [strip, strip, stripLeft, stripLeft, List.dropWhile_append]
  split
  · next hnil =>
    have hrest : cs.dropWhile isBlank = [] := List.isEmpty_iff.1 hnil
    rw [hrest, List.dropWhile_cons_of_pos h]
    rfl
  · rw [stripRight, stripRight, List.reverse_append, List.reverse_singleton, List.singleton_append,
      List.dropWhile_cons_of_pos h]

theorem not_isBlank_head?_dropWhile {cs : List Char} :
    ∀ c ∈ (cs.dropWhile isBlank).head?, isBlank c = false := by
  intro c hc
  have htest := List.head?_dropWhile_not isBlank cs
  rw [hc] at htest
  simpa using htest

theorem not_isBlank_head?_strip {cs : List Char} :
    ∀ c ∈ (strip cs).head?, isBlank c = false := by
  intro c hc
  have hstart : strip cs <+: stripLeft cs := by
    rw [strip, stripRight, ← List.reverse_suffix, List.reverse_reverse]
    exact List.dropWhile_suffix _
  obtain ⟨rest, hrest⟩ := hstart
  suffices hc : c ∈ (stripLeft cs).head? from not_isBlank_head?_dropWhile c hc
  rw [← hrest]
  cases hs : strip cs with
  | nil => rw [hs] at hc; cases hc
  | cons d ds => rw [hs] at hc; exact hc

theorem not_isBlank_getLast?_strip {cs : List Char} :
    ∀ c ∈ (strip cs).getLast?, isBlank c = false := by
  rw [strip, stripRight, List.getLast?_reverse]
  exact not_isBlank_head?_dropWhile

theorem strip_strip (cs : List Char) : strip (strip cs) = strip cs :=
  strip_eq_self not_isBlank_head?_strip not_isBlank_getLast?_strip

/-- What stripping takes off stands around what is left. -/
theorem exists_append_strip (cs : List Char) : ∃ before after,
    (∀ c ∈ before, isBlank c = true) ∧ (∀ c ∈ after, isBlank c = true) ∧
      cs = before ++ strip cs ++ after := by
  refine ⟨cs.takeWhile isBlank, ((stripLeft cs).reverse.takeWhile isBlank).reverse, ?_, ?_, ?_⟩
  · exact List.all_eq_true.1 List.all_takeWhile
  · exact fun c hc => List.all_eq_true.1 List.all_takeWhile c (List.mem_reverse.1 hc)
  · rw [strip, stripRight, List.append_assoc, ← List.reverse_append,
      List.takeWhile_append_dropWhile, List.reverse_reverse, stripLeft,
      List.takeWhile_append_dropWhile]

theorem length_strip_le (cs : List Char) : (strip cs).length ≤ cs.length := by
  obtain ⟨before, after, -, -, hcs⟩ := exists_append_strip cs
  have hlength := congrArg List.length hcs
  simp only [List.length_append] at hlength
  omega

theorem mem_of_mem_strip {cs : List Char} {c : Char} (h : c ∈ strip cs) : c ∈ cs := by
  obtain ⟨before, after, -, -, hcs⟩ := exists_append_strip cs
  rw [hcs]
  exact List.mem_append_left _ (List.mem_append_right _ h)

/-- A text without the white space around it. -/
def trimmed (s : String) : String := String.ofList (strip s.toList)

/-- Whether a text holds nothing but white space. -/
def isBlankText (s : String) : Bool := s.toList.all isBlank

theorem trimmed_eq_empty_iff {s : String} : trimmed s = "" ↔ isBlankText s = true := by
  rw [trimmed, isBlankText, ← strip_eq_nil_iff]
  constructor
  · intro h
    have := congrArg String.toList h
    simpa using this
  · intro h
    rw [h]

/-- Whether one text is another without the white space around it. -/
def IsStripped (raw text : String) : Prop :=
  ∃ before after, raw.toList = before ++ text.toList ++ after ∧
    (∀ c ∈ before, isBlank c = true) ∧ (∀ c ∈ after, isBlank c = true) ∧
    (∀ c ∈ text.toList.head?, isBlank c = false) ∧ ∀ c ∈ text.toList.getLast?, isBlank c = false

/-- White space around a text that neither starts nor ends with any is taken off. -/
theorem strip_amid {before cs after : List Char} (hbefore : ∀ c ∈ before, isBlank c = true)
    (hafter : ∀ c ∈ after, isBlank c = true) (hfirst : ∀ c ∈ cs.head?, isBlank c = false)
    (hlast : ∀ c ∈ cs.getLast?, isBlank c = false) : strip (before ++ cs ++ after) = cs := by
  by_cases hcs : cs = []
  · subst hcs
    rw [strip_eq_nil_iff, List.append_nil, List.all_append, Bool.and_eq_true, List.all_eq_true,
      List.all_eq_true]
    exact ⟨hbefore, hafter⟩
  · have hleft : ∀ c ∈ (cs ++ after).head?, isBlank c = false := by
      obtain ⟨first, rest, rfl⟩ := List.exists_cons_of_ne_nil hcs
      exact hfirst
    have hright : ∀ c ∈ cs.reverse.head?, isBlank c = false := by
      rwa [List.head?_reverse]
    have hreverse : ∀ c ∈ after.reverse, isBlank c = true := by simpa using hafter
    rw [strip, stripLeft, List.append_assoc, (takeWhile_append_of_stops hbefore hleft).2,
      stripRight, List.reverse_append, (takeWhile_append_of_stops hreverse hright).2,
      List.reverse_reverse]

theorem isStripped_iff {raw text : String} : IsStripped raw text ↔ trimmed raw = text := by
  constructor
  · rintro ⟨before, after, hraw, hbefore, hafter, hfirst, hlast⟩
    rw [trimmed, hraw, strip_amid hbefore hafter hfirst hlast, String.ofList_toList]
  · rintro rfl
    obtain ⟨before, after, hbefore, hafter, hraw⟩ := exists_append_strip raw.toList
    rw [IsStripped, trimmed, String.toList_ofList]
    exact ⟨before, after, hraw, hbefore, hafter, not_isBlank_head?_strip,
      not_isBlank_getLast?_strip⟩

end BlockDiagram.Text
