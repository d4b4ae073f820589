import BlockDiagram.Block.Literal
import BlockDiagram.Binary64.Decimal

/-!
# Clean texts

A text is clean if it holds neither quotes, comment marks nor braces: it changes neither where a
scan of configuration text stands nor how many braces are open. Indentation, numbers and bare keys
are clean whatever they are made from.

* `isClean_toText`: numbers are clean.
* `isClean_of_isBareKey`: keys that may stand bare are clean.
-/

namespace BlockDiagram.Block

/-- Whether a character is neither a quote, a comment mark nor a brace. -/
def isInert (c : Char) : Bool := c != '"' && c != '#' && c != '\x7b' && c != '\x7d'

/-- Neither quotes, comment marks nor braces stand in a text. -/
def IsClean (s : String) : Prop := ∀ c ∈ s.toList, isInert c = true

-- By the characters of the text; a search may find the test that goes through all characters.
instance (s : String) : Decidable (IsClean s) :=
  List.decidableBAll (fun c => isInert c = true) s.toList

theorem isInert_of_isWord {c : Char} (h : Text.isWord c = true) : isInert c = true := by
  cases hmark : isInert c with
  | true => rfl
  | false =>
    simp only [isInert, Bool.and_eq_false_iff, bne_eq_false_iff_eq] at hmark
    rcases hmark with ((rfl | rfl) | rfl) | rfl <;> exact absurd h (by decide)

theorem isInert_of_isDigit {c : Char} (h : c.isDigit = true) : isInert c = true := by
  apply isInert_of_isWord
  apply Text.isWord_of_isAlphanum
  simp [Char.isAlphanum, h]

@[simp] theorem isClean_append {s t : String} : IsClean (s ++ t) ↔ IsClean s ∧ IsClean t := by
  simp only [IsClean, String.toList_append, List.mem_append]
  exact ⟨fun h => ⟨fun c hc => h c (.inl hc), fun c hc => h c (.inr hc)⟩,
    fun h c hc => hc.elim (h.1 c) (h.2 c)⟩

@[simp] theorem isClean_ofList {cs : List Char} :
    IsClean (String.ofList cs) ↔ ∀ c ∈ cs, isInert c = true := by
  rw [IsClean, String.toList_ofList]

theorem isClean_join {separator : String} (hseparator : IsClean separator) {pieces : List String}
    (h : ∀ piece ∈ pieces, IsClean piece) : IsClean (Text.join separator pieces) := by
  induction pieces with
  | nil => exact fun c hc => absurd hc List.not_mem_nil
  | cons piece others ih =>
    have hpiece := h piece List.mem_cons_self
    have hothers := ih fun other hother => h other (List.mem_cons_of_mem _ hother)
    by_cases hlast : others = []
    · rw [hlast]
      exact hpiece
    · rw [Text.join_cons hlast, isClean_append, isClean_append]
      exact ⟨⟨hpiece, hseparator⟩, hothers⟩

theorem isClean_indent (level : Int) : IsClean (indent level) := by
  apply isClean_join
  · decide
  · intro piece hpiece
    rw [List.eq_of_mem_replicate hpiece]
    decide

/-! ## Numbers -/

theorem isClean_natRepr (n : Nat) : IsClean (Nat.repr n) := by
  intro c hc
  rw [Nat.toList_repr] at hc
  exact isInert_of_isDigit (Nat.isDigit_of_mem_toDigits (by decide) (by decide) hc)

theorem isClean_intRepr (n : Int) : IsClean (Int.repr n) := by
  cases n with
  | ofNat n => exact isClean_natRepr n
  | negSucc n =>
    have hsign : IsClean "-" := by decide
    exact isClean_append.2 ⟨hsign, isClean_natRepr (n + 1)⟩

theorem isClean_exponentText (exponent : Int) : IsClean (Binary64.exponentText exponent) := by
  have hmark : IsClean "e" := by decide
  have hsign : IsClean (if exponent < 0 then "-" else "+") := by
    split <;> decide
  have hzero : IsClean "0" := by decide
  have hsize := isClean_natRepr exponent.natAbs
  rw [Binary64.exponentText, isClean_append, isClean_append]
  refine ⟨⟨hmark, hsign⟩, ?_⟩
  split
  · exact isClean_append.2 ⟨hzero, hsize⟩
  · exact hsize

theorem isClean_layOut {digits : List Char} (h : ∀ c ∈ digits, isInert c = true)
    (exponent : Int) : IsClean (Binary64.layOut digits exponent) := by
  have hzeros : ∀ n, ∀ c ∈ List.replicate n '0', isInert c = true := by
    intro n c hc
    rw [List.eq_of_mem_replicate hc]
    decide
  have happend : ∀ {cs ds : List Char}, (∀ c ∈ cs, isInert c = true) →
      (∀ c ∈ ds, isInert c = true) → IsClean (String.ofList (cs ++ ds)) := by
    intro cs ds hcs hds
    rw [isClean_ofList]
    exact fun c hc => (List.mem_append.1 hc).elim (hcs c) (hds c)
  unfold Binary64.layOut
  split
  · split
    · decide
    · exact isClean_append.2 ⟨isClean_ofList.2 h, isClean_exponentText exponent⟩
    · next first others =>
      refine isClean_append.2 ⟨isClean_ofList.2 ?_, isClean_exponentText exponent⟩
      simp only [List.mem_cons, forall_eq_or_imp] at h ⊢
      exact ⟨h.1, by decide, h.2⟩
  · split
    · exact isClean_append.2 ⟨by decide, happend (hzeros _) h⟩
    · dsimp only
      split
      · exact isClean_append.2 ⟨happend h (hzeros _), by decide⟩
      · have hwhole : IsClean (String.ofList (digits.take (exponent.toNat + 1))) :=
          isClean_ofList.2 fun c hc => h c (List.mem_of_mem_take hc)
        have hfraction : IsClean (String.ofList (digits.drop (exponent.toNat + 1))) :=
          isClean_ofList.2 fun c hc => h c (List.mem_of_mem_drop hc)
        have hpoint : IsClean "." := by decide
        exact isClean_append.2 ⟨isClean_append.2 ⟨hwhole, hpoint⟩, hfraction⟩

theorem isClean_positiveText (q : Rat) : IsClean (Binary64.positiveText q) := by
  apply isClean_layOut
  intro c hc
  rw [Binary64.withoutTrailingZeros, List.mem_reverse] at hc
  have hdigit := (List.dropWhile_sublist _).subset hc
  exact isClean_natRepr _ c (List.mem_reverse.1 hdigit)

theorem isClean_toText (x : Binary64) : IsClean x.toText := by
  have hsign : IsClean "-" := by decide
  cases x with
  | nan => decide
  | infinity negative => cases negative <;> decide
  | negativeZero => decide
  | rational q =>
    rw [Binary64.toText]
    split
    · decide
    · split
      · exact isClean_append.2 ⟨hsign, isClean_positiveText _⟩
      · exact isClean_positiveText q

/-! ## Keys -/

theorem isInert_of_isIdentifierStart {c : Char} (h : Text.isIdentifierStart c = true) :
    isInert c = true := by
  apply isInert_of_isWord
  rw [Text.isIdentifierStart, Bool.or_eq_true, beq_iff_eq] at h
  rcases h with h | rfl
  · exact Text.isWord_of_isAlphanum (by simp [Char.isAlphanum, h])
  · decide

theorem isInert_of_isIdentifierRest {c : Char} (h : Text.isIdentifierRest c = true) :
    isInert c = true := by
  rw [Text.isIdentifierRest, Bool.or_eq_true, beq_iff_eq] at h
  rcases h with h | rfl
  · exact isInert_of_isWord h
  · decide

theorem isInert_of_isIdentifier {cs : List Char} (h : Text.isIdentifier cs = true) :
    ∀ c ∈ cs, isInert c = true := by
  cases cs with
  | nil => exact fun c hc => absurd hc List.not_mem_nil
  | cons first rest =>
    rw [Text.isIdentifier_cons, Bool.and_eq_true, List.all_eq_true] at h
    intro c hc
    rcases List.mem_cons.1 hc with rfl | hc
    · exact isInert_of_isIdentifierStart h.1
    · exact isInert_of_isIdentifierRest (h.2 c hc)

/-- What `withoutFinalBreak` takes off is a line feed. -/
theorem mem_withoutFinalBreak {cs : List Char} {c : Char} (h : c ∈ cs) :
    c ∈ Reference.withoutFinalBreak cs ∨ c = '\n' := by
  rw [Reference.withoutFinalBreak]
  split
  · next before hreverse =>
    have hmem : c ∈ cs.reverse := List.mem_reverse.2 h
    rw [hreverse] at hmem
    rcases List.mem_cons.1 hmem with hbreak | hmem
    · exact .inr hbreak
    · exact .inl (List.mem_reverse.2 hmem)
  · exact .inl h

theorem isClean_of_isBareKey {key : String} (h : isBareKey key = true) : IsClean key := by
  intro c hc
  rcases mem_withoutFinalBreak hc with hc | rfl
  · exact isInert_of_isIdentifier h c hc
  · decide

end BlockDiagram.Block
