/-!
# Cutting and joining texts

* `joinWith_segments`: joining the segments of a text with the character it was cut at gives the
  text again.
* `segments_append_mark`: the first segment ends at the first occurrence of the character.
* `append_mark_inj`: a text is cut in one way at the first occurrence of a character.
* `splitAt_join`, `join_splitAt`: cutting and joining take each other back.
-/

namespace BlockDiagram.Text

/-- The segments of a text between the occurrences of `mark`; always at least one. -/
def segments (mark : Char) : List Char → List (List Char)
  | [] => [[]]
  | c :: rest =>
    if c = mark then [] :: segments mark rest
    else match segments mark rest with
      | [] => [[c]]
      | first :: others => (c :: first) :: others

theorem segments_ne_nil (mark : Char) (cs : List Char) : segments mark cs ≠ [] := by
  cases cs with
  | nil => simp [segments]
  | cons c rest =>
    rw [segments]
    split
    · simp
    · split <;> simp

/-- Text without the character goes in front of the first segment of what follows. -/
theorem exists_segments_append {mark : Char} {cs : List Char} (h : mark ∉ cs) (rest : List Char) :
    ∃ first others, segments mark (cs ++ rest) = (cs ++ first) :: others := by
  induction cs with
  | nil => exact List.exists_cons_of_ne_nil (segments_ne_nil mark rest)
  | cons c cs ih =>
    obtain ⟨first, others, hrest⟩ := ih fun hmem => h (List.mem_cons_of_mem _ hmem)
    have hne : c ≠ mark := fun he => h (he ▸ List.mem_cons_self)
    rw [List.cons_append, segments, if_neg hne, hrest]
    exact ⟨first, others, rfl⟩

/-- A text without the character is one segment. -/
theorem segments_of_not_mem {mark : Char} {cs : List Char} (h : mark ∉ cs) :
    segments mark cs = [cs] := by
  induction cs with
  | nil => rfl
  | cons c cs ih =>
    rw [List.mem_cons, not_or] at h
    rw [segments, if_neg (Ne.symm h.1), ih h.2]

theorem segments_append_mark {mark : Char} {cs : List Char} (h : mark ∉ cs) (rest : List Char) :
    segments mark (cs ++ mark :: rest) = cs :: segments mark rest := by
  induction cs with
  | nil => rw [List.nil_append, segments, if_pos rfl]
  | cons c cs ih =>
    rw [List.mem_cons, not_or] at h
    rw [List.cons_append, segments, if_neg (Ne.symm h.1), ih h.2]

theorem not_mem_of_mem_segments {mark : Char} {cs piece : List Char}
    (h : piece ∈ segments mark cs) : mark ∉ piece := by
  induction cs generalizing piece with
  | nil =>
    rw [List.mem_singleton.1 h]
    exact List.not_mem_nil
  | cons c cs ih =>
    rw [segments] at h
    split at h
    · rcases List.mem_cons.1 h with rfl | h
      · exact List.not_mem_nil
      · exact ih h
    · next hne =>
      split at h
      · rw [List.mem_singleton.1 h, List.mem_singleton]
        exact Ne.symm hne
      · next first others hrest =>
        rw [hrest] at ih
        rcases List.mem_cons.1 h with rfl | h
        · rw [List.mem_cons, not_or]
          exact ⟨Ne.symm hne, ih List.mem_cons_self⟩
        · exact ih (List.mem_cons_of_mem _ h)

/-- What stands before the first occurrence of a character, and what stands behind it. -/
theorem append_mark_inj {mark : Char} {cs ds rest rest' : List Char} (hcs : mark ∉ cs)
    (hds : mark ∉ ds) (h : cs ++ mark :: rest = ds ++ mark :: rest') : cs = ds ∧ rest = rest' := by
  induction cs generalizing ds with
  | nil =>
    cases ds with
    | nil => exact ⟨rfl, (List.cons.inj h).2⟩
    | cons d ds => exact absurd ((List.cons.inj h).1 ▸ List.mem_cons_self) hds
  | cons c cs ih =>
    cases ds with
    | nil => exact absurd ((List.cons.inj h).1 ▸ List.mem_cons_self) hcs
    | cons d ds =>
      obtain ⟨hhead, htail⟩ := List.cons.inj h
      obtain ⟨hsame, hrest⟩ := ih (fun hmem => hcs (List.mem_cons_of_mem _ hmem))
        (fun hmem => hds (List.mem_cons_of_mem _ hmem)) htail
      exact ⟨by rw [hhead, hsame], hrest⟩

/-- Texts one after another with `mark` between them. -/
def joinWith (mark : Char) : List (List Char) → List Char
  | [] => []
  | [piece] => piece
  | piece :: others => piece ++ mark :: joinWith mark others

theorem joinWith_cons {mark : Char} {piece : List Char} {others : List (List Char)}
    (h : others ≠ []) :
    joinWith mark (piece :: others) = piece ++ mark :: joinWith mark others := by
  cases others with
  | nil => exact absurd rfl h
  | cons _ _ => rfl

theorem joinWith_segments (mark : Char) (cs : List Char) :
    joinWith mark (segments mark cs) = cs := by
  induction cs with
  | nil => rfl
  | cons c rest ih =>
    rw [segments]
    split
    · next h => rw [joinWith_cons (segments_ne_nil mark rest), ih, h]; rfl
    · split
      · next h => exact absurd h (segments_ne_nil mark rest)
      · next first others h =>
        rw [h] at ih
        cases others with
        | nil => simpa [joinWith] using ih
        | cons _ _ => simpa [joinWith] using ih

/-- The segments of a string between the occurrences of `mark`. -/
def splitAt (mark : Char) (s : String) : List String :=
  (segments mark s.toList).map String.ofList

theorem splitAt_append_mark {mark : Char} {piece : String} (h : mark ∉ piece.toList)
    (cs : List Char) :
    splitAt mark (String.ofList (piece.toList ++ mark :: cs))
      = piece :: splitAt mark (String.ofList cs) := by
  rw [splitAt, splitAt, String.toList_ofList, String.toList_ofList, segments_append_mark h,
    List.map_cons, String.ofList_toList]

theorem not_mem_of_mem_splitAt {mark : Char} {s piece : String} (h : piece ∈ splitAt mark s) :
    mark ∉ piece.toList := by
  obtain ⟨cs, hcs, rfl⟩ := List.mem_map.1 h
  rw [String.toList_ofList]
  exact not_mem_of_mem_segments hcs

/-- Strings one after another with `separator` between them. -/
def join (separator : String) : List String → String
  | [] => ""
  | [piece] => piece
  | piece :: others => piece ++ separator ++ join separator others

theorem join_cons {separator piece : String} {others : List String} (h : others ≠ []) :
    join separator (piece :: others) = piece ++ separator ++ join separator others := by
  cases others with
  | nil => exact absurd rfl h
  | cons _ _ => rfl

/-- What is joined by a character that it does not hold is cut there again. -/
theorem splitAt_join {mark : Char} {pieces : List String} (hne : pieces ≠ [])
    (h : ∀ piece ∈ pieces, mark ∉ piece.toList) :
    splitAt mark (join (String.singleton mark) pieces) = pieces := by
  induction pieces with
  | nil => exact absurd rfl hne
  | cons piece others ih =>
    have hpiece := h piece List.mem_cons_self
    by_cases hlast : others = []
    · rw [hlast, join, splitAt, segments_of_not_mem hpiece, List.map_singleton,
        String.ofList_toList]
    · have hothers := ih hlast fun other hother => h other (List.mem_cons_of_mem _ hother)
      have hchars : (join (String.singleton mark) (piece :: others)).toList
          = piece.toList ++ mark :: (join (String.singleton mark) others).toList := by
        rw [join_cons hlast, String.toList_append, String.toList_append, String.toList_singleton,
          List.append_assoc, List.singleton_append]
      rw [splitAt, hchars, segments_append_mark hpiece, List.map_cons, String.ofList_toList]
      exact congrArg _ hothers

/-- Cutting a string at a character and joining the pieces with it. -/
theorem join_splitAt (mark : Char) (s : String) :
    join (String.singleton mark) (splitAt mark s) = s := by
  have hjoin : ∀ pieces : List (List Char),
      (join (String.singleton mark) (pieces.map String.ofList)).toList = joinWith mark pieces := by
    intro pieces
    induction pieces with
    | nil => rfl
    | cons piece others ih =>
      cases others with
      | nil => exact String.toList_ofList
      | cons next others =>
        rw [joinWith_cons (List.cons_ne_nil _ _), ← ih, List.map_cons,
          join_cons (by simp), String.toList_append, String.toList_append, String.toList_ofList,
          String.toList_singleton, List.append_assoc, List.singleton_append]
  rw [← String.toList_inj, splitAt, hjoin, joinWith_segments]

theorem toList_join_empty (pieces : List String) :
    (join "" pieces).toList = pieces.flatMap String.toList := by
  induction pieces with
  | nil => rfl
  | cons piece others ih =>
    by_cases hlast : others = []
    · rw [hlast, List.flatMap_cons, List.flatMap_nil, List.append_nil]
      rfl
    · rw [join_cons hlast, String.toList_append, String.toList_append, ih, List.flatMap_cons]
      simp

/-- A string repeated; not at all when the count is negative. -/
def repeated (count : Int) (s : String) : String :=
  join "" (List.replicate count.toNat s)

end BlockDiagram.Text
