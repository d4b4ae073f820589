import BlockDiagram.Reference
import Mathlib.Data.List.Infix

/-!
# Which interpolations a scan finds

A scan goes through a value depth first and through a text from left to right. Read apart from how
it goes: a text has one interpolation for every suffix that starts with one, and a value has the
texts at its leaves, each under the path of keys that leads to it.

* `bodyAt?_eq_some_iff`: when a text starts with an interpolation.
* `bodies_eq`: every place of a text at which one starts counts, in order.
* `scan_eq`: the interpolations of a value are those of its leaves, in order, under the last key.
-/

namespace BlockDiagram.Reference

/-! ## Texts -/

/-- The body of the interpolation that a text starts with. -/
def bodyAt? : List Char → Option (List Char)
  | '$' :: '\x7b' :: rest => (body? rest).map Prod.fst
  | _ => none

/-- The bodies of the interpolations in a text, one for each place where one starts. -/
def occurrences (cs : List Char) : List (List Char) := cs.tails.filterMap bodyAt?

theorem body?_append {body : List Char} (hne : body ≠ [])
    (hplain : ∀ c ∈ body, isPlain c = true) (rest : List Char) :
    body? (body ++ '\x7d' :: rest) = some (body, rest) := by
  have htake : (body ++ '\x7d' :: rest).takeWhile isPlain = body := by
    rw [List.takeWhile_append_of_pos hplain, List.takeWhile_cons_of_neg (by decide),
      List.append_nil]
  have hdrop : (body ++ '\x7d' :: rest).dropWhile isPlain = '\x7d' :: rest := by
    rw [List.dropWhile_append_of_pos hplain, List.dropWhile_cons_of_neg (by decide)]
  obtain ⟨c, cs, rfl⟩ := List.exists_cons_of_ne_nil hne
  rw [body?, htake, hdrop]
  rfl

theorem plain_of_body? {cs body rest : List Char} (h : body? cs = some (body, rest)) :
    body ≠ [] ∧ ∀ c ∈ body, isPlain c = true := by
  unfold body? at h
  split at h
  · next c tail following htake hdrop =>
    cases h
    refine ⟨List.cons_ne_nil _ _, fun d hd => ?_⟩
    rw [← htake] at hd
    exact List.all_eq_true.1 List.all_takeWhile d hd
  · cases h

/-- A text starts with an interpolation if a dollar sign and braces around a body come first, and
the body is not empty and has no braces. -/
theorem bodyAt?_eq_some_iff {cs body : List Char} :
    bodyAt? cs = some body ↔ body ≠ [] ∧ (∀ c ∈ body, isPlain c = true) ∧
      ∃ rest, cs = '$' :: '\x7b' :: (body ++ '\x7d' :: rest) := by
  constructor
  · intro h
    unfold bodyAt? at h
    split at h
    · next rest =>
      obtain ⟨⟨found, following⟩, hfound, rfl⟩ := Option.map_eq_some_iff.1 h
      obtain ⟨hne, hplain⟩ := plain_of_body? hfound
      exact ⟨hne, hplain, following, by rw [eq_of_body? hfound]⟩
    · cases h
  · rintro ⟨hne, hplain, rest, rfl⟩
    rw [bodyAt?, body?_append hne hplain]
    rfl

theorem occurrences_cons (c : Char) (cs : List Char) :
    occurrences (c :: cs) = (bodyAt? (c :: cs)).toList ++ occurrences cs := by
  rw [occurrences, List.tails_cons, List.filterMap_cons]
  cases bodyAt? (c :: cs) <;> rfl

theorem bodyAt?_cons_of_ne {c : Char} (hne : c ≠ '\x7b') (start : Char) (cs : List Char) :
    bodyAt? (start :: c :: cs) = none := by
  rw [Option.eq_none_iff_forall_ne_some]
  intro body h
  obtain ⟨-, -, rest, hcs⟩ := bodyAt?_eq_some_iff.1 h
  exact hne (List.cons.inj (List.cons.inj hcs).2).1

/-- No interpolation starts inside the body of another one. -/
theorem occurrences_append {body : List Char} (hplain : ∀ c ∈ body, isPlain c = true)
    (rest : List Char) : occurrences (body ++ '\x7d' :: rest) = occurrences rest := by
  induction body with
  | nil => exact occurrences_cons _ _
  | cons start body ih =>
    have hrest := ih fun d hd => hplain d (List.mem_cons_of_mem _ hd)
    -- The next character is in the body or closes it, so it opens nothing.
    have hnone : bodyAt? (start :: (body ++ '\x7d' :: rest)) = none := by
      cases body with
      | nil => exact bodyAt?_cons_of_ne (by decide) start rest
      | cons c body =>
        have hc := hplain c (List.mem_cons_of_mem _ List.mem_cons_self)
        rw [isPlain, Bool.and_eq_true, bne_iff_ne] at hc
        exact bodyAt?_cons_of_ne hc.1 start _
    rw [List.cons_append, occurrences_cons, hnone, hrest]
    rfl

/-- The search finds an interpolation wherever one starts. -/
theorem bodies_eq (cs : List Char) : bodies cs = occurrences cs := by
  fun_induction bodies cs with
  | case1 => rfl
  | case2 rest body following hfound ih =>
    have hbody : bodyAt? ('$' :: '\x7b' :: rest) = some body := by
      rw [bodyAt?, hfound]
      rfl
    have hbrace : occurrences ('\x7b' :: rest) = occurrences rest := occurrences_cons _ _
    have hrest : occurrences rest = occurrences following := by
      rw [eq_of_body? hfound]
      exact occurrences_append (plain_of_body? hfound).2 following
    rw [occurrences_cons, hbody, hbrace, hrest, ih]
    rfl
  | case3 rest hnone ih =>
    have hbody : bodyAt? ('$' :: '\x7b' :: rest) = none := by
      rw [bodyAt?, hnone]
      rfl
    rw [occurrences_cons, hbody, ih]
    rfl
  | case4 c rest hne ih =>
    have hbody : bodyAt? (c :: rest) = none := by
      unfold bodyAt?
      split
      · next tail heq =>
        cases heq
        exact absurd rfl (hne tail rfl)
      · rfl
    rw [occurrences_cons, hbody, ih]
    rfl

/-! ## Values -/

mutual

/-- The texts in a value, depth first, each with the keys that lead to it. -/
def leaves : Value → List (List String × String)
  | .text s => [([], s)]
  | .list items => itemLeaves items
  | .record fields => fieldLeaves fields
  | _ => []

def itemLeaves : List Value → List (List String × String)
  | [] => []
  | item :: rest => leaves item ++ itemLeaves rest

def fieldLeaves : List (String × Value) → List (List String × String)
  | [] => []
  | (key, value) :: rest =>
    ((leaves value).map fun leaf => (key :: leaf.1, leaf.2)) ++ fieldLeaves rest

end

/-- The interpolations in the text at a leaf, under the last key of its path. -/
def occurrencesAt (key : String) (leaf : List String × String) : List Occurrence :=
  (occurrences leaf.2.toList).map fun body =>
    let expression := String.ofList (Text.strip body)
    ⟨some (leaf.1.getLastD key), expression, candidates expression⟩

theorem occurrencesAt_cons (outer key : String) (leaf : List String × String) :
    occurrencesAt outer (key :: leaf.1, leaf.2) = occurrencesAt key leaf := by
  rw [occurrencesAt, occurrencesAt, List.getLastD_cons]

mutual

/-- A scan goes through the leaves of a value in order. -/
theorem scan_eq (key : String) :
    ∀ value : Value, scan value (some key) = (leaves value).flatMap (occurrencesAt key)
  | .text s => by
    rw [scan, expressions, bodies_eq, List.map_map]
    exact (List.append_nil _).symm
  | .list items => scanItems_eq key items
  | .record fields => scanFields_eq key fields
  | .null => rfl
  | .bool _ => rfl
  | .int _ => rfl
  | .float _ => rfl

theorem scanItems_eq (key : String) :
    ∀ items : List Value,
      scanItems items (some key) = (itemLeaves items).flatMap (occurrencesAt key)
  | [] => rfl
  | item :: rest => by
    rw [scanItems, itemLeaves, List.flatMap_append, scan_eq key item, scanItems_eq key rest]

theorem scanFields_eq (outer : String) :
    ∀ fields : List (String × Value),
      scanFields fields = (fieldLeaves fields).flatMap (occurrencesAt outer)
  | [] => rfl
  | (key, value) :: rest => by
    rw [scanFields, fieldLeaves, List.flatMap_append, List.flatMap_map, scan_eq key value,
      scanFields_eq outer rest]
    simp only [occurrencesAt_cons]

end

end BlockDiagram.Reference
