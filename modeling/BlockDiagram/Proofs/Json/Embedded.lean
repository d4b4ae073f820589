import BlockDiagram.Json.Embedded
import BlockDiagram.Proofs.Json.Reader
import Mathlib

/-!
# Prose around an object

An object is found in prose that holds no opening brace, no opening bracket and no quotation mark in
front of the object, and no closing brace behind it. No step cuts into the object: stripping white
space and fences stops at its braces, and whatever a reader makes of the text in front of it, it is
not a document. Only digits in front of it can be in the way, when they are more than a number may
have.

* `InBraces.withoutFences_append`: what stripping leaves of a text around an object.
* `StartsOverlong`, `atom_eq_overlong_iff`: the texts that no reader gets past.
* `InBraces.document_of_blank`, `InBraces.document_of_text`: what a reader makes of the whole text.
* `embeddedIn?_append`: the same behind prose and an object, without fences.
* `embedded_amid`: the object is found, or the reader gives up before it.
-/

namespace BlockDiagram.Json

open Text

/-! ## Stripping -/

theorem stripLeft_append {c : Char} (hc : isBlank c = false) (cs s : List Char) :
    stripLeft (cs ++ c :: s) = stripLeft cs ++ c :: s :=
  dropWhile_append_cons hc cs s

theorem stripRight_append {c : Char} (hc : isBlank c = false) (cs s : List Char) :
    stripRight (cs ++ c :: s) = cs ++ c :: stripRight s := by
  rw [stripRight, stripRight, List.reverse_append, List.reverse_cons, List.append_assoc,
    List.singleton_append, dropWhile_append_cons hc, List.reverse_append, List.reverse_cons,
    List.reverse_reverse, List.append_assoc, List.singleton_append]

theorem mem_of_mem_stripRight {c : Char} {cs : List Char} (h : c ∈ stripRight cs) : c ∈ cs :=
  List.mem_reverse.1 ((List.dropWhile_suffix _).subset (List.mem_reverse.1 h))

theorem mem_of_mem_stripLeft {c : Char} {cs : List Char} (h : c ∈ stripLeft cs) : c ∈ cs :=
  (List.dropWhile_suffix _).subset h

/-- A fence at the start and its language tag end before a brace. -/
theorem withoutOpening_append (cs s : List Char) :
    withoutOpening (cs ++ '\x7b' :: s) = withoutOpening cs ++ '\x7b' :: s := by
  unfold withoutOpening
  rw [isPrefixOf_append_mark (by decide)]
  split
  · next hfence =>
    have hlength : fence.length ≤ cs.length := (List.isPrefixOf_iff_prefix.1 hfence).length_le
    rw [List.drop_append_of_le_length hlength]
    dsimp only
    rw [isPrefixOf_append_mark (by decide)]
    split
    · next htag =>
      have htaglength := (List.isPrefixOf_iff_prefix.1 htag).length_le
      rw [List.drop_append_of_le_length htaglength, stripLeft_append (by decide +kernel)]
    · rw [stripLeft_append (by decide +kernel)]
  · rfl

/-- A fence at the end starts behind a brace. -/
theorem withoutClosing_append (cs s : List Char) :
    withoutClosing (cs ++ '\x7d' :: s) = cs ++ '\x7d' :: withoutClosing s := by
  unfold withoutClosing
  rw [List.reverse_append, List.reverse_cons, List.append_assoc, List.singleton_append,
    isPrefixOf_append_mark (by decide)]
  split
  · next hfence =>
    have hlength := (List.isPrefixOf_iff_prefix.1 hfence).length_le
    rw [List.length_reverse] at hlength
    have htake : (cs ++ '\x7d' :: s).take ((cs ++ '\x7d' :: s).length - fence.length)
        = cs ++ '\x7d' :: s.take (s.length - fence.length) := by
      have hcount : (cs ++ '\x7d' :: s).length - fence.length
          = cs.length + (s.length - fence.length + 1) := by
        rw [List.length_append, List.length_cons]
        omega
      rw [hcount, List.take_length_add_append, List.take_succ_cons]
    rw [htake, stripRight_append (by decide +kernel)]
  · rfl

/-- A text without the white space and the fence at its start. -/
def opened (cs : List Char) : List Char := stripLeft (withoutOpening (stripLeft cs))

/-- A text without the white space and the fence at its end. -/
def closed (cs : List Char) : List Char := withoutClosing (stripRight (stripRight cs))

theorem mem_of_mem_opened {c : Char} {cs : List Char} (h : c ∈ opened cs) : c ∈ cs := by
  refine mem_of_mem_stripLeft ?_
  replace h := mem_of_mem_stripLeft h
  unfold withoutOpening at h
  split at h
  · replace h := mem_of_mem_stripLeft h
    split at h
    · exact List.mem_of_mem_drop (List.mem_of_mem_drop h)
    · exact List.mem_of_mem_drop h
  · exact h

theorem mem_of_mem_closed {c : Char} {cs : List Char} (h : c ∈ closed cs) : c ∈ cs := by
  refine mem_of_mem_stripRight (mem_of_mem_stripRight ?_)
  unfold closed withoutClosing at h
  split at h
  · exact List.mem_of_mem_take (mem_of_mem_stripRight h)
  · exact h

/-- A text that starts with an opening and ends with a closing brace. -/
structure InBraces (t : List Char) : Prop where
  first : ∃ rest, t = '\x7b' :: rest
  last : ∃ front, t = front ++ ['\x7d']

variable {t : List Char}

/-- What stops at an opening brace stops at the object. -/
theorem InBraces.map_front (ht : InBraces t) {f : List Char → List Char}
    (hf : ∀ cs s, f (cs ++ '\x7b' :: s) = f cs ++ '\x7b' :: s) (p s : List Char) :
    f (p ++ t ++ s) = f p ++ t ++ s := by
  obtain ⟨rest, hfirst⟩ := ht.first
  rw [hfirst, List.append_assoc, List.cons_append, hf, List.append_assoc, List.cons_append]

/-- What comes from behind and stops at a closing brace stops at the object. -/
theorem InBraces.map_back (ht : InBraces t) {f : List Char → List Char}
    (hf : ∀ cs s, f (cs ++ '\x7d' :: s) = cs ++ '\x7d' :: f s) (p s : List Char) :
    f (p ++ t ++ s) = p ++ t ++ f s := by
  obtain ⟨front, hlast⟩ := ht.last
  have hshift : ∀ s : List Char, p ++ t ++ s = (p ++ front) ++ '\x7d' :: s := by
    intro s
    rw [hlast]
    simp only [List.append_assoc, List.singleton_append]
  rw [hshift, hshift, hf]

/-- Stripping takes nothing off what stands in braces. -/
theorem InBraces.withoutFences_append (ht : InBraces t) (p s : List Char) :
    withoutFences (p ++ t ++ s) = opened p ++ t ++ closed s := by
  have hleft := ht.map_front (stripLeft_append (by decide +kernel))
  have hright := ht.map_back (stripRight_append (by decide +kernel))
  rw [withoutFences, strip, strip, hleft, hright, ht.map_front withoutOpening_append, hleft, hright,
    ht.map_back withoutClosing_append]
  rfl

/-- The outermost braces are those of the object. -/
theorem InBraces.braceSpan?_append (ht : InBraces t) {p s : List Char} (hp : '\x7b' ∉ p)
    (hs : '\x7d' ∉ s) : braceSpan? (p ++ t ++ s) = some t := by
  obtain ⟨⟨rest, hfirst⟩, ⟨front, hlast⟩⟩ := ht
  have hopen : (p ++ t ++ s).dropWhile (· != '\x7b') = t ++ s := by
    rw [List.append_assoc, List.dropWhile_append_of_pos, hfirst]
    · rfl
    · intro c hc
      rw [bne_iff_ne]
      rintro rfl
      exact hp hc
  have hclose : (t ++ s).reverse.dropWhile (· != '\x7d') = t.reverse := by
    rw [List.reverse_append, List.dropWhile_append_of_pos, hlast, List.reverse_append]
    · rfl
    · intro c hc
      rw [bne_iff_ne]
      rintro rfl
      exact hs (List.mem_reverse.1 hc)
  unfold braceSpan?
  rw [hopen, hclose, List.reverse_reverse, hfirst]

/-! ## Numbers that are too long -/

/-- Whether a text starts with a whole number, its sign apart, of more digits than are read. It has
neither a fraction nor an exponent. -/
def StartsOverlong (cs : List Char) : Prop :=
  ∃ sign digits rest, cs = sign ++ digits ++ rest ∧ (sign = [] ∨ sign = ['-']) ∧
    (∀ c ∈ digits, c.isDigit = true) ∧ digits.head? ≠ some '0' ∧ digitLimit < digits.length ∧
    (∀ c ∈ rest.head?, c.isDigit = false) ∧ (fractionDigits rest).1 = [] ∧ exponent? rest = none

theorem fractionDigits_of_fst {cs : List Char} (h : (fractionDigits cs).1 = []) :
    (fractionDigits cs).2 = cs := by
  cases cs with
  | nil => rfl
  | cons c cs =>
    by_cases hpoint : c = '.'
    · subst hpoint
      rw [fractionDigits] at h ⊢
      cases hdigits : cs.takeWhile Char.isDigit with
      | nil => rfl
      | cons d digits =>
        rw [hdigits] at h
        cases h
    · rw [fractionDigits_of_ne hpoint]

theorem numberOf_eq_overlong_iff {negative : Bool} {whole : List Char}
    {behind : List Char × List Char} :
    numberOf negative whole behind = .error .overlong ↔
      behind.1 = [] ∧ exponent? behind.2 = none ∧ digitLimit < whole.length := by
  obtain ⟨fraction, rest⟩ := behind
  unfold numberOf
  dsimp only
  cases hpower : exponent? rest with
  | none =>
    cases fraction with
    | nil =>
      dsimp only
      split <;> next hlimit => simp [hlimit]
    | cons c fraction => simp
  | some power => cases fraction <;> simp

theorem numberSign_eq_or (cs : List Char) :
    (∃ rest, cs = '-' :: rest ∧ numberSign cs = (true, rest)) ∨ numberSign cs = (false, cs) := by
  unfold numberSign
  split
  · next rest => exact .inl ⟨rest, rfl, rfl⟩
  · exact .inr rfl

theorem numberSign_of_ne {c : Char} (h : c ≠ '-') (cs : List Char) :
    numberSign (c :: cs) = (false, c :: cs) := by
  rcases numberSign_eq_or (c :: cs) with ⟨rest, hcs, -⟩ | hsame
  · exact absurd (List.cons.inj hcs).1 h
  · exact hsame

/-- The whole part of a number has several digits if they do not start with a zero. -/
theorem wholeDigits?_digits {digits rest : List Char} (hdigits : ∀ c ∈ digits, c.isDigit = true)
    (hzero : digits.head? ≠ some '0') (hne : digits ≠ [])
    (hrest : ∀ c ∈ rest.head?, c.isDigit = false) :
    wholeDigits? (digits ++ rest) = some (digits, rest) := by
  cases digits with
  | nil => exact absurd rfl hne
  | cons c digits =>
    have hc : c ≠ '0' := fun h => hzero (congrArg some h)
    have hothers : ∀ d ∈ digits, d.isDigit = true :=
      fun d hd => hdigits d (List.mem_cons_of_mem _ hd)
    obtain ⟨htake, hdrop⟩ := takeWhile_append_of_stops hothers hrest
    rw [List.cons_append, wholeDigits?_cons, if_neg hc, if_pos (hdigits c List.mem_cons_self),
      htake, hdrop]

theorem exists_of_wholeDigits? {cs digits rest : List Char}
    (h : wholeDigits? cs = some (digits, rest)) (hlong : 1 < digits.length) :
    cs = digits ++ rest ∧ (∀ c ∈ digits, c.isDigit = true) ∧ digits.head? ≠ some '0' ∧
      ∀ c ∈ rest.head?, c.isDigit = false := by
  cases cs with
  | nil => cases h
  | cons c cs =>
    rw [wholeDigits?_cons] at h
    split at h
    · cases h
      exact absurd hlong (by decide)
    · next hzero =>
      split at h
      · next hdigit =>
        cases h
        refine ⟨?_, fun d hd => ?_, fun hfirst => hzero (Option.some.inj hfirst), fun d hd => ?_⟩
        · rw [List.cons_append, List.takeWhile_append_dropWhile]
        · rcases List.mem_cons.1 hd with rfl | hd
          · exact hdigit
          · exact List.all_eq_true.1 List.all_takeWhile d hd
        · have hnot := List.head?_dropWhile_not Char.isDigit cs
          rw [hd] at hnot
          simpa using hnot
      · cases h

theorem number_eq_overlong_iff {cs : List Char} :
    number cs = .error .overlong ↔ StartsOverlong cs := by
  rw [number_eq]
  constructor
  · intro h
    split at h
    · cases h
    · next whole behind hwhole =>
      obtain ⟨hfraction, hpower, hlimit⟩ := numberOf_eq_overlong_iff.1 h
      rw [fractionDigits_of_fst hfraction] at hpower
      obtain ⟨hcs, hdigits, hzero, hrest⟩ :=
        exists_of_wholeDigits? hwhole (Nat.lt_trans (by decide) hlimit)
      rcases numberSign_eq_or cs with ⟨rest, rfl, hsign⟩ | hsign
      · rw [hsign] at hcs
        exact ⟨['-'], whole, behind, congrArg _ hcs, .inr rfl, hdigits, hzero, hlimit, hrest,
          hfraction, hpower⟩
      · rw [hsign] at hcs
        exact ⟨[], whole, behind, hcs, .inl rfl, hdigits, hzero, hlimit, hrest, hfraction, hpower⟩
  · rintro ⟨sign, digits, rest, rfl, hsign, hdigits, hzero, hlimit, hrest, hfraction, hpower⟩
    have hne : digits ≠ [] := by
      rintro rfl
      cases hlimit
    have hunsigned : (numberSign (sign ++ digits ++ rest)).2 = digits ++ rest := by
      rcases hsign with rfl | rfl
      · cases digits with
        | nil => exact absurd rfl hne
        | cons c digits =>
          have hc : c ≠ '-' := by
            rintro rfl
            exact absurd (hdigits '-' List.mem_cons_self) (by decide)
          rw [List.nil_append, List.cons_append, numberSign_of_ne hc]
      · rfl
    rw [hunsigned, wholeDigits?_digits hdigits hzero hne hrest]
    refine numberOf_eq_overlong_iff.2 ⟨hfraction, ?_, hlimit⟩
    rwa [fractionDigits_of_fst hfraction]

/-- A name is no number. -/
theorem number_name {entry : List Char × Value} (h : entry ∈ names) (cs : List Char) :
    ∃ fault, number (entry.1 ++ cs) = .error (faultAt fault) := by
  simp only [names, List.mem_cons, List.not_mem_nil, or_false] at h
  rcases h with rfl | rfl | rfl | rfl | rfl | rfl <;> exact ⟨_, rfl⟩

theorem atom_eq_overlong_iff {cs : List Char} :
    atom cs = .error .overlong ↔ StartsOverlong cs := by
  rw [← number_eq_overlong_iff]
  unfold atom
  split
  · next name value hfound =>
    constructor
    · intro h
      cases h
    · intro h
      have hname := List.find?_some hfound
      obtain ⟨rest, rfl⟩ : name <+: cs := List.isPrefixOf_iff_prefix.1 hname
      obtain ⟨fault, hfault⟩ := number_name (List.mem_of_find?_eq_some hfound) rest
      rw [hfault] at h
      cases h
  · rfl

theorem not_startsOverlong_nil : ¬ StartsOverlong [] := by
  rintro ⟨sign, digits, rest, hnil, -, -, -, hlimit, -⟩
  have hlength := congrArg List.length hnil
  simp only [List.length_append, List.length_nil] at hlength
  omega

/-! ## Reading the whole text -/

section

variable {cs rest : List Char} {v : Value}

theorem document_of_blank (h : value (2 * cs.length + 2) (skip cs) = .ok (v, rest))
    (hrest : skip rest = []) : document cs = .ok v := by
  unfold document
  simp only [bind, Except.bind, h, hrest]
  rfl

theorem document_of_left {c : Char} {left : List Char}
    (h : value (2 * cs.length + 2) (skip cs) = .ok (v, rest)) (hrest : skip rest = c :: left) :
    ∃ offset, document cs = .error (.malformed offset) := by
  unfold document
  simp only [bind, Except.bind, h, hrest]
  exact ⟨_, rfl⟩

theorem document_of_fault {fault : Fault} (h : value (2 * cs.length + 2) (skip cs) = .error fault) :
    document cs = .error (fault.refusal cs.length) := by
  unfold document
  simp only [bind, Except.bind, h]
  rfl

theorem read_mark (cs : List Char) :
    read (String.ofList ('\ufeff' :: cs)) = .error (.malformed 0) := by
  rw [read, String.toList_ofList]
  rfl

theorem read_of_ne (h : cs.head? ≠ some '\ufeff') : read (String.ofList cs) = document cs := by
  rw [read, String.toList_ofList]
  split
  · next heq => exact absurd rfl h
  · rfl

end

variable {found : List (String × Value)}

/-- The object is where the document in braces ends, whatever follows. -/
theorem InBraces.value_append (ht : InBraces t) {v : Value} (hdocument : document t = .ok v)
    {n : Nat} (hn : 2 * t.length + 2 ≤ n) (s : List Char) :
    ∃ rest, value n (t ++ s) = .ok (v, rest ++ s) ∧ skip rest = [] := by
  obtain ⟨body, rfl⟩ := ht.first
  obtain ⟨rest, hvalue, hrest⟩ := exists_of_document hdocument
  exact ⟨rest, value_record_append hn hvalue s, hrest⟩

/-- The text in front of the object is blank: the whole text is read as the object, or something
behind it is in the way. -/
theorem InBraces.document_of_blank (ht : InBraces t) {v : Value} (hdocument : document t = .ok v)
    {q : List Char} (hq : skip q = []) (s : List Char) :
    document (q ++ t ++ s) = .ok v ∨
      ∃ offset, document (q ++ t ++ s) = .error (.malformed offset) := by
  have hskip : skip (q ++ t ++ s) = t ++ s := by
    have hfront := ht.map_front (f := skip) (dropWhile_append_cons (by decide)) q s
    rw [hfront, hq, List.nil_append]
  have hn : 2 * t.length + 2 ≤ 2 * (q ++ t ++ s).length + 2 := by
    simp only [List.length_append]
    omega
  obtain ⟨rest, hvalue, hrest⟩ := ht.value_append hdocument hn s
  rw [← hskip] at hvalue
  cases hleft : skip (rest ++ s) with
  | nil => exact .inl (Json.document_of_blank hvalue hleft)
  | cons c left => exact .inr (document_of_left hvalue hleft)

/-- The text in front of the object is not blank: the whole text is no document. -/
theorem InBraces.document_of_text (ht : InBraces t) {q : List Char} (hq : skip q ≠ [])
    (hplain : ∀ c ∈ q, c ≠ '"' ∧ c ≠ '\x5b' ∧ c ≠ '\x7b') (s : List Char) :
    (StartsOverlong (skip q) ∧ document (q ++ t ++ s) = .error .overlong) ∨
      (¬ StartsOverlong (skip q) ∧
        ∃ offset, document (q ++ t ++ s) = .error (.malformed offset)) := by
  have hskip : skip (q ++ t ++ s) = skip q ++ t ++ s :=
    ht.map_front (f := skip) (dropWhile_append_cons (by decide)) q s
  obtain ⟨body, hbody⟩ := ht.first
  have hfirst : ∀ c ∈ (skip q ++ t ++ s).head?, c ≠ '"' ∧ c ≠ '\x5b' ∧ c ≠ '\x7b' := by
    intro c hc
    cases hq' : skip q with
    | nil => exact absurd hq' hq
    | cons first rest =>
      rw [hq'] at hc
      refine hplain c ((List.dropWhile_suffix isSpace).subset ?_)
      rw [← skip, hq', ← Option.some.inj hc]
      exact List.mem_cons_self
  have hvalue : value (2 * (q ++ t ++ s).length + 2) (skip (q ++ t ++ s))
      = followedBy ('\x7b' :: (body ++ s)) (atom (skip q)) := by
    rw [hskip, value_atom _ hfirst, hbody, List.append_assoc, List.cons_append,
      atom_append (by decide)]
  by_cases hoverlong : StartsOverlong (skip q)
  · rw [atom_eq_overlong_iff.2 hoverlong] at hvalue
    exact .inl ⟨hoverlong, document_of_fault hvalue⟩
  refine .inr ⟨hoverlong, ?_⟩
  cases hatom : atom (skip q) with
  | ok found =>
    -- A number or a name in front of the object is read, and its brace is left.
    obtain ⟨v, rest⟩ := found
    rw [hatom] at hvalue
    have hbrace : skip (rest ++ '\x7b' :: (body ++ s)) = skip rest ++ '\x7b' :: (body ++ s) :=
      dropWhile_append_cons (by decide) rest _
    obtain ⟨c, left, hleft⟩ := List.exists_cons_of_ne_nil
      (List.append_ne_nil_of_right_ne_nil (skip rest) (List.cons_ne_nil '\x7b' (body ++ s)))
    exact document_of_left hvalue (hbrace.trans hleft)
  | error fault =>
    cases fault with
    | malformed left =>
      rw [hatom] at hvalue
      exact ⟨_, document_of_fault hvalue⟩
    | overlong => exact absurd (atom_eq_overlong_iff.1 hatom) hoverlong

/-! ## Answers -/

theorem embeddedIn?_of_malformed {cs : List Char} {offset : Nat}
    (hmalformed : read (String.ofList cs) = .error (.malformed offset))
    (hspan : braceSpan? cs = some t) (ht : read (String.ofList t) = .ok (.record found)) :
    embeddedIn? cs = some found := by
  unfold embeddedIn? fieldsIn?
  rw [hmalformed]
  dsimp only
  rw [hspan]
  dsimp only
  rw [ht]
  rfl

/-- In a text without fences the object is found, or the reader gives up before it. -/
theorem embeddedIn?_append {t : String} (ht : InBraces t.toList)
    (hread : read t = .ok (.record found)) {q s : List Char}
    (hq : ∀ c ∈ q, c ≠ '"' ∧ c ≠ '\x5b' ∧ c ≠ '\x7b') (hs : '\x7d' ∉ s) :
    (¬ StartsOverlong (skip q) → embeddedIn? (q ++ t.toList ++ s) = some found) ∧
      (StartsOverlong (skip q) → embeddedIn? (q ++ t.toList ++ s) = none) := by
  have hspan : braceSpan? (q ++ t.toList ++ s) = some t.toList :=
    ht.braceSpan?_append (fun hbrace => (hq _ hbrace).2.2 rfl) hs
  obtain ⟨body, hbody⟩ := ht.first
  replace hread : read (String.ofList t.toList) = .ok (.record found) :=
    (congrArg read String.ofList_toList).trans hread
  have hdocument : document t.toList = .ok (.record found) := by
    rwa [read_of_ne (by rw [hbody]; simp)] at hread
  by_cases hmark : q.head? = some '\ufeff'
  · obtain ⟨rest, rfl⟩ : ∃ rest, q = '\ufeff' :: rest := by
      cases q with
      | nil => cases hmark
      | cons c rest => exact ⟨rest, by rw [Option.some.inj hmark]⟩
    refine ⟨fun _ => embeddedIn?_of_malformed (read_mark _) hspan hread, ?_⟩
    intro hoverlong
    have hskip : skip ('\ufeff' :: rest) = [] ++ '\ufeff' :: rest := rfl
    rw [hskip, ← number_eq_overlong_iff] at hoverlong
    cases hoverlong
  · have hread' : read (String.ofList (q ++ t.toList ++ s)) = document (q ++ t.toList ++ s) := by
      refine read_of_ne ?_
      cases q with
      | nil => rw [hbody]; simp
      | cons c rest => exact hmark
    by_cases hblank : skip q = []
    · have hnot : ¬ StartsOverlong (skip q) := by
        rw [hblank]
        exact not_startsOverlong_nil
      refine ⟨fun _ => ?_, fun hoverlong => absurd hoverlong hnot⟩
      rcases ht.document_of_blank hdocument hblank s with hok | ⟨offset, hmalformed⟩
      · rw [embeddedIn?, hread', hok]
        rfl
      · exact embeddedIn?_of_malformed (hread'.trans hmalformed) hspan hread
    · rcases ht.document_of_text hblank hq s with ⟨hoverlong, hfault⟩ | ⟨hnot, offset, hmalformed⟩
      · refine ⟨fun hnot => absurd hoverlong hnot, fun _ => ?_⟩
        rw [embeddedIn?, hread', hfault]
      · exact ⟨fun _ => embeddedIn?_of_malformed (hread'.trans hmalformed) hspan hread,
          fun hoverlong => absurd hoverlong hnot⟩

theorem inBraces_iff {t : String} :
    InBraces t.toList ↔ t.toList.head? = some '\x7b' ∧ t.toList.getLast? = some '\x7d' := by
  rw [List.head?_eq_some_iff, List.getLast?_eq_some_iff]
  exact ⟨fun h => ⟨h.first, h.last⟩, fun h => ⟨h.1, h.2⟩⟩

/-- The white space and the fences around prose and an object are the prose's own. -/
theorem embedded?_append {t : String} (ht : InBraces t.toList) (p s : String) :
    embedded? (.text (p ++ t ++ s))
      = embeddedIn? (opened p.toList ++ t.toList ++ closed s.toList) := by
  have hne : p ++ t ++ s ≠ "" := by
    intro hempty
    have hchars := congrArg String.toList hempty
    obtain ⟨body, hbody⟩ := ht.first
    rw [String.toList_append, String.toList_append, hbody] at hchars
    simp at hchars
  rw [embedded?, if_neg hne, String.toList_append, String.toList_append, ht.withoutFences_append]

/-- An object that stands in its braces is found with any text before it that has no opening brace,
no opening bracket and no quotation mark, and any text after it that has no closing brace: whatever
is in the object, white space and fences around it included. It is found unless the text before it,
without the white space and the fence at its start, starts with a whole number that is too long to
be read; then nothing comes of the answer. -/
theorem embedded_amid {t p s : String} {found : List (String × Value)}
    (hread : read t = .ok (.record found)) (hfirst : t.toList.head? = some '\x7b')
    (hlast : t.toList.getLast? = some '\x7d')
    (hp : ∀ c ∈ p.toList, c ≠ '"' ∧ c ≠ '\x5b' ∧ c ≠ '\x7b') (hs : '\x7d' ∉ s.toList) :
    (¬ StartsOverlong (skip (opened p.toList)) → embedded? (.text (p ++ t ++ s)) = some found) ∧
      (StartsOverlong (skip (opened p.toList)) → embedded? (.text (p ++ t ++ s)) = none) := by
  have ht : InBraces t.toList := inBraces_iff.2 ⟨hfirst, hlast⟩
  rw [embedded?_append ht]
  exact embeddedIn?_append ht hread (fun c hc => hp c (mem_of_mem_opened hc))
    fun hbrace => hs (mem_of_mem_closed hbrace)

/-- An object with braces, a fence and a quotation mark in a string, in a fence of its own. -/
theorem embedded_amid_fence :
    read "\x7b\"a\": \"\x7d ``` \\\" \x7b\"\x7d" = .ok (.record [("a", .text "\x7d ``` \" \x7b")]) ∧
      ¬ StartsOverlong (skip (opened "\n```json\n ".toList)) ∧
      embedded? (.text ("\n```json\n " ++ "\x7b\"a\": \"\x7d ``` \\\" \x7b\"\x7d" ++ "\n``` \n"))
        = some [("a", .text "\x7d ``` \" \x7b")] := by
  have hread : read "\x7b\"a\": \"\x7d ``` \\\" \x7b\"\x7d"
      = .ok (.record [("a", .text "\x7d ``` \" \x7b")]) := by cbv
  have hopened : skip (opened "\n```json\n ".toList) = [] := by decide +kernel
  have hnot : ¬ StartsOverlong (skip (opened "\n```json\n ".toList)) :=
    hopened ▸ not_startsOverlong_nil
  have hall : "\n```json\n ".toList.all (fun c => c != '"' && c != '\x5b' && c != '\x7b')
      = true := by
    decide +kernel
  have hplain : ∀ c ∈ "\n```json\n ".toList, c ≠ '"' ∧ c ≠ '\x5b' ∧ c ≠ '\x7b' := by
    intro c hc
    simpa [and_assoc] using List.all_eq_true.1 hall c hc
  exact ⟨hread, hnot, (embedded_amid hread (by decide +kernel) (by decide +kernel) hplain
    (by decide +kernel)).1 hnot⟩

theorem opened_cons {c : Char} (hblank : isBlank c = false) (hfence : c ≠ '\x60')
    (cs : List Char) : opened (c :: cs) = c :: cs := by
  have hstrip : stripLeft (c :: cs) = c :: cs := List.dropWhile_cons_of_neg (by simp [hblank])
  have hnone : fence.isPrefixOf (c :: cs) = false := by
    rw [fence, List.isPrefixOf_cons_cons]
    simp [hfence.symm]
  rw [opened, hstrip, withoutOpening, if_neg (by simp [hnone]), hstrip]

/-- An object behind more digits than a number may have is not found. -/
theorem exists_object_overlooked : ∃ p t : String, ∃ found,
    read t = .ok (.record found) ∧ t.toList.head? = some '\x7b' ∧
    t.toList.getLast? = some '\x7d' ∧ (∀ c ∈ p.toList, c = '1') ∧
    embedded? (.text (p ++ t)) ≠ some found := by
  have hread : read "\x7b\"a\": 1\x7d" = .ok (.record [("a", .int 1)]) := by cbv
  have hbraces : InBraces "\x7b\"a\": 1\x7d".toList := inBraces_iff.2 (by decide +kernel)
  let ones := List.replicate (digitLimit + 1) '1'
  have hones : ∀ c ∈ ones, c = '1' := fun c hc => List.eq_of_mem_replicate hc
  have hoverlong : StartsOverlong ones := by
    have hlimit : digitLimit < ones.length := by
      rw [List.length_replicate]
      exact Nat.lt_succ_self _
    have hdigits : ∀ c ∈ ones, c.isDigit = true := fun c hc => hones c hc ▸ rfl
    exact ⟨[], ones, [], (List.append_nil _).symm, .inl rfl, hdigits, by decide +kernel, hlimit,
      fun c hc => absurd hc (Option.not_mem_none c), rfl, rfl⟩
  have hopened : opened ones = ones := opened_cons (by decide +kernel) (by decide) _
  have hplain : ∀ c ∈ ones, c ≠ '"' ∧ c ≠ '\x5b' ∧ c ≠ '\x7b' :=
    fun c hc => hones c hc ▸ by decide
  have hmissed := (embeddedIn?_append hbraces hread hplain List.not_mem_nil).2 hoverlong
  refine ⟨String.ofList ones, "\x7b\"a\": 1\x7d", _, hread, by decide +kernel, by decide +kernel,
    by rwa [String.toList_ofList], ?_⟩
  rw [← String.append_empty (s := _ ++ _), embedded?_append hbraces, String.toList_ofList, hopened]
  intro hfound
  rw [show closed "".toList = [] from rfl, hmissed] at hfound
  cases hfound

end BlockDiagram.Json
