import BlockDiagram.Proofs.Block.Leads
import Mathlib.Data.List.Infix

/-!
# The language of the check of braces

A text is cut into plain characters, literals and comments. The cut is made in one way, if at all,
and the check of braces and literals finds no fault exactly in the texts that can be cut so that the
plain braces are balanced: no brace closes that was not opened, and every open one is closed.

* `CodeCheck.Cut`: a text cut into its pieces.
* `CodeCheck.Balanced`: braces that lead from one depth to another.
* `CodeCheck.Cut.unique`: a text is cut in one way.
* `CodeCheck.Cut.braceFault?_eq_none_iff`: what the check asks of a text that is cut.
* `CodeCheck.exists_cut_of_braceFault?`: a text without a fault is cut.
* `CodeCheck.braceFault?_eq_none_exactly`: which texts have no fault.
-/

namespace BlockDiagram.CodeCheck

open Block (LiteralBody braceFault?_literal)

/-! ## Pieces -/

/-- A piece of a configuration text: a plain character, what stands between the quotes of a literal,
or what stands behind the mark of a comment. -/
inductive Piece where
  | plain (c : Char)
  | literal (body : List Char)
  | comment (body : List Char)
deriving DecidableEq, Repr

/-- Whether a comment may end before a text: it goes on to the end of its line. -/
def EndsLine (rest : List Char) : Prop := ∀ c ∈ rest.head?, c = '\n'

/-- A text cut into pieces. Outside literals a quote begins a literal, which ends at the next quote
that is not escaped, and a mark begins a comment, which goes on to the end of the line. -/
inductive Cut : List Char → List Piece → Prop
  | nil : Cut [] []
  | plain {c : Char} {rest : List Char} {pieces : List Piece} (hquote : c ≠ '"') (hmark : c ≠ '#')
      (hrest : Cut rest pieces) : Cut (c :: rest) (.plain c :: pieces)
  | literal {body rest : List Char} {pieces : List Piece} (hbody : LiteralBody body)
      (hrest : Cut rest pieces) : Cut ('"' :: (body ++ '"' :: rest)) (.literal body :: pieces)
  | comment {body rest : List Char} {pieces : List Piece} (hbody : '\n' ∉ body)
      (hend : EndsLine rest) (hrest : Cut rest pieces) :
      Cut ('#' :: (body ++ rest)) (.comment body :: pieces)

/-- The plain braces among some pieces. -/
def braces : List Piece → List Char
  | [] => []
  | .plain c :: pieces => if c = '\x7b' ∨ c = '\x7d' then c :: braces pieces else braces pieces
  | _ :: pieces => braces pieces

/-- Whether a text ends inside a comment. -/
def EndsInComment (text : List Char) : Prop := ∃ pieces body, Cut text (pieces ++ [.comment body])

/-! ## Balanced braces -/

/-- With some braces open, others lead to some that are open: nowhere are more closed than were
opened. -/
structure Balanced (before after : Nat) (braces : List Char) : Prop where
  opened : ∀ front, front <+: braces → front.count '\x7d' ≤ before + front.count '\x7b'
  total : before + braces.count '\x7b' = after + braces.count '\x7d'

variable {m n k : Nat} {bs cs : List Char}

theorem balanced_nil_iff : Balanced m n [] ↔ m = n := by
  constructor
  · intro h
    exact h.total
  · rintro rfl
    refine ⟨fun front hfront => ?_, rfl⟩
    rw [List.prefix_nil.1 hfront]
    exact Nat.zero_le _

/-- The first brace leads to the depth from which the others lead on. -/
theorem balanced_cons_iff {c : Char} (hstep : m + [c].count '\x7b' = k + [c].count '\x7d') :
    Balanced m n (c :: bs) ↔ Balanced k n bs := by
  have hcount : ∀ (a : Char) (cs : List Char), (c :: cs).count a = [c].count a + cs.count a :=
    fun a cs => show ([c] ++ cs).count a = _ from List.count_append
  constructor
  · rintro ⟨hopened, htotal⟩
    refine ⟨fun front hfront => ?_, ?_⟩
    · have hlonger := hopened (c :: front) (List.cons_prefix_cons.2 ⟨rfl, hfront⟩)
      rw [hcount _ front, hcount _ front] at hlonger
      omega
    · rw [hcount _ bs, hcount _ bs] at htotal
      omega
  · rintro ⟨hopened, htotal⟩
    refine ⟨fun front hfront => ?_, ?_⟩
    · rcases List.prefix_cons_iff.1 hfront with rfl | ⟨front, rfl, hrest⟩
      · exact Nat.zero_le _
      · have hshorter := hopened front hrest
        rw [hcount _ front, hcount _ front]
        omega
    · rw [hcount _ bs, hcount _ bs]
      omega

theorem balanced_opening_iff : Balanced m n ('\x7b' :: bs) ↔ Balanced (m + 1) n bs :=
  balanced_cons_iff rfl

theorem balanced_closing_iff : Balanced (m + 1) n ('\x7d' :: bs) ↔ Balanced m n bs :=
  balanced_cons_iff rfl

theorem not_balanced_closing : ¬ Balanced 0 n ('\x7d' :: bs) := by
  intro h
  have hfirst := h.opened ['\x7d'] (List.cons_prefix_cons.2 ⟨rfl, List.nil_prefix⟩)
  exact absurd hfirst (by decide)

/-- Braces that lead on from where others lead. -/
theorem Balanced.append (hbs : Balanced m n bs) (hcs : Balanced n k cs) :
    Balanced m k (bs ++ cs) := by
  refine ⟨fun front hfront => ?_, ?_⟩
  · rcases List.prefix_or_prefix_of_prefix hfront (List.prefix_append bs cs) with hshort | hlong
    · exact hbs.opened front hshort
    · obtain ⟨others, rfl⟩ := hlong
      have hrest := hcs.opened others ((List.prefix_append_right_inj bs).1 hfront)
      have htotal := hbs.total
      rw [List.count_append, List.count_append]
      omega
  · have htotal := hbs.total
    have hrest := hcs.total
    rw [List.count_append, List.count_append]
    omega

/-- What is balanced stays so with more braces open on either side. -/
theorem Balanced.deeper (h : Balanced m n bs) : Balanced (m + 1) (n + 1) bs := by
  refine ⟨fun front hfront => ?_, ?_⟩
  · have hopened := h.opened front hfront
    omega
  · have htotal := h.total
    omega

/-! ## Cuts -/

variable {text other : List Char} {pieces others : List Piece}

theorem braces_append (pieces others : List Piece) :
    braces (pieces ++ others) = braces pieces ++ braces others := by
  induction pieces with
  | nil => rfl
  | cons piece pieces ih =>
    cases piece with
    | plain c =>
      rw [List.cons_append, braces, braces, ih]
      split <;> rfl
    | literal body => exact ih
    | comment body => exact ih

/-- A text is cut behind another one, if that does not end in a comment. -/
theorem Cut.append (h : Cut text pieces) (hother : Cut other others)
    (hlast : ∀ body, pieces.getLast? ≠ some (.comment body)) :
    Cut (text ++ other) (pieces ++ others) := by
  induction h with
  | nil => exact hother
  | plain hquote hmark hrest ih =>
    refine .plain hquote hmark (ih fun body hbody => hlast body ?_)
    rw [List.getLast?_cons, hbody]
    rfl
  | literal hbody hrest ih =>
    rw [List.cons_append, List.append_assoc, List.cons_append]
    refine .literal hbody (ih fun body hbody => hlast body ?_)
    rw [List.getLast?_cons, hbody]
    rfl
  | @comment body rest pieces hbody hend hrest ih =>
    -- the comment is not the last piece, so its line ends inside the first text
    rw [List.cons_append, List.append_assoc]
    cases hrest with
    | nil => exact absurd rfl (hlast body)
    | plain hquote hmark hrest =>
      refine .comment hbody hend (ih fun body hbody => hlast body ?_)
      rw [List.getLast?_cons, hbody]
      rfl
    | literal => exact absurd (hend '"' rfl) (by decide)
    | comment => exact absurd (hend '#' rfl) (by decide)

theorem Cut.getLast?_ne_comment (h : Cut text pieces) (hend : ¬ EndsInComment text)
    (body : List Char) : pieces.getLast? ≠ some (.comment body) := by
  intro hlast
  obtain ⟨front, rfl⟩ := List.getLast?_eq_some_iff.1 hlast
  exact hend ⟨front, body, h⟩

theorem literalBody_unique {body body' rest rest' : List Char} (h : LiteralBody body)
    (h' : LiteralBody body') (heq : body ++ '"' :: rest = body' ++ '"' :: rest') :
    body = body' ∧ rest = rest' := by
  induction h generalizing body' with
  | nil =>
    cases h' with
    | nil => exact ⟨rfl, List.tail_eq_of_cons_eq heq⟩
    | plain hquote => exact absurd (List.head_eq_of_cons_eq heq).symm hquote
    | escaped => exact absurd (List.head_eq_of_cons_eq heq) (by decide)
  | plain hquote hbackslash _ ih =>
    cases h' with
    | nil => exact absurd (List.head_eq_of_cons_eq heq) hquote
    | plain _ _ hbody' =>
      obtain ⟨rfl, htail⟩ := List.cons.inj heq
      obtain ⟨rfl, rfl⟩ := ih hbody' htail
      exact ⟨rfl, rfl⟩
    | escaped => exact absurd (List.head_eq_of_cons_eq heq) hbackslash
  | escaped _ ih =>
    cases h' with
    | nil => exact absurd (List.head_eq_of_cons_eq heq) (by decide)
    | plain _ hbackslash => exact absurd (List.head_eq_of_cons_eq heq).symm hbackslash
    | escaped hbody' =>
      obtain ⟨-, hbehind⟩ := List.cons.inj heq
      obtain ⟨rfl, htail⟩ := List.cons.inj hbehind
      obtain ⟨rfl, rfl⟩ := ih hbody' htail
      exact ⟨rfl, rfl⟩

theorem comment_unique {body body' rest rest' : List Char} (h : '\n' ∉ body) (h' : '\n' ∉ body')
    (hend : EndsLine rest) (hend' : EndsLine rest') (heq : body ++ rest = body' ++ rest') :
    body = body' ∧ rest = rest' := by
  induction body generalizing body' with
  | nil =>
    cases body' with
    | nil => exact ⟨rfl, heq⟩
    | cons c body' =>
      rw [List.nil_append] at heq
      rw [heq] at hend
      exact absurd (List.mem_cons.2 (.inl (hend c rfl).symm)) h'
  | cons c body ih =>
    cases body' with
    | nil =>
      rw [List.nil_append] at heq
      rw [← heq] at hend'
      exact absurd (List.mem_cons.2 (.inl (hend' c rfl).symm)) h
    | cons c' body' =>
      obtain ⟨rfl, htail⟩ := List.cons.inj heq
      obtain ⟨rfl, rfl⟩ := ih (fun hmem => h (List.mem_cons_of_mem _ hmem))
        (fun hmem => h' (List.mem_cons_of_mem _ hmem)) htail
      exact ⟨rfl, rfl⟩

/-- A text is cut in one way. -/
theorem Cut.unique (h : Cut text pieces) (h' : Cut text others) : pieces = others := by
  induction h generalizing others with
  | nil =>
    cases h'
    rfl
  | plain hquote hmark _ ih =>
    cases h' with
    | plain _ _ hrest' => rw [ih hrest']
    | literal => exact absurd rfl hquote
    | comment => exact absurd rfl hmark
  | @literal body rest pieces hbody _ ih =>
    generalize htail : body ++ '"' :: rest = tail at h'
    cases h' with
    | plain hquote => exact absurd rfl hquote
    | literal hbody' hrest' =>
      obtain ⟨rfl, rfl⟩ := literalBody_unique hbody hbody' htail
      rw [ih hrest']
  | @comment body rest pieces hbody hend _ ih =>
    generalize htail : body ++ rest = tail at h'
    cases h' with
    | plain _ hmark => exact absurd rfl hmark
    | comment hbody' hend' hrest' =>
      obtain ⟨rfl, rfl⟩ := comment_unique hbody hbody' hend hend' htail
      rw [ih hrest']

theorem Cut.not_endsInComment (h : Cut text pieces)
    (hlast : ∀ body, pieces.getLast? ≠ some (.comment body)) : ¬ EndsInComment text := by
  rintro ⟨front, body, hcut⟩
  refine hlast body ?_
  rw [h.unique hcut, List.getLast?_concat]

/-! ## The check -/

theorem braceFault?_comment {body rest : List Char} (hbody : '\n' ∉ body) (hend : EndsLine rest)
    (depth : Nat) :
    braceFault? .comment depth (body ++ rest) = braceFault? .outside depth rest := by
  induction body with
  | nil =>
    cases rest with
    | nil => rfl
    | cons c rest =>
      rw [hend c rfl]
      rfl
  | cons c body ih =>
    rw [List.mem_cons, not_or] at hbody
    rw [List.cons_append, braceFault?, if_neg (Ne.symm hbody.1), ih hbody.2]

/-- In a text that is cut the check looks at nothing but the plain braces. -/
theorem Cut.braceFault?_eq_none_iff (h : Cut text pieces) (depth : Nat) :
    braceFault? .outside depth text = none ↔ Balanced depth 0 (braces pieces) := by
  induction h generalizing depth with
  | nil =>
    rw [braces, balanced_nil_iff, braceFault?]
    split <;> simp [*]
  | @plain c rest pieces hquote hmark _ ih =>
    rw [braceFault?, if_neg hquote, if_neg hmark, braces]
    split
    · next hopening =>
      rw [hopening, if_pos (.inl rfl), balanced_opening_iff, ih]
    · next hopening =>
      split
      · next hclosing =>
        rw [hclosing]
        cases depth with
        | zero => simp [not_balanced_closing]
        | succ depth => simp [balanced_closing_iff, ih]
      · next hclosing =>
        rw [if_neg (not_or.2 ⟨hopening, hclosing⟩), ih]
  | literal hbody _ ih =>
    rw [braceFault?, if_pos rfl, braceFault?_literal hbody, ih]
    rfl
  | comment hbody hend _ ih =>
    rw [braceFault?, if_neg (by decide), if_pos rfl, braceFault?_comment hbody hend, ih]
    rfl

/-- A literal in which a scan finds no fault ends. -/
theorem exists_literalBody {depth : Nat} {text : List Char}
    (h : braceFault? .literal depth text = none) :
    ∃ body rest, LiteralBody body ∧ text = body ++ '"' :: rest := by
  match text with
  | [] => cases h
  | c :: tail =>
    rw [braceFault?] at h
    by_cases hbackslash : c = '\\'
    · rw [if_pos hbackslash] at h
      cases tail with
      | nil => cases h
      | cons d rest =>
        obtain ⟨body, rest, hbody, rfl⟩ := exists_literalBody h
        exact ⟨'\\' :: d :: body, rest, .escaped hbody, by rw [hbackslash]; rfl⟩
    · rw [if_neg hbackslash] at h
      by_cases hquote : c = '"'
      · exact ⟨[], tail, .nil, by rw [hquote]; rfl⟩
      · rw [if_neg hquote] at h
        obtain ⟨body, rest, hbody, rfl⟩ := exists_literalBody h
        exact ⟨c :: body, rest, .plain hquote hbackslash hbody, rfl⟩

/-- Every text has a first line, up to its break or the end. -/
theorem exists_line (text : List Char) :
    ∃ body rest, '\n' ∉ body ∧ EndsLine rest ∧ text = body ++ rest := by
  induction text with
  | nil => exact ⟨[], [], List.not_mem_nil, fun c hc => absurd hc (by simp), rfl⟩
  | cons c tail ih =>
    by_cases hbreak : c = '\n'
    · refine ⟨[], c :: tail, List.not_mem_nil, fun d hd => ?_, rfl⟩
      rw [List.head?_cons, Option.mem_some_iff] at hd
      rw [← hd, hbreak]
    · obtain ⟨body, rest, hbody, hend, rfl⟩ := ih
      refine ⟨c :: body, rest, ?_, hend, rfl⟩
      rw [List.mem_cons, not_or]
      exact ⟨Ne.symm hbreak, hbody⟩

/-- A text without a fault is cut. -/
theorem exists_cut_of_braceFault? {depth : Nat} {text : List Char}
    (h : braceFault? .outside depth text = none) : ∃ pieces, Cut text pieces := by
  match text with
  | [] => exact ⟨[], .nil⟩
  | c :: tail =>
    rw [braceFault?] at h
    by_cases hquote : c = '"'
    · rw [if_pos hquote] at h
      obtain ⟨body, rest, hbody, htail⟩ := exists_literalBody h
      rw [htail, braceFault?_literal hbody] at h
      obtain ⟨pieces, hrest⟩ := exists_cut_of_braceFault? h
      rw [hquote, htail]
      exact ⟨_, .literal hbody hrest⟩
    · rw [if_neg hquote] at h
      by_cases hmark : c = '#'
      · rw [if_pos hmark] at h
        obtain ⟨body, rest, hbody, hend, htail⟩ := exists_line tail
        rw [htail, braceFault?_comment hbody hend] at h
        obtain ⟨pieces, hrest⟩ := exists_cut_of_braceFault? h
        rw [hmark, htail]
        exact ⟨_, .comment hbody hend hrest⟩
      · have hdeeper : ∃ depth, braceFault? .outside depth tail = none := by
          rw [if_neg hmark] at h
          split at h
          · exact ⟨_, h⟩
          · split at h
            · split at h
              · cases h
              · exact ⟨_, h⟩
            · exact ⟨_, h⟩
        obtain ⟨depth, h⟩ := hdeeper
        obtain ⟨pieces, hrest⟩ := exists_cut_of_braceFault? h
        exact ⟨_, .plain hquote hmark hrest⟩
termination_by text.length
decreasing_by
  all_goals
    subst_vars
    simp only [List.length_append, List.length_cons]
    omega

/-- The check finds no fault exactly in the texts that can be cut, which is done in one way, so that
their plain braces are balanced. So texts without a fault can be put one behind another, and a text
without a fault between braces, unless the first or the inner one ends in a comment. -/
theorem braceFault?_eq_none_exactly :
    (∀ text, braceFault? .outside 0 text = none ↔ ∃ pieces, Cut text pieces ∧
      (∀ front, front <+: braces pieces → front.count '\x7d' ≤ front.count '\x7b') ∧
      (braces pieces).count '\x7b' = (braces pieces).count '\x7d') ∧
    (∀ text pieces others, Cut text pieces → Cut text others → pieces = others) ∧
    (∀ text other, braceFault? .outside 0 text = none → braceFault? .outside 0 other = none →
      ¬ EndsInComment text → braceFault? .outside 0 (text ++ other) = none) ∧
    ∀ text, braceFault? .outside 0 text = none → ¬ EndsInComment text →
      braceFault? .outside 0 ('\x7b' :: (text ++ ['\x7d'])) = none := by
  have hiff : ∀ text, braceFault? .outside 0 text = none ↔
      ∃ pieces, Cut text pieces ∧ Balanced 0 0 (braces pieces) := by
    intro text
    constructor
    · intro h
      obtain ⟨pieces, hcut⟩ := exists_cut_of_braceFault? h
      exact ⟨pieces, hcut, (hcut.braceFault?_eq_none_iff 0).1 h⟩
    · rintro ⟨pieces, hcut, hbalanced⟩
      exact (hcut.braceFault?_eq_none_iff 0).2 hbalanced
  refine ⟨fun text => ?_, fun text pieces others h h' => h.unique h', ?_, ?_⟩
  · have hbalanced : ∀ bs, Balanced 0 0 bs ↔
        (∀ front, front <+: bs → front.count '\x7d' ≤ front.count '\x7b') ∧
          bs.count '\x7b' = bs.count '\x7d' := by
      intro bs
      constructor
      · rintro ⟨hopened, htotal⟩
        simp only [Nat.zero_add] at hopened htotal
        exact ⟨hopened, htotal⟩
      · rintro ⟨hopened, htotal⟩
        refine ⟨fun front hfront => ?_, ?_⟩
        · rw [Nat.zero_add]
          exact hopened front hfront
        · rw [htotal]
    simp only [hiff, hbalanced]
  · intro text other h hother hend
    obtain ⟨pieces, hcut, hbalanced⟩ := (hiff text).1 h
    obtain ⟨others, hcut', hbalanced'⟩ := (hiff other).1 hother
    refine (hiff _).2 ⟨_, hcut.append hcut' (hcut.getLast?_ne_comment hend), ?_⟩
    rw [braces_append]
    exact hbalanced.append hbalanced'
  · intro text h hend
    obtain ⟨pieces, hcut, hbalanced⟩ := (hiff text).1 h
    have hclosing : Cut ['\x7d'] [.plain '\x7d'] := .plain (by decide) (by decide) .nil
    have hinner := hcut.append hclosing (hcut.getLast?_ne_comment hend)
    refine (hiff _).2 ⟨_, .plain (by decide) (by decide) hinner, ?_⟩
    rw [braces, if_pos (.inl rfl), balanced_opening_iff, braces_append]
    exact hbalanced.deeper.append (balanced_closing_iff.2 (balanced_nil_iff.2 rfl))

/-- Braces in a literal and in a comment before two plain ones. -/
def masked : List Char := ['"', '\x7d', '"', '#', '\x7d', '\n', '\x7b', '\x7d']

theorem braceFault?_eq_none_masked :
    braceFault? .outside 0 masked = none ∧ ¬ EndsInComment masked ∧
      braceFault? .outside 0 (masked ++ masked) = none ∧
      braceFault? .outside 0 ('\x7b' :: (masked ++ ['\x7d'])) = none := by
  have hcut : Cut masked [.literal ['\x7d'], .comment ['\x7d'], .plain '\n', .plain '\x7b',
      .plain '\x7d'] := by
    refine @Cut.literal ['\x7d'] _ _ (.plain (by decide) (by decide) .nil) ?_
    refine @Cut.comment ['\x7d'] _ _ (by decide) (fun c hc => (Option.mem_some_iff.1 hc).symm) ?_
    exact .plain (by decide) (by decide) (.plain (by decide) (by decide)
      (.plain (by decide) (by decide) .nil))
  have hfault : braceFault? .outside 0 masked = none := by decide
  have hend : ¬ EndsInComment masked := hcut.not_endsInComment fun body h => by cases h
  obtain ⟨-, -, hbehind, hbetween⟩ := braceFault?_eq_none_exactly
  exact ⟨hfault, hend, hbehind masked masked hfault hfault hend, hbetween masked hfault hend⟩

-- A comment at the end hides the brace that would close.
example : braceFault? .outside 0 ['#'] = none ∧
    braceFault? .outside 0 ['\x7b', '#', '\x7d'] = some .unbalanced := by decide

end BlockDiagram.CodeCheck
