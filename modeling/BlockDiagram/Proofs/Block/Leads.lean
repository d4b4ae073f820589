import BlockDiagram.CodeCheck
import BlockDiagram.Proofs.Block.Clean

/-!
# Texts in which literals end and braces match

`Leads m n cs` says that a scan which enters `cs` outside literals with `m` braces open leaves it
outside literals with `n` braces open, and never closes a brace that is not open. It is the
invariant of everything that writes blocks: a literal, an attribute and a block lead from any depth
back to it.

* `leads_quote`: a text in quotes, whatever it holds.
* `LeadsLines.join`: lines one below another.
* `braceFault?_append`: the check of braces goes on behind such a text as if it were not there.
-/

namespace BlockDiagram.Block

/-- What stands between the quotes of a literal: every quote and backslash comes behind a
backslash. -/
inductive LiteralBody : List Char → Prop
  | nil : LiteralBody []
  | plain {c : Char} {cs : List Char} : c ≠ '"' → c ≠ '\\' → LiteralBody cs → LiteralBody (c :: cs)
  | escaped {c : Char} {cs : List Char} : LiteralBody cs → LiteralBody ('\\' :: c :: cs)

/-- A text goes from one depth of braces to another. -/
inductive Leads : Nat → Nat → List Char → Prop
  | nil {n : Nat} : Leads n n []
  | inert {m n : Nat} {c : Char} {cs : List Char} :
    isInert c = true → Leads m n cs → Leads m n (c :: cs)
  | literal {m n : Nat} {body cs : List Char} :
    LiteralBody body → Leads m n cs → Leads m n ('"' :: (body ++ '"' :: cs))
  | opening {m n : Nat} {cs : List Char} : Leads (m + 1) n cs → Leads m n ('\x7b' :: cs)
  | closing {m n : Nat} {cs : List Char} : Leads m n cs → Leads (m + 1) n ('\x7d' :: cs)

variable {l m n : Nat}

theorem Leads.append {cs ds : List Char} (hcs : Leads l m cs) (hds : Leads m n ds) :
    Leads l n (cs ++ ds) := by
  induction hcs with
  | nil => exact hds
  | inert hc _ ih => exact .inert hc (ih hds)
  | literal hbody _ ih =>
    rw [List.cons_append, List.append_assoc, List.cons_append]
    exact .literal hbody (ih hds)
  | opening _ ih => exact .opening (ih hds)
  | closing _ ih => exact .closing (ih hds)

/-! ## Strings -/

/-- The same of a string. -/
def LeadsString (m n : Nat) (s : String) : Prop := Leads m n s.toList

theorem LeadsString.append {s t : String} (hs : LeadsString l m s) (ht : LeadsString m n t) :
    LeadsString l n (s ++ t) := by
  rw [LeadsString, String.toList_append]
  exact Leads.append hs ht

theorem leads_inert {cs : List Char} (h : ∀ c ∈ cs, isInert c = true) (n : Nat) :
    Leads n n cs := by
  induction cs with
  | nil => exact .nil
  | cons c cs ih =>
    have hrest := ih fun d hd => h d (List.mem_cons_of_mem _ hd)
    exact .inert (h c List.mem_cons_self) hrest

theorem leads_clean {s : String} (h : IsClean s) (n : Nat) : LeadsString n n s :=
  leads_inert h n

theorem leads_opened {s : String} (h : IsClean s) (n : Nat) : LeadsString n (n + 1) (s ++ "\x7b") :=
  (leads_clean h n).append (.opening .nil)

theorem leads_closing (n : Nat) : LeadsString (n + 1) n "\x7d" := .closing .nil

theorem leads_closed {s : String} (h : IsClean s) (n : Nat) : LeadsString (n + 1) n (s ++ "\x7d") :=
  (leads_clean h (n + 1)).append (leads_closing n)

theorem literalBody_escape {body : List Char} (h : LiteralBody body) (c : Char) :
    LiteralBody ((escape c).toList ++ body) := by
  unfold escape
  split
  · exact .escaped h
  · exact .escaped h
  · exact .escaped h
  · exact .escaped h
  · exact .escaped h
  · next hbackslash hquote _ _ _ =>
    rw [String.toList_singleton]
    exact .plain hquote hbackslash h

/-- The characters between the quotes of a literal. -/
def escaped (cs : List Char) : List Char := cs.flatMap fun c => (escape c).toList

theorem toList_quote (s : String) : (quote s).toList = '"' :: (escaped s.toList ++ ['"']) := by
  rw [quote, String.toList_append, String.toList_append, Text.toList_join_empty, List.flatMap_map]
  rfl

theorem literalBody_escaped (cs : List Char) : LiteralBody (escaped cs) := by
  induction cs with
  | nil => exact .nil
  | cons c cs ih =>
    rw [escaped, List.flatMap_cons]
    exact literalBody_escape ih c

theorem leads_quote (s : String) (n : Nat) : LeadsString n n (quote s) := by
  rw [LeadsString, toList_quote]
  exact .literal (literalBody_escaped s.toList) .nil

/-! ## Lines -/

/-- Lines that lead from depth to depth one after another. -/
inductive LeadsLines : Nat → Nat → List String → Prop
  | nil {n : Nat} : LeadsLines n n []
  | cons {l m n : Nat} {line : String} {lines : List String} :
    LeadsString l m line → LeadsLines m n lines → LeadsLines l n (line :: lines)

theorem LeadsLines.append {lines others : List String} (hlines : LeadsLines l m lines)
    (hothers : LeadsLines m n others) : LeadsLines l n (lines ++ others) := by
  induction hlines with
  | nil => exact hothers
  | cons hline _ ih => exact .cons hline (ih hothers)

theorem LeadsLines.single {line : String} (h : LeadsString m n line) : LeadsLines m n [line] :=
  .cons h .nil

/-- Lines of which each one leads back to the depth where it starts. -/
theorem leadsLines_of_forall {lines : List String} (h : ∀ line ∈ lines, LeadsString n n line) :
    LeadsLines n n lines := by
  induction lines with
  | nil => exact .nil
  | cons line lines ih =>
    have hrest := ih fun other hother => h other (List.mem_cons_of_mem _ hother)
    exact .cons (h line List.mem_cons_self) hrest

theorem LeadsLines.join {separator : String} (hseparator : IsClean separator) {lines : List String}
    (h : LeadsLines m n lines) : LeadsString m n (Text.join separator lines) := by
  induction h with
  | nil => exact .nil
  | @cons l m n line lines hline hlines ih =>
    by_cases hlast : lines = []
    · subst hlast
      cases hlines
      exact hline
    · rw [Text.join_cons hlast]
      exact (hline.append (leads_clean hseparator m)).append ih

/-! ## The check of braces -/

open CodeCheck (braceFault?)

theorem braceFault?_literal {body : List Char} (h : LiteralBody body) (depth : Nat)
    (rest : List Char) :
    braceFault? .literal depth (body ++ '"' :: rest) = braceFault? .outside depth rest := by
  induction h with
  | nil => rfl
  | plain hquote hbackslash _ ih =>
    rw [List.cons_append, braceFault?, if_neg hbackslash, if_neg hquote, ih]
  | escaped _ ih =>
    rw [List.cons_append, List.cons_append, braceFault?, if_pos rfl, braceFault?, ih]

/-- The check passes over a text that leads from depth to depth. -/
theorem braceFault?_append {cs : List Char} (h : Leads m n cs) (rest : List Char) :
    braceFault? .outside m (cs ++ rest) = braceFault? .outside n rest := by
  induction h with
  | nil => rfl
  | inert hc _ ih =>
    simp only [isInert, Bool.and_eq_true, bne_iff_ne, ne_eq] at hc
    obtain ⟨⟨⟨hquote, hmark⟩, hopening⟩, hclosing⟩ := hc
    rw [List.cons_append, braceFault?, if_neg hquote, if_neg hmark, if_neg hopening,
      if_neg hclosing, ih]
  | literal hbody _ ih =>
    rw [List.cons_append, List.append_assoc, List.cons_append, braceFault?, if_pos rfl,
      braceFault?_literal hbody, ih]
  | opening _ ih => exact ih
  | closing _ ih => exact ih

end BlockDiagram.Block
