import BlockDiagram.Path
import Mathlib.Logic.Relation

/-!
# Where paths lead

Segments of a path from the root of the file system cancel each other: an empty one and a single
dot mean nothing, a `..` takes back the name before it and stays at the root where there is none.
What is left when nothing cancels any more does not depend on the order, and it is where the path
leads.

* `Path.Cancels`, `Path.IsNormalOf`: the rules, and what is left of a path.
* `Path.isNormalOf_iff`: there is one normal form of every path.
* `Path.isNormalOf_joined_iff`: where a path leads from a directory is the normal form of the two
  joined.
-/

namespace BlockDiagram

namespace Text

theorem segments_append (mark : Char) (cs rest : List Char) :
    segments mark (cs ++ mark :: rest) = segments mark cs ++ segments mark rest := by
  induction cs with
  | nil => exact segments_append_mark List.not_mem_nil rest
  | cons c cs ih =>
    rw [List.cons_append, segments, segments, ih]
    split
    · rfl
    · cases hsegments : segments mark cs with
      | nil => exact absurd hsegments (segments_ne_nil mark cs)
      | cons first others => rfl

theorem splitAt_append (mark : Char) (s t : String) :
    splitAt mark (s ++ String.singleton mark ++ t) = splitAt mark s ++ splitAt mark t := by
  rw [splitAt, String.toList_append, String.toList_append, String.toList_singleton,
    List.append_assoc, List.singleton_append, segments_append, List.map_append]
  rfl

end Text

namespace Path

/-! ## Names -/

/-- Whether a segment means something. -/
def isMeant (part : String) : Bool := part != "" && part != "."

/-- A segment that names a file or a directory below the one that it is in. -/
def IsName (part : String) : Prop :=
  isMeant part = true ∧ part ≠ ".." ∧ '/' ∉ part.toList

theorem parts_eq (path : String) : parts path = (Text.splitAt '/' path).filter isMeant := rfl

/-- A segment that means something is a step up or a name. -/
theorem eq_or_isName_of_mem_parts {path part : String} (h : part ∈ parts path) :
    part = ".." ∨ IsName part := by
  obtain ⟨hsplit, hmeant⟩ := List.mem_filter.1 h
  by_cases hup : part = ".."
  · exact .inl hup
  · exact .inr ⟨hmeant, hup, Text.not_mem_of_mem_splitAt hsplit⟩

/-- The last segment of a path is a name, unless there is none or it is a step up. -/
theorem isName_base {path : String} (hempty : base path ≠ "") (hup : base path ≠ "..") :
    IsName (base path) := by
  have hmem : base path ∈ parts path := by
    unfold base at hempty ⊢
    cases hlast : (parts path).getLast? with
    | none =>
      rw [List.getLastD_eq_getLast?, hlast] at hempty
      exact absurd rfl hempty
    | some last =>
      rw [List.getLastD_eq_getLast?, hlast]
      exact List.mem_of_getLast? hlast
  exact (eq_or_isName_of_mem_parts hmem).resolve_left hup

/-! ## Walking -/

theorem walk_nil (directory : List String) : walk directory [] = directory := rfl

theorem walk_up (directory rest : List String) :
    walk directory (".." :: rest) = walk directory.dropLast rest := rfl

theorem walk_down {part : String} (h : part ≠ "..") (directory rest : List String) :
    walk directory (part :: rest) = walk (directory ++ [part]) rest := by
  rw [walk]
  exact h

theorem walk_append (directory before after : List String) :
    walk directory (before ++ after) = walk (walk directory before) after := by
  induction before generalizing directory with
  | nil => rfl
  | cons part rest ih =>
    by_cases hup : part = ".."
    · subst hup
      exact ih directory.dropLast
    · rw [List.cons_append, walk_down hup, walk_down hup, ih]

theorem walk_names {names : List String} (h : ∀ name ∈ names, name ≠ "..")
    (directory : List String) : walk directory names = directory ++ names := by
  induction names generalizing directory with
  | nil => rw [walk_nil, List.append_nil]
  | cons name rest ih =>
    rw [walk_down (h name List.mem_cons_self), ih fun other hother => h other
      (List.mem_cons_of_mem _ hother), List.append_assoc, List.singleton_append]

theorem isName_of_mem_walk {directory steps : List String}
    (hdirectory : ∀ part ∈ directory, IsName part)
    (hsteps : ∀ part ∈ steps, part = ".." ∨ IsName part) :
    ∀ part ∈ walk directory steps, IsName part := by
  induction steps generalizing directory with
  | nil => exact hdirectory
  | cons step rest ih =>
    have hrest : ∀ part ∈ rest, part = ".." ∨ IsName part := fun part hpart =>
      hsteps part (List.mem_cons_of_mem _ hpart)
    by_cases hup : step = ".."
    · subst hup
      exact ih (fun part hpart => hdirectory part (List.dropLast_subset _ hpart)) hrest
    · rw [walk_down hup]
      refine ih (fun part hpart => ?_) hrest
      rcases List.mem_append.1 hpart with hpart | hpart
      · exact hdirectory part hpart
      · rw [List.mem_singleton.1 hpart]
        exact (hsteps step List.mem_cons_self).resolve_left hup

/-- A path leads from a directory to one whose segments are names. -/
theorem isName_of_mem_resolve {directory : List String}
    (hdirectory : ∀ part ∈ directory, IsName part) (path : String) :
    ∀ part ∈ resolve directory path, IsName part := by
  refine isName_of_mem_walk ?_ fun part hpart => eq_or_isName_of_mem_parts hpart
  split
  · exact fun part hpart => absurd hpart List.not_mem_nil
  · exact hdirectory

theorem isWithin_iff {directory root : List String} :
    isWithin directory root = true ↔ root <+: directory :=
  List.isPrefixOf_iff_prefix

/-! ## Normal forms -/

/-- One step of cancelling segments of a path from the root of the file system. -/
inductive Cancels : List String → List String → Prop
  | blank (before : List String) {part : String} (after : List String)
      (h : part = "" ∨ part = ".") : Cancels (before ++ part :: after) (before ++ after)
  | back (before : List String) {name : String} (after : List String)
      (hmeant : isMeant name = true) (hname : name ≠ "..") :
      Cancels (before ++ name :: ".." :: after) (before ++ after)
  | stay (after : List String) : Cancels (".." :: after) after

/-- What is left of a path from the root of the file system when nothing cancels any more. -/
def IsNormalOf (path : String) (normal : List String) : Prop :=
  Relation.ReflTransGen Cancels (Text.splitAt '/' path) normal ∧ ∀ rest, ¬ Cancels normal rest

theorem isMeant_eq_false_iff {part : String} : isMeant part = false ↔ part = "" ∨ part = "." := by
  rw [isMeant, Bool.and_eq_false_iff, bne_eq_false_iff_eq, bne_eq_false_iff_eq]

/-- Where segments lead from the root of the file system. -/
def leads (segments : List String) : List String := walk [] (segments.filter isMeant)

/-- Cancelling does not change where segments lead. -/
theorem Cancels.leads_eq {before after : List String} (h : Cancels before after) :
    leads before = leads after := by
  cases h with
  | blank before after hblank =>
    rw [leads, leads, List.filter_append, List.filter_append,
      List.filter_cons_of_neg (by rw [isMeant_eq_false_iff.2 hblank]; exact Bool.false_ne_true)]
  | back before after hmeant hname =>
    rw [leads, leads, List.filter_append, List.filter_append, List.filter_cons_of_pos hmeant,
      List.filter_cons_of_pos (by decide), walk_append, walk_append, walk_down hname, walk_up,
      List.dropLast_concat]
  | stay after =>
    rw [leads, leads, List.filter_cons_of_pos (by decide), walk_up]
    rfl

/-- Nothing cancels in a list of names, and in no other list. -/
theorem forall_not_cancels_iff {segments : List String} :
    (∀ rest, ¬ Cancels segments rest) ↔ ∀ part ∈ segments, isMeant part = true ∧ part ≠ ".." := by
  constructor
  · intro h part hpart
    have hmeant : ∀ part ∈ segments, isMeant part = true := by
      intro part hpart
      obtain ⟨before, after, rfl⟩ := List.append_of_mem hpart
      cases hmeant : isMeant part with
      | true => rfl
      | false => exact absurd (.blank before after (isMeant_eq_false_iff.1 hmeant)) (h _)
    refine ⟨hmeant part hpart, ?_⟩
    rintro rfl
    -- The first step up has nothing before it that it could not take back.
    obtain ⟨before, after, hsegments, hfirst⟩ := List.eq_append_cons_of_mem hpart
    subst hsegments
    rcases List.eq_nil_or_concat before with rfl | ⟨front, name, rfl⟩
    · exact h _ (.stay after)
    · rw [List.concat_eq_append] at *
      have hname : name ∈ front ++ [name] := List.mem_append_right _ (List.mem_singleton_self _)
      rw [List.append_assoc, List.singleton_append] at h
      exact h _ (.back front after (hmeant name (List.mem_append_left _ hname))
        fun hup => hfirst (hup ▸ hname))
  · rintro h _ (⟨before, after, hblank⟩ | ⟨before, after, -, -⟩ | ⟨after⟩)
    · next part =>
      have hmeant := (h part (List.mem_append_right _ List.mem_cons_self)).1
      rw [isMeant_eq_false_iff.2 hblank] at hmeant
      cases hmeant
    · exact (h ".." (List.mem_append_right _
        (List.mem_cons_of_mem _ List.mem_cons_self))).2 rfl
    · exact (h ".." List.mem_cons_self).2 rfl

/-- Segments behind a directory cancel until they are where they lead. -/
theorem cancels_walk {directory : List String}
    (hdirectory : ∀ part ∈ directory, isMeant part = true ∧ part ≠ "..") (segments : List String) :
    Relation.ReflTransGen Cancels (directory ++ segments)
      (walk directory (segments.filter isMeant)) := by
  induction segments generalizing directory with
  | nil =>
    rw [List.append_nil]
    exact .refl
  | cons part rest ih =>
    cases hmeant : isMeant part with
    | false =>
      rw [List.filter_cons_of_neg (by rw [hmeant]; exact Bool.false_ne_true)]
      exact .head (.blank directory rest (isMeant_eq_false_iff.1 hmeant)) (ih hdirectory)
    | true =>
      rw [List.filter_cons_of_pos hmeant]
      by_cases hup : part = ".."
      · subst hup
        rw [walk_up]
        have hparent : ∀ part ∈ directory.dropLast, isMeant part = true ∧ part ≠ ".." :=
          fun part hpart => hdirectory part (List.dropLast_subset _ hpart)
        have hshorter := ih hparent
        rcases List.eq_nil_or_concat directory with rfl | ⟨front, name, rfl⟩
        · exact .head (.stay rest) hshorter
        · rw [List.concat_eq_append] at *
          obtain ⟨hname, hnotUp⟩ := hdirectory name (List.mem_append_right _
            (List.mem_singleton_self _))
          rw [List.append_assoc, List.singleton_append]
          refine .head (.back front rest hname hnotUp) ?_
          rwa [List.dropLast_concat] at hshorter ⊢
      · rw [walk_down hup]
        have hchild : ∀ other ∈ directory ++ [part], isMeant other = true ∧ other ≠ ".." := by
          intro other hother
          rcases List.mem_append.1 hother with hother | hother
          · exact hdirectory other hother
          · exact List.mem_singleton.1 hother ▸ ⟨hmeant, hup⟩
        have hlonger := ih hchild
        rwa [List.append_assoc, List.singleton_append] at hlonger

/-- Every path has one normal form. -/
theorem isNormalOf_iff {path : String} {normal : List String} :
    IsNormalOf path normal ↔ normal = walk [] (parts path) := by
  constructor
  · rintro ⟨hcancels, hnormal⟩
    have hsame : leads (Text.splitAt '/' path) = leads normal := by
      clear hnormal
      induction hcancels with
      | refl => rfl
      | tail _ hstep ih => exact ih.trans hstep.leads_eq
    have hnames := forall_not_cancels_iff.1 hnormal
    have hfilter : normal.filter isMeant = normal :=
      List.filter_eq_self.2 fun part hpart => (hnames part hpart).1
    rw [parts_eq, ← leads, hsame, leads, hfilter,
      walk_names fun part hpart => (hnames part hpart).2, List.nil_append]
  · rintro rfl
    have hroot : ∀ part ∈ ([] : List String), isMeant part = true ∧ part ≠ ".." :=
      fun part hpart => absurd hpart List.not_mem_nil
    refine ⟨cancels_walk hroot _, forall_not_cancels_iff.2 fun part hpart => ?_⟩
    obtain ⟨hmeant, hup, -⟩ := isName_of_mem_walk
      (fun part hpart => absurd hpart List.not_mem_nil)
      (fun part hpart => eq_or_isName_of_mem_parts hpart) part hpart
    exact ⟨hmeant, hup⟩

/-! ## Joined paths -/

/-- A path behind that of a directory; an absolute path stands for itself. -/
def joined (directory : List String) (path : String) : String :=
  if isAbsolute path then path else render directory ++ "/" ++ path

theorem parts_append (s t : String) : parts (s ++ "/" ++ t) = parts s ++ parts t := by
  have hmark : ("/" : String) = String.singleton '/' := rfl
  rw [parts_eq, hmark, Text.splitAt_append, List.filter_append]
  rfl

theorem parts_render {directory : List String} (h : ∀ part ∈ directory, IsName part) :
    parts (render directory) = directory := by
  have hmark : ("/" : String) = String.singleton '/' := rfl
  have hempty : parts "" = [] := rfl
  have hrender : render directory = "" ++ "/" ++ Text.join "/" directory := by
    rw [render, String.empty_append]
  rw [hrender, parts_append, hempty, List.nil_append]
  cases directory with
  | nil => rfl
  | cons first rest =>
    rw [parts_eq, hmark,
      Text.splitAt_join (List.cons_ne_nil _ _) fun part hpart => (h part hpart).2.2]
    exact List.filter_eq_self.2 fun part hpart => (h part hpart).1

/-- Where a path leads from a directory is what is left of the two joined. -/
theorem isNormalOf_joined_iff {directory : List String} (h : ∀ part ∈ directory, IsName part)
    {path : String} {normal : List String} :
    IsNormalOf (joined directory path) normal ↔ normal = resolve directory path := by
  rw [isNormalOf_iff, joined, resolve]
  split
  · rfl
  · rw [parts_append, parts_render h, walk_append,
      walk_names (fun part hpart => (h part hpart).2.1), List.nil_append]

end Path

end BlockDiagram
