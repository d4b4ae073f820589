import BlockDiagram.Block.Files
import BlockDiagram.Proofs.Block.Shape
import Mathlib.Data.List.Forall2

/-!
# Reading blocks back

A reader goes over a configuration text character by character, skips literals with their escapes
and counts braces. What it sees outside all braces are the headings of the blocks; a heading gives
the kind of its block by the keyword and the labels by taking back the escapes.

* `readBlocks`: the kinds, types and names of the blocks of a text, if there is nothing else.
* `labelsFrom_quote`: a quoted label is read back, whatever it holds.
* `readBlocks_ofBlocks`: blocks one behind another are read back in order.
-/

namespace BlockDiagram.Block

/-! ## The reader -/

/-- Where the reader stands: outside literals, in one, or behind a backslash in one. -/
inductive Place where
  | outside
  | literal
  | escaped
deriving DecidableEq, Repr

/-- What the reader knows: how many braces are open, the text outside blocks since the last one,
and the headings of the blocks so far. -/
structure Reader where
  place : Place
  depth : Nat
  heading : List Char
  headings : List (List Char)
deriving DecidableEq, Repr

namespace Reader

def start : Reader := ⟨.outside, 0, [], []⟩

/-- The reader after text without braces: outside all blocks it belongs to a heading. -/
def passed (r : Reader) (cs : List Char) (place : Place) : Reader :=
  { r with place := place, heading := if r.depth = 0 then r.heading ++ cs else r.heading }

/-- The reader with one more heading, and no text since. -/
def headed (r : Reader) (heading : List Char) : Reader :=
  { r with heading := [], headings := r.headings ++ [heading] }

/-- The reader after an opening brace: outside all blocks a new one begins. -/
def opened (r : Reader) : Reader :=
  if r.depth = 0 then { r.headed r.heading with depth := 1 } else { r with depth := r.depth + 1 }

def step (r : Reader) (c : Char) : Option Reader :=
  match r.place with
  | .escaped => some (r.passed [c] .literal)
  | .literal =>
    some (r.passed [c] (if c = '\\' then .escaped else if c = '"' then .outside else .literal))
  | .outside =>
    if c = '"' then some (r.passed [c] .literal)
    else if c = '\x7b' then some r.opened
    else if c = '\x7d' then
      if r.depth = 0 then none else some { r with depth := r.depth - 1 }
    else some (r.passed [c] .outside)

def run (r : Reader) (cs : List Char) : Option Reader := cs.foldlM step r

end Reader

/-- The headings of the blocks of a text, if literals end, braces match and nothing but white space
follows the last block. -/
def headings? (cs : List Char) : Option (List (List Char)) :=
  match Reader.start.run cs with
  | some r =>
    if r.place = .outside ∧ r.depth = 0 ∧ r.heading.all Text.isBlank then some r.headings else none
  | none => none

/-- The character that stands behind a backslash. -/
def unescaped : Char → Char
  | 'n' => '\n'
  | 'r' => '\r'
  | 't' => '\t'
  | c => c

/-- The labels in a text with white space between them, from within a label or from between two. -/
def labelsFrom : Option (List Char) → List Char → Option (List String)
  | none, [] => some []
  | some _, [] => none
  | none, c :: rest =>
    if c = '"' then labelsFrom (some []) rest
    else if Text.isBlank c then labelsFrom none rest
    else none
  | some label, '\\' :: c :: rest => labelsFrom (some (label ++ [unescaped c])) rest
  | some label, c :: rest =>
    if c = '"' then (labelsFrom none rest).map (String.ofList label :: ·)
    else labelsFrom (some (label ++ [c])) rest

/-- Kind, type and name of a block. -/
abbrev Identity := Kind × Option String × Option String

/-- What a keyword and labels identify: blocks of typed kinds have two labels, others one. -/
def identified (keyword : String) (labels : List String) : Option Identity :=
  match Kind.all.find? fun kind => kind.key == keyword, labels with
  | some kind, [type, name] => if kind.isTyped then some (kind, some type, some name) else none
  | some kind, [name] => if kind.isTyped then none else some (kind, none, some name)
  | _, _ => none

def readHeading (cs : List Char) : Option Identity :=
  let text := Text.stripLeft cs
  (labelsFrom none (text.dropWhile Text.isWord)).bind
    (identified (String.ofList (text.takeWhile Text.isWord)))

/-- The blocks of a configuration text in order, if it consists of nothing else. -/
def readBlocks (text : String) : Option (List Identity) :=
  (headings? text.toList).bind fun headings => headings.mapM readHeading

/-! ## Passing over texts -/

namespace Reader

variable {r : Reader}

theorem run_append (r : Reader) (cs ds : List Char) :
    r.run (cs ++ ds) = (r.run cs).bind fun s => s.run ds :=
  List.foldlM_append

theorem run_cons (r : Reader) (c : Char) (cs : List Char) :
    r.run (c :: cs) = (r.step c).bind fun s => s.run cs :=
  List.foldlM_cons

theorem passed_passed (r : Reader) (cs ds : List Char) (place place' : Place) :
    (r.passed cs place).passed ds place' = r.passed (cs ++ ds) place' := by
  simp only [passed]
  split <;> simp

theorem run_literalBody {body : List Char} (h : LiteralBody body) (hr : r.place = .literal)
    (rest : List Char) :
    r.run (body ++ '"' :: rest) = (r.passed (body ++ ['"']) .outside).run rest := by
  induction h generalizing r with
  | nil =>
    rw [List.nil_append, run_cons, step, hr]
    rfl
  | @plain c cs hquote hbackslash _ ih =>
    have hstep : r.step c = some (r.passed [c] .literal) := by
      rw [step, hr]
      simp [hquote, hbackslash]
    rw [List.cons_append, run_cons, hstep, Option.bind_some, ih rfl, passed_passed]
    rfl
  | @escaped c cs _ ih =>
    have hstep : r.step '\\' = some (r.passed ['\\'] .escaped) := by
      rw [step, hr]
      rfl
    rw [List.cons_append, List.cons_append, run_cons, hstep, Option.bind_some, run_cons]
    have hstep' : (r.passed ['\\'] .escaped).step c = some (r.passed ['\\', c] .literal) := by
      rw [step]
      exact congrArg some (passed_passed r ['\\'] [c] .escaped .literal)
    rw [hstep', Option.bind_some, ih rfl, passed_passed]
    rfl

theorem step_inert {c : Char} (hc : isInert c = true) (hr : r.place = .outside) :
    r.step c = some (r.passed [c] .outside) := by
  simp only [isInert, Bool.and_eq_true, bne_iff_ne, ne_eq] at hc
  obtain ⟨⟨⟨hquote, -⟩, hopening⟩, hclosing⟩ := hc
  rw [step, hr]
  simp only [if_neg hquote, if_neg hopening, if_neg hclosing]

theorem step_quote (hr : r.place = .outside) : r.step '"' = some (r.passed ['"'] .literal) := by
  rw [step, hr]
  rfl

theorem passed_of_depth {m : Nat} (hdepth : r.depth = m + 1) (hr : r.place = .outside)
    (cs : List Char) : r.passed cs .outside = r := by
  rw [passed, if_neg (by omega), ← hr]

/-- Inside a block the reader keeps nothing of a text that leads from depth to depth. -/
theorem run_leads {m n : Nat} {cs : List Char} (h : Leads m n cs) (hr : r.place = .outside)
    (hdepth : r.depth = m + 1) : r.run cs = some { r with depth := n + 1 } := by
  induction h generalizing r with
  | nil =>
    rw [← hdepth]
    rfl
  | inert hc _ ih =>
    rw [run_cons, step_inert hc hr, Option.bind_some, passed_of_depth hdepth hr, ih hr hdepth]
  | @literal m n body cs hbody _ ih =>
    have hliteral := run_literalBody hbody (r := r.passed ['"'] .literal) rfl cs
    rw [run_cons, step_quote hr, Option.bind_some, hliteral, passed_passed,
      passed_of_depth hdepth hr, ih hr hdepth]
  | opening _ ih =>
    have hstep : r.step '\x7b' = some { r with depth := r.depth + 1 } := by
      simp [step, hr, opened, hdepth]
    rw [run_cons, hstep, Option.bind_some]
    exact ih hr (congrArg (· + 1) hdepth)
  | closing _ ih =>
    have hstep : r.step '\x7d' = some { r with depth := r.depth - 1 } := by
      simp [step, hr, hdepth]
    rw [run_cons, hstep, Option.bind_some]
    exact ih hr (congrArg (· - 1) hdepth)

/-! ## Passing over headings -/

/-- A text without braces in which literals end: the reader adds it to what it has seen. -/
def Passes (cs : List Char) : Prop :=
  ∀ r : Reader, r.place = .outside → r.run cs = some (r.passed cs .outside)

theorem Passes.append {cs ds : List Char} (hcs : Passes cs) (hds : Passes ds) :
    Passes (cs ++ ds) := by
  intro r hr
  rw [run_append, hcs r hr, Option.bind_some, hds _ rfl, passed_passed]

theorem passes_clean {s : String} (h : IsClean s) : Passes s.toList := by
  rw [IsClean] at h
  generalize s.toList = cs at h
  induction cs with
  | nil =>
    intro r hr
    cases r
    cases hr
    simp [run, passed]
  | cons c cs ih =>
    have hrest := ih fun d hd => h d (List.mem_cons_of_mem _ hd)
    intro r hr
    rw [run_cons, step_inert (h c List.mem_cons_self) hr, Option.bind_some, hrest _ rfl,
      passed_passed]
    rfl

theorem passes_quote (s : String) : Passes (quote s).toList := by
  intro r hr
  have hbody := literalBody_escaped s.toList
  have hliteral := run_literalBody hbody (r := r.passed ['"'] .literal) rfl []
  rw [toList_quote, run_cons, step_quote hr, Option.bind_some, hliteral, passed_passed]
  rfl

end Reader

/-- The labels of a heading. -/
def labelText (labels : List String) : List Char :=
  labels.flatMap fun label => ' ' :: (quote label).toList

theorem toList_headingOf (keyword : String) (labels : List String) :
    (headingOf keyword labels).toList = keyword.toList ++ labelText labels := by
  rw [headingOf, String.toList_append, Text.toList_join_empty, List.flatMap_map, labelText]
  simp

theorem passes_headingOf {keyword : String} (h : IsClean keyword) (labels : List String) :
    Reader.Passes (headingOf keyword labels).toList := by
  rw [toList_headingOf]
  apply (Reader.passes_clean h).append
  induction labels with
  | nil => exact Reader.passes_clean (s := "") (by decide)
  | cons label labels ih =>
    have hspace : Reader.Passes [' '] := Reader.passes_clean (s := " ") (by decide)
    exact (hspace.append (Reader.passes_quote label)).append ih

/-! ## Reading headings -/

theorem labelsFrom_escape (label : List Char) (c : Char) (rest : List Char) :
    labelsFrom (some label) ((escape c).toList ++ rest)
      = labelsFrom (some (label ++ [c])) rest := by
  unfold escape
  split
  · rfl
  · rfl
  · rfl
  · rfl
  · rfl
  · next hbackslash hquote _ _ _ =>
    rw [String.toList_singleton, List.singleton_append, labelsFrom, if_neg hquote]
    exact fun _ _ h _ => hbackslash h

/-- A label is read back from its literal. -/
theorem labelsFrom_quote (s : String) (rest : List Char) :
    labelsFrom none ((quote s).toList ++ rest) = (labelsFrom none rest).map (s :: ·) := by
  have hbody : ∀ (cs label : List Char),
      labelsFrom (some label) (escaped cs ++ '"' :: rest)
        = (labelsFrom none rest).map (String.ofList (label ++ cs) :: ·) := by
    intro cs
    induction cs with
    | nil =>
      intro label
      rw [List.append_nil]
      rfl
    | cons c cs ih =>
      intro label
      rw [escaped, List.flatMap_cons, List.append_assoc, labelsFrom_escape]
      exact (ih (label ++ [c])).trans (by rw [List.append_assoc, List.singleton_append])
  rw [toList_quote, List.cons_append, List.append_assoc, List.singleton_append, labelsFrom,
    if_pos rfl, hbody, List.nil_append, String.ofList_toList]

theorem labelsFrom_labelText (labels : List String) :
    labelsFrom none (labelText labels ++ [' ']) = some labels := by
  induction labels with
  | nil => rfl
  | cons label labels ih =>
    have hspace : ∀ rest, labelsFrom none (' ' :: rest) = labelsFrom none rest := fun _ => rfl
    rw [labelText, List.flatMap_cons, List.cons_append, List.cons_append, List.append_assoc, hspace,
      labelsFrom_quote]
    exact congrArg (Option.map (label :: ·)) ih

/-- What can be read of a node from its block: kind, name and, for typed kinds, the type. -/
def identityOf (node : Node) : Identity :=
  (node.kind, if node.kind.isTyped then node.resourceType else none, node.name)

theorem identified_of_labels? {node : Node} {labels : List String}
    (h : labels? node = some labels) :
    identified node.kind.key labels = some (identityOf node) := by
  have hkind : (Kind.all.find? fun kind => kind.key == node.kind.key) = some node.kind := by
    cases node.kind <;> rfl
  obtain ⟨name, hname, h⟩ := Option.bind_eq_some_iff.1 h
  rw [identityOf, hname]
  cases htyped : node.kind.isTyped with
  | true =>
    rw [if_pos htyped] at h
    obtain ⟨type, htype, h⟩ := Option.bind_eq_some_iff.1 h
    cases h
    simp [identified, hkind, htyped, htype]
  | false =>
    rw [htyped] at h
    cases h
    simp [identified, hkind, htyped]

/-- A heading with white space before it is read back. -/
theorem readHeading_headingOf {before : List Char} (h : ∀ c ∈ before, Text.isBlank c = true)
    (kind : Kind) (labels : List String) :
    readHeading (before ++ (headingOf kind.key labels).toList ++ [' '])
      = identified kind.key labels := by
  -- What follows the keyword starts with a space, so the keyword ends there.
  obtain ⟨rest, hrest⟩ : ∃ rest, labelText labels ++ [' '] = ' ' :: rest := by
    cases labels with
    | nil => exact ⟨[], rfl⟩
    | cons label labels => exact ⟨_, rfl⟩
  have hlabels := labelsFrom_labelText labels
  rw [hrest] at hlabels
  have hstrip : Text.stripLeft (before ++ (kind.key.toList ++ ' ' :: rest))
      = kind.key.toList ++ ' ' :: rest := by
    rw [Text.stripLeft, List.dropWhile_append_of_pos h]
    cases kind <;> rfl
  have htake : (kind.key.toList ++ ' ' :: rest).takeWhile Text.isWord = kind.key.toList := by
    cases kind <;> rfl
  have hdrop : (kind.key.toList ++ ' ' :: rest).dropWhile Text.isWord = ' ' :: rest := by
    cases kind <;> rfl
  rw [readHeading, toList_headingOf, List.append_assoc, List.append_assoc, hrest, hstrip]
  rw [htake, hdrop, hlabels, Option.bind_some, String.ofList_toList]

/-! ## Reading blocks -/

variable {r : Reader}

/-- Behind a block the reader is where it was before, with one more heading. -/
theorem run_block {keyword : String} (hkeyword : IsClean keyword) {labels : List String}
    {t : String} (h : IsBlock (headingOf keyword labels) t) (hr : r.place = .outside)
    (hdepth : r.depth = 0) :
    r.run t.toList
      = some (r.headed (r.heading ++ (headingOf keyword labels).toList ++ [' '])) := by
  obtain ⟨body, rfl, hbody⟩ := h
  have hparts : (headingOf keyword labels ++ " \x7b" ++ body ++ "\x7d").toList
      = ((headingOf keyword labels).toList ++ [' ']) ++ '\x7b' :: (body.toList ++ ['\x7d']) := by
    simp
  have hheading : Reader.Passes ((headingOf keyword labels).toList ++ [' ']) :=
    (passes_headingOf hkeyword labels).append (Reader.passes_clean (s := " ") (by decide))
  let after := r.headed (r.heading ++ (headingOf keyword labels).toList ++ [' '])
  have hopening : (r.passed ((headingOf keyword labels).toList ++ [' ']) .outside).step '\x7b'
      = some { after with depth := 1 } := by
    simp [after, Reader.step, Reader.passed, Reader.opened, Reader.headed, hdepth]
    exact hr.symm
  have hinner : Reader.run { after with depth := 1 } body.toList = some { after with depth := 1 } :=
    Reader.run_leads (hbody 0) hr rfl
  have hclosing : Reader.run { after with depth := 1 } ['\x7d'] = some after := by
    simp [after, Reader.run, Reader.step, Reader.headed, hdepth, hr]
  rw [hparts, Reader.run_append, hheading r hr, Option.bind_some, Reader.run_cons, hopening,
    Option.bind_some, Reader.run_append, hinner, Option.bind_some, hclosing]

/-- A reader outside all blocks that has seen nothing but white space since the last one. -/
structure Reader.IsBetween (r : Reader) : Prop where
  place : r.place = .outside
  depth : r.depth = 0
  blank : ∀ c ∈ r.heading, Text.isBlank c = true

theorem Reader.IsBetween.headed (hr : r.IsBetween) (heading : List Char) :
    (r.headed heading).IsBetween :=
  ⟨hr.place, hr.depth, fun _ hc => absurd hc List.not_mem_nil⟩

theorem Reader.IsBetween.passed (hr : r.IsBetween) (cs : List Char)
    (h : ∀ c ∈ cs, Text.isBlank c = true) : (r.passed cs .outside).IsBetween := by
  refine ⟨rfl, hr.depth, fun c hc => ?_⟩
  rw [Reader.passed, if_pos hr.depth] at hc
  exact (List.mem_append.1 hc).elim (hr.blank c) (h c)

/-- The block of a node adds a heading from which the node is read back. -/
theorem IsBlockOf.exists_run {node : Node} {t : String} (h : IsBlockOf node t)
    (hr : r.IsBetween) :
    ∃ heading, r.run t.toList = some (r.headed heading) ∧
      readHeading heading = some (identityOf node) := by
  obtain ⟨labels, hlabels, hblock⟩ := h
  have hkeyword : IsClean node.kind.key := by
    cases node.kind <;> decide
  refine ⟨_, run_block hkeyword hblock hr.place hr.depth, ?_⟩
  rw [readHeading_headingOf hr.blank, identified_of_labels? hlabels]

/-- The blocks of nodes, with blank lines between them, add their headings in order. -/
theorem exists_run_blocks {nodes : List Node} {blocks : List String}
    (h : List.Forall₂ IsBlockOf nodes blocks) (hr : r.IsBetween) :
    ∃ s found, r.run (Text.join "\n\n" blocks).toList = some s ∧ s.IsBetween ∧
      s.headings = r.headings ++ found ∧ found.mapM readHeading = some (nodes.map identityOf) := by
  induction h generalizing r with
  | nil => exact ⟨r, [], rfl, hr, (List.append_nil _).symm, rfl⟩
  | @cons node t nodes blocks hblock hblocks ih =>
    obtain ⟨heading, hrun, hread⟩ := hblock.exists_run hr
    by_cases hlast : blocks = []
    · subst hlast
      cases hblocks
      refine ⟨r.headed heading, [heading], hrun, hr.headed heading, rfl, ?_⟩
      rw [List.mapM_cons, hread]
      rfl
    · have hbreaks : Reader.Passes "\n\n".toList := Reader.passes_clean (by decide)
      have hpassed := hbreaks (r.headed heading) hr.place
      have hbetween := (hr.headed heading).passed "\n\n".toList (List.all_eq_true.1 (by decide))
      obtain ⟨s, found, hs, hend, hfound, hreadFound⟩ := ih hbetween
      refine ⟨s, heading :: found, ?_, hend, ?_, ?_⟩
      · rw [Text.join_cons hlast, String.toList_append, String.toList_append, Reader.run_append,
          Reader.run_append, hrun, Option.bind_some, hpassed, Option.bind_some, hs]
      · rw [hfound, List.append_cons]
        rfl
      · rw [List.mapM_cons, hread, hreadFound]
        rfl

/-- The blocks of nodes, one behind another, are read back in order. -/
theorem readBlocks_ofBlocks {nodes : List Node} {blocks : List String}
    (h : List.Forall₂ IsBlockOf nodes blocks) :
    readBlocks (Files.ofBlocks blocks) = some (nodes.map identityOf) := by
  have hstart : Reader.start.IsBetween := ⟨rfl, rfl, fun _ hc => absurd hc List.not_mem_nil⟩
  obtain ⟨s, found, hs, hend, hfound, hread⟩ := exists_run_blocks h hstart
  have hbreak : Reader.Passes "\n".toList := Reader.passes_clean (by decide)
  have hlast := hend.passed "\n".toList (List.all_eq_true.1 (by decide))
  have hrun : Reader.start.run (Files.ofBlocks blocks).toList
      = some (s.passed "\n".toList .outside) := by
    rw [Files.ofBlocks, String.toList_append, Reader.run_append, hs, Option.bind_some,
      hbreak s hend.place]
  have hheadings : headings? (Files.ofBlocks blocks).toList = some found := by
    rw [headings?, hrun]
    dsimp only
    rw [if_pos ⟨hlast.place, hlast.depth, List.all_eq_true.2 hlast.blank⟩]
    exact congrArg some hfound
  rw [readBlocks, hheadings, Option.bind_some, hread]

end BlockDiagram.Block
