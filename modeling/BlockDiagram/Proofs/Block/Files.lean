import BlockDiagram.Configuration
import BlockDiagram.Proofs.Block.Outline

/-!
# Generated files are valid and give back their blocks

If everything that the blocks of a diagram write without quotes is clean, then each file passes the
check of its outer structure, and a reader finds in it the blocks of the diagram's nodes, one for
each node, in the planned order.

* `Diagram.report_files`: the check finds nothing.
* `Diagram.readBlocks_files`: the blocks that are read back.
-/

namespace BlockDiagram

/-- What the files of a diagram write without quotes and is not clean by itself. The header shows
providers, which begin the types of nodes. -/
def Diagram.bareTexts (d : Diagram) (withHeader : Bool) : List String :=
  d.nodes.values.flatMap Node.bareTexts ++
    if withHeader then
      (d.nodes.values.filter fun node => node.kind.isTyped).filterMap Node.resourceType
    else []

theorem Outcome.forall₂_of_mapM_eq_ok {ε α β : Type} {f : α → Except ε β} {xs : List α}
    {ys : List β} (h : xs.mapM f = .ok ys) : List.Forall₂ (fun x y => f x = .ok y) xs ys := by
  induction xs generalizing ys with
  | nil =>
    cases h
    exact .nil
  | cons x xs ih =>
    rw [List.mapM_cons] at h
    obtain ⟨y, hy, h⟩ := bind_eq_ok.1 h
    obtain ⟨rest, hrest, h⟩ := bind_eq_ok.1 h
    cases h
    exact .cons hy (ih hrest)

namespace Files

open Block

variable {d : Diagram} {extension stem : String} {withHeader : Bool} {kinds : List Kind}

/-! ## Blocks of a file -/

theorem isClean_of_mem_bareTexts (hclean : ∀ text ∈ d.bareTexts withHeader, IsClean text)
    {kind : Kind} {node : Node} (h : node ∈ d.nodesOf kind) :
    ∀ text ∈ node.bareTexts, IsClean text := by
  intro text htext
  apply hclean
  have hnode := (List.mem_filter.1 h).1
  exact List.mem_append_left _ (List.mem_flatMap.2 ⟨node, hnode, htext⟩)

/-- The blocks of a file are those of the nodes of its kinds, in order. -/
theorem forall₂_blocks (hclean : ∀ text ∈ d.bareTexts withHeader, IsClean text)
    {found : List String} (h : blocks d kinds = .ok found) :
    List.Forall₂ IsBlockOf (kinds.flatMap d.nodesOf) found := by
  obtain ⟨hlength, hzip⟩ := List.forall₂_iff_zip.1 (Outcome.forall₂_of_mapM_eq_ok h)
  refine List.forall₂_iff_zip.2 ⟨hlength, fun {node t} hpair => ?_⟩
  obtain ⟨kind, -, hnode⟩ := List.mem_flatMap.1 (List.of_mem_zip hpair).1
  exact Node.isBlockOf_blockText (isClean_of_mem_bareTexts hclean hnode) (hzip hpair)

/-! ## The check of a file -/

/-- A block, or the header: it begins with a keyword and leads from any depth back to it. -/
structure IsPart (t : String) : Prop where
  keyword : ∃ keyword ∈ CodeCheck.keywords, ∃ rest, t.toList = keyword.toList ++ ' ' :: rest
  leads : ∀ n, LeadsString n n t

theorem isPart_of_isBlockOf {node : Node} {t : String} (h : IsBlockOf node t) : IsPart t := by
  obtain ⟨labels, -, body, rfl, hbody⟩ := h
  have hkeyword : IsClean node.kind.key := by
    cases node.kind <;> decide
  constructor
  · refine ⟨node.kind.key, by cases node.kind <;> decide, ?_⟩
    rw [String.append_assoc, String.append_assoc, String.toList_append, toList_headingOf,
      List.append_assoc]
    -- The keyword is followed by the space before the first label, or before the brace.
    cases labels with
    | nil =>
      rw [String.toList_append]
      exact ⟨_, rfl⟩
    | cons label labels => exact ⟨_, rfl⟩
  · intro n
    have hopened := (leads_headingOf hkeyword labels n).append (leads_spacedOpening n)
    exact (hopened.append (hbody (n + 1))).append (leads_closing n)

theorem leads_providerLines {name : String} (h : IsClean name) (n : Nat) :
    LeadsLines n n (providerLines name) := by
  have hname := (leads_clean (show IsClean "    " by decide) n).append (leads_clean h n)
  have hopening := hname.append (leads_opened (show IsClean " = " by decide) n)
  have hsource := (leads_clean (show IsClean "      source = " by decide) (n + 1)).append
    (leads_quote ("hashicorp/" ++ name) (n + 1))
  have hclosing := leads_closed (show IsClean "    " by decide) n
  exact .cons hopening (.cons hsource (.single hclosing))

theorem leads_requiredLines {names : List String} (h : ∀ name ∈ names, IsClean name) (n : Nat) :
    LeadsLines n n (if names.isEmpty then [] else
      ["", "  required_providers \x7b"] ++ names.flatMap providerLines ++ ["  \x7d"]) := by
  split
  · exact .nil
  · have hopening := leads_opened (show IsClean "  required_providers " by decide) n
    have hproviders : LeadsLines (n + 1) (n + 1) (names.flatMap providerLines) := by
      rw [List.flatMap_def]
      apply leadsLines_flatten
      intro lines hlines
      obtain ⟨name, hname, rfl⟩ := List.mem_map.1 hlines
      exact leads_providerLines (h name hname) (n + 1)
    have hclosing := leads_closed (show IsClean "  " by decide) n
    exact (LeadsLines.append (.cons (leads_clean (by decide) n) (.single hopening))
      hproviders).append (.single hclosing)

theorem isPart_header (h : ∀ name ∈ providers d, IsClean name) : IsPart (header d) := by
  constructor
  · obtain ⟨line, others, hlines⟩ : ∃ line others, header d
        = Text.join "\n" ("terraform \x7b" :: line :: others) := ⟨_, _, rfl⟩
    rw [hlines, Text.join_cons (List.cons_ne_nil _ _), String.append_assoc, String.toList_append]
    exact ⟨"terraform", by decide, _, rfl⟩
  · intro n
    have hopening := leads_opened (show IsClean "terraform " by decide) n
    have hversion := (leads_clean (show IsClean "  required_version = " by decide) (n + 1)).append
      (leads_quote ">= 1.0.0" (n + 1))
    have hrequired := leads_requiredLines h (n + 1)
    have hlines := (LeadsLines.append (.cons hopening (.single hversion)) hrequired).append
      (.single (leads_closing n))
    exact hlines.join (by decide)

theorem isClean_of_mem_providers
    (h : ∀ node ∈ d.nodes.values, node.kind.isTyped = true →
      ∀ type ∈ node.resourceType, IsClean type) : ∀ name ∈ providers d, IsClean name := by
  intro name hname
  obtain ⟨node, hnode, hprovider⟩ := List.mem_filterMap.1 (Text.mem_sortedNames.1 hname)
  unfold nodeProvider? at hprovider
  split at hprovider
  · next type htype =>
    split at hprovider
    · next hkind =>
      cases hprovider
      rw [Bool.and_eq_true] at hkind
      have hclean := h node hnode hkind.1 type htype
      rw [provider, isClean_ofList]
      exact fun c hc => hclean c ((List.takeWhile_sublist _).subset hc)
    · cases hprovider
  · cases hprovider

theorem firstWord_keyword {keyword : String} (h : keyword ∈ CodeCheck.keywords) (rest : List Char) :
    CodeCheck.firstWord (keyword.toList ++ ' ' :: rest) = keyword := by
  simp only [CodeCheck.keywords, List.mem_cons, List.not_mem_nil, or_false] at h
  rcases h with rfl | rfl | rfl | rfl | rfl | rfl | rfl | rfl <;> rfl

theorem hasBlock_of_keyword {keyword : String} (h : keyword ∈ CodeCheck.keywords)
    (rest : List Char) : CodeCheck.hasBlock (keyword.toList ++ ' ' :: rest) = true := by
  have hbreak : '\n' ∉ keyword.toList ++ [' '] := by
    have hall : ∀ keyword ∈ CodeCheck.keywords, '\n' ∉ keyword.toList ++ [' '] := by decide
    exact hall keyword h
  obtain ⟨first, others, hsegments⟩ := Text.exists_segments_append hbreak rest
  rw [List.append_assoc, List.append_assoc] at hsegments
  have hline : CodeCheck.keywords.contains
      (CodeCheck.firstWord (keyword.toList ++ ([' '] ++ first))) = true := by
    rw [List.singleton_append, firstWord_keyword h, List.contains_iff_mem]
    exact h
  rw [CodeCheck.hasBlock, ← List.singleton_append, hsegments, List.any_cons, hline, Bool.true_or]

theorem not_isBlankText_of_keyword {keyword : String} (h : keyword ∈ CodeCheck.keywords)
    {t : String} {rest : List Char} (ht : t.toList = keyword.toList ++ rest) :
    Text.isBlankText t = false := by
  have hall : ∀ keyword ∈ CodeCheck.keywords, keyword.toList.all Text.isBlank = false := by decide
  rw [Text.isBlankText, ht, List.all_append, hall keyword h, Bool.false_and]

theorem exists_toList_ofBlocks (t : String) (others : List String) :
    ∃ rest, (ofBlocks (t :: others)).toList = t.toList ++ rest := by
  rw [ofBlocks, String.toList_append]
  by_cases hlast : others = []
  · rw [hlast]
    exact ⟨_, rfl⟩
  · rw [Text.join_cons hlast, String.append_assoc, String.toList_append, List.append_assoc]
    exact ⟨_, rfl⟩

/-- The check of a file's outer structure finds nothing. -/
theorem report_ofBlocks {found : List String} (hne : found ≠ []) (h : ∀ t ∈ found, IsPart t) :
    CodeCheck.report (.text (ofBlocks found))
      = .record [("valid", .bool true), ("errors", .list [])] := by
  have hleads : LeadsString 0 0 (ofBlocks found) := by
    have hlines : LeadsLines 0 0 found := leadsLines_of_forall fun t ht => (h t ht).leads 0
    exact (hlines.join (by decide)).append (leads_clean (by decide) 0)
  have hbraces : CodeCheck.braceFault? .outside 0 (ofBlocks found).toList = none := by
    have happend := braceFault?_append hleads []
    rw [List.append_nil] at happend
    exact happend
  obtain ⟨t, others, rfl⟩ := List.exists_cons_of_ne_nil hne
  obtain ⟨keyword, hkeyword, rest, ht⟩ := (h t List.mem_cons_self).keyword
  obtain ⟨tail, htail⟩ := exists_toList_ofBlocks t others
  rw [ht, List.append_assoc, List.cons_append] at htail
  have hblank := not_isBlankText_of_keyword hkeyword htail
  have hproblems : CodeCheck.problems (.text (ofBlocks (t :: others))) = [] := by
    rw [CodeCheck.problems, hblank, hbraces, htail, hasBlock_of_keyword hkeyword]
    rfl
  rw [CodeCheck.report, hproblems]
  rfl

/-! ## Files -/

theorem isPart_of_mem (stem : String) (hclean : ∀ text ∈ d.bareTexts withHeader, IsClean text)
    {found : List String} (h : blocks d kinds = .ok found) :
    ∀ t ∈ (if withHeader && stem == "main" then [header d] else []) ++ found, IsPart t := by
  intro t ht
  rcases List.mem_append.1 ht with ht | ht
  · split at ht
    · next hheader =>
      rw [Bool.and_eq_true] at hheader
      rw [List.mem_singleton.1 ht]
      apply isPart_header
      apply isClean_of_mem_providers
      intro node hnode hkind type htype
      apply hclean
      rw [Diagram.bareTexts, if_pos hheader.1]
      have htyped : node ∈ d.nodes.values.filter fun node => node.kind.isTyped :=
        List.mem_filter.2 ⟨hnode, hkind⟩
      exact List.mem_append_right _ (List.mem_filterMap.2 ⟨node, htyped, htype⟩)
    · cases ht
  · obtain ⟨node, hnode, hblock⟩ := Outcome.mem_of_mapM_eq_ok h t ht
    obtain ⟨kind, -, hnode⟩ := List.mem_flatMap.1 hnode
    exact isPart_of_isBlockOf
      (Node.isBlockOf_blockText (isClean_of_mem_bareTexts hclean hnode) hblock)

/-- What a reader finds in a file that holds the blocks of some nodes, if there are any. -/
def expected? (extension stem : String) (nodes : List Node) :
    Option (String × Option (List Identity)) :=
  if nodes.isEmpty then none else some (stem ++ "." ++ extension, some (nodes.map identityOf))

theorem readBlocks_file (hclean : ∀ text ∈ d.bareTexts false, IsClean text) {found : Table String}
    (h : file d extension false stem kinds = .ok found) :
    (found.map fun file => (file.1, readBlocks file.2))
      = (expected? extension stem (kinds.flatMap d.nodesOf)).toList := by
  rw [file] at h
  obtain ⟨parts, hparts, h⟩ := Outcome.bind_eq_ok.1 h
  cases h
  have hblocks := forall₂_blocks hclean hparts
  have hread := readBlocks_ofBlocks hblocks
  rw [Bool.false_and, if_neg Bool.false_ne_true, List.nil_append]
  generalize kinds.flatMap d.nodesOf = nodes at hblocks hread
  cases hblocks with
  | nil => rfl
  | cons hblock hblocks => exact congrArg (fun found => [(_, found)]) hread

theorem readBlocks_plan (hclean : ∀ text ∈ d.bareTexts false, IsClean text)
    {plan : List (String × List Kind)} {tables : List (Table String)}
    (h : List.Forall₂ (fun entry table => file d extension false entry.1 entry.2 = .ok table)
      plan tables) :
    (tables.flatten.map fun file => (file.1, readBlocks file.2))
      = plan.filterMap fun entry => expected? extension entry.1 (entry.2.flatMap d.nodesOf) := by
  rw [List.filterMap_eq_flatMap_toList]
  induction h with
  | nil => rfl
  | cons htable _ ih =>
    rw [List.flatten_cons, List.map_append, readBlocks_file hclean htable, ih, List.flatMap_cons]

end Files

open Block Files

variable {d : Diagram} {extension : String} {files : Table String}

/-- The check of generated text agrees with its generation: it finds every file valid. -/
theorem Diagram.report_files {withHeader : Bool}
    (hclean : ∀ text ∈ d.bareTexts withHeader, IsClean text)
    (h : d.files extension withHeader = .ok files) :
    ∀ file ∈ files, CodeCheck.report (.text file.2)
      = .record [("valid", .bool true), ("errors", .list [])] := by
  obtain ⟨tables, htables, h⟩ := Outcome.bind_eq_ok.1 h
  cases h
  intro file hfile
  obtain ⟨table, htable, hfile⟩ := List.mem_flatten.1 hfile
  obtain ⟨⟨stem, kinds⟩, -, htable⟩ := Outcome.mem_of_mapM_eq_ok htables table htable
  obtain ⟨found, hblocks, htable⟩ := Outcome.bind_eq_ok.1 htable
  have hparts := isPart_of_mem stem hclean hblocks
  cases htable
  generalize (if withHeader && stem == "main" then [header d] else []) ++ found = parts
    at hfile hparts
  split at hfile
  · cases hfile
  · next hne =>
    rw [List.isEmpty_iff] at hne
    rw [List.mem_singleton.1 hfile]
    exact report_ofBlocks hne hparts

/-- A diagram whose names, labels and values hold quotes, backslashes, braces and line breaks. -/
def oddNames (type : String) : Diagram :=
  { Diagram.empty with
    nodes := [
      Configuration.node .outputValue none "\\" (.record [("value", .text "$\x7bvar.v\x7d")]),
      Configuration.node .resource (some type) "a\" \x7b" (.record [
        ("tags", .record [("\x7d # \"", .list [.text "\x7d\n", .null])]),
        ("rule", .record [("for_each", .text "$\x7bvar.v\x7d"), ("labels", .list [.text "\""]),
          ("content", .record [("port", .int 80)])]),
        ("depends_on", .list [.text "var.v"])]),
      Configuration.node .inputVariable none "v" (.record [
        ("type", .text "list(string)"), ("default", .list [.text "#\x7b"])])
    ].map fun node => (node.id, node) }

theorem report_files_oddNames :
    ∃ files, (oddNames "aws_vpc").files "tf" true = .ok files ∧
      files.keys = ["main.tf", "variables.tf", "outputs.tf"] ∧
      ∀ file ∈ files, CodeCheck.report (.text file.2)
        = .record [("valid", .bool true), ("errors", .list [])] := by
  obtain ⟨files, hfiles, hkeys⟩ := Outcome.exists_eq_ok_of_map
    (x := (oddNames "aws_vpc").files "tf" true) (f := Table.keys)
    (b := ["main.tf", "variables.tf", "outputs.tf"]) (by decide +kernel)
  exact ⟨files, hfiles, hkeys, Diagram.report_files (by decide +kernel) hfiles⟩

/-- The nodes whose blocks go into each file, in the order of their blocks. -/
def Diagram.planned (d : Diagram) : List (String × List Node) := [
  ("main", d.nodesOf .resource ++ d.nodesOf .dataSource ++ d.nodesOf .moduleCall),
  ("variables", d.nodesOf .inputVariable),
  ("outputs", d.nodesOf .outputValue)]

/-- The generated files hold the blocks of the nodes and nothing else. From each block its node's
kind, name and, if the kind has types, its type are read back. -/
theorem Diagram.readBlocks_files (hclean : ∀ text ∈ d.bareTexts false, IsClean text)
    (h : d.files extension false = .ok files) :
    (files.map fun file => (file.1, readBlocks file.2))
      = d.planned.filterMap fun file => expected? extension file.1 file.2 := by
  obtain ⟨tables, htables, h⟩ := Outcome.bind_eq_ok.1 h
  cases h
  have hplanned : d.planned = plan.map fun entry => (entry.1, entry.2.flatMap d.nodesOf) := by
    simp [Diagram.planned, plan]
  rw [readBlocks_plan hclean (Outcome.forall₂_of_mapM_eq_ok htables), hplanned,
    List.filterMap_map]
  rfl

theorem readBlocks_files_oddNames :
    ∃ files, (oddNames "\"\x7d").files "tf" false = .ok files ∧
      (files.map fun file => (file.1, readBlocks file.2)) = [
        ("main.tf", some [(.resource, some "\"\x7d", some "a\" \x7b")]),
        ("variables.tf", some [(.inputVariable, none, some "v")]),
        ("outputs.tf", some [(.outputValue, none, some "\\")])] := by
  obtain ⟨files, hfiles⟩ := Outcome.exists_eq_ok_of_isOk
    (show ((oddNames "\"\x7d").files "tf" false).isOk = true by decide +kernel)
  refine ⟨files, hfiles, ?_⟩
  rw [Diagram.readBlocks_files (by decide +kernel) hfiles]
  rfl

/-- A module with a type: no block shows the types of modules, so none is read back. -/
def typedModule : Diagram :=
  { Diagram.empty with
    nodes := [("module.m", Configuration.node .moduleCall (some "x") "m" (.record []))] }

theorem exists_not_readBlocks_files :
    ∃ (d : Diagram) (files : Table String),
      (∀ text ∈ d.bareTexts false, IsClean text) ∧ d.files "tf" false = .ok files ∧
      ∃ node ∈ d.nodes.values, ∀ file ∈ files, ∀ found, readBlocks file.2 = some found →
        (node.kind, node.resourceType, node.name) ∉ found := by
  refine ⟨typedModule, _, by decide +kernel, rfl, _, List.mem_cons_self, ?_⟩
  decide +kernel

end BlockDiagram
