import BlockDiagram.Block
import BlockDiagram.Proofs.Reference.Resolution

/-!
# Dependencies that are read and written

A block lists its dependencies as addresses: an interpolation without its braces, and a resource
without its first segment. Read again, in a diagram whose names and types are identifiers, such an
address resolves to the node that the dependency resolves to.

* `wholeOr_trimmed`: white space around a dependency does not count.
* `resolve?_withoutRoot`: nor does the first segment of a resource.
* `resolution_of_hasPlainNames`: what expressions resolve to, and what is written for dependencies.
-/

namespace BlockDiagram.Reference

open Text

variable {d : Diagram}

/-! ## Addresses -/

theorem withoutFinalBreak_append {cs ds : List Char} (h : ds ≠ []) :
    withoutFinalBreak (cs ++ ds) = cs ++ withoutFinalBreak ds := by
  rw [withoutFinalBreak, withoutFinalBreak, List.reverse_append]
  cases hreverse : ds.reverse with
  | nil => exact absurd (List.reverse_eq_nil_iff.1 hreverse) h
  | cons c before =>
    rw [List.cons_append]
    split
    · next rest heq =>
      cases heq
      simp
    · next hne =>
      split
      · next before' heq =>
        cases heq
        exact absurd rfl (hne _)
      · rfl

theorem withoutFinalBreak_prefix (cs : List Char) : withoutFinalBreak cs <+: cs := by
  rw [withoutFinalBreak]
  split
  · next before hreverse =>
    rw [← List.reverse_suffix, List.reverse_reverse, hreverse]
    exact List.suffix_cons _ _
  · exact List.prefix_refl _

/-- An address starts as an identifier does. -/
theorem exists_start_of_isAddress {cs : List Char} (h : isAddress cs = true) :
    ∃ c rest, cs = c :: rest ∧ isIdentifierStart c = true := by
  obtain ⟨following, hcs⟩ := withoutFinalBreak_prefix cs
  rw [isAddress, List.all_eq_true] at h
  cases hfirst : withoutFinalBreak cs with
  | nil =>
    rw [hfirst] at h
    cases h [] List.mem_cons_self
  | cons c rest =>
    rw [hfirst] at h hcs
    refine ⟨c, rest ++ following, hcs.symm, ?_⟩
    rw [segments] at h
    split at h
    · cases h [] List.mem_cons_self
    · split at h
      · exact (Bool.and_eq_true_iff.1 (h [c] List.mem_cons_self)).1
      · next first others hrest =>
        exact (Bool.and_eq_true_iff.1 (h (c :: first) List.mem_cons_self)).1

/-- What follows the first segment of an address is an address. -/
theorem isAddress_of_append {piece cs : List Char} (hpiece : '.' ∉ piece)
    (h : isAddress (piece ++ '.' :: cs) = true) : isAddress cs = true := by
  rw [isAddress, List.all_eq_true] at h
  by_cases hcs : cs = []
  · subst hcs
    rw [withoutFinalBreak_append (List.cons_ne_nil _ _),
      show withoutFinalBreak ['.'] = ['.'] from rfl, segments_append_mark hpiece] at h
    cases h [] (List.mem_cons_of_mem _ List.mem_cons_self)
  · have hsplit : piece ++ '.' :: cs = (piece ++ ['.']) ++ cs := by simp
    rw [hsplit, withoutFinalBreak_append hcs, List.append_assoc, List.singleton_append,
      segments_append_mark hpiece] at h
    rw [isAddress, List.all_eq_true]
    exact fun segment hsegment => h segment (List.mem_cons_of_mem _ hsegment)

/-- A text that is an address but for its indices starts with an index or as an identifier does. -/
theorem exists_start_of_isAddress_withoutIndices {cs : List Char}
    (h : isAddress (withoutIndices cs) = true) :
    ∃ c rest, cs = c :: rest ∧ (c = '[' ∨ isIdentifierStart c = true) := by
  obtain ⟨start, rest, haddress, hstart⟩ := exists_start_of_isAddress h
  cases cs with
  | nil =>
    rw [withoutIndices] at haddress
    cases haddress
  | cons c following =>
    refine ⟨c, following, rfl, ?_⟩
    by_cases hindex : c = '['
    · exact .inl hindex
    · right
      have hone : '[' ∉ [c] := by
        rw [List.mem_singleton]
        exact Ne.symm hindex
      rw [← List.singleton_append, withoutIndices_append hone] at haddress
      cases haddress
      exact hstart

theorem le_toNat_of_isIdentifierStart {c : Char} (h : isIdentifierStart c = true) :
    65 ≤ c.toNat ∧ c.toNat < 128 := by
  rw [isIdentifierStart, Bool.or_eq_true] at h
  rcases h with h | h
  · refine ⟨?_, toNat_lt_of_isAlphanum (by simp [Char.isAlphanum, h])⟩
    have hletter : (c.isUpper || c.isLower) = true := h
    have hupper : c.isUpper = true → 'A'.val ≤ c.val := fun h => (of_decide_eq_true h).1
    have hlower : c.isLower = true → 'a'.val ≤ c.val :=
      fun h => of_decide_eq_true (Bool.and_eq_true_iff.1 h).1
    rcases Bool.or_eq_true_iff.1 hletter with h | h
    · exact UInt32.le_iff_toNat_le.1 (hupper h)
    · exact Nat.le_trans (by decide) (UInt32.le_iff_toNat_le.1 (hlower h))
  · rw [beq_iff_eq.1 h]
    decide

theorem not_isBlank_of_isIdentifierStart {c : Char} (h : isIdentifierStart c = true) :
    isBlank c = false := by
  have hranges : ∀ range ∈ blankRanges, range.2 < 65 ∨ 128 ≤ range.1 := by decide
  have hbounds := le_toNat_of_isIdentifierStart h
  rw [← Bool.not_eq_true, isBlank, Ranges.has_iff]
  rintro ⟨range, hrange, hfirst, hlast⟩
  have hside := hranges range hrange
  omega

/-! ## Interpolations -/

/-- An interpolation is no address. -/
theorem candidates_interpolation {expression : String} {rest : List Char}
    (h : strip expression.toList = '$' :: rest) : candidates expression = [] := by
  refine List.eq_nil_iff_forall_not_mem.2 fun candidate hmem => ?_
  have haddress := (mem_candidates.1 hmem).1
  rw [addressOf, String.toList_ofList] at haddress
  obtain ⟨c, following, hstart, hc⟩ := exists_start_of_isAddress_withoutIndices haddress
  rw [h] at hstart
  cases hstart
  revert hc
  decide

theorem wholeBody?_eq_some {cs expression : List Char} (h : wholeBody? cs = some expression) :
    ∃ body following, (following = [] ∨ following = ['\n']) ∧ body ≠ [] ∧
      (∀ c ∈ body, isPlain c = true) ∧ expression = strip body ∧
      cs = '$' :: '\x7b' :: (body ++ '\x7d' :: following) := by
  unfold wholeBody? at h
  split at h
  · next rest =>
    split at h
    · next body following hbody =>
      split at h
      · next hfollowing =>
        cases h
        obtain ⟨hne, hplain⟩ := plain_of_body? hbody
        exact ⟨body, following, hfollowing, hne, hplain, rfl, by rw [eq_of_body? hbody]⟩
      · cases h
    · cases h
  · cases h

/-- A text that is one interpolation, and the same text without white space around it. -/
theorem strip_of_wholeBody? {cs expression : List Char} (h : wholeBody? cs = some expression) :
    wholeBody? (strip cs) = some expression ∧ ∃ rest, strip cs = '$' :: rest := by
  obtain ⟨body, following, hfollowing, hne, hplain, rfl, rfl⟩ := wholeBody?_eq_some h
  have hstrip : strip ('$' :: '\x7b' :: (body ++ '\x7d' :: following))
      = '$' :: '\x7b' :: (body ++ ['\x7d']) := by
    have hwhole : strip ('$' :: '\x7b' :: (body ++ ['\x7d']))
        = '$' :: '\x7b' :: (body ++ ['\x7d']) := by
      refine strip_eq_self ?_ ?_
      · rintro c ⟨⟩
        decide
      · rw [← List.cons_append, ← List.cons_append, List.getLast?_concat]
        rintro c ⟨⟩
        decide
    rcases hfollowing with rfl | rfl
    · exact hwhole
    · have hbreak : '$' :: '\x7b' :: (body ++ ['\x7d', '\n'])
          = ('$' :: '\x7b' :: (body ++ ['\x7d'])) ++ ['\n'] := by simp
      rw [hbreak, strip_append_blank (by decide), hwhole]
  refine ⟨?_, _, hstrip⟩
  rw [hstrip, wholeBody?, body?_append hne hplain]
  rfl

theorem strip_of_whole? {s expression : String} (h : whole? s = some expression) :
    whole? (trimmed s) = some expression ∧ (∃ rest, strip s.toList = '$' :: rest) ∧
      strip expression.toList = expression.toList := by
  rw [whole?, Option.map_eq_some_iff] at h
  obtain ⟨body, hbody, rfl⟩ := h
  obtain ⟨hstripped, hstart⟩ := strip_of_wholeBody? hbody
  obtain ⟨inner, following, -, -, -, rfl, -⟩ := wholeBody?_eq_some hbody
  refine ⟨?_, hstart, ?_⟩
  · rw [whole?, trimmed, String.toList_ofList, hstripped]
    rfl
  · rw [String.toList_ofList, strip_strip]

theorem strip_trimmed (s : String) : strip (trimmed s).toList = (trimmed s).toList := by
  rw [trimmed, String.toList_ofList, strip_strip]

/-- What has candidates is no interpolation. -/
theorem whole?_eq_none_of_mem_candidates {expression candidate : String}
    (h : candidate ∈ candidates expression) : whole? expression = none := by
  rw [Option.eq_none_iff_forall_ne_some]
  intro inner hinner
  obtain ⟨-, ⟨rest, hstart⟩, -⟩ := strip_of_whole? hinner
  rw [candidates_interpolation hstart] at h
  cases h

/-- White space around an entry does not change which expression it has, if that may name a
block. -/
theorem wholeOr_trimmed {entry candidate : String}
    (h : candidate ∈ candidates (wholeOr entry (trimmed entry))) :
    wholeOr (trimmed entry) (trimmed entry) = wholeOr entry (trimmed entry) ∧
      strip (wholeOr entry (trimmed entry)).toList = (wholeOr entry (trimmed entry)).toList := by
  cases hwhole : whole? entry with
  | none =>
    have hother : wholeOr entry (trimmed entry) = trimmed entry := by
      rw [wholeOr, hwhole]
    rw [hother] at h ⊢
    refine ⟨?_, strip_trimmed entry⟩
    rw [wholeOr, whole?_eq_none_of_mem_candidates h]
  | some expression =>
    obtain ⟨htrimmed, ⟨rest, hstart⟩, hstrip⟩ := strip_of_whole? hwhole
    by_cases hempty : expression = ""
    · -- an interpolation without an expression stands for itself, and names nothing
      have hother : wholeOr entry (trimmed entry) = trimmed entry := by
        rw [wholeOr, hwhole, hempty]
        rfl
      rw [hother, candidates_interpolation (by rw [strip_trimmed, trimmed, String.toList_ofList,
        hstart])] at h
      cases h
    · have hinner : ∀ other, wholeOr entry other = expression ∧
          wholeOr (trimmed entry) other = expression := by
        intro other
        rw [wholeOr, wholeOr, hwhole, htrimmed]
        split
        · next heq => exact absurd (Option.some.inj heq) hempty
        · next heq => exact ⟨Option.some.inj heq |>.symm, Option.some.inj heq |>.symm⟩
        · next heq => cases heq
      rw [(hinner _).1, (hinner _).2]
      exact ⟨rfl, hstrip⟩

/-- An expression without white space around it is a dependency as it stands. -/
theorem dependencyCandidates_text {expression candidate : String}
    (hstrip : strip expression.toList = expression.toList)
    (h : candidate ∈ candidates expression) :
    dependencyCandidates (.text expression) = candidates expression := by
  rw [dependencyCandidates, wholeOr, whole?_eq_none_of_mem_candidates h, trimmed, hstrip,
    String.ofList_toList]

/-! ## What is written -/

/-- What is left of a resource's address without its first segment. -/
theorem resolve?_withoutRoot (hd : d.HasPlainNames) {rest : List Char} {id : String}
    (hlast : ∀ c ∈ rest.getLast?, isBlank c = false)
    (hstrip : strip ("resource.".toList ++ rest) = "resource.".toList ++ rest)
    (h : Configuration.resolve? d.nodes (candidates (String.ofList ("resource.".toList ++ rest)))
      = some id) :
    Configuration.resolve? d.nodes (candidates (String.ofList rest)) = some id ∧
      strip rest = rest := by
  have hroot : '[' ∉ "resource.".toList := by decide
  have haddressOf : addressOf (String.ofList ("resource.".toList ++ rest))
      = String.ofList ("resource".toList ++ '.' :: withoutIndices rest) := by
    rw [addressOf, String.toList_ofList, hstrip, withoutIndices_append hroot]
    rfl
  obtain ⟨haddress, node, hnode, hnamed⟩ := (resolve?_candidates_iff hd).1 h
  rw [haddressOf] at haddress hnamed
  rw [String.toList_ofList] at haddress
  have hdot : '.' ∉ "resource".toList := by decide
  have hrest := isAddress_of_append hdot haddress
  obtain ⟨first, following, rfl, hfirst⟩ := exists_start_of_isAddress_withoutIndices hrest
  have hhead : ∀ c ∈ (first :: following).head?, isBlank c = false := by
    rintro c ⟨⟩
    rcases hfirst with rfl | hfirst
    · decide
    · exact not_isBlank_of_isIdentifierStart hfirst
  have hstripped := strip_eq_self hhead hlast
  have haddressRest : addressOf (String.ofList (first :: following))
      = String.ofList (withoutIndices (first :: following)) := by
    rw [addressOf, String.toList_ofList, hstripped]
  refine ⟨(resolve?_candidates_iff hd).2 ⟨?_, node, hnode, .inr ?_⟩, hstripped⟩
  · rw [haddressRest, String.toList_ofList]
    exact hrest
  · rw [splitAt_append_mark hdot, ← haddressRest] at hnamed
    have hplain := hd.node id node hnode
    rcases hnamed with hnamed | ⟨hkind, hnamed⟩
    · rw [hd.id_eq id node hnode, hplain.splitAt_id, Node.path] at hnamed
      cases hkind : node.kind <;> simp_all [Kind.isTyped, Kind.root, Kind.key]
    · -- Type and name would be the first two segments, and no plain type is called like a root.
      obtain ⟨type, htype, -⟩ := hplain.type (by rw [hkind]; rfl)
      obtain ⟨hidRoot, -⟩ := hplain.root hkind type htype
      rw [htype, List.cons_prefix_cons] at hnamed
      exact absurd (by rw [show type = "resource" from hnamed.1]; decide) hidRoot

/-- What is written for a dependency resolves to the node that the dependency resolves to, read as
an expression and as a dependency. -/
theorem resolve?_address (hd : d.HasPlainNames) {entry id : String}
    (h : Configuration.resolve? d.nodes (dependencyCandidates (.text entry)) = some id) :
    Configuration.resolve? d.nodes (candidates (address (trimmed entry))) = some id ∧
      Configuration.resolve? d.nodes (dependencyCandidates (.text (address (trimmed entry))))
        = some id := by
  have hmem := List.mem_of_find?_eq_some h
  obtain ⟨hbare, hstrip⟩ := wholeOr_trimmed hmem
  rw [dependencyCandidates] at h
  suffices hsuff : Configuration.resolve? d.nodes (candidates (address (trimmed entry))) = some id ∧
      strip (address (trimmed entry)).toList = (address (trimmed entry)).toList by
    obtain ⟨hcandidates, hstripped⟩ := hsuff
    refine ⟨hcandidates, ?_⟩
    have hfound := List.mem_of_find?_eq_some hcandidates
    rw [dependencyCandidates_text hstripped hfound]
    exact hcandidates
  rw [address, hbare]
  generalize wholeOr entry (trimmed entry) = bare at h hstrip
  split
  · next hprefix =>
    obtain ⟨rest, hrest⟩ := List.isPrefixOf_iff_prefix.1 hprefix
    have hlast : ∀ c ∈ rest.getLast?, isBlank c = false := by
      intro c hc
      have hne : rest ≠ [] := by
        rintro rfl
        cases hc
      have hend : c ∈ (strip bare.toList).getLast? := by
        rwa [hstrip, ← hrest, List.getLast?_append_of_ne_nil _ hne]
      exact not_isBlank_getLast?_strip c hend
    rw [← String.ofList_toList (s := bare), ← hrest] at h
    rw [← hrest] at hstrip
    have hdrop : bare.toList.drop "resource.".length = rest := by
      rw [← hrest]
      rfl
    obtain ⟨hresolved, hstripped⟩ := resolve?_withoutRoot hd hlast hstrip h
    rw [hdrop, String.toList_ofList]
    exact ⟨hresolved, hstripped⟩
  · exact ⟨h, hstrip⟩

/-- What is written in a block for a dependency that resolves. -/
theorem dependencyLine_of_resolve? {nodes : Table Node} {entry : Value} {id : String}
    (h : Configuration.resolve? nodes (dependencyCandidates entry) = some id) :
    ∃ text, entry = .text text ∧ ∀ node, Block.dependencyLine node entry
      = .ok (Block.indent 2 ++ address (trimmed text) ++ ",") := by
  have hmem := List.mem_of_find?_eq_some h
  cases entry with
  | text text =>
    refine ⟨text, rfl, fun node => ?_⟩
    have hblank : isBlankText text = false := by
      rw [← Bool.not_eq_true, ← trimmed_eq_empty_iff]
      intro hempty
      rw [dependencyCandidates, ← (wholeOr_trimmed hmem).1, hempty] at hmem
      have hnone : candidates "" = [] := by decide +kernel
      rw [show wholeOr "" "" = "" from rfl, hnone] at hmem
      cases hmem
    rw [Block.dependencyLine, hblank]
    rfl
  | _ => cases hmem

/-! ## Both directions -/

/-- In a diagram with plain names an expression resolves to a node exactly if without its indices it
is an address and begins with the segments of the node's id or, for a resource, with its type and
name. No other candidate is a node. And what a block lists for a dependency that resolves to a node
resolves to the same node, as an expression and as a dependency. -/
theorem resolution_of_hasPlainNames (hd : d.HasPlainNames) :
    (∀ expression id, Configuration.resolve? d.nodes (candidates expression) = some id ↔
      isAddress (addressOf expression).toList = true ∧
      ∃ node, d.nodes.get? id = some node ∧
        node.IsNamedBy id (splitAt '.' (addressOf expression))) ∧
    (∀ expression, ∀ id ∈ candidates expression, ∀ id' ∈ candidates expression,
      d.hasNode id = true → d.hasNode id' = true → id = id') ∧
    ∀ entry id, Configuration.resolve? d.nodes (dependencyCandidates entry) = some id →
      ∃ text, entry = .text text ∧
        (∀ node, Block.dependencyLine node entry
          = .ok (Block.indent 2 ++ address (trimmed text) ++ ",")) ∧
        Configuration.resolve? d.nodes (candidates (address (trimmed text))) = some id ∧
        Configuration.resolve? d.nodes (dependencyCandidates (.text (address (trimmed text))))
          = some id := by
  refine ⟨fun _ _ => resolve?_candidates_iff hd, ?_, ?_⟩
  · exact fun _ _ hid _ hid' hnode hnode' => candidate_unique hd hid hid' hnode hnode'
  · intro entry id h
    obtain ⟨text, rfl, hline⟩ := dependencyLine_of_resolve? h
    obtain ⟨hexpression, hdependency⟩ := resolve?_address hd h
    exact ⟨text, rfl, hline, hexpression, hdependency⟩

/-- A resource, a data source of the same type and name, and a variable. -/
def namesakes : Diagram :=
  let node (kind : Kind) (type : Option String) (name : String) : String × Node :=
    (kind.nodeId (some name) type,
      ⟨kind.nodeId (some name) type, kind, some name, type, .text "", .record [], .int 0, .int 0,
        .int 180, .int 80, .null⟩)
  { Diagram.empty with
    nodes := [node .resource (some "aws_vpc") "main", node .dataSource (some "aws_vpc") "main",
      node .inputVariable none "region"] }

theorem hasPlainNames_namesakes : namesakes.HasPlainNames := by
  have hentries : ∀ entry ∈ namesakes.nodes,
      entry.1 = entry.2.kind.nodeId entry.2.name entry.2.resourceType ∧ entry.2.IsPlain := by
    simp only [namesakes, List.forall_mem_cons, List.not_mem_nil, false_implies, implies_true,
      and_true, true_and]
    refine ⟨?_, ?_, ?_⟩
    · exact ⟨⟨_, rfl, by decide⟩, fun _ => ⟨_, rfl, by decide⟩, by rintro - type ⟨⟩; decide⟩
    · exact ⟨⟨_, rfl, by decide⟩, fun _ => ⟨_, rfl, by decide⟩, by rintro ⟨⟩⟩
    · exact ⟨⟨_, rfl, by decide⟩, by rintro ⟨⟩, by rintro ⟨⟩⟩
  exact ⟨fun id node h => (hentries _ (Table.mem_of_get? h)).1,
    fun id node h => (hentries _ (Table.mem_of_get? h)).2⟩

/-- Both namesakes are told apart, and a dependency on the resource stays one. -/
theorem resolution_of_namesakes :
    Configuration.resolve? namesakes.nodes (candidates "aws_vpc.main[0].id")
      = some "resource.aws_vpc.main" ∧
    Configuration.resolve? namesakes.nodes (candidates "data.aws_vpc.main.id")
      = some "data.aws_vpc.main" ∧
    Configuration.resolve? namesakes.nodes (candidates "local.region") = none ∧
    Configuration.resolve? namesakes.nodes
        (candidates (address (trimmed "$\x7b resource.aws_vpc.main[*] \x7d\n")))
      = some "resource.aws_vpc.main" := by
  obtain ⟨hiff, -, hdependency⟩ := resolution_of_hasPlainNames hasPlainNames_namesakes
  refine ⟨?_, ?_, ?_, ?_⟩
  · refine (hiff _ _).2 ⟨by decide +kernel, _, rfl, .inr ⟨rfl, ?_⟩⟩
    decide +kernel
  · refine (hiff _ _).2 ⟨by decide +kernel, _, rfl, .inl ?_⟩
    decide +kernel
  · decide +kernel
  · obtain ⟨text, hentry, -, hexpression, -⟩ :=
      hdependency (.text "$\x7b resource.aws_vpc.main[*] \x7d\n") "resource.aws_vpc.main"
        (by decide +kernel)
    cases hentry
    exact hexpression

end BlockDiagram.Reference
