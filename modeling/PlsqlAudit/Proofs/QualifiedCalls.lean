import Mathlib.Data.List.TakeWhile
import PlsqlAudit.Flow.DynamicSql
import PlsqlAudit.Proofs.DottedText
import PlsqlAudit.Proofs.Lowering
import PlsqlAudit.Proofs.Numbering
import PlsqlAudit.Proofs.SearchAccount

/-!
# Which calls assert

A name is asserted by a call that takes it directly, where the dotted name of the
call says so.  The dotted name is the keys of the last three names of the chain,
with dots between them, and it is searched for the name of a package with a dot
after it.  That the search is one for a piece of text makes a difference: the
package has to end what stands in front of a dot, and need not be all of it.  So
a call of `my_dbms_assert.noop` asserts as one of `dbms_assert.noop` does, and so
does one of a quoted name with the text of a qualified one in it.
-/

namespace PlsqlAudit

namespace Place

/-- A dotted chain of names. -/
inductive Chain : Place → List Place → Prop
  | name {p : Place} (hkind : p.kind = .name) : Chain p [p]
  | member {p left right : Place} {names : List Place} (hkind : p.kind = .memberAccess)
    (hparts : p.children = [left, right]) (hright : right.kind = .name) (hleft : Chain left names) :
    Chain p (names ++ [right])

/-- The name is the value of an argument of a call, and what is called is the
dotted chain `segments`. -/
structure HandedTo (name : Place) (segments : List Place) : Prop where
  call : ∃ call callee argument : Place, call.kind = .call ∧ call.children.head? = some callee ∧
    callee.Chain segments ∧ argument ∈ call.children ∧ argument.kind = .argument ∧
    argument.children.getLast? = some name
  qualified : 2 ≤ segments.length

theorem segmentsFrom_eq_some {index : Nat} {above : List (Nat × Node)} {later names : List Place}
    {n : Node} : segmentsFrom index above later n = some names ↔
      ∃ front, (⟨index, n, above⟩ : Place).Chain front ∧ names = front ++ later := by
  fun_induction segmentsFrom index above later n with
  | case1 index above later span children =>
    constructor
    · intro h
      exact ⟨_, .name rfl, (Option.some.inj h).symm⟩
    · rintro ⟨front, hchain, rfl⟩
      cases hchain with
      | name => rfl
      | member hkind => exact absurd hkind (by simp [kind, Node.kind])
  | case2 index above later span left right inside hright ih =>
    have hparts : (⟨index, .mk .memberAccess span [left, right], above⟩ : Place).children =
        [⟨index + 1, left, inside⟩, ⟨index + 1 + left.size, right, inside⟩] := rfl
    rw [ih]
    constructor
    · rintro ⟨front, hchain, rfl⟩
      exact ⟨_, .member rfl hparts hright hchain, by simp⟩
    · rintro ⟨front, hchain, rfl⟩
      cases hchain with
      | name hkind => exact absurd hkind (by simp [kind, Node.kind])
      | member hkind hparts' hright' hleft =>
        rw [hparts] at hparts'
        simp only [List.cons.injEq, and_true] at hparts'
        obtain ⟨rfl, rfl⟩ := hparts'
        exact ⟨_, hleft, by simp⟩
  | case3 index above later span left right hright =>
    simp only [reduceCtorEq, false_iff, not_exists, not_and]
    intro front hchain
    cases hchain with
    | name hkind => exact absurd hkind (by simp [kind, Node.kind])
    | member hkind hparts hright' hleft =>
      have hnode := congrArg (List.map Place.node) hparts
      rw [map_node_children] at hnode
      simp only [Node.children, List.map_cons, List.map_nil, List.cons.injEq, and_true] at hnode
      rw [hnode.2] at hright
      exact absurd hright' hright
  | case4 n index above later hname hmember =>
    simp only [reduceCtorEq, false_iff, not_exists, not_and]
    intro front hchain
    obtain ⟨kind, span, children⟩ := n
    cases hchain with
    | name hkind =>
      obtain rfl : kind = Kind.name := hkind
      exact absurd rfl (hname span children)
    | member hkind hparts hright hleft =>
      obtain rfl : kind = .memberAccess := hkind
      have hnode := congrArg (List.map Place.node) hparts
      rw [map_node_children] at hnode
      exact absurd (congrArg (Node.mk .memberAccess span) hnode) (hmember span _ _)

/-- The names of a dotted chain are found. -/
theorem nameSegments?_eq_some {p : Place} {names : List Place} :
    p.nameSegments? = some names ↔ p.Chain names := by
  rw [nameSegments?, segmentsFrom_eq_some]
  simp

/-- The segments of a chain that can name a package: of the last three, all but
the last. -/
def qualifiers (segments : List Place) : List Place :=
  (segments.drop (segments.length - 3)).dropLast

end Place

namespace Tree

variable {t : Tree} {name : Place} {segments : List Place}

/-- The keys of the last three segments with dots between them. -/
def dottedName (t : Tree) (segments : List Place) : String :=
  ".".intercalate ((segments.drop (segments.length - 3)).map t.nameKey)

/-- The call of a name that is handed to one. -/
theorem callNameOf_of_handedTo (h : name.HandedTo segments) :
    t.callNameOf name = t.dottedName segments := by
  obtain ⟨⟨call, callee, argument, hcall, hcallee, hchain, hargument, hkind, hvalue⟩, htwo⟩ := h
  have hname := Place.parent?_of_mem_children (List.mem_of_getLast? hvalue)
  have hparent := Place.parent?_of_mem_children hargument
  have hargumentValue : argument.argumentValue? = some name := by
    rw [Place.argumentValue?, if_pos hkind, hvalue]
  have hcalleeOf : call.callee? = some callee := by rw [Place.callee?, if_pos hcall, hcallee]
  simp [callNameOf, hname, hargumentValue, hparent, hcalleeOf, Place.nameSegments?_eq_some.2 hchain,
    Nat.not_lt.2 htwo, dottedName]

/-- A name that is handed to no call has no name of a call. -/
theorem handedTo_of_callNameOf (hname : name ∈ t.places) (h : t.callNameOf name ≠ "") :
    ∃ segments, name.HandedTo segments := by
  unfold callNameOf at h
  dsimp only at h
  split at h
  case h_1 segments hfound =>
    split at h
    case isTrue => exact absurd rfl h
    case isFalse htwo =>
      obtain ⟨argument, hargument, hfound⟩ := Option.bind_eq_some_iff.1 hfound
      obtain ⟨value, hvalue, hfound⟩ := Option.bind_eq_some_iff.1 hfound
      split at hfound
      case isTrue hindex =>
        obtain ⟨call, hcall, hfound⟩ := Option.bind_eq_some_iff.1 hfound
        obtain ⟨callee, hcallee, hsegments⟩ := Option.bind_eq_some_iff.1 hfound
        obtain ⟨hargumentIn, -⟩ := parent?_spec hname hargument
        obtain ⟨-, hargumentCall⟩ := parent?_spec hargumentIn hcall
        unfold Place.argumentValue? at hvalue
        unfold Place.callee? at hcallee
        split at hvalue
        case isTrue hkind =>
          split at hcallee
          case isTrue hcallKind =>
            obtain rfl : value = name := eq_of_index_eq
              (children_subset_places hargumentIn (List.mem_of_getLast? hvalue)) hname hindex
            exact ⟨segments, ⟨call, callee, argument, hcallKind, hcallee,
              Place.nameSegments?_eq_some.1 hsegments, hargumentCall, hkind, hvalue⟩, by omega⟩
          case isFalse => simp at hcallee
        case isFalse => simp at hvalue
      case isFalse => simp at hfound
  case h_2 => exact absurd rfl h

theorem isSmall_dottedName {c : Char} (h : c ∈ (t.dottedName segments).toList) :
    Text.IsSmall c := by
  rw [dottedName, String.toList_intercalate] at h
  generalize segments.drop (segments.length - 3) = last at h
  induction last with
  | nil => simp at h
  | cons segment last ih =>
    have hkey (hc : c ∈ (t.nameKey segment).toList) : Text.IsSmall c :=
      Text.isSmall_of_mem_lower hc
    cases last with
    | nil => exact hkey (by simpa using h)
    | cons next last =>
      simp only [List.map_cons, List.intercalate_cons_cons, List.mem_append] at h
      rcases h with (h | h) | h
      · exact hkey h
      · obtain rfl : c = '.' := by simpa using h
        exact Text.isSmall_dot
      · exact ih h

/-- The qualifiers of a call stand whole in front of a dot. -/
theorem mem_split_of_qualifier {segment : Place} (h : segment ∈ Place.qualifiers segments)
    (hdot : '.' ∉ (t.nameKey segment).toList) :
    t.nameKey segment ∈ (Text.split '.' (t.dottedName segments)).dropLast := by
  have hcut : (Text.split '.' (t.dottedName segments)) =
      (((segments.drop (segments.length - 3)).map fun s => (t.nameKey s).toList).flatMap
        (Text.splitChars '.')).map String.ofList := by
    rw [Text.split, dottedName, String.toList_intercalate, List.map_map]
    refine congrArg _ (Text.splitChars_intercalate '.' ?_)
    intro hnil
    rw [List.map_eq_nil_iff] at hnil
    simp [Place.qualifiers, hnil] at h
  unfold Place.qualifiers at h
  rw [hcut]
  generalize segments.drop (segments.length - 3) = last at h
  obtain ⟨front, final, rfl⟩ : ∃ front final, last = front ++ [final] := by
    rcases List.eq_nil_or_concat last with rfl | ⟨front, final, rfl⟩
    · simp at h
    · exact ⟨front, final, List.concat_eq_append⟩
  rw [List.dropLast_concat] at h
  simp only [List.map_append, List.map_cons, List.map_nil, List.flatMap_append,
    List.flatMap_singleton]
  rw [List.dropLast_append_of_ne_nil (by simpa using Text.splitChars_ne_nil '.' _)]
  refine List.mem_append_left _ (List.mem_map.2 ⟨(t.nameKey segment).toList, ?_, by simp⟩)
  refine List.mem_flatMap.2 ⟨(t.nameKey segment).toList, List.mem_map_of_mem h, ?_⟩
  simp [Text.splitChars_of_not_mem hdot]

end Tree

namespace AllowList

/-- The name of a package without a schema: no dots, no quotes, no blanks. -/
structure IsSimple (entry : String) : Prop where
  nonempty : entry ≠ ""
  plain : ∀ c ∈ entry.toList, c ≠ '.' ∧ c ≠ '"' ∧ Text.isBlank c = false

variable {entries : List String} {entry package : String}

theorem dropEndWhile_eq_self {p : Char → Bool} {cs : List Char} (h : ∀ c ∈ cs, p c = false) :
    Text.dropEndWhile p cs = cs := by
  rw [Text.dropEndWhile, List.dropWhile_eq_self_iff.2, List.reverse_reverse]
  intro hlength hhead
  have hmem := List.mem_reverse.1 (List.getElem_mem hlength)
  rw [h _ hmem] at hhead
  simp at hhead

/-- A simple entry means the package of that name. -/
theorem packageOf_of_isSimple (h : IsSimple entry) : packageOf entry = Text.lower entry := by
  have hdots : ∀ c ∈ entry.toList, (c == '.') = false := by
    intro c hc
    simpa using (h.plain c hc).1
  have hblanks : ∀ c ∈ entry.toList, Text.isBlank c = false := fun c hc => (h.plain c hc).2.2
  have hfront : entry.toList.dropWhile Text.isBlank = entry.toList := by
    rw [List.dropWhile_eq_self_iff]
    intro hlength hhead
    simp [hblanks _ (List.getElem_mem hlength)] at hhead
  rw [packageOf, Text.trim, Text.dropEndsWhile, hfront, dropEndWhile_eq_self hblanks,
    String.ofList_toList, Text.trimEndOf, dropEndWhile_eq_self hdots, String.ofList_toList]

theorem mem_insert {list : AllowList} :
    package ∈ (list.insert entry).packages ↔
      package ∈ list.packages ∨ package = packageOf entry ∧ package ≠ "" := by
  rw [insert]
  split
  case isTrue hold =>
    rw [Bool.or_eq_true, String.isEmpty_iff, List.contains_iff_mem] at hold
    constructor
    · exact .inl
    · rintro (h | ⟨rfl, hne⟩)
      · exact h
      · exact hold.resolve_left hne
  case isFalse hnew =>
    rw [Bool.or_eq_true, String.isEmpty_iff, not_or] at hnew
    rw [List.mem_append, List.mem_singleton]
    constructor
    · rintro (h | rfl)
      · exact .inl h
      · exact .inr ⟨rfl, hnew.1⟩
    · rintro (h | ⟨rfl, -⟩)
      · exact .inl h
      · exact .inr rfl

/-- The packages of an allow list are those that its entries mean. -/
theorem mem_packages_ofList :
    package ∈ (ofList entries).packages ↔ ∃ entry ∈ entries, package = packageOf entry ∧ package ≠ "" := by
  have hfold (list : AllowList) : package ∈ (entries.foldl insert list).packages ↔
      package ∈ list.packages ∨ ∃ entry ∈ entries, package = packageOf entry ∧ package ≠ "" := by
    induction entries generalizing list with
    | nil => simp
    | cons entry entries ih => rw [List.foldl_cons, ih, mem_insert, or_assoc,
      List.exists_mem_cons_iff]
  simpa [ofList] using hfold ⟨[]⟩

/-- The name is handed to a call whose chain has the name of a package among its
qualifiers. -/
def CallsInto (entries : List String) (t : Tree) (name : Place) : Prop :=
  ∃ segments, name.HandedTo segments ∧ ∃ segment ∈ Place.qualifiers segments,
    ∃ entry ∈ entries, t.nameKey segment = Text.lower entry

/-- The name is handed to a call with a dotted name in which something in front
of a dot ends with the name of a package. -/
def CallsAlike (entries : List String) (t : Tree) (name : Place) : Prop :=
  ∃ segments, name.HandedTo segments ∧
    ∃ part ∈ (Text.split '.' (t.dottedName segments)).dropLast,
      ∃ entry ∈ entries, (Text.lower entry).toList <:+ part.toList

variable {t : Tree} {name : Place} (hsimple : ∀ entry ∈ entries, IsSimple entry)

include hsimple

theorem mem_split_of_callsInto (h : CallsInto entries t name) :
    ∃ entry ∈ entries, Text.lower entry ∈ (Text.split '.' (t.callNameOf name)).dropLast := by
  obtain ⟨segments, hhanded, segment, hsegment, entry, hentry, hkey⟩ := h
  refine ⟨entry, hentry, ?_⟩
  rw [Tree.callNameOf_of_handedTo hhanded, ← hkey]
  apply Tree.mem_split_of_qualifier hsegment
  rw [hkey]
  intro hdot
  exact ((hsimple entry hentry).plain '.' (Text.dot_mem_of_mem_lower hdot)).1 rfl

theorem CallsInto.alike (h : CallsInto entries t name) : CallsAlike entries t name := by
  obtain ⟨segments, hhanded, -⟩ := id h
  obtain ⟨entry, hentry, hpart⟩ := mem_split_of_callsInto hsimple h
  rw [Tree.callNameOf_of_handedTo hhanded] at hpart
  exact ⟨segments, hhanded, _, hpart, entry, hentry, List.suffix_rfl⟩

/-- What a dotted name is searched for. -/
theorem covers_dottedName (segments : List Place) :
    (ofList entries).covers (t.dottedName segments) = true ↔
      ∃ part ∈ (Text.split '.' (t.dottedName segments)).dropLast,
        ∃ entry ∈ entries, (Text.lower entry).toList <:+ part.toList := by
  have hsmall : Text.lower (t.dottedName segments) = t.dottedName segments :=
    Text.lower_of_isSmall fun _ => Tree.isSmall_dottedName
  have hentry {entry : String} (hmem : entry ∈ entries) :
      Text.contains (Text.lower (t.dottedName segments)) (packageOf entry ++ ".") = true ↔
        ∃ part ∈ (Text.split '.' (t.dottedName segments)).dropLast,
          (Text.lower entry).toList <:+ part.toList := by
    have hdot : '.' ∉ (Text.lower entry).toList := by
      intro hdot
      exact ((hsimple entry hmem).plain '.' (Text.dot_mem_of_mem_lower hdot)).1 rfl
    rw [packageOf_of_isSimple (hsimple entry hmem), hsmall, Text.contains_iff, String.toList_append]
    refine (Text.infix_concat_iff hdot).trans ?_
    rw [Text.split, ← List.map_dropLast]
    simp only [List.mem_map, exists_exists_and_eq_and, String.toList_ofList]
  rw [covers, Bool.and_eq_true, List.any_eq_true]
  constructor
  · rintro ⟨-, package, hpackage, hoccurs⟩
    obtain ⟨entry, hmem, rfl, -⟩ := mem_packages_ofList.1 hpackage
    obtain ⟨part, hpart, hsuffix⟩ := (hentry hmem).1 hoccurs
    exact ⟨part, hpart, entry, hmem, hsuffix⟩
  · rintro ⟨part, hpart, entry, hmem, hsuffix⟩
    constructor
    · rw [Bool.not_eq_true', ← Bool.not_eq_true, String.isEmpty_iff]
      intro hempty
      simp [hempty, Text.split, Text.splitChars] at hpart
    · refine ⟨packageOf entry, mem_packages_ofList.2 ⟨entry, hmem, rfl, ?_⟩,
        (hentry hmem).2 ⟨part, hpart, hsuffix⟩⟩
      rw [packageOf_of_isSimple (hsimple entry hmem)]
      exact Text.lower_ne_empty (hsimple entry hmem).nonempty

/-- **Which calls assert.**  A name counts as handed to a package of the list
exactly when it is handed to a call in whose dotted name something in front of a
dot ends with the name of a package.  So the calls that count are those into a
package of the list, exactly when every such call is one into a package. -/
theorem covers_callNameOf (hname : name ∈ t.placesOf (· == .name)) :
    ((ofList entries).covers (t.callNameOf name) = true ↔ CallsAlike entries t name) ∧
      (((ofList entries).covers (t.callNameOf name) = true ↔ CallsInto entries t name) ↔
        (CallsAlike entries t name → CallsInto entries t name)) := by
  have hexact : (ofList entries).covers (t.callNameOf name) = true ↔ CallsAlike entries t name := by
    constructor
    · intro hcovers
      have hne : t.callNameOf name ≠ "" := by
        intro hempty
        simp [hempty, covers] at hcovers
      obtain ⟨segments, hhanded⟩ := Tree.handedTo_of_callNameOf (Tree.mem_placesOf.1 hname).1 hne
      rw [Tree.callNameOf_of_handedTo hhanded, covers_dottedName hsimple] at hcovers
      exact ⟨segments, hhanded, hcovers⟩
    · rintro ⟨segments, hhanded, hparts⟩
      rw [Tree.callNameOf_of_handedTo hhanded]
      exact (covers_dottedName hsimple segments).2 hparts
  refine ⟨hexact, ?_⟩
  rw [hexact]
  exact ⟨fun h => h.1, fun h => ⟨h, fun hinto => hinto.alike hsimple⟩⟩

omit hsimple

theorem isSimple_defaultEntries : ∀ entry ∈ defaultEntries, IsSimple entry := by
  intro entry hentry
  simp only [defaultEntries, List.mem_cons, List.not_mem_nil, or_false] at hentry
  rcases hentry with rfl | rfl
  · exact ⟨by decide, List.forall_iff_forall_mem.1 (by decide)⟩
  · exact ⟨by decide, List.forall_iff_forall_mem.1 (by decide)⟩

/-- A call through a schema counts, and is one into the package. -/
theorem covers_callNameOf_of_schema : ∃ t name,
    parse "CREATE PROCEDURE p(x CHAR) IS BEGIN y := SYS.\"DBMS_ASSERT\".noop(x); END;" = .ok t ∧
      (∀ entry ∈ defaultEntries, IsSimple entry) ∧ name ∈ t.placesOf (· == .name) ∧
      t.callNameOf name = "sys.dbms_assert.noop" ∧ CallsAlike defaultEntries t name := by
  obtain ⟨t, hparse, htest⟩ := exists_parse
    "CREATE PROCEDURE p(x CHAR) IS BEGIN y := SYS.\"DBMS_ASSERT\".noop(x); END;"
    (fun t => (t.placesOf (· == .name)).any fun name =>
      t.callNameOf name == "sys.dbms_assert.noop" &&
        (ofList defaultEntries).covers (t.callNameOf name)) (by decide +kernel)
  obtain ⟨name, hname, h⟩ := List.any_eq_true.1 htest
  obtain ⟨hcall, hcovers⟩ := Bool.and_eq_true_iff.1 h
  exact ⟨t, name, hparse, isSimple_defaultEntries, hname, by simpa using hcall,
    (covers_callNameOf isSimple_defaultEntries hname).1.1 hcovers⟩

/-- **A package with a longer name asserts too.**  A call into a package whose name
only ends with that of a package of the list counts as one into that package, so
that a parameter handed to it is not reported. -/
theorem longer_package_covers : ∃ t name,
    parse "CREATE PROCEDURE p(x CHAR) IS BEGIN EXECUTE IMMEDIATE my_dbms_assert.noop(x); END;" = .ok t ∧
      name ∈ t.placesOf (· == .name) ∧ t.exposures (ofList defaultEntries) = [] ∧
      ¬ ((ofList defaultEntries).covers (t.callNameOf name) = true ↔
        CallsInto defaultEntries t name) := by
  obtain ⟨t, hparse, htest⟩ := exists_parse
    "CREATE PROCEDURE p(x CHAR) IS BEGIN EXECUTE IMMEDIATE my_dbms_assert.noop(x); END;"
    (fun t => (t.exposures (ofList defaultEntries)).isEmpty &&
      (t.placesOf (· == .name)).any fun name => t.callNameOf name == "my_dbms_assert.noop")
    (by decide +kernel)
  obtain ⟨hclean, hany⟩ := Bool.and_eq_true_iff.1 htest
  obtain ⟨name, hname, hcall⟩ := List.any_eq_true.1 hany
  rw [beq_iff_eq] at hcall
  refine ⟨t, name, hparse, hname, List.isEmpty_iff.1 hclean, ?_⟩
  rw [hcall]
  intro hcalls
  obtain ⟨entry, hentry, hpart⟩ :=
    mem_split_of_callsInto isSimple_defaultEntries (hcalls.1 (by decide +kernel))
  rw [hcall] at hpart
  exact absurd hpart (by revert entry; decide +kernel)

end AllowList

end PlsqlAudit
