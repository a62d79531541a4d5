import PlsqlAudit.Proofs.NameKeys
import PlsqlAudit.Proofs.ProgramSpelling
import PlsqlAudit.Proofs.Routines
import PlsqlAudit.Proofs.SearchAccount

/-!
# The flow inside a routine

A search follows only the first occurrence of each key that it meets.  In a routine
that holds no other routine and gives no variable an initial value it misses
nothing by that.  There the verdict on a name and the values that flow into it are
the same for all occurrences of a key: a parameter and its assertion are looked up
by the key, in the one routine and its one body, and assignments by the key of
their target, which in ASCII the key of the name determines.

So a search from a name of the body visits names that chains of assignments lead
back to, and an occurrence of the key of each of them
(`Search.tracesTo_of_mem_trail`, `Search.exists_mem_trail_of_tracesTo`).
-/

namespace PlsqlAudit

namespace Tree

variable {t : Tree} {list : AllowList} {routine body p q : Place}

/-! ### Chains of assignments -/

/-- The name of a parameter of `routine` that is handed to no call on the list
anywhere in `body`.  The object that a method is called on is no parameter. -/
structure OpenParameter (t : Tree) (list : AllowList) (routine body name : Place) : Prop where
  notReceiver : t.nameKey name ≠ "self"
  parameter : ∃ parameter, t.HasParameter routine (t.nameKey name) parameter
  unasserted : ∀ q ∈ body.descendantsOf (· == .name), t.nameKey q = t.nameKey name →
    list.covers (t.callNameOf q) = false

/-- An assignment in `body` whose target is `name` reads `read` on its right side. -/
def FlowsInto (t : Tree) (body name read : Place) : Prop :=
  ∃ statement ∈ body.descendants, ∃ target value,
    statement.kind = .assignment ∧ statement.children = [target, value] ∧
      t.targetKey target = t.targetKey name ∧
      read ∈ value.subtree ∧ read.kind = .name ∧ read.isArgumentLabel = false

/-- A chain of assignments in `body` leads from a name back to another, and past no
open parameter before it gets there. -/
def TracesTo (t : Tree) (list : AllowList) (routine body : Place) : Place → Place → Prop :=
  Relation.ReflTransGen fun name read =>
    ¬ t.OpenParameter list routine body name ∧ t.FlowsInto body name read

/-- Only the key of a name decides whether it is an open parameter. -/
theorem OpenParameter.of_nameKey_eq (h : t.OpenParameter list routine body p)
    (hkey : t.nameKey p = t.nameKey q) : t.OpenParameter list routine body q where
  notReceiver := hkey ▸ h.notReceiver
  parameter := hkey ▸ h.parameter
  unasserted := hkey ▸ h.unasserted

/-- Only the key of a target decides what flows into it. -/
theorem FlowsInto.of_targetKey_eq {read : Place} (h : t.FlowsInto body p read)
    (hkey : t.targetKey p = t.targetKey q) : t.FlowsInto body q read := by
  obtain ⟨statement, hmem, target, value, hkind, hchildren, htarget, hread⟩ := h
  exact ⟨statement, hmem, target, value, hkind, hchildren, htarget.trans hkey, hread⟩

/-- What flows into a name in the body is read in the body. -/
theorem FlowsInto.mem_names {read : Place} (h : t.FlowsInto body p read) :
    read ∈ body.descendantsOf (· == .name) := by
  obtain ⟨statement, hmem, target, value, -, hchildren, -, hsub, hkind, -⟩ := h
  have hvalue : value ∈ body.descendants :=
    Place.children_subset_descendants hmem (by simp [hchildren])
  refine Place.mem_descendantsOf.2 ⟨?_, by simp [hkind]⟩
  rcases Place.mem_subtree.1 hsub with rfl | hsub
  · exact hvalue
  · exact Place.descendants_subset hvalue hsub

/-! ### What the search sees -/

/-- An expression reads all names in it that label no argument. -/
theorem LaidOut.mem_reads (h : t.LaidOut) (hp : p ∈ t.places) :
    q ∈ p.reads ↔ q ∈ p.subtree ∧ q.kind = .name ∧ q.isArgumentLabel = false := by
  refine ⟨Place.reads_spec, ?_⟩
  rintro ⟨hsub, hkind, hlabel⟩
  unfold Place.reads
  split
  case isTrue hname =>
    have hleaf := h.descendants_eq_nil hp (by simp [hname, Kind.Layout])
    rw [Place.subtree, hleaf, List.mem_singleton] at hsub
    subst hsub
    simp [hlabel]
  case isFalse hname =>
    rcases Place.mem_subtree.1 hsub with rfl | hsub
    · exact absurd hkind hname
    · exact List.mem_filter.2 ⟨Place.mem_descendantsOf.2 ⟨hsub, by simp [hkind]⟩, by simp [hlabel]⟩

theorem valueReads_eq_reads (h : p.isArgumentLabel = false) : valueReads p = p.reads := by
  unfold valueReads Place.reads
  split <;> simp [h]

namespace PlainRoutine

variable (h : t.PlainRoutine routine body) (hlaid : t.LaidOut)

include h hlaid

/-- The origins of a name in the body are what its assignments read. -/
theorem mem_origins (hp : p ∈ body.descendants) : q ∈ t.origins p ↔ t.FlowsInto body p q := by
  have horigins : t.origins p = (t.assignedValues body (t.targetKey p)).flatMap valueReads := by
    simp only [origins, h.toUnnestedRoutine.outermostBody?_eq hlaid hp]
    cases t.assignedValues body (t.targetKey p) with
    | nil => simp [h.declaredValue?_eq_none hlaid hp]
    | cons value values => rfl
  have hreads {statement target value : Place} (hmem : statement ∈ body.descendants)
      (hkind : statement.kind = .assignment) (hchildren : statement.children = [target, value]) :
      q ∈ valueReads value ↔ q ∈ value.subtree ∧ q.kind = .name ∧ q.isArgumentLabel = false := by
    have hvalue : value ∈ statement.children := by simp [hchildren]
    have hlabel := not_isArgumentLabel_of_parent (Place.parent?_of_mem_children hvalue)
      (by simp [hkind])
    have hplace := descendants_subset_places h.mem (h.toUnnestedRoutine.descendants_subset hmem)
    rw [valueReads_eq_reads hlabel, hlaid.mem_reads (children_subset_places hplace hvalue)]
  rw [horigins, List.mem_flatMap]
  constructor
  · rintro ⟨value, hvalue, hread⟩
    obtain ⟨statement, hmem, target, hassign, hkey⟩ := mem_assignedValues.1 hvalue
    obtain ⟨hkind, hchildren⟩ := Place.assignment?_spec hassign
    exact ⟨statement, hmem, target, value, hkind, hchildren, hkey,
      (hreads hmem hkind hchildren).1 hread⟩
  · rintro ⟨statement, hmem, target, value, hkind, hchildren, hkey, hread⟩
    refine ⟨value, mem_assignedValues.2 ⟨statement, hmem, target, ?_, hkey⟩,
      (hreads hmem hkind hchildren).2 hread⟩
    simp [Place.assignment?, hkind, hchildren]

/-- The search stops at the names in the body that are open parameters. -/
theorem isExposed_iff (hp : p ∈ body.descendantsOf (· == .name)) :
    Search.isExposed t list p = true ↔ t.OpenParameter list routine body p := by
  obtain ⟨hdesc, hname⟩ := Place.mem_descendantsOf.1 hp
  have hkind : p.kind = .name := by simpa using hname
  have hparameter : t.isParameter p = true ↔
      t.nameKey p ≠ "self" ∧ ∃ parameter, t.HasParameter routine (t.nameKey p) parameter := by
    rw [← hlaid.any_isParameterOf h.mem]
    simp [isParameter, hkind, h.toUnnestedRoutine.routine?_eq hlaid hdesc]
  have hprotects : list.protects t p = list.assertsIn t body (t.nameKey p) := by
    simp [AllowList.protects, AllowList.asserts, h.assertionRegion?_eq hlaid hdesc hkind,
      h.aliases_eq_nil hlaid hdesc]
  have hunasserted : list.assertsIn t body (t.nameKey p) = false ↔
      ∀ q ∈ body.descendantsOf (· == .name), t.nameKey q = t.nameKey p →
        list.covers (t.callNameOf q) = false := by
    rw [AllowList.assertsIn, List.any_eq_false]
    refine forall₂_congr fun q _ => ?_
    cases list.covers (t.callNameOf q) <;> simp
  rw [Search.isExposed, hprotects, Bool.and_eq_true, Bool.not_eq_true', hparameter, hunasserted]
  constructor
  · rintro ⟨⟨hreceiver, hparameter⟩, hunasserted⟩
    exact ⟨hreceiver, hparameter, hunasserted⟩
  · rintro ⟨hreceiver, hparameter, hunasserted⟩
    exact ⟨⟨hreceiver, hparameter⟩, hunasserted⟩

theorem mem_leads_iff (hp : p ∈ body.descendantsOf (· == .name)) :
    q ∈ Search.leads t list p ↔ p.isArgumentLabel = false ∧
      ¬ t.OpenParameter list routine body p ∧ t.FlowsInto body p q := by
  rw [Search.mem_leads, ← h.isExposed_iff hlaid hp, Bool.not_eq_true,
    h.mem_origins hlaid (Place.mem_descendantsOf.1 hp).1]

end PlainRoutine

end Tree

namespace Search

variable {t : Tree} {list : AllowList} {routine body seed p q : Place}

/-- A search that begins at no label meets none. -/
theorem trail_not_label (hseed : seed ∈ t.placesOf (· == .name))
    (hlabel : seed.isArgumentLabel = false) (hp : p ∈ trail t list seed) :
    p.isArgumentLabel = false := by
  by_cases hne : p = seed
  · rwa [hne]
  · exact not_label_of_mem_trail hseed hp hne

section

variable (h : t.PlainRoutine routine body) (hlaid : t.LaidOut)
  (hseed : seed ∈ body.descendantsOf (· == .name))

include h

theorem mem_placesOf_of_body (hseed : seed ∈ body.descendantsOf (· == .name)) :
    seed ∈ t.placesOf (· == .name) := by
  obtain ⟨hdesc, hname⟩ := Place.mem_descendantsOf.1 hseed
  exact Tree.mem_placesOf.2
    ⟨Tree.descendants_subset_places h.mem (h.toUnnestedRoutine.descendants_subset hdesc), hname⟩

include hlaid hseed

/-- **Soundness.**  Every visited name is a name in the body, and assignments lead
back to it. -/
theorem tracesTo_of_mem_trail (hp : p ∈ trail t list seed) :
    p ∈ body.descendantsOf (· == .name) ∧ t.TracesTo list routine body seed p := by
  have hreach := trail_reachable (mem_placesOf_of_body h hseed) hp
  clear hp
  induction hreach with
  | refl => exact ⟨hseed, .refl⟩
  | tail _ hlead ih =>
    obtain ⟨hmem, htraces⟩ := ih
    obtain ⟨-, hstep⟩ := (h.mem_leads_iff hlaid hmem).1 hlead
    exact ⟨hstep.2.mem_names, htraces.tail hstep⟩

/-- **Completeness.**  Whatever assignments lead back to, some occurrence of its key
is visited. -/
theorem exists_mem_trail_of_tracesTo
    (hascii : ∀ q ∈ body.descendantsOf (· == .name), IsAscii (t.text q))
    (hlabel : seed.isArgumentLabel = false) (hp : t.TracesTo list routine body seed p) :
    p ∈ body.descendantsOf (· == .name) ∧ ∃ q ∈ trail t list seed, t.nameKey q = t.nameKey p := by
  have hplace := mem_placesOf_of_body h hseed
  induction hp with
  | refl => exact ⟨hseed, seed, List.mem_of_mem_head? (head?_trail hplace list), rfl⟩
  | @tail name read _ hstep ih =>
    obtain ⟨hmem, q, hq, hkey⟩ := ih
    obtain ⟨hopen, hflow⟩ := hstep
    have hqBody := (tracesTo_of_mem_trail h hlaid hseed hq).1
    have hqLabel := trail_not_label hplace hlabel hq
    have hqOpen : ¬ t.OpenParameter list routine body q := fun hq => hopen (hq.of_nameKey_eq hkey)
    have hqFlow : t.FlowsInto body q read :=
      hflow.of_targetKey_eq
        (targetKey_eq_of_nameKey_eq (hascii _ hmem) (hascii _ hqBody) hkey.symm)
    obtain ⟨r, hr, hget⟩ :=
      trail_closed hplace hq ((h.mem_leads_iff hlaid hqBody).2 ⟨hqLabel, hqOpen, hqFlow⟩)
    exact ⟨hflow.mem_names, r, hr, (get?_final hplace hget).2⟩

end

/-- **No flow is missed.**  In the body of a routine that holds no other routine and
gives no variable an initial value, the search from a name that labels no argument
reports each key once, and reports just the keys of the open parameters that chains
of assignments lead back to. -/
theorem exposed_of_plainRoutine {source : String} (list : AllowList) (hparse : parse source = .ok t)
    (hroutine : t.PlainRoutine routine body)
    (hascii : ∀ q ∈ body.descendantsOf (· == .name), IsAscii (t.text q))
    (hseed : seed ∈ body.descendantsOf (· == .name)) (hlabel : seed.isArgumentLabel = false) :
    ((exposed t list seed).map t.nameKey).Nodup ∧
      (∀ key, key ∈ (exposed t list seed).map t.nameKey ↔
        ∃ last, t.TracesTo list routine body seed last ∧
          t.OpenParameter list routine body last ∧ t.nameKey last = key) ∧
      ∀ p ∈ exposed t list seed,
        t.TracesTo list routine body seed p ∧ t.OpenParameter list routine body p := by
  have hlaid := Tree.laidOut_of_parse hparse
  have hplace := mem_placesOf_of_body hroutine hseed
  have hreports : ∀ p ∈ exposed t list seed,
      t.TracesTo list routine body seed p ∧ t.OpenParameter list routine body p := by
    intro p hp
    rw [exposed_eq_filter hplace, List.mem_filter, isReported, Bool.and_eq_true] at hp
    obtain ⟨hmem, htraces⟩ := tracesTo_of_mem_trail hroutine hlaid hseed hp.1
    exact ⟨htraces, (hroutine.isExposed_iff hlaid hmem).1 hp.2.2⟩
  refine ⟨?_, fun key => ⟨?_, ?_⟩, hreports⟩
  · rw [exposed_eq_filter hplace]
    exact (nodup_trail hplace).sublist (List.filter_sublist.map _)
  · intro hkey
    obtain ⟨p, hp, hname⟩ := List.mem_map.1 hkey
    exact ⟨p, (hreports p hp).1, (hreports p hp).2, hname⟩
  · rintro ⟨last, htraces, hopen, rfl⟩
    obtain ⟨-, q, hq, hkey⟩ :=
      exists_mem_trail_of_tracesTo hroutine hlaid hseed hascii hlabel htraces
    have hqBody := (tracesTo_of_mem_trail hroutine hlaid hseed hq).1
    have hqLabel := trail_not_label hplace hlabel hq
    have hqExposed := (hroutine.isExposed_iff hlaid hqBody).2 (hopen.of_nameKey_eq hkey.symm)
    rw [← hkey, exposed_eq_filter hplace]
    exact List.mem_map_of_mem (List.mem_filter.2 ⟨hq, by simp [isReported, hqLabel, hqExposed]⟩)

/-- Looks for a plain routine without declarations whose body holds a name that
passes a test. -/
def findsPlain (test : Tree → Place → Place → Place → Bool) (t : Tree) : Bool :=
  t.places.any fun routine =>
    routine.kind.isRoutine &&
      routine.descendants.all (fun q => !q.kind.isRoutine && !q.kind.isDeclaration) &&
      (routine.child? (· == .body)).any fun body =>
        (body.descendantsOf (· == .name)).all
          (fun q => (t.text q).toList.all fun c => c.toNat < 128) &&
        (body.descendantsOf (· == .name)).any fun seed =>
          !seed.isArgumentLabel && test t routine body seed

theorem exists_of_findsPlain {test : Tree → Place → Place → Place → Bool}
    (h : findsPlain test t = true) : ∃ routine body seed, t.PlainRoutine routine body ∧
      (∀ q ∈ body.descendantsOf (· == .name), IsAscii (t.text q)) ∧
      seed ∈ body.descendantsOf (· == .name) ∧ seed.isArgumentLabel = false ∧
      test t routine body seed = true := by
  simp only [findsPlain, List.any_eq_true, Option.any_eq_true, List.all_eq_true, Bool.and_eq_true,
    Bool.not_eq_true', decide_eq_true_eq] at h
  obtain ⟨routine, hmem, ⟨hroutine, hinner⟩, body, hbody, hascii, seed, hseed, hlabel, htest⟩ := h
  refine ⟨routine, body, seed, ⟨⟨hmem, hroutine, hbody, fun q hq => (hinner q hq).1⟩, ?_⟩,
    hascii, hseed, hlabel, htest⟩
  intro q hq hdeclaration
  simp [(hinner q hq).2] at hdeclaration

/-- Two variables that are assigned to each other, one of them in a block inside
the body. -/
theorem exposed_of_plainRoutine_of_cycle : ∃ t routine body seed,
    parse "CREATE PROCEDURE p(x CHAR) IS BEGIN BEGIN y := z; END; z := y || x; END;" = .ok t ∧
      t.PlainRoutine routine body ∧
      (∀ q ∈ body.descendantsOf (· == .name), IsAscii (t.text q)) ∧
      seed ∈ body.descendantsOf (· == .name) ∧ seed.isArgumentLabel = false ∧
      t.nameKey seed = "y" ∧ (exposed t AllowList.standard seed).map t.nameKey = ["x"] ∧
      ∀ key, key ∈ ["x"] ↔
        ∃ last, t.TracesTo AllowList.standard routine body seed last ∧
          t.OpenParameter AllowList.standard routine body last ∧ t.nameKey last = key := by
  obtain ⟨t, hparse, hfound⟩ := exists_parse
    "CREATE PROCEDURE p(x CHAR) IS BEGIN BEGIN y := z; END; z := y || x; END;"
    (findsPlain fun t _ _ seed => t.nameKey seed == "y" &&
      (exposed t AllowList.standard seed).map t.nameKey == ["x"]) (by decide +kernel)
  obtain ⟨routine, body, seed, hplain, hascii, hseed, hlabel, htest⟩ := exists_of_findsPlain hfound
  rw [Bool.and_eq_true, beq_iff_eq, beq_iff_eq] at htest
  have hreports := exposed_of_plainRoutine AllowList.standard hparse hplain hascii hseed hlabel
  rw [htest.2] at hreports
  exact ⟨t, routine, body, seed, hparse, hplain, hascii, hseed, hlabel, htest.1, htest.2,
    hreports.2.1⟩

/-- **The receiver is not reported.**  A parameter that is called `self` is not, even
where it can carry text and nothing in the body is asserted. -/
theorem receiver_not_reported : ∃ t routine body seed,
    parse "CREATE PROCEDURE p(self CHAR) IS BEGIN y := self; END;" = .ok t ∧
      t.PlainRoutine routine body ∧
      (∀ q ∈ body.descendantsOf (· == .name), IsAscii (t.text q)) ∧
      seed ∈ body.descendantsOf (· == .name) ∧ seed.isArgumentLabel = false ∧
      (∃ parameter, t.HasParameter routine (t.nameKey seed) parameter) ∧
      (∀ q ∈ body.descendantsOf (· == .name), AllowList.standard.covers (t.callNameOf q) = false) ∧
      exposed t AllowList.standard seed = [] := by
  obtain ⟨t, hparse, hfound⟩ := exists_parse
    "CREATE PROCEDURE p(self CHAR) IS BEGIN y := self; END;"
    (findsPlain fun t routine body seed => routine.children.any (t.isParameterOf (t.nameKey seed)) &&
      (body.descendantsOf (· == .name)).all (fun q => !AllowList.standard.covers (t.callNameOf q)) &&
      (exposed t AllowList.standard seed).isEmpty) (by decide +kernel)
  obtain ⟨routine, body, seed, hplain, hascii, hseed, hlabel, htest⟩ := exists_of_findsPlain hfound
  simp only [Bool.and_eq_true, List.all_eq_true, Bool.not_eq_true', List.isEmpty_iff] at htest
  obtain ⟨⟨hparameter, huncovered⟩, hempty⟩ := htest
  have hlaid := Tree.laidOut_of_parse hparse
  exact ⟨t, routine, body, seed, hparse, hplain, hascii, hseed, hlabel,
    (hlaid.any_isParameterOf hplain.mem).1 hparameter, huncovered, hempty⟩

end Search

end PlsqlAudit
