import PlsqlAudit.Proofs.Pointing
import PlsqlAudit.Proofs.RoutineFlow

/-!
# Parameters assigned to what is executed

The shortest flow into dynamic SQL is one assignment: a parameter is stored
somewhere, and what is stored there is executed.  The analysis follows single names,
and compares each with the whole target of an assignment.  So the flow is met where
the target is a name that the executed expression reads, and an assignment to a field
or to an element, as a whole, is the origin of nothing.
-/

namespace PlsqlAudit

theorem Place.subtree_subset_descendants {p q : Place} (hp : p ∈ q.descendants) :
    p.subtree ⊆ q.descendants := by
  intro r hr
  rcases mem_subtree.1 hr with rfl | hr
  · exact hp
  · exact descendants_subset hp hr

namespace Search

variable {t : Tree} {list : AllowList} {seed p q : Place}

/-! ### The first step of a search -/

/-- Of what the seed leads to every key is visited, at the seed itself or at something
else that the seed leads to. -/
theorem exists_mem_trail_of_lead (hseed : seed ∈ t.placesOf (· == .name))
    (hq : q ∈ leads t list seed) :
    ∃ r ∈ seed :: leads t list seed, r ∈ trail t list seed ∧ t.nameKey r = t.nameKey q := by
  have hplace := (Tree.mem_placesOf.1 hseed).1
  obtain ⟨hseen, hfresh, -, hall⟩ := record_spec t [entry t seed] (leads t list seed)
  have hfirst := (Explored.init t list seed [entry t seed]).step hplace rfl
  obtain ⟨more, hrun⟩ := hfirst.run hplace (t.placesOf (· == .name)).length
  have hvisits : trail t list seed = [] ++ [seed] ++ visits t list
      (t.placesOf (· == .name)).length (step t list ⟨[seed], [entry t seed], []⟩) := rfl
  have hpending : (run t list (t.placesOf (· == .name)).length
      (step t list ⟨[seed], [entry t seed], []⟩)).pending = [] := pending_final hseed
  have hkey := hall q hq
  rw [hseen, Seen.has_append, Bool.or_eq_true, entry, Seen.has_singleton, has_map_entry] at hkey
  rcases hkey with hkey | hkey
  · refine ⟨seed, List.mem_cons_self, List.mem_of_mem_head? (head?_trail hseed list), ?_⟩
    exact (beq_iff_eq.1 hkey).symm
  · obtain ⟨r, hr, hname⟩ := List.mem_map.1 hkey
    refine ⟨r, List.mem_cons_of_mem _ (hfresh r hr).1, ?_, hname⟩
    have hmem := hrun.mem_iff.1 (.inr (List.mem_append_left _ (List.mem_append_right _ hr)))
    rwa [hpending, ← hvisits, or_iff_left List.not_mem_nil] at hmem

/-- A name that is no open parameter and that nothing flows into is not reported. -/
theorem exposed_eq_nil (hseed : seed ∈ t.placesOf (· == .name))
    (hexposed : isExposed t list seed = false) (horigins : t.origins seed = []) :
    exposed t list seed = [] := by
  rw [exposed_eq_filter hseed, List.filter_eq_nil_iff]
  intro p hp
  have hnone : ∀ q, q ∉ leads t list seed := by simp [leads, horigins]
  obtain rfl : p = seed := by
    rcases (trail_reachable hseed hp).cases_head with heq | ⟨q, hq, -⟩
    · exact heq.symm
    · exact absurd hq (hnone q)
  simp [isReported, hexposed]

end Search

namespace Tree.UnnestedRoutine

variable {t : Tree} {routine body p q : Place} (h : t.UnnestedRoutine routine body)
  (hlaid : t.LaidOut)

include h hlaid

/-- Whether a name in the body means a parameter is decided by its key. -/
theorem isParameter_of_nameKey_eq (hp : p ∈ body.descendants)
    (hq : q ∈ body.descendantsOf (· == .name)) (hkey : t.nameKey q = t.nameKey p)
    (hparameter : t.isParameter p = true) : t.isParameter q = true := by
  obtain ⟨hdesc, hname⟩ := Place.mem_descendantsOf.1 hq
  rw [isParameter, h.routine?_eq hlaid hp, Bool.and_eq_true, Bool.and_eq_true] at hparameter
  rw [isParameter, h.routine?_eq hlaid hdesc, hname, hkey, hparameter.1.2, hparameter.2]
  rfl

/-- What is assigned to a name in the body are its origins, and nothing else is. -/
theorem origins_of_assigned {value : Place} (hp : p ∈ body.descendants)
    (hvalue : value ∈ t.assignedValues body (t.targetKey p)) :
    t.origins p = (t.assignedValues body (t.targetKey p)).flatMap valueReads := by
  simp only [origins, h.outermostBody?_eq hlaid hp]
  cases hvalues : t.assignedValues body (t.targetKey p) with
  | nil => simp [hvalues] at hvalue
  | cons value values => rfl

/-- Then all origins are names in the body. -/
theorem mem_names_of_origin {value : Place} (hp : p ∈ body.descendants)
    (hvalue : value ∈ t.assignedValues body (t.targetKey p)) (hq : q ∈ t.origins p) :
    q ∈ body.descendantsOf (· == .name) := by
  rw [h.origins_of_assigned hlaid hp hvalue] at hq
  obtain ⟨other, hother, hread⟩ := List.mem_flatMap.1 hq
  obtain ⟨statement, hstatement, target, hassign, -⟩ := mem_assignedValues.1 hother
  obtain ⟨hsub, hkind⟩ := valueReads_spec hread
  have hmem : other ∈ body.descendants :=
    Place.children_subset_descendants hstatement (by simp [(Place.assignment?_spec hassign).2])
  exact Place.mem_descendantsOf.2
    ⟨Place.subtree_subset_descendants hmem hsub, by simp [hkind]⟩

end Tree.UnnestedRoutine

namespace Search

variable {t : Tree} {routine body n value : Place}

theorem exposed_ne_nil {seed p : Place} {list : AllowList} (hseed : seed ∈ t.placesOf (· == .name))
    (hlabel : seed.isArgumentLabel = false) (hp : p ∈ trail t list seed)
    (hexposed : isExposed t list p = true) : exposed t list seed ≠ [] := by
  rw [exposed_eq_filter hseed]
  refine List.ne_nil_of_mem (List.mem_filter.2 ⟨hp, ?_⟩)
  simp [isReported, trail_not_label hseed hlabel hp, hexposed]

/-- A parameter that is assigned to a name in the body is reported from there, unless
the name itself or something assigned to it is the same parameter, asserted. -/
theorem exposed_of_assigned {list : AllowList} (h : t.UnnestedRoutine routine body)
    (hlaid : t.LaidOut) (hn : n ∈ body.descendantsOf (· == .name))
    (hlabel : n.isArgumentLabel = false)
    (hvalue : value ∈ t.assignedValues body (t.targetKey n)) (hparameter : t.isParameter value = true)
    (hopen : ∀ q ∈ n :: t.origins n, t.nameKey q = t.nameKey value → list.protects t q = false) :
    exposed t list n ≠ [] := by
  obtain ⟨hdesc, hname⟩ := Place.mem_descendantsOf.1 hn
  have hplace : n ∈ t.placesOf (· == .name) := Tree.mem_placesOf.2
    ⟨Tree.descendants_subset_places h.mem (h.descendants_subset hdesc), hname⟩
  by_cases hself : isExposed t list n = true
  · exact exposed_ne_nil hplace hlabel (List.mem_of_mem_head? (head?_trail hplace list)) hself
  have hkind : value.kind = .name := by
    simp only [Tree.isParameter, Bool.and_eq_true, beq_iff_eq] at hparameter
    exact hparameter.1.1
  have horigin : value ∈ t.origins n := by
    rw [h.origins_of_assigned hlaid hdesc hvalue, List.mem_flatMap]
    exact ⟨value, hvalue, by simp [Tree.valueReads, hkind]⟩
  have hleads : leads t list n = t.origins n := by simp [leads, hlabel, hself]
  obtain ⟨r, hr, htrail, hkey⟩ := exists_mem_trail_of_lead hplace (hleads ▸ horigin)
  rw [hleads] at hr
  have hbody (q : Place) (hq : q ∈ t.origins n) := h.mem_names_of_origin hlaid hdesc hvalue hq
  have hrBody : r ∈ body.descendantsOf (· == .name) := by
    rcases List.mem_cons.1 hr with rfl | hr
    · exact hn
    · exact hbody r hr
  have hrParameter := h.isParameter_of_nameKey_eq hlaid
    (Place.mem_descendantsOf.1 (hbody value horigin)).1 hrBody hkey hparameter
  exact exposed_ne_nil hplace hlabel htrail (by simp [isExposed, hrParameter, hopen r hr hkey])

/-! ### What is executed -/

/-- A name that is executed as it stands is what its expression reads. -/
theorem reads_of_executed_name {statement sql : Place} (hsql : statement.executedSql? = some sql)
    (hname : sql.kind = .name) : sql.reads = [sql] := by
  have hkind := Place.kind_of_executedSql? hsql
  have hparent := Place.parent?_of_mem_children (Place.executedSql?_mem_children hsql)
  simp [Place.reads, hname, Tree.not_isArgumentLabel_of_parent hparent (by simp [hkind])]

/-- **A direct flow is met where the target is a name that is read.**  In the body of a
routine that holds no other, an `EXECUTE IMMEDIATE` is reported if its expression
reads a name, in particular if it is one, to which a parameter is assigned somewhere in
the body, unless the parameter is asserted where it is that name or is assigned to it.
On the other hand the names that the expression reads, one by one, are all that
counts: if none of them is an open parameter or has an origin, nothing is reported,
whatever is assigned to the expression as a whole. -/
theorem executed_of_assigned {source : String} {statement sql : Place} (list : AllowList)
    (hparse : parse source = .ok t) (h : t.UnnestedRoutine routine body)
    (hstatement : statement ∈ body.descendants) (hsql : statement.executedSql? = some sql) :
    (sql.kind = .name → sql.reads = [sql]) ∧
      (∀ assignment ∈ body.descendants, ∀ target value,
        assignment.assignment? = some (target, value) → t.isParameter value = true →
        ∀ n ∈ sql.reads, t.targetKey n = t.targetKey target →
        (∀ q ∈ n :: t.origins n, t.nameKey q = t.nameKey value → list.protects t q = false) →
        exposedByExecute t list statement ≠ []) ∧
      ((∀ n ∈ sql.reads, isExposed t list n = false ∧ t.origins n = []) →
        exposedByExecute t list statement = []) := by
  have hlaid := Tree.laidOut_of_parse hparse
  have hsqlMem := Place.children_subset_descendants hstatement
    (Place.executedSql?_mem_children hsql)
  have hbody : body.descendants ⊆ t.places := fun q hq =>
    Tree.descendants_subset_places h.mem (h.descendants_subset hq)
  have hreads : exposedByExecute t list statement = sql.reads.flatMap (exposed t list) := by
    rw [exposedByExecute, hsql]
    rfl
  rw [hreads]
  refine ⟨reads_of_executed_name hsql, ?_, ?_⟩
  · intro assignment hassignment target value hassign hparameter n hn hkey hopen
    obtain ⟨hsub, hname, hlabel⟩ := Place.reads_spec hn
    have hnBody : n ∈ body.descendantsOf (· == .name) := Place.mem_descendantsOf.2
      ⟨Place.subtree_subset_descendants hsqlMem hsub, by simp [hname]⟩
    have hvalue : value ∈ t.assignedValues body (t.targetKey n) :=
      Tree.mem_assignedValues.2 ⟨assignment, hassignment, target, hassign, hkey.symm⟩
    obtain ⟨p, hp⟩ := List.exists_mem_of_ne_nil _
      (exposed_of_assigned h hlaid hnBody hlabel hvalue hparameter hopen)
    exact List.ne_nil_of_mem (List.mem_flatMap.2 ⟨n, hn, hp⟩)
  · intro hnone
    rw [List.flatMap_eq_nil_iff]
    intro n hn
    exact exposed_eq_nil (Tree.reads_subset (hbody hsqlMem) hn) (hnone n hn).1 (hnone n hn).2

/-- Looks for a routine that holds no other, and in its body for an executed expression
and an assignment that pass a test. -/
def findsExecuted (test : Tree → Place → Place → Place → Place → Bool) (t : Tree) : Bool :=
  t.places.any fun routine =>
    routine.kind.isRoutine && routine.descendants.all (fun q => !q.kind.isRoutine) &&
      (routine.child? (· == .body)).any fun body =>
        body.descendants.any fun statement => statement.executedSql?.any fun sql =>
          body.descendants.any fun assignment => assignment.assignment?.any fun parts =>
            test t statement sql parts.1 parts.2

theorem exists_of_findsExecuted {test : Tree → Place → Place → Place → Place → Bool}
    (h : findsExecuted test t = true) :
    ∃ routine body statement sql assignment target value, t.UnnestedRoutine routine body ∧
      statement ∈ body.descendants ∧ statement.executedSql? = some sql ∧
      assignment ∈ body.descendants ∧ assignment.assignment? = some (target, value) ∧
      test t statement sql target value = true := by
  simp only [findsExecuted, List.any_eq_true, Option.any_eq_true, List.all_eq_true,
    Bool.and_eq_true, Bool.not_eq_true'] at h
  obtain ⟨routine, hmem, ⟨hroutine, hinner⟩, body, hbody, statement, hstatement, sql, hsql,
    assignment, hassignment, ⟨target, value⟩, hassign, htest⟩ := h
  exact ⟨routine, body, statement, sql, assignment, target, value, ⟨hmem, hroutine, hbody, hinner⟩,
    hstatement, hsql, hassignment, hassign, htest⟩

/-- A parameter is assigned to a variable in a block inside the body, and a text is
executed that ends with the variable. -/
theorem executed_of_assigned_of_block : ∃ t routine body statement sql assignment target value n,
    parse "CREATE PROCEDURE p(x CHAR) IS BEGIN BEGIN y := x; END; EXECUTE IMMEDIATE 'a' || y; END;"
      = .ok t ∧
      (t.UnnestedRoutine routine body ∧ statement ∈ body.descendants ∧
        statement.executedSql? = some sql) ∧
      (assignment ∈ body.descendants ∧ assignment.assignment? = some (target, value) ∧
        t.isParameter value = true) ∧
      (n ∈ sql.reads ∧ t.targetKey n = t.targetKey target ∧
        ∀ q ∈ n :: t.origins n, t.nameKey q = t.nameKey value →
          AllowList.standard.protects t q = false) ∧
      exposedByExecute t AllowList.standard statement ≠ [] := by
  obtain ⟨t, hparse, hfound⟩ := exists_parse
    "CREATE PROCEDURE p(x CHAR) IS BEGIN BEGIN y := x; END; EXECUTE IMMEDIATE 'a' || y; END;"
    (findsExecuted fun t _ sql target value => t.isParameter value && sql.reads.any fun n =>
      t.targetKey n == t.targetKey target && (n :: t.origins n).all fun q =>
        !AllowList.standard.protects t q) (by decide +kernel)
  obtain ⟨routine, body, statement, sql, assignment, target, value, hroutine, hstatement, hsql,
    hassignment, hassign, htest⟩ := exists_of_findsExecuted hfound
  simp only [Bool.and_eq_true, List.any_eq_true, List.all_eq_true, beq_iff_eq,
    Bool.not_eq_true'] at htest
  obtain ⟨hparameter, n, hn, hkey, hopen⟩ := htest
  have hopen' : ∀ q ∈ n :: t.origins n, t.nameKey q = t.nameKey value →
      AllowList.standard.protects t q = false := fun q hq _ => hopen q hq
  exact ⟨t, routine, body, statement, sql, assignment, target, value, n, hparse,
    ⟨hroutine, hstatement, hsql⟩, ⟨hassignment, hassign, hparameter⟩, ⟨hn, hkey, hopen'⟩,
    (executed_of_assigned AllowList.standard hparse hroutine hstatement hsql).2.1 assignment
      hassignment target value hassign hparameter n hn hkey hopen'⟩

/-- **A flow through a field is not met.**  A parameter is assigned to a field, the
field is executed, nothing is asserted anywhere, and nothing is reported. -/
theorem field_not_reported : ∃ t routine body statement sql assignment target value,
    parse "CREATE PROCEDURE p(x CHAR) IS r t; BEGIN r.f := x; EXECUTE IMMEDIATE r.f; END;" = .ok t ∧
      (t.UnnestedRoutine routine body ∧ statement ∈ body.descendants ∧
        statement.executedSql? = some sql) ∧
      (assignment ∈ body.descendants ∧ assignment.assignment? = some (target, value) ∧
        t.isParameter value = true ∧ t.targetKey target = t.targetKey sql) ∧
      (∀ q ∈ t.placesOf (· == .name), AllowList.standard.protects t q = false) ∧
      exposedByExecute t AllowList.standard statement = [] := by
  obtain ⟨t, hparse, hfound⟩ := exists_parse
    "CREATE PROCEDURE p(x CHAR) IS r t; BEGIN r.f := x; EXECUTE IMMEDIATE r.f; END;"
    (findsExecuted fun t statement sql target value => t.isParameter value &&
      t.targetKey target == t.targetKey sql &&
      (t.placesOf (· == .name)).all (fun q => !AllowList.standard.protects t q) &&
      (exposedByExecute t AllowList.standard statement).isEmpty) (by decide +kernel)
  obtain ⟨routine, body, statement, sql, assignment, target, value, hroutine, hstatement, hsql,
    hassignment, hassign, htest⟩ := exists_of_findsExecuted hfound
  simp only [Bool.and_eq_true, List.all_eq_true, beq_iff_eq, Bool.not_eq_true',
    List.isEmpty_iff] at htest
  obtain ⟨⟨⟨hparameter, hkey⟩, hopen⟩, hempty⟩ := htest
  exact ⟨t, routine, body, statement, sql, assignment, target, value, hparse,
    ⟨hroutine, hstatement, hsql⟩, ⟨hassignment, hassign, hparameter, hkey⟩, hopen, hempty⟩

end Search

end PlsqlAudit
