import PlsqlAudit.Proofs.SearchAccount

/-!
# A search by recursion

The list of pending names takes the place of a recursion.  In the recursion a name is
followed by recording what is new among its origins, and then by following these from
left to right, each with the map that the one before has left (`Search.Expands`).  The
recursion is given by its rules, which do not say that it ends.

Both come to the same reports in the same order, and leave the same map.  A list of
pending names is worth what the recursion makes of its names, one after the other
(`Search.ExpandsAll`).  A step replaces the first name by the new ones behind it, which
does not change that worth, so a run that comes to its end has found it
(`Search.expandsAll_iff_of_run`); and every run in a tree does.
-/

namespace PlsqlAudit

namespace Search

variable {t : Tree} {list : AllowList} {seen after : Seen} {name : Place}
  {names more reports : List Place}

/-! ### The recursion -/

/-- Those of `names` whose keys are not in the map, of each key the first. -/
def newcomers (t : Tree) (seen : Seen) (names : List Place) : List Place :=
  (names.filter fun p => !seen.has (t.nameKey p)).eraseDupsBy fun p q => t.nameKey p == t.nameKey q

mutual

/-- Following a name with the map `seen` comes to some reports and leaves some map. -/
inductive Expands (t : Tree) (list : AllowList) : Place → Seen → List Place → Seen → Prop
  /-- The label of an argument is passed over. -/
  | label {name : Place} {seen : Seen} (hlabel : name.isArgumentLabel = true) :
    Expands t list name seen [] seen
  /-- A parameter that nothing asserts is reported, and not followed any further. -/
  | parameter {name : Place} {seen : Seen} (hlabel : name.isArgumentLabel = false)
    (hopen : (t.isParameter name && !list.protects t name) = true) :
    Expands t list name seen [name] seen
  /-- Of any other name the new origins are recorded, and then followed. -/
  | origins {name : Place} {seen after : Seen} {reports : List Place}
    (hlabel : name.isArgumentLabel = false)
    (hopen : (t.isParameter name && !list.protects t name) = false)
    (hbehind : ExpandsAll t list (newcomers t seen (t.origins name))
      (seen ++ (newcomers t seen (t.origins name)).map (entry t)) reports after) :
    Expands t list name seen reports after

/-- Following several names, each with the map that the one before has left. -/
inductive ExpandsAll (t : Tree) (list : AllowList) :
    List Place → Seen → List Place → Seen → Prop
  | nil {seen : Seen} : ExpandsAll t list [] seen [] seen
  | cons {name : Place} {names first later : List Place} {seen between after : Seen}
    (hfirst : Expands t list name seen first between)
    (hlater : ExpandsAll t list names between later after) :
    ExpandsAll t list (name :: names) seen (first ++ later) after

end

theorem expandsAll_nil_iff :
    ExpandsAll t list [] seen reports after ↔ reports = [] ∧ after = seen := by
  constructor
  · rintro ⟨⟩
    exact ⟨rfl, rfl⟩
  · rintro ⟨rfl, rfl⟩
    exact .nil

theorem expandsAll_cons_iff :
    ExpandsAll t list (name :: names) seen reports after ↔
      ∃ first between later, Expands t list name seen first between ∧
        ExpandsAll t list names between later after ∧ reports = first ++ later := by
  constructor
  · intro h
    cases h with
    | cons hfirst hlater => exact ⟨_, _, _, hfirst, hlater, rfl⟩
  · rintro ⟨first, between, later, hfirst, hlater, rfl⟩
    exact .cons hfirst hlater

/-- Names may be followed in two goes. -/
theorem expandsAll_append_iff :
    ExpandsAll t list (names ++ more) seen reports after ↔
      ∃ first between later, ExpandsAll t list names seen first between ∧
        ExpandsAll t list more between later after ∧ reports = first ++ later := by
  induction names generalizing seen reports with
  | nil => simp [expandsAll_nil_iff]
  | cons name names ih =>
    simp only [List.cons_append, expandsAll_cons_iff, ih]
    constructor
    · rintro ⟨first, between, -, hfirst, ⟨middle, between', later, hmiddle, hlater, rfl⟩, rfl⟩
      exact ⟨first ++ middle, between', later, ⟨first, between, middle, hfirst, hmiddle, rfl⟩,
        hlater, by rw [List.append_assoc]⟩
    · rintro ⟨-, between', later, ⟨first, between, middle, hfirst, hmiddle, rfl⟩, hlater, rfl⟩
      exact ⟨first, between, middle ++ later, hfirst,
        ⟨middle, between', later, hmiddle, hlater, rfl⟩, by rw [List.append_assoc]⟩

/-! ### One step -/

/-- Behind a name that is new, those count as new that have neither a known key nor its
own. -/
theorem newcomers_cons (hnew : seen.has (t.nameKey name) = false) (names : List Place) :
    newcomers t seen (name :: names) = name :: newcomers t (seen ++ [entry t name]) names := by
  have hboth : ∀ p ∈ names, (decide ((t.nameKey p == t.nameKey name) = false) &&
      !seen.has (t.nameKey p)) = !(seen ++ [entry t name]).has (t.nameKey p) := by
    intro p hp
    rw [entry, Seen.has_append, Seen.has_singleton, Bool.not_or, Bool.and_comm,
      Bool.decide_eq_false]
  rw [newcomers, List.filter_cons_of_pos (by simp [hnew]), List.eraseDupsBy_cons,
    List.filter_filter, List.filter_congr hboth, newcomers]

/-- What a search records are the names that are new. -/
theorem record_eq (t : Tree) (seen : Seen) (names : List Place) :
    record t seen names =
      (newcomers t seen names, seen ++ (newcomers t seen names).map (entry t)) := by
  induction names generalizing seen with
  | nil => simp [record, newcomers]
  | cons name names ih =>
    by_cases hhas : seen.has (t.nameKey name) = true
    · rw [record, if_pos hhas, ih, newcomers, newcomers, List.filter_cons_of_neg (by simp [hhas])]
    · have hnew : seen.has (t.nameKey name) = false := by simpa using hhas
      rw [record, if_neg hhas, Seen.put_of_not_has hnew, ih, newcomers_cons hnew]
      simp [entry]

/-- Following a name is following what it leads to, with the name in front if it is
reported. -/
theorem expands_iff :
    Expands t list name seen reports after ↔
      ∃ behind, ExpandsAll t list (record t seen (leads t list name)).1
          (record t seen (leads t list name)).2 behind after ∧
        reports = if isReported t list name then name :: behind else behind := by
  rw [leads, isReported, isExposed]
  constructor
  · intro h
    cases h with
    | label hlabel => exact ⟨[], by simpa [hlabel, record] using .nil, by simp [hlabel]⟩
    | parameter hlabel hopen =>
      exact ⟨[], by simpa [hopen, record] using .nil, by simp [hlabel, hopen]⟩
    | origins hlabel hopen hbehind =>
      exact ⟨reports, by simpa [hlabel, hopen, record_eq] using hbehind, by simp [hopen]⟩
  · rintro ⟨behind, hbehind, rfl⟩
    by_cases hlabel : name.isArgumentLabel = true
    · obtain ⟨rfl, rfl⟩ := expandsAll_nil_iff.1 (by simpa [hlabel, record] using hbehind)
      simpa [hlabel] using Expands.label hlabel
    · rw [Bool.not_eq_true] at hlabel
      by_cases hopen : (t.isParameter name && !list.protects t name) = true
      · obtain ⟨rfl, rfl⟩ := expandsAll_nil_iff.1 (by simpa [hopen, record] using hbehind)
        simpa [hlabel, hopen] using Expands.parameter hlabel hopen
      · rw [Bool.not_eq_true] at hopen
        simpa [hopen] using
          Expands.origins hlabel hopen (by simpa [hlabel, hopen, record_eq] using hbehind)

/-- A name may be replaced by the new ones behind it, which are then followed first. -/
theorem expandsAll_cons_iff_append :
    ExpandsAll t list (name :: names) seen reports after ↔
      ∃ behind, ExpandsAll t list ((record t seen (leads t list name)).1 ++ names)
          (record t seen (leads t list name)).2 behind after ∧
        reports = if isReported t list name then name :: behind else behind := by
  simp only [expandsAll_cons_iff, expandsAll_append_iff, expands_iff]
  constructor
  · rintro ⟨-, between, later, ⟨first, hfirst, rfl⟩, hlater, rfl⟩
    exact ⟨first ++ later, ⟨first, between, later, hfirst, hlater, rfl⟩, by split <;> rfl⟩
  · rintro ⟨-, ⟨first, between, later, hfirst, hlater, rfl⟩, rfl⟩
    exact ⟨_, between, later, ⟨first, hfirst, rfl⟩, hlater, by split <;> rfl⟩

/-! ### Runs -/

/-- **A run that comes to its end has followed its pending names by recursion**, one after
the other. -/
theorem expandsAll_iff_of_run {n : Nat} {s : Search} (h : (run t list n s).pending = []) :
    ∃ found, (run t list n s).reached.reverse = s.reached.reverse ++ found ∧
      ∀ reports after, ExpandsAll t list s.pending s.seen reports after ↔
        reports = found ∧ after = (run t list n s).seen := by
  induction n generalizing s with
  | zero =>
    rw [run] at h ⊢
    exact ⟨[], by simp, fun reports after => by rw [h, expandsAll_nil_iff]⟩
  | succ n ih =>
    cases hpending : s.pending with
    | nil =>
      rw [run, hpending, List.isEmpty_nil, if_pos rfl]
      exact ⟨[], by simp, fun reports after => expandsAll_nil_iff⟩
    | cons name rest =>
      rw [run, hpending, List.isEmpty_cons, if_neg (by simp)] at h ⊢
      obtain ⟨found, hreached, hexpands⟩ := ih h
      rw [step_eq hpending] at hreached hexpands ⊢
      refine ⟨if isReported t list name then name :: found else found, ?_, ?_⟩
      · rw [hreached]
        split <;> simp
      · intro reports after
        rw [expandsAll_cons_iff_append]
        constructor
        · rintro ⟨behind, hbehind, rfl⟩
          obtain ⟨rfl, rfl⟩ := (hexpands behind after).1 hbehind
          exact ⟨rfl, rfl⟩
        · rintro ⟨rfl, rfl⟩
          exact ⟨found, (hexpands found _).2 ⟨rfl, rfl⟩, rfl⟩

/-- **The list of pending names does what a recursion does.**  For every tree, allow-list
and map, following a name of the tree by recursion comes to the reports of the search from
that name, in the same order, and leaves its map; and it comes to nothing else. -/
theorem expands_iff_follow (t : Tree) (list : AllowList) {start : Place}
    (hstart : start ∈ t.placesOf (· == .name)) (seen : Seen) (reports : List Place)
    (after : Seen) :
    Expands t list start seen reports after ↔ follow t list start seen = (reports, after) := by
  have hends : (run t list (bound t) ⟨[start], seen, []⟩).pending = [] :=
    pending_run_bound (Tree.mem_placesOf.1 hstart).1 seen
  obtain ⟨found, hreached, hexpands⟩ := expandsAll_iff_of_run hends
  have hone : Expands t list start seen reports after ↔
      ExpandsAll t list [start] seen reports after := by
    simp [expandsAll_cons_iff, expandsAll_nil_iff]
  rw [hone, hexpands, follow, hreached, Prod.mk.injEq]
  simp [eq_comm]

/-- Two variables are assigned to each other.  The parameter `w` is recorded first, and yet
reported after `x`, which is met behind the variable before it. -/
theorem expands_iff_follow_of_circle : ∃ t start reports after,
    parse "CREATE PROCEDURE p(x CHAR, w CHAR) IS BEGIN y := a || w; a := y || x; END;" = .ok t ∧
      start ∈ t.placesOf (· == .name) ∧ t.text start = "y" ∧
      Expands t AllowList.standard start [] reports after ∧
      reports.map t.text = ["x", "w"] ∧ after.map (·.1) = ["a", "w", "y", "x"] := by
  obtain ⟨t, hparse, htest⟩ := exists_parse
    "CREATE PROCEDURE p(x CHAR, w CHAR) IS BEGIN y := a || w; a := y || x; END;"
    (fun t => (t.placesOf (· == .name)).head?.any fun start =>
      t.text start == "y" &&
        ((follow t AllowList.standard start []).1.map t.text == ["x", "w"] &&
          (follow t AllowList.standard start []).2.map (·.1) == ["a", "w", "y", "x"]))
    (by decide +kernel)
  obtain ⟨start, hfirst, h⟩ := (Option.any_eq_true _ _).1 htest
  simp only [Bool.and_eq_true, beq_iff_eq] at h
  obtain ⟨htext, hreports, hkeys⟩ := h
  have hstart : start ∈ t.placesOf (· == .name) := List.mem_of_mem_head? hfirst
  exact ⟨t, start, _, _, hparse, hstart, htext,
    (expands_iff_follow t _ hstart [] _ _).2 rfl, hreports, hkeys⟩

end Search

end PlsqlAudit
