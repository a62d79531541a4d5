import PlsqlAudit.Flow.DynamicSql
import PlsqlAudit.Proofs.SearchAccount

/-!
# Longer allow lists

A longer allow list asserts more names.  It does not simply make a search report
less: a search stops at an exposed parameter, so asserting that parameter lets it
go on to others.  But where a search under the shorter list reports nothing, it
never stopped at a parameter, and under the longer list it takes the very same
steps (`Search.run_eq_of_clean`).  So code that is clean stays clean.
-/

namespace PlsqlAudit

namespace AllowList

variable {a b : AllowList}

/-! ### What a longer list asserts -/

theorem covers_mono (h : a.packages ⊆ b.packages) {name : String} (ha : a.covers name = true) :
    b.covers name = true := by
  obtain ⟨hname, hany⟩ := Bool.and_eq_true_iff.1 ha
  obtain ⟨package, hmem, hoccurs⟩ := List.any_eq_true.1 hany
  exact Bool.and_eq_true_iff.2 ⟨hname, List.any_eq_true.2 ⟨package, h hmem, hoccurs⟩⟩

theorem assertsIn_mono (h : a.packages ⊆ b.packages) {t : Tree} {region : Place} {key : String}
    (ha : a.assertsIn t region key = true) : b.assertsIn t region key = true := by
  obtain ⟨name, hmem, hname⟩ := List.any_eq_true.1 ha
  obtain ⟨hcovers, hkey⟩ := Bool.and_eq_true_iff.1 hname
  exact List.any_eq_true.2 ⟨name, hmem, Bool.and_eq_true_iff.2 ⟨covers_mono h hcovers, hkey⟩⟩

theorem asserts_mono (h : a.packages ⊆ b.packages) {t : Tree} {name : Place}
    (ha : a.asserts t name = true) : b.asserts t name = true := by
  obtain ⟨region, hregion, hasserts⟩ := (Option.any_eq_true _ _).1 ha
  exact (Option.any_eq_true _ _).2 ⟨region, hregion, assertsIn_mono h hasserts⟩

/-- Names are protected by the same aliases under both lists, and more of these
are asserted under the longer one. -/
theorem protects_mono (h : a.packages ⊆ b.packages) {t : Tree} {name : Place}
    (ha : a.protects t name = true) : b.protects t name = true := by
  rw [protects, Bool.or_eq_true] at ha ⊢
  rcases ha with ha | ha
  · exact .inl (asserts_mono h ha)
  · right
    obtain ⟨copy, hmem, hcopy⟩ := List.any_eq_true.1 ha
    refine List.any_eq_true.2 ⟨copy, hmem, ?_⟩
    rw [Bool.or_eq_true] at hcopy ⊢
    rcases hcopy with hbody | hcopy
    · obtain ⟨body, hbody, hasserts⟩ := (Option.any_eq_true _ _).1 hbody
      exact .inl ((Option.any_eq_true _ _).2 ⟨body, hbody, assertsIn_mono h hasserts⟩)
    · exact .inr (asserts_mono h hcopy)

end AllowList

namespace Search

variable {t : Tree} {a b : AllowList}

theorem isExposed_antitone (h : a.packages ⊆ b.packages) {name : Place}
    (hb : isExposed t b name = true) : isExposed t a name = true := by
  obtain ⟨hparameter, hfree⟩ := Bool.and_eq_true_iff.1 hb
  refine Bool.and_eq_true_iff.2 ⟨hparameter, ?_⟩
  cases hprotects : a.protects t name with
  | false => rfl
  | true => simp [AllowList.protects_mono h hprotects] at hfree

/-! ### Two searches side by side -/

/-- What was reached is never forgotten. -/
theorem reached_suffix_step (t : Tree) (list : AllowList) (s : Search) :
    s.reached <:+ (s.step t list).reached := by
  cases hpending : s.pending with
  | nil => simp [step, hpending]
  | cons name rest =>
    rw [step_eq hpending]
    dsimp only
    split
    · exact List.suffix_cons _ _
    · exact List.suffix_rfl

theorem reached_suffix_run (t : Tree) (list : AllowList) (n : Nat) (s : Search) :
    s.reached <:+ (run t list n s).reached := by
  induction n generalizing s with
  | zero => exact List.suffix_rfl
  | succ n ih =>
    rw [run]
    split
    · exact List.suffix_rfl
    · exact (reached_suffix_step t list s).trans (ih _)

/-- A step that reaches nothing under the shorter list is the same step under the
longer one. -/
theorem step_eq_of_clean (h : a.packages ⊆ b.packages) {s : Search}
    (hclean : (s.step t a).reached = []) : s.step t b = s.step t a := by
  cases hpending : s.pending with
  | nil => simp [step, hpending]
  | cons name rest =>
    by_cases hlabel : name.isArgumentLabel = true
    · simp [step, hpending, hlabel]
    · have ha : isExposed t a name ≠ true := by
        intro hexposed
        simp [step, hpending, hlabel, hexposed] at hclean
      have hb : isExposed t b name ≠ true := fun hexposed => ha (isExposed_antitone h hexposed)
      simp [step, hpending, hlabel, ha, hb]

/-- **Side by side.**  A run that reaches nothing under the shorter list is the
same run under the longer one. -/
theorem run_eq_of_clean (h : a.packages ⊆ b.packages) {n : Nat} {s : Search}
    (hclean : (run t a n s).reached = []) : run t b n s = run t a n s := by
  induction n generalizing s with
  | zero => rfl
  | succ n ih =>
    rw [run, run]
    rw [run] at hclean
    split
    case isTrue => rfl
    case isFalse hpending =>
      rw [if_neg hpending] at hclean
      have hstep : (s.step t a).reached = [] :=
        List.suffix_nil.1 (hclean ▸ reached_suffix_run t a n (s.step t a))
      rw [step_eq_of_clean h hstep]
      exact ih hclean

theorem exposed_eq_nil_of_subset (h : a.packages ⊆ b.packages) {seed : Place}
    (hclean : exposed t a seed = []) : exposed t b seed = [] := by
  rw [exposed_eq_reached, List.reverse_eq_nil_iff] at hclean ⊢
  unfold final at hclean ⊢
  rw [run_eq_of_clean h hclean]
  exact hclean

theorem exposedIn_eq_nil_of_subset (h : a.packages ⊆ b.packages) {expr : Place}
    (hclean : exposedIn t a expr = []) : exposedIn t b expr = [] := by
  rw [exposedIn, List.flatMap_eq_nil_iff] at hclean ⊢
  intro seed hseed
  exact exposed_eq_nil_of_subset h (hclean seed hseed)

theorem exposedByExecute_eq_nil_of_subset (h : a.packages ⊆ b.packages) {statement : Place}
    (hclean : exposedByExecute t a statement = []) : exposedByExecute t b statement = [] := by
  unfold exposedByExecute at hclean ⊢
  split at hclean
  · exact exposedIn_eq_nil_of_subset h hclean
  · rfl

theorem exposedByOpen_eq_nil_of_subset (h : a.packages ⊆ b.packages) {statement : Place}
    (hclean : exposedByOpen t a statement = []) : exposedByOpen t b statement = [] := by
  unfold exposedByOpen at hclean ⊢
  split at hclean
  · exact exposedIn_eq_nil_of_subset h hclean
  · rfl

/-- **Clean code stays clean.**  Where the packages of `a` are all in `b`, whatever
is clean under `a` is clean under `b`: the search from any name, any site of
dynamic SQL, and the program as a whole. -/
theorem clean_of_subset (t : Tree) {a b : AllowList} (h : a.packages ⊆ b.packages) :
    (∀ seed, exposed t a seed = [] → exposed t b seed = []) ∧
      (∀ site, exposedByExecute t a site = [] → exposedByExecute t b site = []) ∧
      (∀ site, exposedByOpen t a site = [] → exposedByOpen t b site = []) ∧
      (t.exposures a = [] → t.exposures b = []) := by
  refine ⟨fun _ => exposed_eq_nil_of_subset h, fun _ => exposedByExecute_eq_nil_of_subset h,
    fun _ => exposedByOpen_eq_nil_of_subset h, ?_⟩
  intro hclean
  rw [Tree.exposures, List.flatMap_eq_nil_iff] at hclean ⊢
  intro site hsite
  have hsiteClean := hclean site hsite
  split
  case isTrue hkind =>
    rw [if_pos hkind] at hsiteClean
    exact exposedByExecute_eq_nil_of_subset h hsiteClean
  case isFalse hkind =>
    rw [if_neg hkind] at hsiteClean
    exact exposedByOpen_eq_nil_of_subset h hsiteClean

/-- A program that is clean because its parameter is asserted, and stays so when
the list grows. -/
theorem clean_of_subset_of_asserted : ∃ t,
    parse "CREATE PROCEDURE p(x CHAR) IS BEGIN EXECUTE IMMEDIATE dbms_assert.noop(x); END;" = .ok t ∧
      t.exposures ⟨[]⟩ ≠ [] ∧ t.exposures ⟨["dbms_assert"]⟩ = [] ∧
      t.exposures ⟨["ut_utils", "dbms_assert"]⟩ = [] := by
  obtain ⟨t, hparse, htest⟩ := exists_parse
    "CREATE PROCEDURE p(x CHAR) IS BEGIN EXECUTE IMMEDIATE dbms_assert.noop(x); END;"
    (fun t => !(t.exposures ⟨[]⟩).isEmpty && (t.exposures ⟨["dbms_assert"]⟩).isEmpty)
    (by decide +kernel)
  obtain ⟨hdirty, hclean⟩ := Bool.and_eq_true_iff.1 htest
  have hempty : t.exposures ⟨["dbms_assert"]⟩ = [] := List.isEmpty_iff.1 hclean
  exact ⟨t, hparse, by simpa using hdirty, hempty,
    (clean_of_subset t (by decide)).2.2.2 hempty⟩

end Search

end PlsqlAudit
