import PlsqlAudit.Detection.Tally
import PlsqlAudit.Report.Basic

/-!
# Findings are counted alike everywhere

Findings are counted in two ways.  A summary has a field for every severity and one for the
total, and the threshold of a check is compared with its fields.  A tally is told of one run
after the other, and makes an entry for a severity when it first meets it.

Both count one finding at a time, so what a count comes to is settled by what one more
finding adds to it (`Summary.foldl_add_of_step`).  The entries of a tally are at all times
those severities of a summary whose count is not zero, in ascending order
(`Tally.foldl_countOne_entries`).
-/

namespace PlsqlAudit

namespace Severity

/-- Each severity is listed once. -/
theorem count_all (a : Severity) : all.count a = 1 := by cases a <;> rfl

/-- Every severity is in the list of all of them. -/
theorem mem_all (a : Severity) : a ∈ all := List.count_pos_iff.1 (by simp [count_all])

/-- The severities are listed from the lightest to the heaviest. -/
theorem ascending_all : all.Pairwise fun a b => a.rank < b.rank := by decide

end Severity

/-! ### Summaries -/

namespace Summary

variable (s : Summary) (a b : Severity)

/-- One more finding adds one to the count of its severity, and to no other. -/
theorem count_add : (s.add a).count b = s.count b + if a = b then 1 else 0 := by
  cases a <;> cases b <;> rfl

/-- One more finding raises the total by one, whatever its severity. -/
theorem total_add : (s.add a).total = s.total + 1 := by cases a <;> rfl

/-- A sum of counts grows by the number of times that the severity is listed. -/
theorem foldr_count_add (list : List Severity) :
    list.foldr (fun b sum => (s.add a).count b + sum) 0 =
      list.foldr (fun b sum => s.count b + sum) 0 + list.count a := by
  induction list with
  | nil => rfl
  | cons b list ih =>
    rw [List.foldr_cons, List.foldr_cons, ih, count_add, List.count_cons]
    by_cases hab : a = b
    · simp only [hab, beq_self_eq_true, if_pos]
      omega
    · simp only [hab, beq_eq_false_iff_ne.2 (Ne.symm hab), if_false, Bool.false_eq_true]
      omega

/-- One more finding is at or above a threshold, or adds nothing. -/
theorem atOrAbove_add (threshold : Severity) :
    (s.add a).atOrAbove threshold =
      s.atOrAbove threshold + if decide (threshold ≤ a) = true then 1 else 0 := by
  rw [atOrAbove, atOrAbove, foldr_count_add]
  congr 1
  by_cases ha : threshold ≤ a
  · rw [List.count_filter (by simpa using ha), Severity.count_all, if_pos (by simpa using ha)]
  · rw [if_neg (by simpa using ha), List.count_eq_zero]
    simp [ha]

variable {s a}

/-- What each finding adds to a count, if it passes a test, is found in the end. -/
theorem foldl_add_of_step (measure : Summary → Nat) (test : Severity → Bool)
    (hstep : ∀ s a, measure (s.add a) = measure s + if test a = true then 1 else 0)
    (findings : List Finding) (s : Summary) :
    measure (findings.foldl (fun s f => s.add f.severity) s) =
      measure s + findings.countP fun f => test f.severity := by
  induction findings generalizing s with
  | nil => rfl
  | cons f findings ih =>
    rw [List.foldl_cons, ih, hstep, List.countP_cons]
    omega

/-- A summary counts for each severity the findings that have it. -/
theorem count_ofFindings (findings : List Finding) (a : Severity) :
    (ofFindings findings).count a = findings.countP fun f => f.severity = a := by
  have hzero : ({} : Summary).count a = 0 := by cases a <;> rfl
  rw [ofFindings, foldl_add_of_step (Summary.count · a) (fun b => b = a), hzero, Nat.zero_add]
  intro s b
  simp only [count_add, decide_eq_true_eq]

/-- The total of a summary is the number of findings. -/
theorem total_ofFindings (findings : List Finding) :
    (ofFindings findings).total = findings.length := by
  rw [ofFindings, foldl_add_of_step Summary.total (fun _ => true) total_add]
  simp

/-- The findings at or above a threshold are those whose severity is no less, so the check against
the threshold counts all of them. -/
theorem atOrAbove_ofFindings (findings : List Finding) (threshold : Severity) :
    (ofFindings findings).atOrAbove threshold =
      findings.countP fun f => threshold ≤ f.severity := by
  have hzero : ({} : Summary).atOrAbove threshold = 0 := by cases threshold <;> rfl
  rw [ofFindings, foldl_add_of_step (Summary.atOrAbove · threshold) (fun a => threshold ≤ a),
    hzero, Nat.zero_add]
  intro s a
  exact atOrAbove_add s a threshold

/-- The total is the sum of the counts. -/
theorem total_eq_sum (findings : List Finding) :
    (ofFindings findings).total = (ofFindings findings).critical + (ofFindings findings).high +
      (ofFindings findings).medium + (ofFindings findings).low + (ofFindings findings).info := by
  have hall : (ofFindings findings).atOrAbove .info = findings.length := by
    rw [atOrAbove_ofFindings, List.countP_eq_length]
    intro f _
    exact decide_eq_true (Nat.zero_le _)
  have hsum : ∀ s : Summary, s.atOrAbove .info =
      s.info + (s.low + (s.medium + (s.high + (s.critical + 0)))) := fun _ => rfl
  rw [total_ofFindings, ← hall, hsum]
  omega

end Summary

namespace Report

/-- A threshold is met if some finding is at or above it. -/
theorem meets_ofFindings_iff (findings : List Finding) (filesAnalyzed : Nat)
    (filesSkipped : List String) (threshold : Severity) :
    (ofFindings findings filesAnalyzed filesSkipped).meets threshold = true ↔
      ∃ f ∈ findings, threshold ≤ f.severity := by
  rw [meets, ofFindings, Summary.atOrAbove_ofFindings, decide_eq_true_eq, List.countP_pos_iff]
  simp only [decide_eq_true_eq]

end Report

/-! ### Tallies -/

/-- What is found by one more run: its findings if it succeeded, and else nothing. -/
theorem foundBy_append_singleton (runs : List DetectorRun) (run : DetectorRun) :
    foundBy (runs ++ [run]) = foundBy runs ++ if run.succeeded then run.findings else [] := by
  cases hsucceeded : run.succeeded <;> simp [foundBy, hsucceeded]

namespace Tally

/-- The severities of a list whose count is not zero, with their counts. -/
def entries (count : Severity → Nat) (list : List Severity) : List (Severity × Nat) :=
  (list.map fun a => (a, count a)).filter fun entry => 0 < entry.2

variable {count : Severity → Nat} {a b : Severity} {list : List Severity}

/-- The entries of a list come from its first severity, if its count is not zero, and from the
others. -/
theorem entries_cons (count : Severity → Nat) (a : Severity) (list : List Severity) :
    entries count (a :: list) =
      if 0 < count a then (a, count a) :: entries count list else entries count list := by
  simp [entries, List.filter_cons]

/-- An entry is a severity of the list with its count, which is not zero. -/
theorem mem_entries {n : Nat} :
    (a, n) ∈ entries count list ↔ a ∈ list ∧ 0 < n ∧ n = count a := by
  simp only [entries, List.mem_filter, List.mem_map, Prod.mk.injEq, decide_eq_true_eq]
  constructor
  · rintro ⟨⟨b, hb, rfl, rfl⟩, hpos⟩
    exact ⟨hb, hpos, rfl⟩
  · rintro ⟨ha, hpos, rfl⟩
    exact ⟨⟨a, ha, rfl, rfl⟩, hpos⟩

/-- A severity lighter than all that were met gets its entry in front. -/
theorem countOne_of_lt {counts : List (Severity × Nat)}
    (h : ∀ entry ∈ counts, a.rank < entry.1.rank) : countOne a counts = (a, 1) :: counts := by
  cases counts with
  | nil => rfl
  | cons entry rest =>
    have hlt : a.rank < entry.1.rank := h entry List.mem_cons_self
    have hne : a ≠ entry.1 := fun heq => Nat.lt_irrefl _ (heq ▸ hlt)
    have hle : a ≤ entry.1 := Nat.le_of_lt hlt
    rw [countOne, if_neg hne, if_pos hle]

/-- Counting one more finding in the entries is counting it. -/
theorem countOne_entries {count' : Severity → Nat}
    (hcount : ∀ b, count' b = count b + if a = b then 1 else 0)
    (hlist : list.Pairwise fun a b => a.rank < b.rank) (ha : a ∈ list) :
    countOne a (entries count list) = entries count' list := by
  induction list with
  | nil => simp at ha
  | cons b list ih =>
    obtain ⟨hlt, hlist⟩ := List.pairwise_cons.1 hlist
    rw [entries_cons, entries_cons, hcount b]
    by_cases hab : a = b
    · subst hab
      have hkeep : entries count' list = entries count list := by
        unfold entries
        congr 1
        apply List.map_congr_left
        intro c hc
        have hne : a ≠ c := fun heq => Nat.lt_irrefl _ (heq ▸ hlt c hc)
        rw [hcount c, if_neg hne, Nat.add_zero]
      rw [if_pos rfl, if_pos (Nat.succ_pos _), hkeep]
      by_cases hpos : 0 < count a
      · rw [if_pos hpos, countOne, if_pos rfl]
      · have hzero : count a = 0 := by omega
        rw [if_neg hpos, hzero, countOne_of_lt]
        intro entry hentry
        exact hlt entry.1 (mem_entries.1 hentry).1
    · have hmem : a ∈ list := (List.mem_cons.1 ha).resolve_left hab
      have hnot : ¬ a ≤ b := Nat.not_le.2 (hlt a hmem)
      rw [if_neg hab, Nat.add_zero]
      by_cases hpos : 0 < count b
      · rw [if_pos hpos, if_pos hpos, countOne, if_neg hab, if_neg hnot, ih hlist hmem]
      · rw [if_neg hpos, if_neg hpos, ih hlist hmem]

/-- The entries of a tally and the fields of a summary count the same. -/
theorem foldl_countOne_entries (findings : List Finding) (s : Summary) :
    findings.foldl (fun counts f => countOne f.severity counts) (entries s.count Severity.all) =
      entries (findings.foldl (fun s f => s.add f.severity) s).count Severity.all := by
  induction findings generalizing s with
  | nil => rfl
  | cons f findings ih =>
    rw [List.foldl_cons, List.foldl_cons, countOne_entries (Summary.count_add s f.severity)
      Severity.ascending_all (Severity.mem_all _), ih]

/-- No severity has two entries. -/
theorem nodup_entries (hlist : list.Nodup) : ((entries count list).map Prod.fst).Nodup := by
  apply (List.Sublist.map Prod.fst List.filter_sublist).nodup
  simpa [List.map_map, Function.comp_def] using hlist

/-- What a tally knows of the runs that it was told of. -/
structure Accounts (t : Tally) (told : List DetectorRun) : Prop where
  runs : t.runs = told.length
  succeeded : t.succeeded = told.countP (·.succeeded)
  failed : t.failed = told.countP (!·.succeeded)
  findings : t.findings = (foundBy told).length
  bySeverity : t.bySeverity = entries (Summary.ofFindings (foundBy told)).count Severity.all

/-- An empty tally accounts for no runs. -/
theorem accounts_nil : Accounts {} [] := by
  refine ⟨rfl, rfl, rfl, rfl, ?_⟩
  decide

/-- One more run. -/
theorem Accounts.add {t : Tally} {told : List DetectorRun} (h : t.Accounts told)
    (run : DetectorRun) : (t.add run).Accounts (told ++ [run]) := by
  have hfound := foundBy_append_singleton told run
  cases hsucceeded : run.succeeded with
  | true =>
    rw [hsucceeded, if_pos rfl] at hfound
    refine ⟨?_, ?_, ?_, ?_, ?_⟩
    · simp [Tally.add, hsucceeded, h.runs]
    · simp [Tally.add, hsucceeded, h.succeeded]
    · simp [Tally.add, hsucceeded, h.failed]
    · simp [Tally.add, hsucceeded, h.findings, hfound]
    · rw [hfound, Summary.ofFindings, List.foldl_append]
      simp only [Tally.add, hsucceeded, if_true, h.bySeverity, foldl_countOne_entries,
        Summary.ofFindings]
  | false =>
    rw [hsucceeded, if_neg Bool.false_ne_true, List.append_nil] at hfound
    refine ⟨?_, ?_, ?_, ?_, ?_⟩
    · simp [Tally.add, hsucceeded, h.runs]
    · simp [Tally.add, hsucceeded, h.succeeded]
    · simp [Tally.add, hsucceeded, h.failed]
    · simp [Tally.add, hsucceeded, h.findings, hfound]
    · simp [Tally.add, hsucceeded, h.bySeverity, hfound]

/-- A run that failed adds nothing to the findings of a tally. -/
theorem findings_add_of_failed (t : Tally) {run : DetectorRun} (h : run.succeeded = false) :
    (t.add run).findings = t.findings := by
  simp [Tally.add, h]

/-- A run that failed adds nothing to the entries of a tally. -/
theorem bySeverity_add_of_failed (t : Tally) {run : DetectorRun} (h : run.succeeded = false) :
    (t.add run).bySeverity = t.bySeverity := by
  simp [Tally.add, h]

/-- One run after the other. -/
theorem Accounts.foldl {t : Tally} {told : List DetectorRun} (h : t.Accounts told)
    (runs : List DetectorRun) : (runs.foldl Tally.add t).Accounts (told ++ runs) := by
  induction runs generalizing t told with
  | nil => simpa using h
  | cons run runs ih => simpa using ih (h.add run)

end Tally

/-- **Findings are counted alike everywhere.**  A summary has as many findings of a severity,
and as many at or above a threshold, as its list has, so the threshold of a check is met if
there is one, and its total is the sum of its counts.  A tally of runs counts what the
successful ones have found, as the summary of all that does: an entry for a severity is its
count, and there is none where the count is zero.  A run that failed is counted as such and
adds no finding, not even one that it has. -/
theorem counts_agree (findings : List Finding) (threshold : Severity) (filesAnalyzed : Nat)
    (filesSkipped : List String) (runs : List DetectorRun) :
    let summary := Summary.ofFindings findings
    let tally := runs.foldl Tally.add {}
    let found := Summary.ofFindings (foundBy runs)
    ((∀ severity, summary.count severity = findings.countP (·.severity = severity)) ∧
      summary.atOrAbove threshold = findings.countP (threshold ≤ ·.severity) ∧
      summary.total =
        summary.critical + summary.high + summary.medium + summary.low + summary.info ∧
      ((Report.ofFindings findings filesAnalyzed filesSkipped).meets threshold = true ↔
        ∃ f ∈ findings, threshold ≤ f.severity)) ∧
    (tally.runs = runs.length ∧ tally.runs = tally.succeeded + tally.failed ∧
      tally.succeeded = runs.countP (·.succeeded) ∧ tally.failed = runs.countP (!·.succeeded) ∧
      (∀ run, run.succeeded = false → (tally.add run).findings = tally.findings ∧
        (tally.add run).bySeverity = tally.bySeverity) ∧
      tally.findings = found.total ∧
      (∀ severity count, (severity, count) ∈ tally.bySeverity ↔
        0 < count ∧ count = found.count severity) ∧
      (tally.bySeverity.map Prod.fst).Nodup) := by
  intro summary tally found
  have htally : tally.Accounts runs := by simpa using Tally.accounts_nil.foldl runs
  refine ⟨⟨?_, ?_, ?_, ?_⟩, htally.runs, ?_, htally.succeeded, htally.failed, ?_, ?_, ?_, ?_⟩
  · exact Summary.count_ofFindings findings
  · exact Summary.atOrAbove_ofFindings findings threshold
  · exact Summary.total_eq_sum findings
  · exact Report.meets_ofFindings_iff findings filesAnalyzed filesSkipped threshold
  · rw [htally.runs, htally.succeeded, htally.failed]
    simpa using List.length_eq_countP_add_countP (·.succeeded) (l := runs)
  · intro run hfailed
    exact ⟨Tally.findings_add_of_failed tally hfailed, Tally.bySeverity_add_of_failed tally hfailed⟩
  · rw [htally.findings, Summary.total_ofFindings]
  · intro severity count
    rw [htally.bySeverity, Tally.mem_entries, and_iff_right (Severity.mem_all severity)]
  · rw [htally.bySeverity]
    apply Tally.nodup_entries
    decide

end PlsqlAudit
