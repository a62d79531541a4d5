import Mathlib.Data.List.Nodup
import PlsqlAudit.Detection.Engine

/-!
# The order of what is reported

An engine runs its detectors on the units in whatever order the units come, sorts
what was found, and keeps the first findings.  Nothing of the order of the units is
left in the answer.  Two findings of different units differ in their files; so
findings that tie come from one unit, and a sort that is stable leaves them as the
detectors were registered and as each detector reported them.

To say so, each finding is taken together with where it comes from (`Ranked`).  On
these `Ranked.Precedes` is a strict order, and the findings of the report are those
that come first in it.
-/

namespace PlsqlAudit

/-! ### Sorting -/

/-- Sorting keeps elements that tie in their order. -/
theorem filter_mergeSort {α : Type} {le : α → α → Bool}
    (trans : ∀ a b c, le a b = true → le b c = true → le a c = true)
    (total : ∀ a b, (le a b || le b a) = true) {p : α → Bool} (l : List α)
    (hties : ∀ a ∈ l, ∀ b ∈ l, p a = true → p b = true → le a b = true) :
    (l.mergeSort le).filter p = l.filter p := by
  have hpairwise : (l.filter p).Pairwise fun a b => le a b = true := by
    apply List.Pairwise.imp_of_mem (R := fun _ _ => True)
    · intro a b ha hb _
      obtain ⟨ha, hpa⟩ := List.mem_filter.1 ha
      obtain ⟨hb, hpb⟩ := List.mem_filter.1 hb
      exact hties a ha b hb hpa hpb
    · exact List.pairwise_of_forall fun _ _ => trivial
  have hsublist := (List.sublist_mergeSort trans total hpairwise List.filter_sublist).filter p
  rw [List.filter_filter] at hsublist
  simp only [Bool.and_self] at hsublist
  exact (hsublist.eq_of_length ((List.mergeSort_perm l le).filter p).length_eq.symm).symm

/-! ### The order of findings -/

namespace Path

instance : Std.TransOrd Component :=
  inferInstanceAs (Std.TransCmp (compareLex (compareOn Component.rank) (compareOn Component.label)))

/-- A part of a path is known by its rank and its label. -/
theorem Component.eq_of_rank_of_label {a b : Component} (hrank : a.rank = b.rank)
    (hlabel : a.label = b.label) : a = b := by
  cases a <;> cases b <;> simp_all [rank, label]

instance : Std.LawfulEqOrd Component where
  eq_of_compare {a b} h := by
    have hboth : (compareOn Component.rank a b).then (compareOn Component.label a b) = .eq := h
    rw [Ordering.then_eq_eq] at hboth
    exact Component.eq_of_rank_of_label (Std.LawfulEqCmp.eq_of_compare hboth.1)
      (Std.LawfulEqCmp.eq_of_compare hboth.2)

/-- Two paths are the same when their components are. -/
theorem compare_eq_eq {a b : String} : compare a b = .eq ↔ components a = components b :=
  @Std.LawfulEqCmp.compare_eq_iff_eq (List Component) Ord.compare _ _ _

end Path

namespace Finding

instance : Std.TransCmp Finding.compare :=
  inferInstanceAs (Std.TransCmp (compareLex (compareOn fun f : Finding => Path.components f.file)
    (compareLex (compareOn Finding.offset) (compareOn Finding.detector))))

/-- The findings are about the same place of the same file, by detectors of the same
name. -/
structure Ties (a b : Finding) : Prop where
  file : Path.components a.file = Path.components b.file
  offset : a.offset = b.offset
  detector : a.detector = b.detector

/-- The file of the one comes before that of the other; or they are about the same
file and the one comes first in it; or they are about the same place, and the name of
the detector comes first. -/
def Below (a b : Finding) : Prop :=
  Path.compare a.file b.file = .lt ∨ Path.components a.file = Path.components b.file ∧
    (a.offset < b.offset ∨ a.offset = b.offset ∧ Ord.compare a.detector b.detector = .lt)

variable {a b : Finding}

/-- Two findings compare as equal exactly if they tie in all that is compared. -/
theorem compare_eq_eq : a.compare b = .eq ↔ a.Ties b := by
  have hall : a.compare b = (Path.compare a.file b.file).then
      ((Ord.compare a.offset b.offset).then (Ord.compare a.detector b.detector)) := rfl
  rw [hall, Ordering.then_eq_eq, Ordering.then_eq_eq, Path.compare_eq_eq,
    Std.LawfulEqCmp.compare_eq_iff_eq, Std.LawfulEqCmp.compare_eq_iff_eq]
  exact ⟨fun h => ⟨h.1, h.2.1, h.2.2⟩, fun h => ⟨h.file, h.offset, h.detector⟩⟩

/-- One finding compares as less exactly if it is below the other in the first part that
differs. -/
theorem compare_eq_lt : a.compare b = .lt ↔ a.Below b := by
  have hall : a.compare b = (Path.compare a.file b.file).then
      ((Ord.compare a.offset b.offset).then (Ord.compare a.detector b.detector)) := rfl
  rw [hall, Ordering.then_eq_lt, Ordering.then_eq_lt, Path.compare_eq_eq, Nat.compare_eq_lt,
    Nat.compare_eq_eq]
  rfl

end Finding

/-! ### Where findings come from -/

/-- A finding with the place of its detector among the detectors, in the order in which
they were registered, and with its own place among what that detector reports on the
unit. -/
structure Ranked where
  finding : Finding
  detector : Nat
  position : Nat

namespace Ranked

/-- The detector of the one was registered first, or the detector is the same and
reports the one first. -/
def Earlier (a b : Ranked) : Prop :=
  a.detector < b.detector ∨ a.detector = b.detector ∧ a.position < b.position

/-- The one is reported in front of the other: it comes first by file, place and name of
the detector, or the two tie in all of these and it was found earlier. -/
def Precedes (a b : Ranked) : Prop :=
  a.finding.Below b.finding ∨ a.finding.Ties b.finding ∧ a.Earlier b

/-- Of two findings at most one precedes the other. -/
theorem Precedes.asymm {a b : Ranked} (hab : a.Precedes b) (hba : b.Precedes a) : False := by
  unfold Precedes Earlier at hab hba
  rw [← Finding.compare_eq_lt, ← Finding.compare_eq_eq] at hab hba
  have hswap : b.finding.compare a.finding = (a.finding.compare b.finding).swap :=
    Std.OrientedCmp.eq_swap
  rw [hswap] at hba
  rcases hab with hlt | ⟨heq, hearlier⟩
  · simp [hlt] at hba
  · rw [heq] at hba
    simp only [Ordering.swap_eq, reduceCtorEq, false_or, true_and] at hba
    omega

end Ranked

namespace Detector

/-- The detector with an empty report in place of a failure or a crash. -/
def settled (detector : Detector) : Detector :=
  { detector with
    detect := fun unit =>
      match detector.detect unit with
      | .ok findings => .ok findings
      | .error _ => .ok [] }

/-- A run that fails has found nothing, so no finding is lost with it. -/
theorem findings_run_of_failed {detector : Detector} {unit : SourceUnit}
    (h : (detector.run unit).succeeded = false) : (detector.run unit).findings = [] := by
  unfold run at h ⊢
  cases hdetect : detector.detect unit with
  | error fault => rfl
  | ok findings => cases hlimit : detector.limit <;> simp [hdetect, hlimit, DetectorRun.success] at h

/-- Replacing failures and crashes by empty reports does not change what a run of a detector has
found. -/
theorem findings_run_settled (detector : Detector) (unit : SourceUnit) :
    (detector.settled.run unit).findings = (detector.run unit).findings := by
  unfold run settled
  cases hdetect : detector.detect unit with
  | ok findings => simp [hdetect]
  | error fault =>
    cases hlimit : detector.limit <;> simp [hdetect, DetectorRun.success, DetectorRun.failure]

/-- What a run of a detector finds: what the detector reports, up to its limit. -/
theorem getElem?_findings_run {detector : Detector} {unit : SourceUnit} {position : Nat}
    {f : Finding} :
    (detector.run unit).findings[position]? = some f ↔
      ∃ findings, detector.detect unit = .ok findings ∧ findings[position]? = some f ∧
        ∀ limit ∈ detector.limit, position < limit := by
  unfold run
  cases hdetect : detector.detect unit with
  | error fault => simp [DetectorRun.failure]
  | ok findings =>
    cases hlimit : detector.limit with
    | none => simp [DetectorRun.success]
    | some limit => simp [DetectorRun.success, List.getElem?_take, and_comm]

/-- What a detector finds in a unit, with its ranks. -/
def ranked (detector : Detector) (index : Nat) (unit : SourceUnit) : List Ranked :=
  (detector.run unit).findings.zipIdx.map fun found => ⟨found.1, index, found.2⟩

end Detector

namespace Engine

variable {engine : Engine} {units : List SourceUnit} {unit : SourceUnit} {r : Ranked}

/-- The finding is reported on one of the units: a detector reports it there, at its
place, and within the limit of the detector. -/
def Reports (engine : Engine) (units : List SourceUnit) (r : Ranked) : Prop :=
  ∃ unit ∈ units, ∃ detector, engine.detectors[r.detector]? = some detector ∧
    ∃ findings, detector.detect unit = .ok findings ∧ findings[r.position]? = some r.finding ∧
      ∀ limit ∈ detector.limit, r.position < limit

/-- What the detectors find in a unit, with its ranks. -/
def ranked (engine : Engine) (unit : SourceUnit) : List Ranked :=
  engine.detectors.zipIdx.flatMap fun d => d.1.ranked d.2 unit

/-- The ranked findings of a unit are those that the detectors report on it, each with its
ranks. -/
theorem mem_ranked : r ∈ engine.ranked unit ↔ engine.Reports [unit] r := by
  simp only [ranked, Detector.ranked, List.mem_flatMap, List.mem_map, Prod.exists,
    List.mem_zipIdx_iff_getElem?, Detector.getElem?_findings_run, Reports, List.mem_singleton,
    exists_eq_left]
  constructor
  · rintro ⟨detector, index, hdetector, f, position, hf, rfl⟩
    exact ⟨detector, hdetector, hf⟩
  · rintro ⟨detector, hdetector, hf⟩
    exact ⟨detector, r.detector, hdetector, r.finding, r.position, hf, rfl⟩

/-- The ranked findings of several units are those that the detectors report on any of them. -/
theorem mem_flatMap_ranked : r ∈ units.flatMap engine.ranked ↔ engine.Reports units r := by
  simp only [List.mem_flatMap, mem_ranked, Reports, List.mem_singleton, exists_eq_left]

/-- Without their ranks the findings of a unit are what the detectors have found on it, detector
after detector. -/
theorem map_finding_ranked_unit (engine : Engine) (unit : SourceUnit) :
    (engine.ranked unit).map Ranked.finding =
      (engine.detectors.map (·.run unit)).flatMap DetectorRun.findings := by
  have hdetector (d : Detector × Nat) :
      (d.1.ranked d.2 unit).map Ranked.finding = (d.1.run unit).findings := by
    rw [Detector.ranked, List.map_map]
    exact List.zipIdx_map_fst 0 _
  calc (engine.ranked unit).map Ranked.finding
      = engine.detectors.zipIdx.flatMap fun d => (d.1.run unit).findings := by
        simp only [ranked, List.map_flatMap, hdetector]
    _ = (engine.detectors.zipIdx.map Prod.fst).flatMap fun d => (d.run unit).findings := by
        rw [List.flatMap_map]
    _ = (engine.detectors.map (·.run unit)).flatMap DetectorRun.findings := by
        rw [List.zipIdx_map_fst, List.flatMap_map]

/-- The findings of all runs of an engine are those of the runs that succeed. -/
theorem foundBy_runs (engine : Engine) (units : List SourceUnit) :
    foundBy (engine.runs units) = (engine.runs units).flatMap DetectorRun.findings := by
  have hfailed : ∀ run ∈ engine.runs units, run.succeeded = false → run.findings = [] := by
    intro run hrun hfailed
    obtain ⟨unit, -, hrun⟩ := List.mem_flatMap.1 hrun
    obtain ⟨detector, -, rfl⟩ := List.mem_map.1 hrun
    exact Detector.findings_run_of_failed hfailed
  generalize engine.runs units = runs at hfailed
  induction runs with
  | nil => rfl
  | cons run runs ih =>
    have hrest := ih fun other hother => hfailed other (List.mem_cons_of_mem _ hother)
    unfold foundBy at hrest ⊢
    cases hsucceeded : run.succeeded with
    | true => rw [List.filter_cons_of_pos hsucceeded, List.flatMap_cons, List.flatMap_cons, hrest]
    | false =>
      rw [List.filter_cons_of_neg (by simp [hsucceeded]), List.flatMap_cons, hrest,
        hfailed run List.mem_cons_self hsucceeded, List.nil_append]

/-- Without the ranks this is what the runs of the engine find. -/
theorem map_finding_ranked (engine : Engine) (units : List SourceUnit) :
    (units.flatMap engine.ranked).map Ranked.finding = foundBy (engine.runs units) := by
  rw [foundBy_runs, runs, List.map_flatMap, List.flatMap_assoc]
  simp only [map_finding_ranked_unit]

/-! ### Ties -/

/-- The numbers that are given to the elements of a list ascend. -/
theorem pairwise_snd_zipIdx {α : Type} (l : List α) (n : Nat) :
    (l.zipIdx n).Pairwise fun a b => a.2 < b.2 := by
  rw [← List.pairwise_map (f := Prod.snd) (R := (· < ·)), List.zipIdx_map_snd]
  exact List.pairwise_lt_range'

/-- What is found in a unit is ranked in the order in which it is found. -/
theorem pairwise_earlier_ranked (engine : Engine) (unit : SourceUnit) :
    (engine.ranked unit).Pairwise Ranked.Earlier := by
  rw [ranked, List.pairwise_flatMap]
  constructor
  · rintro ⟨detector, index⟩ -
    rw [Detector.ranked, List.pairwise_map]
    exact (pairwise_snd_zipIdx _ 0).imp fun hlt => .inr ⟨rfl, hlt⟩
  · apply (pairwise_snd_zipIdx engine.detectors 0).imp
    intro d e hlt a ha b hb
    obtain ⟨_, -, rfl⟩ := List.mem_map.1 ha
    obtain ⟨_, -, rfl⟩ := List.mem_map.1 hb
    exact .inl hlt

/-- The units are different files, and what a detector reports on a unit is about its
file. -/
structure Faithful (engine : Engine) (units : List SourceUnit) : Prop where
  distinct : units.Pairwise fun u v => Path.components u.path ≠ Path.components v.path
  about : ∀ detector ∈ engine.detectors, ∀ unit ∈ units, ∀ findings,
    detector.detect unit = .ok findings →
      ∀ f ∈ findings, Path.components f.file = Path.components unit.path

namespace Faithful

variable (h : Faithful engine units)

include h

/-- Being faithful does not depend on the order of the units. -/
theorem of_perm {others : List SourceUnit} (hperm : units.Perm others) : Faithful engine others where
  distinct := (hperm.pairwise_iff fun hne => hne.symm).1 h.distinct
  about := fun detector hdetector unit hunit =>
    h.about detector hdetector unit (hperm.mem_iff.2 hunit)

/-- The file of a finding on a unit is the file of the unit, compared part by part. -/
theorem components_file (hunit : unit ∈ units) (hr : r ∈ engine.ranked unit) :
    Path.components r.finding.file = Path.components unit.path := by
  obtain ⟨_, hone, detector, hdetector, findings, hdetect, hfinding, -⟩ := mem_ranked.1 hr
  obtain rfl := List.mem_singleton.1 hone
  exact h.about detector (List.mem_of_getElem? hdetector) _ hunit findings hdetect _
    (List.mem_of_getElem? hfinding)

/-- Findings that tie come from one unit, so they stand as they were found. -/
theorem pairwise_ties : (units.flatMap engine.ranked).Pairwise fun a b =>
    a.finding.Ties b.finding → a.Earlier b := by
  rw [List.pairwise_flatMap]
  constructor
  · intro unit _
    apply (pairwise_earlier_ranked engine unit).imp
    intro a b hearlier _
    exact hearlier
  · apply h.distinct.imp_of_mem
    intro u v hu hv hne a ha b hb hties
    refine absurd ?_ hne
    rw [← h.components_file hu ha, ← h.components_file hv hb, hties.file]

end Faithful

/-! ### The report -/

/-- What the detectors find in the units, in the order of the report. -/
def ordered (engine : Engine) (units : List SourceUnit) : List Ranked :=
  (units.flatMap engine.ranked).mergeSort fun a b => (a.finding.compare b.finding).isLE

/-- Sorting neither loses nor adds a finding. -/
theorem ordered_perm (engine : Engine) (units : List SourceUnit) :
    (engine.ordered units).Perm (units.flatMap engine.ranked) := List.mergeSort_perm _ _

/-- The report is what comes first in the sorted findings, up to the limit of the engine. -/
theorem run_eq (engine : Engine) (units : List SourceUnit) :
    engine.run units = ((engine.ordered units).take engine.limit).map Ranked.finding := by
  have hsort : (engine.ordered units).map Ranked.finding =
      arrange ((units.flatMap engine.ranked).map Ranked.finding) :=
    List.map_mergeSort fun _ _ _ _ => rfl
  rw [List.map_take, hsort, map_finding_ranked]
  rfl

/-- The sorted findings of faithful units precede one another strictly, so that no two of them can
change places. -/
theorem pairwise_precedes (h : Faithful engine units) :
    (engine.ordered units).Pairwise Ranked.Precedes := by
  have htrans : ∀ a b c : Ranked, (a.finding.compare b.finding).isLE = true →
      (b.finding.compare c.finding).isLE = true → (a.finding.compare c.finding).isLE = true :=
    fun _ _ _ => Std.TransCmp.isLE_trans
  have htotal : ∀ a b : Ranked,
      ((a.finding.compare b.finding).isLE || (b.finding.compare a.finding).isLE) = true := by
    intro a b
    have hswap : b.finding.compare a.finding = (a.finding.compare b.finding).swap :=
      Std.OrientedCmp.eq_swap
    rw [hswap]
    cases a.finding.compare b.finding <;> rfl
  rw [List.pairwise_iff_forall_sublist]
  intro a b hsublist
  have hle : (a.finding.compare b.finding).isLE = true :=
    List.pairwise_iff_forall_sublist.1 (List.pairwise_mergeSort htrans htotal _) hsublist
  cases hcompare : a.finding.compare b.finding with
  | lt => exact .inl (Finding.compare_eq_lt.1 hcompare)
  | gt => simp [hcompare] at hle
  | eq =>
    have hself : a.finding.compare a.finding = .eq := Std.ReflCmp.compare_self
    have hfound := hsublist.filter fun r => a.finding.compare r.finding == .eq
    rw [ordered, filter_mergeSort htrans htotal] at hfound
    · simp only [List.filter_cons, hself, hcompare, beq_self_eq_true, if_true, List.filter_nil]
        at hfound
      have hties := Finding.compare_eq_eq.1 hcompare
      exact .inr ⟨hties, List.pairwise_iff_forall_sublist.1 h.pairwise_ties
        (hfound.trans List.filter_sublist) hties⟩
    · intro b _ c _ hb hc
      rw [beq_iff_eq] at hb hc
      rw [Std.TransCmp.congr_left (Std.OrientedCmp.eq_symm hb)]
      simp [hc]

/-- The order of the units makes no difference. -/
theorem ordered_of_perm (h : Faithful engine units) {others : List SourceUnit}
    (hperm : units.Perm others) : engine.ordered others = engine.ordered units := by
  have hfound : (engine.ordered others).Perm (engine.ordered units) :=
    (engine.ordered_perm others).trans
      ((hperm.symm.flatMap_right _).trans (engine.ordered_perm units).symm)
  refine hfound.eq_of_pairwise ?_ (pairwise_precedes (h.of_perm hperm)) (pairwise_precedes h)
  intro a b _ _ hab hba
  exact (hab.asymm hba).elim

/-- The engine with an empty report in place of every failure and every crash. -/
def settled (engine : Engine) : Engine :=
  { engine with detectors := engine.detectors.map Detector.settled }

/-- Replacing all failures and crashes by empty reports does not change the findings of the
engine. -/
theorem run_settled (engine : Engine) (units : List SourceUnit) :
    engine.settled.run units = engine.run units := by
  have hfound : foundBy (engine.settled.runs units) = foundBy (engine.runs units) := by
    rw [foundBy_runs, foundBy_runs]
    simp only [runs, settled, List.flatMap_assoc, List.flatMap_map, Detector.findings_run_settled]
  rw [run, run, hfound]
  rfl

/-- **The report does not depend on how the runs come in.**  Let the units be different
files, and let every detector, on every unit, report findings on that file, fail or
crash.  Then the units may come in any order, a failure or a crash counts as an empty
report, and the findings that are kept are the first in the order of the report, of all
that the detectors report within their own limits: no finding that is dropped comes
before one that is kept. -/
theorem run_independent (h : Faithful engine units) :
    (∀ others, units.Perm others → engine.run others = engine.run units) ∧
      engine.run units = engine.settled.run units ∧
      ∃ kept dropped : List Ranked, engine.run units = kept.map Ranked.finding ∧
        (∀ r, r ∈ kept ++ dropped ↔ engine.Reports units r) ∧
        (kept ++ dropped).Pairwise Ranked.Precedes ∧
        kept.length ≤ engine.limit ∧ (dropped ≠ [] → kept.length = engine.limit) := by
  refine ⟨?_, (engine.run_settled units).symm, (engine.ordered units).take engine.limit,
    (engine.ordered units).drop engine.limit, engine.run_eq units, ?_, ?_, ?_, ?_⟩
  · intro others hperm
    rw [run_eq, run_eq, ordered_of_perm h hperm]
  · intro r
    rw [List.take_append_drop, (engine.ordered_perm units).mem_iff, mem_flatMap_ranked]
  · rw [List.take_append_drop]
    exact pairwise_precedes h
  · exact List.length_take_le _ _
  · intro hdropped
    rw [ne_eq, List.drop_eq_nil_iff] at hdropped
    exact List.length_take_of_le (by omega)

/-- Two files, a detector that reports two findings on each and may keep one, and
another of the same name that crashes.  One finding of each file is within the limit of its
detector; the engine keeps that of the file whose path comes first, and drops the other. -/
theorem run_independent_of_crash : ∃ (engine : Engine) (first second : SourceUnit),
    engine.detectors.map Detector.limit = [some 1, none] ∧
      (∀ detector ∈ engine.detectors, detector.name = "d") ∧
      (∀ detector ∈ engine.detectors.tail, detector.detect first = .error (.crash "boom")) ∧
      first.path = "a/b.sql" ∧ second.path = "a-b.sql" ∧ Faithful engine [first, second] ∧
      engine.run [second, first] = engine.run [first, second] ∧
      engine.run [first, second] = engine.settled.run [first, second] ∧
      ∃ kept dropped : Ranked, engine.run [first, second] = [kept.finding] ∧
        kept.finding = { detector := "d", file := "a/b.sql", offset := 7 } ∧
        dropped.finding = { detector := "d", file := "a-b.sql", offset := 7 } ∧
        (∀ r, r ∈ [kept, dropped] ↔ engine.Reports [first, second] r) ∧
        kept.Precedes dropped := by
  let reporting : Detector :=
    { name := "d"
      description := ""
      limit := some 1
      detect := fun unit =>
        .ok [{ detector := "d", file := unit.path, offset := 7 },
          { detector := "d", file := unit.path, offset := 3 }] }
  let crashing : Detector :=
    { name := "d", description := "", detect := fun _ => .error (.crash "boom") }
  have h : Faithful { detectors := [reporting, crashing], limit := 1 }
      [⟨"a/b.sql", default⟩, ⟨"a-b.sql", default⟩] := by
    constructor
    · rw [List.pairwise_pair]
      decide
    · intro detector hdetector unit _ findings hdetect f hf
      rcases List.mem_pair.1 hdetector with rfl | rfl
      · obtain rfl := Except.ok.inj hdetect
        rcases List.mem_pair.1 hf with rfl | rfl <;> rfl
      · cases hdetect
  obtain ⟨horder, hsettled, kept, dropped, hrun, hreports, hpairwise, hlimit, hfull⟩ :=
    run_independent h
  let near : Ranked := ⟨{ detector := "d", file := "a/b.sql", offset := 7 }, 0, 0⟩
  let far : Ranked := ⟨{ detector := "d", file := "a-b.sql", offset := 7 }, 0, 0⟩
  have hprecedes : near.Precedes far := .inl (.inl (by decide +kernel))
  have hboth : ∀ r, r ∈ [near, far] ↔ Reports { detectors := [reporting, crashing], limit := 1 }
      [⟨"a/b.sql", default⟩, ⟨"a-b.sql", default⟩] r := by
    rintro ⟨finding, detector, position⟩
    simp only [Reports, List.mem_cons, List.not_mem_nil, or_false, near, far, Ranked.mk.injEq]
    constructor
    · rintro (⟨rfl, rfl, rfl⟩ | ⟨rfl, rfl, rfl⟩)
      · exact ⟨_, .inl rfl, reporting, rfl, _, rfl, rfl, by simp [reporting]⟩
      · exact ⟨_, .inr rfl, reporting, rfl, _, rfl, rfl, by simp [reporting]⟩
    · rintro ⟨unit, hunit, found, hfound, findings, hdetect, hfinding, hwithin⟩
      match detector, hfound with
      | 0, hfound =>
        obtain rfl := Option.some.inj hfound
        obtain rfl := Except.ok.inj hdetect
        obtain rfl : position = 0 := Nat.lt_one_iff.1 (hwithin 1 rfl)
        obtain rfl := Option.some.inj hfinding
        rcases hunit with rfl | rfl
        · exact .inl ⟨rfl, rfl, rfl⟩
        · exact .inr ⟨rfl, rfl, rfl⟩
      | 1, hfound =>
        obtain rfl := Option.some.inj hfound
        cases hdetect
  have hall : kept ++ dropped = [near, far] := by
    have hsorted : [near, far].Pairwise Ranked.Precedes := List.pairwise_pair.2 hprecedes
    have hnodup : ∀ {list : List Ranked}, list.Pairwise Ranked.Precedes → list.Nodup :=
      fun hlist => hlist.imp fun hab heq => (heq ▸ hab).asymm (heq ▸ hab)
    refine ((List.perm_ext_iff_of_nodup (hnodup hpairwise) (hnodup hsorted)).2 fun r => ?_)
      |>.eq_of_pairwise (fun a b _ _ hab hba => (hab.asymm hba).elim) hpairwise hsorted
    rw [hreports, hboth]
  obtain ⟨rfl, rfl⟩ : kept = [near] ∧ dropped = [far] := by
    apply List.append_inj hall
    have hdropped : dropped ≠ [] := by
      rintro rfl
      rw [List.append_nil] at hall
      simp [hall] at hlimit
    exact hfull hdropped
  exact ⟨_, _, _, rfl, by simp [reporting, crashing], by simp [crashing], rfl, rfl, h,
    horder _ (List.Perm.swap _ _ _), hsettled, near, far, hrun, rfl, rfl, hboth, hprecedes⟩

end Engine

end PlsqlAudit
