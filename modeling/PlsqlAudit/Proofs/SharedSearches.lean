import PlsqlAudit.Proofs.SearchAccount

/-!
# Searches that share a map

Several searches may be run one after the other on one map of keys, each on what the
one before has left.  Whatever map they begin with, the map only grows, by names under
their own keys, and what a search reports, apart from its start, it has recorded
itself.  So no key is reported by two of the searches, unless one of them starts there.
A start is not recorded on its own account; a search that is run again from the same
start therefore finds nothing but that start.

All this is what one search does (`Search.Explored`), carried along the sequence by
induction.
-/

namespace PlsqlAudit

namespace Seen

variable {seen more : Seen} {key : String} {p : Place}

theorem has_eq_false : seen.has key = false ↔ seen.get? key = none := by
  simp [has]

theorem get?_append : (seen ++ more).get? key = (seen.get? key).or (more.get? key) :=
  List.lookup_append

end Seen

namespace Search

variable {t : Tree} {list : AllowList} {start : Place} {before : Seen}

/-- Names with different keys, put into a map together, are found under their own keys. -/
theorem get?_map_entry {names : List Place} (hdistinct : (names.map t.nameKey).Nodup) {p : Place}
    (hp : p ∈ names) : Seen.get? (names.map (entry t)) (t.nameKey p) = some p := by
  induction names with
  | nil => simp at hp
  | cons name names ih =>
    rw [List.map_cons, List.nodup_cons] at hdistinct
    rw [List.map_cons, entry, Seen.get?, List.lookup_cons]
    rcases List.mem_cons.1 hp with rfl | hp
    · simp
    · have hne : (t.nameKey p == t.nameKey name) = false := by
        rw [beq_eq_false_iff_ne]
        intro hkey
        exact hdistinct.1 (hkey ▸ List.mem_map_of_mem hp)
      rw [hne]
      exact ih hdistinct.2 hp

/-- When all keys are known, nothing is recorded and the map stays as it is. -/
theorem record_of_has {names : List Place} (h : ∀ p ∈ names, before.has (t.nameKey p) = true) :
    record t before names = ([], before) := by
  induction names with
  | nil => rfl
  | cons name names ih =>
    rw [record, if_pos (h name List.mem_cons_self)]
    exact ih fun p hp => h p (List.mem_cons_of_mem _ hp)

/-! ### One search -/

/-- What a search on a given map does: the names `added` join the map, and of the start
and these those are reported that are open parameters. -/
structure Round (t : Tree) (list : AllowList) (start : Place) (before : Seen)
    (added : List Place) : Prop where
  seen_eq : (follow t list start before).2 = before ++ added.map (entry t)
  fresh : ∀ p ∈ added, before.get? (t.nameKey p) = none
  distinct : (added.map t.nameKey).Nodup
  names : added ⊆ t.placesOf (· == .name)
  reports : ((start :: added).filter (isReported t list)).Perm (follow t list start before).1
  closed : ∀ p ∈ leads t list start, (follow t list start before).2.has (t.nameKey p) = true

theorem exists_round (hstart : start ∈ t.places) (list : AllowList) (before : Seen) :
    ∃ added, Round t list start before added := by
  obtain ⟨added, h⟩ := (Explored.init t list start before).run hstart (bound t)
  rw [List.nil_append, List.nil_append] at h
  have hpending : (run t list (bound t) ⟨[start], before, []⟩).pending = [] :=
    pending_run_bound hstart before
  have hperm := h.perm
  rw [hpending, List.append_nil] at hperm
  refine ⟨added, h.seen_eq, ?_, h.distinct, h.names, ?_, ?_⟩
  · intro p hp
    exact Seen.has_eq_false.1 (h.fresh p hp)
  · rw [follow, h.reached]
    exact hperm.filter _
  · have hvisited : start ∈ visits t list (bound t) ⟨[start], before, []⟩ :=
      hperm.mem_iff.1 List.mem_cons_self
    exact h.closed start hvisited

namespace Round

variable {added : List Place} (h : Round t list start before added)

include h

/-- What is in the map stays there, under the same key, when one more search is run on the map. -/
theorem get?_of_before {key : String} {p : Place} (hp : before.get? key = some p) :
    (follow t list start before).2.get? key = some p := by
  rw [h.seen_eq, Seen.get?_append, hp, Option.some_or]

/-- What a search adds to the map are names that it has met, each under its own key. -/
theorem mem_added {key : String} {p : Place} (hbefore : before.get? key = none)
    (hp : (follow t list start before).2.get? key = some p) : p ∈ added ∧ t.nameKey p = key := by
  rw [h.seen_eq, Seen.get?_append, hbefore, Option.none_or] at hp
  obtain ⟨q, hq, hentry⟩ := List.mem_map.1 (Seen.mem_of_get? hp)
  obtain ⟨hkey, rfl⟩ := Prod.mk.inj hentry
  exact ⟨hq, hkey⟩

theorem get?_of_mem_added {p : Place} (hp : p ∈ added) :
    (follow t list start before).2.get? (t.nameKey p) = some p := by
  rw [h.seen_eq, Seen.get?_append, h.fresh p hp, Option.none_or]
  exact get?_map_entry h.distinct hp

/-- What is reported by a search, apart from its start, was added to the map by this search. -/
theorem mem_added_of_reported {p : Place} (hp : p ∈ (follow t list start before).1)
    (hne : p ≠ start) : p ∈ added := by
  have hmem := List.mem_of_mem_filter (h.reports.mem_iff.2 hp)
  exact (List.mem_cons.1 hmem).resolve_left hne

/-- Apart from the start no key is reported twice by one search. -/
theorem nodup_reported : (((follow t list start before).1.filter fun p =>
    p.index != start.index).map t.nameKey).Nodup := by
  have hperm := ((h.reports.symm.filter fun p => p.index != start.index).map t.nameKey).nodup_iff
  rw [hperm]
  have hstart : (start :: added).filter (fun p => p.index != start.index) =
      added.filter fun p => p.index != start.index := by simp
  rw [List.filter_filter, List.filter_congr (fun _ _ => Bool.and_comm _ _), ← List.filter_filter,
    hstart]
  exact h.distinct.sublist ((List.filter_sublist.trans List.filter_sublist).map _)

/-- The same search once more comes to nothing but the start. -/
theorem follow_again : follow t list start (follow t list start before).2 =
    (if isReported t list start then [start] else [], (follow t list start before).2) := by
  have hstep := @step_eq t list ⟨[start], (follow t list start before).2, []⟩ start [] rfl
  rw [record_of_has h.closed] at hstep
  have hdone (n : Nat) (s : Search) (hs : s.pending = []) : run t list n s = s := by
    cases n <;> simp [run, hs]
  have hrun : run t list (bound t) ⟨[start], (follow t list start before).2, []⟩ =
      ⟨[], (follow t list start before).2, if isReported t list start then [start] else []⟩ := by
    rw [bound, run, if_neg (by simp), hstep, hdone _ _ rfl]
    rfl
  rw [follow, hrun]
  split <;> rfl

end Round

/-! ### One search after the other -/

/-- One of several searches: its start, the map that it was given, what it reported, and
the map that it left. -/
structure Stage where
  start : Place
  before : Seen
  reported : List Place
  after : Seen

/-- Searches from several names, one after the other, that share a map. -/
def stages (t : Tree) (list : AllowList) : List Place → Seen → List Stage
  | [], _ => []
  | start :: starts, seen =>
    ⟨start, seen, (follow t list start seen).1, (follow t list start seen).2⟩ ::
      stages t list starts (follow t list start seen).2

namespace Stage

/-- The keys of what was reported, apart from the start. -/
def found (t : Tree) (stage : Stage) : List String :=
  (stage.reported.filter fun p => p.index != stage.start.index).map t.nameKey

/-- What holds of each search of a sequence. -/
structure Sound (t : Tree) (list : AllowList) (stage : Stage) : Prop where
  /-- Nothing is removed from the map, or replaced. -/
  kept : ∀ key p, stage.before.get? key = some p → stage.after.get? key = some p
  /-- What is added are names under their own keys. -/
  added : ∀ key p, stage.before.get? key = none → stage.after.get? key = some p →
    p ∈ t.placesOf (· == .name) ∧ t.nameKey p = key
  /-- What is reported, apart from the start, was added. -/
  reported : ∀ p ∈ stage.reported, p ≠ stage.start →
    stage.before.get? (t.nameKey p) = none ∧ stage.after.get? (t.nameKey p) = some p
  /-- Once more from the same start, the map stays as it is, and the start alone is
  reported, if it is an open parameter and labels no argument. -/
  again : follow t list stage.start stage.after =
    (if !stage.start.isArgumentLabel &&
        (t.isParameter stage.start && !list.protects t stage.start) then [stage.start] else [],
      stage.after)

end Stage

section

variable {starts : List Place} (hstarts : starts ⊆ t.placesOf (· == .name))

include hstarts

theorem sound_of_mem_stages (seen : Seen) :
    ∀ stage ∈ stages t list starts seen, stage.Sound t list := by
  induction starts generalizing seen with
  | nil => simp [stages]
  | cons start starts ih =>
    obtain ⟨hstart, hstarts⟩ := List.cons_subset.1 hstarts
    obtain ⟨added, h⟩ := exists_round (Tree.mem_placesOf.1 hstart).1 list seen
    rw [stages, List.forall_mem_cons]
    refine ⟨⟨fun _ _ => h.get?_of_before, ?_, ?_, h.follow_again⟩, ih hstarts _⟩
    · intro key p hbefore hp
      obtain ⟨hmem, hkey⟩ := h.mem_added hbefore hp
      exact ⟨h.names hmem, hkey⟩
    · intro p hp hne
      have hmem := h.mem_added_of_reported hp hne
      exact ⟨h.fresh p hmem, h.get?_of_mem_added hmem⟩

/-- What is in the map at first stays there to the end. -/
theorem get?_of_mem_stages {seen : Seen} {key : String} {p : Place} (hp : seen.get? key = some p) :
    ∀ stage ∈ stages t list starts seen,
      stage.before.get? key = some p ∧ stage.after.get? key = some p := by
  induction starts generalizing seen with
  | nil => simp [stages]
  | cons start starts ih =>
    obtain ⟨hstart, hstarts⟩ := List.cons_subset.1 hstarts
    obtain ⟨added, h⟩ := exists_round (Tree.mem_placesOf.1 hstart).1 list seen
    rw [stages, List.forall_mem_cons]
    exact ⟨⟨hp, h.get?_of_before hp⟩, ih hstarts (h.get?_of_before hp)⟩

/-- No search but the one that a key starts finds a key that is in the map. -/
theorem get?_of_mem_found {stage : Stage} {key : String} (seen : Seen)
    (hstage : stage ∈ stages t list starts seen) (hkey : key ∈ stage.found t) :
    stage.before.get? key = none := by
  obtain ⟨p, hp, rfl⟩ := List.mem_map.1 hkey
  obtain ⟨hreported, hindex⟩ := List.mem_filter.1 hp
  refine ((sound_of_mem_stages hstarts seen stage hstage).reported p hreported ?_).1
  rintro rfl
  simp at hindex

/-- **Apart from starts no key is reported twice**, in whichever of the searches. -/
theorem nodup_found (seen : Seen) :
    ((stages t list starts seen).flatMap (Stage.found t)).Nodup := by
  induction starts generalizing seen with
  | nil => simp [stages]
  | cons start starts ih =>
    obtain ⟨hstart, hrest⟩ := List.cons_subset.1 hstarts
    obtain ⟨added, h⟩ := exists_round (Tree.mem_placesOf.1 hstart).1 list seen
    rw [stages, List.flatMap_cons, List.nodup_append]
    refine ⟨h.nodup_reported, ih hrest _, ?_⟩
    rintro key hfirst _ hlater rfl
    obtain ⟨p, hp, rfl⟩ := List.mem_map.1 hfirst
    obtain ⟨hreported, hindex⟩ := List.mem_filter.1 hp
    have hmem : p ∈ added := by
      apply h.mem_added_of_reported hreported
      rintro rfl
      simp at hindex
    obtain ⟨stage, hstage, hfound⟩ := List.mem_flatMap.1 hlater
    have hknown := (get?_of_mem_stages hrest (h.get?_of_mem_added hmem) stage hstage).1
    simp [get?_of_mem_found hrest _ hstage hfound] at hknown

end

/-- **Searches that share a map.**  Let several searches be run one after the other on one
map, whatever it holds at first.  Then each only adds to the map, and adds names under
their own keys; what it reports, apart from its start, it has added; run again from the
same start it adds nothing, and reports nothing but the start.  Over the whole sequence
what was in the map at first is still there, and no key is reported twice, except by a
search that starts at it. -/
theorem stages_sound (t : Tree) (list : AllowList) {starts : List Place}
    (hstarts : starts ⊆ t.placesOf (· == .name)) (seen : Seen) :
    (∀ stage ∈ stages t list starts seen, stage.Sound t list) ∧
      (∀ stage ∈ stages t list starts seen, ∀ key p, seen.get? key = some p →
        stage.after.get? key = some p) ∧
      ((stages t list starts seen).flatMap (Stage.found t)).Nodup := by
  refine ⟨sound_of_mem_stages hstarts seen, ?_, nodup_found hstarts seen⟩
  intro stage hstage key p hp
  exact (get?_of_mem_stages hstarts hp stage hstage).2

/-- Three searches in a routine with a circle of assignments: the first comes to the
parameter and the second does not any more, while the third starts there. -/
theorem stages_sound_of_cycle : ∃ t starts,
    parse "CREATE PROCEDURE p(x CHAR) IS BEGIN y := z; z := y || x; END;" = .ok t ∧
      starts ⊆ t.placesOf (· == .name) ∧ starts.map t.text = ["y", "z", "x"] ∧
      (stages t AllowList.standard starts []).map (·.reported.map t.text) = [["x"], [], ["x"]] ∧
      ((stages t AllowList.standard starts []).flatMap (Stage.found t)).Nodup := by
  obtain ⟨t, hparse, htest⟩ := exists_parse
    "CREATE PROCEDURE p(x CHAR) IS BEGIN y := z; z := y || x; END;"
    (fun t =>
      let starts := (t.placesOf (· == .name)).eraseIdx 1 |>.eraseIdx 2
      starts.map t.text == ["y", "z", "x"] &&
        (stages t AllowList.standard starts []).map (·.reported.map t.text) == [["x"], [], ["x"]])
    (by decide +kernel)
  obtain ⟨htexts, hreported⟩ := Bool.and_eq_true_iff.1 htest
  have hstarts : ((t.placesOf (· == .name)).eraseIdx 1).eraseIdx 2 ⊆ t.placesOf (· == .name) :=
    ((List.eraseIdx_sublist _ _).trans (List.eraseIdx_sublist _ _)).subset
  exact ⟨t, _, hparse, hstarts, by simpa using htexts, by simpa using hreported,
    (stages_sound t AllowList.standard hstarts []).2.2⟩

/-- **A label that is a start is not reported.**  A search that starts at the label of an
argument reports nothing, however often it is run, although the label has the name of a
parameter that nothing asserts. -/
theorem label_not_reported_again : ∃ t start,
    parse "CREATE PROCEDURE p(x CHAR) IS BEGIN f(x => 1); END;" = .ok t ∧
      start ∈ t.placesOf (· == .name) ∧
      ¬ ∀ stage ∈ stages t AllowList.standard [start] [],
        follow t AllowList.standard stage.start stage.after =
          (if t.isParameter stage.start && !AllowList.standard.protects t stage.start then
            [stage.start] else [], stage.after) := by
  obtain ⟨t, hparse, htest⟩ := exists_parse
    "CREATE PROCEDURE p(x CHAR) IS BEGIN f(x => 1); END;"
    (fun t => (t.placesOf (· == .name)).any fun start =>
      t.isParameter start && !AllowList.standard.protects t start && start.isArgumentLabel)
    (by decide +kernel)
  obtain ⟨start, hstart, h⟩ := List.any_eq_true.1 htest
  obtain ⟨hexposed, hlabel⟩ := Bool.and_eq_true_iff.1 h
  refine ⟨t, start, hparse, hstart, ?_⟩
  intro hreported
  have hmine := hreported _ List.mem_cons_self
  have hstarts : [start] ⊆ t.placesOf (· == .name) :=
    List.cons_subset.2 ⟨hstart, List.nil_subset _⟩
  rw [(sound_of_mem_stages hstarts [] _ List.mem_cons_self).again] at hmine
  simp [hlabel, hexposed] at hmine

end Search

end PlsqlAudit
