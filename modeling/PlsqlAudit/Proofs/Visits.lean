import Mathlib.Data.List.Nodup
import Mathlib.Data.List.Perm.Subperm
import Mathlib.Logic.Relation
import PlsqlAudit.Proofs.Origins

/-!
# The names a search visits

A search takes one name after the other off its list of pending names.  The
sequence of these names, `Search.visits`, explains all that the search does.

The invariant is `Search.Explored`.  The map grows only by names that were put on
the list; each of these was visited or still is pending, and none twice; each has
come from a name visited before; and whatever a visited name leads to has its key
in the map.  One step keeps the invariant (`Explored.step`), so every run does
(`Explored.run`).

Since the names that are put on the list have different keys and stand in the
tree, a run of `Search.bound` steps has nothing left to follow
(`Search.pending_run_bound`).
-/

namespace PlsqlAudit

namespace Seen

variable {seen more : Seen} {key : String} {p : Place}

/-- A map has a key if some place is kept under it. -/
theorem has_iff : seen.has key = true ↔ ∃ p, (key, p) ∈ seen := by
  induction seen with
  | nil => simp [has, get?]
  | cons entry seen ih =>
    obtain ⟨other, q⟩ := entry
    simp only [has, get?, List.lookup_cons, List.mem_cons] at ih ⊢
    by_cases hkey : key = other
    · simp [hkey]
    · have hbeq : (key == other) = false := by simpa using hkey
      simp [hbeq, hkey, ih]

/-- Two maps one after the other have the keys of both. -/
theorem has_append : (seen ++ more).has key = (seen.has key || more.has key) := by
  rw [Bool.eq_iff_iff, Bool.or_eq_true]
  simp only [has_iff, List.mem_append, exists_or]

/-- A map with one entry has the key of this entry only. -/
theorem has_singleton {other : String} : Seen.has [(other, p)] key = (key == other) := by
  rw [Bool.eq_iff_iff, has_iff]
  simp

/-- A place that is found under a key is kept under it. -/
theorem mem_of_get? (h : seen.get? key = some p) : (key, p) ∈ seen := by
  induction seen with
  | nil => simp [get?] at h
  | cons entry seen ih =>
    obtain ⟨other, q⟩ := entry
    simp only [get?, List.lookup_cons] at h ih
    by_cases hkey : key = other
    · simp_all
    · have hbeq : (key == other) = false := by simpa using hkey
      rw [hbeq] at h
      exact List.mem_cons_of_mem _ (ih h)

/-- A key that is new goes to the end of the map. -/
theorem put_of_not_has (h : seen.has key = false) : seen.put key p = seen ++ [(key, p)] := by
  rw [put, List.filter_eq_self.2]
  rintro ⟨other, q⟩ hmem
  have hne : other ≠ key := by
    rintro rfl
    have hhas : seen.has other = true := has_iff.2 ⟨q, hmem⟩
    simp [h] at hhas
  simpa using hne

end Seen

namespace Search

variable {t : Tree} {list : AllowList}

/-- What the map records for a name. -/
def entry (t : Tree) (p : Place) : String × Place := (t.nameKey p, p)

/-- The names that following a name leads to: its origins, except behind the
label of an argument and behind an exposed parameter, where a search stops. -/
def leads (t : Tree) (list : AllowList) (name : Place) : List Place :=
  if name.isArgumentLabel || isExposed t list name then [] else t.origins name

/-- True for the names that a search reports when it visits them. -/
def isReported (t : Tree) (list : AllowList) (name : Place) : Bool :=
  !name.isArgumentLabel && isExposed t list name

/-- A name leads to its origins, unless it is a label of an argument or is exposed itself. -/
theorem mem_leads {name p : Place} :
    p ∈ leads t list name ↔
      name.isArgumentLabel = false ∧ isExposed t list name = false ∧ p ∈ t.origins name := by
  unfold leads
  by_cases hlabel : name.isArgumentLabel = true
  · simp [hlabel]
  · by_cases hexposed : isExposed t list name = true
    · simp [hexposed]
    · simp [hlabel, hexposed]

/-- The names that are followed, in order, in at most `bound` steps. -/
def visits (t : Tree) (list : AllowList) : Nat → Search → List Place
  | 0, _ => []
  | bound + 1, s =>
    match s.pending with
    | [] => []
    | name :: _ => name :: visits t list bound (s.step t list)

/-! ### One step -/

/-- The keys that the recorded names add to the map are the keys of these names. -/
theorem has_map_entry {names : List Place} {key : String} :
    Seen.has (names.map (entry t)) key = true ↔ key ∈ names.map t.nameKey := by
  simp [Seen.has_iff, entry, and_comm]

/-- The names that `record` answers with are those of the given ones whose keys
are new, each key once; the map grows by just these, and has all the keys. -/
theorem record_spec (t : Tree) (seen : Seen) (names : List Place) :
    (record t seen names).2 = seen ++ (record t seen names).1.map (entry t) ∧
      (∀ p ∈ (record t seen names).1, p ∈ names ∧ seen.has (t.nameKey p) = false) ∧
      ((record t seen names).1.map t.nameKey).Nodup ∧
      ∀ p ∈ names, (record t seen names).2.has (t.nameKey p) = true := by
  induction names generalizing seen with
  | nil => simp [record]
  | cons name names ih =>
    by_cases hhas : seen.has (t.nameKey name) = true
    · obtain ⟨hseen, hfresh, hnodup, hall⟩ := ih seen
      simp only [record, hhas, if_true]
      refine ⟨hseen, ?_, hnodup, ?_⟩
      · intro p hp
        exact ⟨List.mem_cons_of_mem _ (hfresh p hp).1, (hfresh p hp).2⟩
      · intro p hp
        rcases List.mem_cons.1 hp with rfl | hp
        · rw [hseen, Seen.has_append, hhas, Bool.true_or]
        · exact hall p hp
    · have hnew : seen.has (t.nameKey name) = false := by simpa using hhas
      obtain ⟨hseen, hfresh, hnodup, hall⟩ := ih (seen.put (t.nameKey name) name)
      simp only [record, hnew, Bool.false_eq_true, if_false]
      rw [Seen.put_of_not_has hnew] at hseen hfresh hnodup hall ⊢
      simp only [Seen.has_append, Seen.has_singleton, Bool.or_eq_false_iff] at hfresh
      refine ⟨by simpa [entry] using hseen, ?_, ?_, ?_⟩
      · intro p hp
        rcases List.mem_cons.1 hp with rfl | hp
        · exact ⟨List.mem_cons_self, hnew⟩
        · exact ⟨List.mem_cons_of_mem _ (hfresh p hp).1, (hfresh p hp).2.1⟩
      · rw [List.map_cons, List.nodup_cons]
        refine ⟨?_, hnodup⟩
        intro hmem
        obtain ⟨p, hp, hkey⟩ := List.mem_map.1 hmem
        exact absurd hkey (by simpa using (hfresh p hp).2.2)
      · intro p hp
        rcases List.mem_cons.1 hp with rfl | hp
        · exact Seen.has_iff.2 ⟨p, by simp [hseen]⟩
        · exact hall p hp

/-- A step takes the first pending name and records what it leads to. -/
theorem step_eq {s : Search} {name : Place} {rest : List Place} (h : s.pending = name :: rest) :
    s.step t list =
      { pending := (record t s.seen (leads t list name)).1 ++ rest
        seen := (record t s.seen (leads t list name)).2
        reached := if isReported t list name then name :: s.reached else s.reached } := by
  simp only [step, h, leads, isReported]
  by_cases hlabel : name.isArgumentLabel = true
  · simp [hlabel, record]
  · by_cases hexposed : isExposed t list name = true
    · simp [hlabel, hexposed, record]
    · simp [hlabel, hexposed]

/-! ### The invariant -/

/-- How things stand after the names `visited` were followed from `start`, if the
map was `before` at first and the names `added` were put on the list since. -/
structure Explored (t : Tree) (list : AllowList) (start : Place) (before : Seen)
    (added visited : List Place) (s : Search) : Prop where
  seen_eq : s.seen = before ++ added.map (entry t)
  fresh : ∀ p ∈ added, before.has (t.nameKey p) = false
  distinct : (added.map t.nameKey).Nodup
  names : ∀ p ∈ added, p ∈ t.placesOf (· == .name)
  perm : (start :: added).Perm (visited ++ s.pending)
  begun : visited = [] ∧ s.pending = [start] ∨ visited.head? = some start
  pending_linked : visited ≠ [] → ∀ p ∈ s.pending, ∃ m ∈ visited, p ∈ leads t list m
  visited_linked : ∀ done name later, visited = done ++ name :: later → done ≠ [] →
    ∃ m ∈ done, name ∈ leads t list m
  closed : ∀ m ∈ visited, ∀ p ∈ leads t list m, s.seen.has (t.nameKey p) = true
  reached : s.reached.reverse = visited.filter (isReported t list)

namespace Explored

variable {start name : Place} {before : Seen} {added visited rest : List Place} {s : Search}

/-- Before the first step only the start is pending. -/
theorem init (t : Tree) (list : AllowList) (start : Place) (before : Seen) :
    Explored t list start before [] [] ⟨[start], before, []⟩ where
  seen_eq := by simp
  fresh := by simp
  distinct := by simp
  names := by simp
  perm := by simp
  begun := .inl ⟨rfl, rfl⟩
  pending_linked := by simp
  visited_linked := by simp
  closed := by simp
  reached := by simp

/-- The names that the search has met (its start and those it added) are those that were visited or
are pending. -/
theorem mem_iff (h : Explored t list start before added visited s) {p : Place} :
    p = start ∨ p ∈ added ↔ p ∈ visited ∨ p ∈ s.pending := by
  rw [← List.mem_cons, h.perm.mem_iff, List.mem_append]

/-- Two names are pending only after the first step. -/
theorem visited_ne_nil (h : Explored t list start before added visited s)
    (hpending : s.pending = name :: rest) {p : Place} (hp : p ∈ rest) : visited ≠ [] := by
  rintro rfl
  rcases h.begun with ⟨_, hone⟩ | hfirst
  · rw [hpending] at hone
    simp [(List.cons.inj hone).2] at hp
  · simp at hfirst

/-- **One step keeps the invariant.**  The name that is taken off the list joins
the visited ones, and what it leads to joins the map and the list. -/
theorem step (h : Explored t list start before added visited s) (hstart : start ∈ t.places)
    (hpending : s.pending = name :: rest) :
    Explored t list start before (added ++ (record t s.seen (leads t list name)).1)
      (visited ++ [name]) (s.step t list) := by
  obtain ⟨hseen, hfresh, hnodup, hall⟩ := record_spec t s.seen (leads t list name)
  rw [step_eq hpending]
  have hnameIn : name ∈ t.places := by
    rcases h.mem_iff.2 (.inr (by simp [hpending] : name ∈ s.pending)) with rfl | hname
    · exact hstart
    · exact (Tree.mem_placesOf.1 (h.names name hname)).1
  have hold {p : Place} (hp : s.seen.has (t.nameKey p) = false) :
      before.has (t.nameKey p) = false ∧ t.nameKey p ∉ added.map t.nameKey := by
    rw [h.seen_eq, Seen.has_append, Bool.or_eq_false_iff] at hp
    refine ⟨hp.1, fun hmem => ?_⟩
    simp [has_map_entry.2 hmem] at hp
  refine ⟨?_, ?_, ?_, ?_, ?_, ?_, ?_, ?_, ?_, ?_⟩
  · rw [hseen, h.seen_eq, List.map_append, List.append_assoc]
  · intro p hp
    rcases List.mem_append.1 hp with hp | hp
    · exact h.fresh p hp
    · exact (hold (hfresh p hp).2).1
  · rw [List.map_append, List.nodup_append]
    refine ⟨h.distinct, hnodup, ?_⟩
    intro key hkey other hother hsame
    obtain ⟨p, hp, rfl⟩ := List.mem_map.1 hother
    exact (hold (hfresh p hp).2).2 (hsame ▸ hkey)
  · intro p hp
    rcases List.mem_append.1 hp with hp | hp
    · exact h.names p hp
    · exact Tree.origins_subset hnameIn (mem_leads.1 (hfresh p hp).1).2.2
  · have hperm := h.perm.append_right (record t s.seen (leads t list name)).1
    rw [hpending] at hperm
    refine hperm.trans ?_
    simp only [List.append_assoc, List.cons_append, List.nil_append]
    exact (List.perm_append_comm.cons name).append_left visited
  · right
    rcases h.begun with ⟨rfl, hnone⟩ | hfirst
    · rw [hpending] at hnone
      simpa using (List.cons.inj hnone).1
    · simp [hfirst]
  · intro _ p hp
    rcases List.mem_append.1 hp with hp | hp
    · exact ⟨name, by simp, (hfresh p hp).1⟩
    · obtain ⟨m, hm, hlead⟩ := h.pending_linked (h.visited_ne_nil hpending hp) p (by simp [hpending, hp])
      exact ⟨m, List.mem_append_left _ hm, hlead⟩
  · intro done other later hsplit hdone
    rcases List.eq_nil_or_concat later with rfl | ⟨later, last, rfl⟩
    · obtain ⟨rfl, hother⟩ := List.append_inj' hsplit rfl
      obtain rfl := (List.cons.inj hother).1
      exact h.pending_linked hdone name (by simp [hpending])
    · rw [List.concat_eq_append, ← List.cons_append, ← List.append_assoc] at hsplit
      exact h.visited_linked done other later (List.append_inj' hsplit rfl).1 hdone
  · intro m hm p hp
    rcases List.mem_append.1 hm with hm | hm
    · rw [hseen, Seen.has_append, h.closed m hm p hp, Bool.true_or]
    · obtain rfl := List.mem_singleton.1 hm
      exact hall p hp
  · rw [List.filter_append, ← h.reached]
    by_cases hreport : isReported t list name = true
    · simp [hreport]
    · simp [hreport]

/-- Hence every run keeps it. -/
theorem run (h : Explored t list start before added visited s) (hstart : start ∈ t.places)
    (n : Nat) :
    ∃ more, Explored t list start before (added ++ more) (visited ++ visits t list n s)
      (Search.run t list n s) := by
  induction n generalizing added visited s with
  | zero => exact ⟨[], by simpa [visits, Search.run] using h⟩
  | succ n ih =>
    cases hpending : s.pending with
    | nil => exact ⟨[], by simpa [visits, Search.run, hpending] using h⟩
    | cons name rest =>
      obtain ⟨more, hmore⟩ := ih (h.step hstart hpending)
      refine ⟨(record t s.seen (leads t list name)).1 ++ more, ?_⟩
      simpa [visits, Search.run, hpending] using hmore

end Explored

/-- A run that has something left to follow has used all its steps. -/
theorem length_visits {n : Nat} {s : Search} (h : (run t list n s).pending ≠ []) :
    (visits t list n s).length = n := by
  induction n generalizing s with
  | zero => simp [visits]
  | succ n ih =>
    cases hpending : s.pending with
    | nil => simp [run, hpending] at h
    | cons name rest =>
      simp only [run, hpending, List.isEmpty_cons, Bool.false_eq_true, if_false] at h
      simp [visits, hpending, ih h]

/-- **The bound suffices.**  Names that are put on the list have different keys, so
there are no more of them than names in the tree. -/
theorem pending_run_bound {start : Place} (hstart : start ∈ t.places) (before : Seen) :
    (run t list (bound t) ⟨[start], before, []⟩).pending = [] := by
  by_contra hpending
  obtain ⟨added, h⟩ := (Explored.init t list start before).run hstart (bound t)
  rw [List.nil_append, List.nil_append] at h
  have hvisits := length_visits hpending
  have hadded : added.length ≤ (t.placesOf (· == .name)).length :=
    ((List.Nodup.of_map _ h.distinct).subperm h.names).length_le
  have hlength := h.perm.length_eq
  have hleft := List.length_pos_of_ne_nil hpending
  have hbound : bound t = (t.placesOf (· == .name)).length + 1 := rfl
  rw [List.length_cons, List.length_append, hvisits] at hlength
  omega

/-! ### A search from a single name -/

/-- The state in which the search from a name begins. -/
def begin_ (t : Tree) (seed : Place) : Search := ⟨[seed], [entry t seed], []⟩

/-- The state in which the search from a name ends. -/
def final (t : Tree) (list : AllowList) (seed : Place) : Search :=
  run t list (bound t) (begin_ t seed)

/-- The names that the search from a name visits, in order. -/
def trail (t : Tree) (list : AllowList) (seed : Place) : List Place :=
  visits t list (bound t) (begin_ t seed)

/-- The parameters that a search from one name reports are those it has reached, in the order in
which it came to them. -/
theorem exposed_eq_reached (t : Tree) (list : AllowList) (seed : Place) :
    exposed t list seed = (final t list seed).reached.reverse := rfl

section

variable {seed : Place} (hseed : seed ∈ t.placesOf (· == .name))

include hseed

/-- A search from a name of the tree runs to its end: no name is pending when its bound is used
up. -/
theorem pending_final : (final t list seed).pending = [] :=
  pending_run_bound (Tree.mem_placesOf.1 hseed).1 _

/-- What the invariant says at the end of a search. -/
theorem explored_final (list : AllowList) : ∃ added,
    Explored t list seed [entry t seed] added (trail t list seed) (final t list seed) ∧
      (seed :: added).Perm (trail t list seed) := by
  obtain ⟨added, h⟩ :=
    (Explored.init t list seed [entry t seed]).run (Tree.mem_placesOf.1 hseed).1 (bound t)
  rw [List.nil_append, List.nil_append] at h
  have hperm := h.perm
  rw [show (run t list (bound t) ⟨[seed], [entry t seed], []⟩).pending = [] from
    pending_final hseed, List.append_nil] at hperm
  exact ⟨added, h, hperm⟩

/-- The trail of a search begins with the name it starts from. -/
theorem head?_trail (list : AllowList) : (trail t list seed).head? = some seed := by
  obtain ⟨added, h, _⟩ := explored_final hseed list
  rcases h.begun with ⟨_, hpending⟩ | hfirst
  · simp [pending_final hseed] at hpending
  · exact hfirst

/-- All names on the trail of a search are names of the tree. -/
theorem trail_subset : trail t list seed ⊆ t.placesOf (· == .name) := by
  obtain ⟨added, h, hperm⟩ := explored_final hseed list
  intro p hp
  rcases List.mem_cons.1 (hperm.mem_iff.2 hp) with rfl | hp
  · exact hseed
  · exact h.names p hp

/-- No two names on the trail of a search have the same key. -/
theorem nodup_trail : ((trail t list seed).map t.nameKey).Nodup := by
  obtain ⟨added, h, hperm⟩ := explored_final hseed list
  rw [← (hperm.map t.nameKey).nodup_iff, List.map_cons, List.nodup_cons]
  refine ⟨fun hmem => ?_, h.distinct⟩
  obtain ⟨p, hp, hkey⟩ := List.mem_map.1 hmem
  have hfresh := h.fresh p hp
  rw [hkey, entry, Seen.has_singleton] at hfresh
  simp at hfresh

/-- The keys that a search has seen in the end are those of the names on its trail. -/
theorem has_final {key : String} :
    (final t list seed).seen.has key = true ↔ key ∈ (trail t list seed).map t.nameKey := by
  obtain ⟨added, h, hperm⟩ := explored_final hseed list
  rw [h.seen_eq, ← (hperm.map t.nameKey).mem_iff, ← has_map_entry]
  rfl

/-- The map records visited names only. -/
theorem get?_final {key : String} {q : Place}
    (hget : (final t list seed).seen.get? key = some q) :
    q ∈ trail t list seed ∧ t.nameKey q = key := by
  obtain ⟨added, h, hperm⟩ := explored_final hseed list
  have hmem := Seen.mem_of_get? hget
  rw [h.seen_eq, ← List.map_singleton, ← List.map_append] at hmem
  obtain ⟨p, hp, hentry⟩ := List.mem_map.1 hmem
  obtain ⟨hkey, rfl⟩ := Prod.mk.inj hentry
  exact ⟨hperm.mem_iff.1 hp, hkey⟩

/-- Every visited name but the first comes from one visited before. -/
theorem trail_linked {done later : List Place} {name : Place}
    (hsplit : trail t list seed = done ++ name :: later) (hdone : done ≠ []) :
    ∃ m ∈ done, name ∈ leads t list m := by
  obtain ⟨added, h, _⟩ := explored_final hseed list
  exact h.visited_linked done name later hsplit hdone

/-- A search meets no labels of arguments, unless it begins at one. -/
theorem not_label_of_mem_trail {p : Place} (hp : p ∈ trail t list seed) (hne : p ≠ seed) :
    p.isArgumentLabel = false := by
  obtain ⟨done, later, hsplit⟩ := List.append_of_mem hp
  have hdone : done ≠ [] := by
    rintro rfl
    have hfirst := head?_trail hseed list
    rw [hsplit] at hfirst
    exact hne (by simpa using hfirst)
  obtain ⟨m, _, hlead⟩ := trail_linked hseed hsplit hdone
  exact Tree.origins_not_label (mem_leads.1 hlead).2.2

/-- Whatever a visited name leads to was recorded under its key, and what was
recorded was visited. -/
theorem trail_closed {m p : Place} (hm : m ∈ trail t list seed) (hp : p ∈ leads t list m) :
    ∃ q ∈ trail t list seed, (final t list seed).seen.get? (t.nameKey p) = some q := by
  obtain ⟨added, h, _⟩ := explored_final hseed list
  obtain ⟨q, hq⟩ := Option.isSome_iff_exists.1 (h.closed m hm p hp)
  exact ⟨q, (get?_final hseed hq).1, hq⟩

/-- What a search reports are the names on its trail that are to be reported, in the order of the
trail. -/
theorem exposed_eq_filter : exposed t list seed = (trail t list seed).filter (isReported t list) := by
  obtain ⟨added, h, _⟩ := explored_final hseed list
  rw [exposed_eq_reached, h.reached]

/-- Every visited name is linked to the seed by a chain of origins. -/
theorem trail_reachable {p : Place} (hp : p ∈ trail t list seed) :
    Relation.ReflTransGen (fun m q => q ∈ leads t list m) seed p := by
  obtain ⟨done, later, hsplit⟩ := List.append_of_mem hp
  induction hlength : done.length using Nat.strongRecOn generalizing p done later with
  | ind length ih =>
    by_cases hdone : done = []
    · have hfirst := head?_trail hseed list
      rw [hsplit, hdone] at hfirst
      obtain rfl : p = seed := by simpa using hfirst
      exact .refl
    · obtain ⟨m, hm, hlead⟩ := trail_linked hseed hsplit hdone
      obtain ⟨earlier, between, rfl⟩ := List.append_of_mem hm
      have hbefore : trail t list seed = earlier ++ m :: (between ++ p :: later) := by
        simp [hsplit]
      have hshort : earlier.length < length := by
        rw [← hlength]
        simp
      refine .tail (ih earlier.length hshort ?_ earlier _ hbefore rfl) hlead
      simp [hbefore]

end

end Search

end PlsqlAudit
