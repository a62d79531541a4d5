import PlsqlAudit.Grammar.Program
import PlsqlAudit.Proofs.Reading
import PlsqlAudit.Proofs.Visits

/-!
# The account of a search

What a search from one name does, told by the sequence of names it visits.  The
search ends.  It visits no key twice, and the keys it visits are those of its map.
Each name but the first was met as an origin of one before; the origins of every
visited name have their keys in the map, each recorded with a visited occurrence;
and what is reported are the visited parameters that nothing asserts.

A label of an argument is passed over without a report, even if a parameter has
the same name.  Only the seed can be one.
-/

namespace PlsqlAudit

/-- A program whose tree passes a test can be read. -/
theorem exists_parse (source : String) (test : Tree → Bool)
    (h : (parse source).toOption.any test = true) : ∃ t, parse source = .ok t ∧ test t = true :=
  exists_ok_of_any test h

namespace Search

/-- The search from `seed` is explained by the sequence `visited` of names. -/
structure Account (t : Tree) (list : AllowList) (seed : Place) (visited : List Place) : Prop where
  /-- Nothing is left to follow. -/
  ends : (final t list seed).pending = []
  starts : visited.head? = some seed
  /-- No key is visited twice. -/
  distinct : (visited.map t.nameKey).Nodup
  keys : ∀ key, (final t list seed).seen.has key = true ↔ key ∈ visited.map t.nameKey
  /-- Each later name is an origin of one before that the search went past. -/
  linked : ∀ done name later, visited = done ++ name :: later → done ≠ [] →
    ∃ m ∈ done, m.isArgumentLabel = false ∧ isExposed t list m = false ∧ name ∈ t.origins m
  /-- The origins of the names that the search went past are recorded, each key
  with a visited occurrence. -/
  closed : ∀ m ∈ visited, m.isArgumentLabel = false → isExposed t list m = false →
    ∀ p ∈ t.origins m, ∃ q ∈ visited, (final t list seed).seen.get? (t.nameKey p) = some q
  /-- Only the seed can be the label of an argument. -/
  labels : ∀ m ∈ visited, m.isArgumentLabel = true → m = seed
  /-- The reports are the visited parameters that nothing asserts, in order. -/
  reports : exposed t list seed =
    visited.filter fun m => !m.isArgumentLabel && (t.isParameter m && !list.protects t m)
  /-- No key is reported twice. -/
  once : ((exposed t list seed).map t.nameKey).Nodup
  /-- A chain of origins leads from the seed to every report. -/
  reachable : ∀ p ∈ exposed t list seed, Relation.ReflTransGen
    (fun m q => m.isArgumentLabel = false ∧ isExposed t list m = false ∧ q ∈ t.origins m) seed p

/-- **The meaning of one search.**  Its trail explains the search from any name of any tree:
which names were visited and through which others, which keys were recorded, and which
parameters are reported. -/
theorem account_trail (t : Tree) (list : AllowList) {seed : Place}
    (hseed : seed ∈ t.placesOf (· == .name)) : Account t list seed (trail t list seed) where
  ends := pending_final hseed
  starts := head?_trail hseed list
  distinct := nodup_trail hseed
  keys := fun _ => has_final hseed
  linked := by
    intro done name later hsplit hdone
    obtain ⟨m, hm, hlead⟩ := trail_linked hseed hsplit hdone
    exact ⟨m, hm, mem_leads.1 hlead⟩
  closed := by
    intro m hm hlabel hexposed p hp
    exact trail_closed hseed hm (mem_leads.2 ⟨hlabel, hexposed, hp⟩)
  labels := by
    intro m hm hlabel
    by_contra hne
    simp [not_label_of_mem_trail hseed hm hne] at hlabel
  reports := exposed_eq_filter hseed
  once := by
    rw [exposed_eq_filter hseed]
    exact (nodup_trail hseed).sublist (List.filter_sublist.map _)
  reachable := by
    intro p hp
    rw [exposed_eq_filter hseed] at hp
    exact Relation.ReflTransGen.mono (fun _ _ hlead => mem_leads.1 hlead) _ _
      (trail_reachable hseed (List.mem_of_mem_filter hp))

/-- A search that comes to a parameter through two variables that are assigned to
each other. -/
theorem account_trail_of_cycle : ∃ t seed,
    parse "CREATE PROCEDURE p(x CHAR) IS BEGIN y := z; z := y || x; END;" = .ok t ∧
      seed ∈ t.placesOf (· == .name) ∧
      (trail t AllowList.standard seed).map t.text = ["y", "z", "x"] ∧
      (exposed t AllowList.standard seed).map t.text = ["x"] ∧
      Account t AllowList.standard seed (trail t AllowList.standard seed) := by
  obtain ⟨t, hparse, htest⟩ := exists_parse
    "CREATE PROCEDURE p(x CHAR) IS BEGIN y := z; z := y || x; END;"
    (fun t => (t.placesOf (· == .name)).head?.any fun seed =>
      (trail t AllowList.standard seed).map t.text == ["y", "z", "x"] &&
      (exposed t AllowList.standard seed).map t.text == ["x"]) (by decide +kernel)
  obtain ⟨seed, hfirst, htexts⟩ := (Option.any_eq_true _ _).1 htest
  have hseed : seed ∈ t.placesOf (· == .name) := List.mem_of_mem_head? hfirst
  obtain ⟨htrail, hexposed⟩ := Bool.and_eq_true_iff.1 htexts
  exact ⟨t, seed, hparse, hseed, by simpa using htrail, by simpa using hexposed,
    account_trail t _ hseed⟩

/-- **Labels are not reported.**  A search that begins at the label of an argument
reports nothing, although the label has the name of a parameter that nothing
asserts; so the reports are not all visited parameters that nothing asserts,
whatever names are said to be visited from the seed on. -/
theorem label_not_reported : ∃ t seed,
    parse "CREATE PROCEDURE p(x CHAR) IS BEGIN f(x => 1); END;" = .ok t ∧
      seed ∈ t.placesOf (· == .name) ∧
      ¬ ∃ visited : List Place, visited.head? = some seed ∧
        exposed t AllowList.standard seed =
          visited.filter fun m => t.isParameter m && !AllowList.standard.protects t m := by
  obtain ⟨t, hparse, htest⟩ := exists_parse
    "CREATE PROCEDURE p(x CHAR) IS BEGIN f(x => 1); END;"
    (fun t => (t.placesOf (· == .name)).any fun seed =>
      t.isParameter seed && !AllowList.standard.protects t seed &&
      (exposed t AllowList.standard seed).isEmpty) (by decide +kernel)
  obtain ⟨seed, hseed, h⟩ := List.any_eq_true.1 htest
  obtain ⟨hparameter, hempty⟩ := Bool.and_eq_true_iff.1 h
  refine ⟨t, seed, hparse, hseed, ?_⟩
  rintro ⟨visited, hfirst, hreports⟩
  rw [List.isEmpty_iff.1 hempty] at hreports
  have hmem := List.mem_of_mem_head? (Option.mem_def.2 hfirst)
  have hnone := List.filter_eq_nil_iff.1 hreports.symm seed hmem
  exact hnone hparameter

end Search

end PlsqlAudit
