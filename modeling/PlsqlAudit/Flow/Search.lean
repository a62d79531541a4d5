import PlsqlAudit.Flow.Assertion
import PlsqlAudit.Flow.Origin
import PlsqlAudit.Flow.Parameter

/-!
# Tracing a name back to parameters

A search starts from one name and follows origins backward until it meets
parameters that are not asserted.  It keeps a map from keys to the occurrence
that was met first, and follows a key only once, so that it ends on circular
assignments too.  New origins are followed in order, all that lies behind the
first before the second.

`Search.step` follows one name.  A name is put on the list of pending ones only
when its key is new, so no more steps are taken than there are names in the tree,
and one for the start; `Search.run` takes that many.
-/

namespace PlsqlAudit

/-- The keys met so far, each with the occurrence that was met first, in the
order in which they were met. -/
abbrev Seen := List (String × Place)

namespace Seen

/-- The occurrence recorded for a key. -/
def get? (seen : Seen) (key : String) : Option Place := seen.lookup key

/-- True when a key was met. -/
def has (seen : Seen) (key : String) : Bool := (seen.get? key).isSome

/-- Records an occurrence, in place of an earlier one of its key. -/
def put (seen : Seen) (key : String) (place : Place) : Seen :=
  (seen.filter fun entry => entry.1 != key) ++ [(key, place)]

end Seen

/-- The state of a search. -/
structure Search where
  /-- The names to be followed, the next one first. -/
  pending : List Place
  seen : Seen
  /-- The unasserted parameters that were reached, the last one first. -/
  reached : List Place
  deriving Repr, Inhabited

namespace Search

/-- True for a parameter that nothing asserts. -/
def isExposed (t : Tree) (list : AllowList) (name : Place) : Bool :=
  t.isParameter name && !list.protects t name

/-- Records those of `names` whose keys are new; answers with them, in order, and
with the map. -/
def record (t : Tree) (seen : Seen) : List Place → List Place × Seen
  | [] => ([], seen)
  | name :: names =>
    let key := t.nameKey name
    if seen.has key then record t seen names
    else
      let (fresh, after) := record t (seen.put key name) names
      (name :: fresh, after)

/-- Follows the next name. -/
def step (t : Tree) (list : AllowList) (s : Search) : Search :=
  match s.pending with
  | [] => s
  | name :: rest =>
    if name.isArgumentLabel then { s with pending := rest }
    else if isExposed t list name then { s with pending := rest, reached := name :: s.reached }
    else
      let (fresh, seen) := record t s.seen (t.origins name)
      { s with pending := fresh ++ rest, seen := seen }

/-- Follows names until none is pending, at most `bound` times. -/
def run (t : Tree) (list : AllowList) : Nat → Search → Search
  | 0, s => s
  | bound + 1, s => if s.pending.isEmpty then s else run t list bound (s.step t list)

/-- A number of steps that suffices for every search in a tree. -/
def bound (t : Tree) : Nat := (t.placesOf (· == .name)).length + 1

/-- Follows `start` and all that is newly reached from it; answers with the
unasserted parameters, in the order in which they were reached, and with the map
of keys. -/
def follow (t : Tree) (list : AllowList) (start : Place) (seen : Seen) : List Place × Seen :=
  let final := run t list (bound t) ⟨[start], seen, []⟩
  (final.reached.reverse, final.seen)

/-- The unasserted parameters that a name can be traced back to. -/
def exposed (t : Tree) (list : AllowList) (name : Place) : List Place :=
  (follow t list name [(t.nameKey name, name)]).1

end Search

end PlsqlAudit
