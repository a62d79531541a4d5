import PlsqlAudit.Json.Record

/-!
# Options of a detector

Options are JSON values under names.  An option is read as the type that is
wanted of it; one that does not have that type counts as not given.
-/

namespace PlsqlAudit

/-- The options of a detector. -/
structure DetectorOptions where
  /-- How many findings on one unit are kept, if there is a limit. -/
  limit : Option Nat := none
  values : List (String × Json) := []
  deriving Repr, Inhabited

namespace DetectorOptions

/-- The value of an option; of two values under one name the later one counts. -/
def value? (options : DetectorOptions) (name : String) : Option Json :=
  (Json.object options.values).field? name

/-- The value of an option as the type that is wanted of it. -/
def get? {α : Type} (options : DetectorOptions) (name : String) (read? : Json → Option α) :
    Option α :=
  (options.value? name).bind read?

/-- The value of an option, or a default. -/
def getD {α : Type} (options : DetectorOptions) (name : String) (read? : Json → Option α)
    (default : α) : α :=
  (options.get? name read?).getD default

end DetectorOptions

end PlsqlAudit
