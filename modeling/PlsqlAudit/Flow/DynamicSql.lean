import PlsqlAudit.Flow.Search

/-!
# Dynamic SQL

Two statements run a text as SQL: `EXECUTE IMMEDIATE` and `OPEN … FOR` with an
expression.  Such a site is exposed to the parameters that the names in its
expression can be traced back to.  Each name is traced by a search of its own, so
one parameter may be met several times at a site.
-/

namespace PlsqlAudit

namespace Search

/-- The unasserted parameters that an expression can be traced back to, name by
name. -/
def exposedIn (t : Tree) (list : AllowList) (expr : Place) : List Place :=
  expr.reads.flatMap (exposed t list)

/-- The unasserted parameters that an `EXECUTE IMMEDIATE` runs. -/
def exposedByExecute (t : Tree) (list : AllowList) (statement : Place) : List Place :=
  match statement.executedSql? with
  | some sql => exposedIn t list sql
  | none => []

/-- The unasserted parameters that an `OPEN … FOR` runs. -/
def exposedByOpen (t : Tree) (list : AllowList) (statement : Place) : List Place :=
  match statement.openedSql? with
  | some sql => exposedIn t list sql
  | none => []

end Search

namespace Tree

/-- The statements that may run dynamic SQL, in the order of the text. -/
def dynamicSites (t : Tree) : List Place :=
  t.placesOf fun kind => kind == .executeImmediate || kind == .openFor

/-- The unasserted parameters that reach dynamic SQL, site by site. -/
def exposures (t : Tree) (list : AllowList) : List Place :=
  t.dynamicSites.flatMap fun site =>
    if site.kind = .executeImmediate then Search.exposedByExecute t list site
    else Search.exposedByOpen t list site

end Tree

end PlsqlAudit
