import PlsqlAudit.Flow.DynamicSql
import PlsqlAudit.Proofs.Mirror
import PlsqlAudit.Proofs.Visits

/-!
# The same flow in trees that mirror each other

Names that a `Mirror` pairs are parameters together, have their origins paired,
and are asserted together.  So the searches from them go side by side: one step
keeps the pending names and the map paired (`Search.Alike.step`), hence the names
they visit are paired, and so are the parameters they report.  The two trees may
be of different sizes, and the searches then have different bounds; both run to
their end.
-/

namespace PlsqlAudit

open List (Forall₂)
open Place

/-- The sections of declarations around two names, each with its kind. -/
theorem Place.Alike.sections {R : Place → Place → Prop} {way way' : List Place} (hway : Alike R way way') :
    Forall₂ (fun d d' => d.kind = .declareSection ∧ R d d')
      ((scopesAmong way).filterMap (·.declarations)) ((scopesAmong way').filterMap (·.declarations)) := by
  refine (List.forall₂_and_left _ _).2 ⟨?_, hway.scopes.sections⟩
  intro d hd
  obtain ⟨scope, hscope, hdeclarations⟩ := List.mem_filterMap.1 hd
  obtain ⟨container, -, kind, rfl⟩ := mem_scopesAmong hscope
  exact (Scope.declarations_ofContainer hdeclarations).2

namespace Mirror

variable {t t' : Tree} {R : Place → Place → Prop} (h : Mirror t t' R) {p p' : Place}

include h

/-! ### Parameters -/

/-- Paired types are both types of texts, or neither is. -/
theorem isStringLike (hp : R p p') : t.isStringLike p = t'.isStringLike p' := by
  unfold Tree.isStringLike
  rw [h.kind hp, (h.letters hp).lower]

/-- Paired places are both parameters with the given key, or neither is. -/
theorem isParameterOf (hp : R p p') (key : String) :
    t.isParameterOf key p = t'.isParameterOf key p' := by
  unfold Tree.isParameterOf
  rw [← h.kind hp]
  cases hkind : p.kind.isParameter with
  | false => simp only [Bool.false_and]
  | true =>
    have hnot : p.kind ≠ .body := by
      intro hbody
      simp [hbody, Kind.isParameter] at hkind
    have hname : (p.definingName?.any fun name => t.nameKey name == key) =
        p'.definingName?.any fun name => t'.nameKey name == key :=
      optionAny_eq_of_rel (fun _ _ hq => by rw [h.nameKey hq]) (h.child? hp hnot _)
    have htype : p.dataType?.all t.isStringLike = p'.dataType?.all t'.isStringLike :=
      optionAll_eq_of_rel (fun _ _ => h.isStringLike) (h.child? hp hnot _)
    rw [hname, htype]

/-- Paired names are both names of parameters, or neither is. -/
theorem isParameter (hp : R p p') : t.isParameter p = t'.isParameter p' := by
  unfold Tree.isParameter
  dsimp only
  rw [← h.kind hp, ← h.nameKey hp]
  by_cases hname : p.kind = .name
  · have hroutine : Option.Rel (fun r r' => r.kind.isRoutine = true ∧ R r r') p.routine? p'.routine? := by
      refine rel_and_left ?_ (h.around hp (by simp [hname, Kind.isRoutine])).routine
      intro routine hfound
      have hroutine := List.find?_some (find?_of_routineAmong? hfound)
      exact hroutine
    rw [optionAny_eq_of_rel ?_ hroutine]
    intro routine routine' hboth
    obtain ⟨hkind, hrel⟩ := hboth
    have hnot : routine.kind ≠ .body := by
      intro hbody
      simp [hbody, Kind.isRoutine] at hkind
    exact any_eq_of_rel (fun _ _ hq => h.isParameterOf hq _) (h.children hrel hnot)
  · have hbeq : (p.kind == .name) = false := by simpa using hname
    simp only [hbeq, Bool.false_and]

/-! ### Origins -/

/-- The values that paired routines assign to a variable are paired, in the order in which they are
written. -/
theorem assignedValues (hp : R p p') (key : String) :
    Forall₂ R (t.assignedValues p key) (t'.assignedValues p' key) := by
  refine List.rel_filterMap ?_ (h.descendantsOf hp rfl rfl)
  intro statement statement' hstatement
  dsimp only
  have hparts := h.assignment? hstatement
  revert hparts
  generalize statement.assignment? = parts
  generalize statement'.assignment? = parts'
  intro hparts
  cases hparts with
  | none => exact .none
  | @some parts parts' hparts =>
    obtain ⟨target, value⟩ := parts
    obtain ⟨target', value'⟩ := parts'
    dsimp only at hparts ⊢
    rw [h.targetKey hparts.1]
    split
    · exact .some hparts.2
    · exact .none

/-- The names that paired values read are paired. -/
theorem valueReads (hp : R p p') : Forall₂ R (Tree.valueReads p) (Tree.valueReads p') := by
  unfold Tree.valueReads
  rw [← h.kind hp]
  split
  · exact .cons hp .nil
  · exact h.reads hp

/-- The initial values that the nearest scopes with a declaration give to a variable are paired, or
there is none on either side. -/
theorem declaredValue? {way way' : List Place} (hway : Alike R way way') (key : String) :
    Option.Rel R (t.declaredValue? (scopesAmong way) key) (t'.declaredValue? (scopesAmong way') key) := by
  refine rel_bind (fun _ _ => h.initializer?) (rel_findSome? ?_ (hway.sections))
  intro d d' hd
  exact h.declaration? hd.2 (by simp [hd.1]) key

/-- **The origins of paired names are paired**, one by one and in order: those in assigned values
as well as those in the initial value. -/
theorem origins (hp : R p p') (hroutine : p.kind.isRoutine = false) :
    Forall₂ R (t.origins p) (t'.origins p') := by
  have haround := h.around hp hroutine
  have hbody := haround.scopes.body
  unfold Tree.origins Place.scopes
  dsimp only
  rw [← h.targetKey hp]
  revert hbody
  generalize outermostBody? (scopesAmong p.ancestors) = body
  generalize outermostBody? (scopesAmong p'.ancestors) = body'
  intro hbody
  cases hbody with
  | none => exact .nil
  | some hbody =>
    dsimp only
    have hvalues := h.assignedValues hbody (t.targetKey p)
    revert hvalues
    generalize t.assignedValues _ _ = values
    generalize t'.assignedValues _ _ = values'
    intro hvalues
    cases hvalues with
    | nil =>
      have hvalue := h.declaredValue? haround (t.targetKey p)
      revert hvalue
      dsimp only
      generalize t.declaredValue? _ _ = value
      generalize t'.declaredValue? _ _ = value'
      intro hvalue
      cases hvalue with
      | none => exact .nil
      | some hvalue => exact h.reads hvalue
    | cons hvalue hvalues => exact List.rel_flatMap (.cons hvalue hvalues) (fun _ _ => h.valueReads)

/-! ### Assertions -/

/-- Paired routines assert a variable together, as they hand it to the same calls. -/
theorem assertsIn (list : AllowList) (hp : R p p') (key : String) :
    list.assertsIn t p key = list.assertsIn t' p' key := by
  refine any_eq_of_rel ?_ (h.names hp)
  intro q q' hq
  rw [h.callNameOf hq.2 (by simp [hq.1, Kind.isRoutine]), h.nameKey hq.2]

/-- The regions in which two names are asserted are paired. -/
theorem assertionRegion? (hp : R p p') (hroutine : p.kind.isRoutine = false) :
    Option.Rel R p.assertionRegion? p'.assertionRegion? := by
  have haround := h.around hp hroutine
  rw [Tree.assertionRegion?_eq (h.mem hp).1, Tree.assertionRegion?_eq (h.mem hp).2]
  unfold Place.scopes
  rw [← haround.scopes.isEmpty]
  split
  · exact .none
  · refine rel_orElse haround.through fun _ => ?_
    exact rel_orElse haround.scopes.body haround.scopes.nearest

/-- Paired names are asserted together, wherever they stand apart from the names of routines. -/
theorem asserts (list : AllowList) (hp : R p p') (hroutine : p.kind.isRoutine = false) :
    list.asserts t p = list.asserts t' p' := by
  unfold AllowList.asserts
  rw [← h.nameKey hp]
  exact optionAny_eq_of_rel (fun _ _ hq => h.assertsIn list hq _) (h.assertionRegion? hp hroutine)

/-- The aliases of paired names are paired: the variables that start out with these names. -/
theorem aliases (hp : R p p') (hroutine : p.kind.isRoutine = false) :
    Forall₂ (fun q q' => q.kind = .definingName ∧ R q q')
      (AllowList.aliases t p) (AllowList.aliases t' p') := by
  have hdeclared : Forall₂ (fun d d' => d.kind.isDeclaration = true ∧ R d d')
      ((p.scopes.filterMap (·.declarations)).flatMap fun d => d.children.filter (·.kind.isDeclaration))
      ((p'.scopes.filterMap (·.declarations)).flatMap fun d =>
        d.children.filter (·.kind.isDeclaration)) := by
    refine List.rel_flatMap (h.around hp hroutine).sections ?_
    intro d d' hd
    exact h.declarations hd.2 (by simp [hd.1])
  unfold AllowList.aliases
  dsimp only
  rw [← h.nameKey hp]
  refine List.rel_filter ?_ (List.rel_filterMap ?_ (List.rel_filter ?_ hdeclared))
  · intro q q' hq
    simp only [h.nameKey hq.2]
  · intro d d' hd
    have hnot : d.kind ≠ .body := by
      intro hbody
      simp [hbody, Kind.isDeclaration] at hd
    refine rel_and_left ?_ (h.child? hd.2 hnot _)
    intro name hname
    simpa using (child?_spec _ hname).2
  · intro d d' hd
    have hreads (q q' : Place) (hq : R q q') :
        (q.reads.any fun read => t.nameKey read == t.nameKey p) =
          q'.reads.any fun read => t'.nameKey read == t.nameKey p :=
      any_eq_of_rel (fun _ _ hread => by rw [h.nameKey hread]) (h.reads hq)
    simp only [optionAny_eq_of_rel hreads (h.initializer? hd.2)]

/-- **Paired names are protected together**, by an assertion of their own or by one of their
aliases. -/
theorem protects (list : AllowList) (hp : R p p') (hroutine : p.kind.isRoutine = false) :
    list.protects t p = list.protects t' p' := by
  unfold AllowList.protects
  rw [h.asserts list hp hroutine, any_eq_of_rel ?_ (h.aliases hp hroutine)]
  intro copy copy' hcopy
  have hbody : ((outermostBody? p.scopes).any fun body => list.assertsIn t body (t.nameKey copy)) =
      (outermostBody? p'.scopes).any fun body => list.assertsIn t' body (t.nameKey copy) :=
    optionAny_eq_of_rel (fun _ _ hbody => h.assertsIn list hbody _) (h.around hp hroutine).scopes.body
  rw [← h.nameKey hcopy.2, h.asserts list hcopy.2 (by simp [hcopy.1, Kind.isRoutine]), hbody]

/-- Paired names are exposed together: both are parameters that nothing asserts, or neither is. -/
theorem isExposed (list : AllowList) (hp : R p p') (hroutine : p.kind.isRoutine = false) :
    Search.isExposed t list p = Search.isExposed t' list p' := by
  unfold Search.isExposed
  rw [h.isParameter hp, h.protects list hp hroutine]

end Mirror

/-- What is reported of a parameter: its text and where it stands. -/
def Tree.violation (t : Tree) (p : Place) : String × Span := (t.text p, p.span)

/-! ### Searches side by side -/

namespace Search

/-- Two maps have the same keys, with paired occurrences. -/
def SeenAlike (R : Place → Place → Prop) (seen seen' : Seen) : Prop :=
  Forall₂ (fun entry entry' => entry.1 = entry'.1 ∧ R entry.2 entry'.2) seen seen'

/-- Two searches have the same names to follow and have met the same keys. -/
structure Alike (R : Place → Place → Prop) (s s' : Search) : Prop where
  pending : Forall₂ (fun p p' => p.kind = .name ∧ R p p') s.pending s'.pending
  seen : SeenAlike R s.seen s'.seen

variable {t t' : Tree} {R : Place → Place → Prop} {seen seen' : Seen} {s s' : Search}
  {list : AllowList} {p p' : Place}

/-- Maps side by side have the same keys. -/
theorem SeenAlike.has (h : SeenAlike R seen seen') (key : String) : seen.has key = seen'.has key := by
  unfold SeenAlike at h
  induction h with
  | nil => rfl
  | @cons entry entry' _ _ hentry _ ih =>
    obtain ⟨other, q⟩ := entry
    obtain ⟨other', q'⟩ := entry'
    obtain rfl : other = other' := hentry.1
    simp only [Seen.has, Seen.get?, List.lookup_cons] at ih ⊢
    cases key == other with
    | true => rfl
    | false => exact ih

/-- Maps side by side stay so when paired places are put under one key. -/
theorem SeenAlike.put (h : SeenAlike R seen seen') {key : String} (hp : R p p') :
    SeenAlike R (seen.put key p) (seen'.put key p') := by
  refine List.rel_append (List.rel_filter ?_ h) (.cons ⟨rfl, hp⟩ .nil)
  intro entry entry' hentry
  simp only [hentry.1]

/-- Paired names are new together, so that the same ones are recorded and the maps stay side by
side. -/
theorem record_rel (h : Mirror t t' R) {names names' : List Place}
    (hnames : Forall₂ (fun p p' => p.kind = .name ∧ R p p') names names')
    (hseen : SeenAlike R seen seen') :
    Forall₂ (fun p p' => p.kind = .name ∧ R p p') (record t seen names).1 (record t' seen' names').1 ∧
      SeenAlike R (record t seen names).2 (record t' seen' names').2 := by
  induction hnames generalizing seen seen' with
  | nil => exact ⟨.nil, hseen⟩
  | @cons name name' names names' hname _ ih =>
    simp only [record, ← h.nameKey hname.2, ← hseen.has]
    split
    · exact ih hseen
    · obtain ⟨hfresh, hafter⟩ := ih (hseen.put hname.2)
      exact ⟨.cons hname hfresh, hafter⟩

/-- The names that paired names lead a search to are paired, and they come in the same order. -/
theorem leads_rel (h : Mirror t t' R) (list : AllowList) (hp : p.kind = .name ∧ R p p') :
    Forall₂ (fun p p' => p.kind = .name ∧ R p p') (leads t list p) (leads t' list p') := by
  have hroutine : p.kind.isRoutine = false := by simp [hp.1, Kind.isRoutine]
  unfold leads
  rw [← h.isArgumentLabel hp.2 hroutine, ← h.isExposed list hp.2 hroutine]
  split
  · exact .nil
  · refine (List.forall₂_and_left _ _).2 ⟨?_, h.origins hp.2 hroutine⟩
    intro q hq
    simpa using (Tree.mem_placesOf.1 (Tree.origins_subset (h.mem hp.2).1 hq)).2

/-- **One step keeps two searches alike**: what is pending, what was seen and what was reached. -/
theorem Alike.step (h : Mirror t t' R) (list : AllowList) (hs : Alike R s s') :
    Alike R (s.step t list) (s'.step t' list) := by
  have hpending := hs.pending
  cases hcase : s.pending with
  | nil =>
    have hcase' : s'.pending = [] := by
      rw [hcase] at hpending
      exact List.forall₂_nil_left_iff.1 hpending
    simp only [Search.step, hcase, hcase']
    exact hs
  | cons name rest =>
    rw [hcase, List.forall₂_cons_left_iff] at hpending
    obtain ⟨name', rest', hname, hrest, hcase'⟩ := hpending
    obtain ⟨hfresh, hseen⟩ := record_rel h (leads_rel h list hname) hs.seen
    rw [step_eq hcase, step_eq hcase']
    exact ⟨List.rel_append hfresh hrest, hseen⟩

/-- Hence two searches visit paired names, in the same order and as long as they are run. -/
theorem Alike.visits (h : Mirror t t' R) (hs : Alike R s s') (n : Nat) :
    Forall₂ (fun p p' => p.kind = .name ∧ R p p') (visits t list n s) (visits t' list n s') := by
  induction n generalizing s s' with
  | zero => exact .nil
  | succ n ih =>
    have hpending := hs.pending
    have hnext := ih (hs.step h list)
    simp only [Search.visits]
    revert hpending
    generalize s.pending = pending
    generalize s'.pending = pending'
    intro hpending
    cases hpending with
    | nil => exact .nil
    | cons hname _ => exact .cons hname hnext

/-- A search that has nothing left to follow visits nothing more. -/
theorem visits_add {n : Nat} (hdone : (run t list n s).pending = []) (m : Nat) :
    visits t list (n + m) s = visits t list n s := by
  induction n generalizing s with
  | zero =>
    rw [Nat.zero_add]
    cases m with
    | zero => rfl
    | succ m => simp [visits, show s.pending = [] from hdone]
  | succ n ih =>
    rw [Nat.add_right_comm]
    cases hpending : s.pending with
    | nil => simp [visits, hpending]
    | cons name rest =>
      simp only [run, hpending, List.isEmpty_cons, Bool.false_eq_true, if_false] at hdone
      simp only [visits, hpending, ih hdone]

end Search

namespace Mirror

variable {t t' : Tree} {R : Place → Place → Prop} (h : Mirror t t' R) {p p' : Place}
  (list : AllowList)

include h

/-- Paired names are reported together by the searches that come to them. -/
theorem isReported (hp : R p p') (hroutine : p.kind.isRoutine = false) :
    Search.isReported t list p = Search.isReported t' list p' := by
  unfold Search.isReported
  rw [h.isArgumentLabel hp hroutine, h.isExposed list hp hroutine]

/-- Paired names are among the names of their trees, where a search may start. -/
theorem mem_placesOf_name (hp : R p p') (hname : p.kind = .name) :
    p ∈ t.placesOf (· == .name) ∧ p' ∈ t'.placesOf (· == .name) := by
  have hname' : p'.kind = .name := h.kind hp ▸ hname
  exact ⟨Tree.mem_placesOf.2 ⟨(h.mem hp).1, by simp [hname]⟩,
    Tree.mem_placesOf.2 ⟨(h.mem hp).2, by simp [hname']⟩⟩

/-- **Searches from paired names visit paired names.**  The bounds of the two trees
may differ, but both suffice. -/
theorem trail (hp : R p p') (hname : p.kind = .name) :
    Forall₂ (fun q q' => q.kind = .name ∧ R q q') (Search.trail t list p) (Search.trail t' list p') := by
  obtain ⟨hmem, hmem'⟩ := h.mem_placesOf_name hp hname
  have hbegin : Search.Alike R (Search.begin_ t p) (Search.begin_ t' p') :=
    ⟨.cons ⟨hname, hp⟩ .nil, .cons ⟨h.nameKey hp, hp⟩ .nil⟩
  have hdone : (Search.run t list (Search.bound t) (Search.begin_ t p)).pending = [] :=
    Search.pending_final hmem
  have hdone' : (Search.run t' list (Search.bound t') (Search.begin_ t' p')).pending = [] :=
    Search.pending_final hmem'
  unfold Search.trail
  rw [← Search.visits_add hdone (Search.bound t'), ← Search.visits_add hdone' (Search.bound t),
    Nat.add_comm (Search.bound t')]
  exact hbegin.visits h _

/-- **Searches from paired names report paired names**, in the same order. -/
theorem exposed (hp : R p p') (hname : p.kind = .name) :
    Forall₂ (fun q q' => q.kind = .name ∧ R q q')
      (Search.exposed t list p) (Search.exposed t' list p') := by
  obtain ⟨hmem, hmem'⟩ := h.mem_placesOf_name hp hname
  rw [Search.exposed_eq_filter hmem, Search.exposed_eq_filter hmem']
  refine List.rel_filter ?_ (h.trail list hp hname)
  intro q q' hq
  simp only [h.isReported list hq.2 (by simp [hq.1, Kind.isRoutine])]

/-- The exposed names in paired expressions are paired, name by name as the expressions read them.
-/
theorem exposedIn (hp : R p p') :
    Forall₂ (fun q q' => q.kind = .name ∧ R q q')
      (Search.exposedIn t list p) (Search.exposedIn t' list p') := by
  have hreads : Forall₂ (fun q q' => q.kind = .name ∧ R q q') p.reads p'.reads :=
    (List.forall₂_and_left _ _).2 ⟨fun q hq => (reads_spec hq).2.1, h.reads hp⟩
  refine List.rel_flatMap hreads ?_
  intro q q' hq
  exact h.exposed list hq.2 hq.1

/-- The exposed names that paired `EXECUTE IMMEDIATE` statements run are paired. -/
theorem exposedByExecute (hp : R p p') :
    Forall₂ (fun q q' => q.kind = .name ∧ R q q')
      (Search.exposedByExecute t list p) (Search.exposedByExecute t' list p') := by
  have hsql : Option.Rel R p.executedSql? p'.executedSql? := by
    unfold executedSql?
    rw [← h.kind hp]
    split
    case isTrue hkind =>
      have hparts := h.children hp (by simp [hkind])
      exact rel_optionFilter (fun _ _ hq => by rw [h.kind hq]) (rel_head? hparts)
    case isFalse => exact .none
  unfold Search.exposedByExecute
  revert hsql
  generalize p.executedSql? = sql
  generalize p'.executedSql? = sql'
  intro hsql
  cases hsql with
  | none => exact .nil
  | some hsql => exact h.exposedIn list hsql

/-- The exposed names that paired `OPEN` statements run are paired. -/
theorem exposedByOpen (hp : R p p') :
    Forall₂ (fun q q' => q.kind = .name ∧ R q q')
      (Search.exposedByOpen t list p) (Search.exposedByOpen t' list p') := by
  have hsql : Option.Rel R p.openedSql? p'.openedSql? := by
    unfold openedSql?
    rw [← h.kind hp]
    split
    case isTrue hkind =>
      have hparts := h.children hp (by simp [hkind])
      exact rel_optionFilter (fun _ _ hq => by rw [h.kind hq]) (rel_head? (rel_tail hparts))
    case isFalse => exact .none
  unfold Search.exposedByOpen
  revert hsql
  generalize p.openedSql? = sql
  generalize p'.openedSql? = sql'
  intro hsql
  cases hsql with
  | none => exact .nil
  | some hsql => exact h.exposedIn list hsql

/-- What stands at and below two paired places is paired, but for bodies and
blocks. -/
theorem subtreeOf (hp : R p p') (wanted : Kind → Bool) (hbody : wanted .body = false)
    (hblock : wanted .anonymousBlock = false) :
    Forall₂ R (p.subtree.filter fun q => wanted q.kind) (p'.subtree.filter fun q => wanted q.kind) := by
  have hbelow := h.descendantsOf hp hbody hblock
  rw [subtree, subtree, List.filter_cons, List.filter_cons, ← h.kind hp]
  split
  · exact .cons hp hbelow
  · exact hbelow

/-- What two whole trees have of certain kinds is paired, if their roots are. -/
theorem placesOf (htop : R t.top t'.top) {wanted : Kind → Bool} (hbody : wanted .body = false)
    (hblock : wanted .anonymousBlock = false) :
    Forall₂ R (t.placesOf wanted) (t'.placesOf wanted) := by
  unfold Tree.placesOf
  rw [Tree.places_eq, Tree.places_eq]
  exact h.subtreeOf htop wanted hbody hblock

/-- **Paired sites are exposed to paired names**, both those that execute and those that open. -/
theorem exposures {sites sites' : List Place} (hsites : Forall₂ R sites sites') :
    Forall₂ (fun q q' => q.kind = .name ∧ R q q')
      (sites.flatMap fun site => if site.kind = .executeImmediate then
        Search.exposedByExecute t list site else Search.exposedByOpen t list site)
      (sites'.flatMap fun site => if site.kind = .executeImmediate then
        Search.exposedByExecute t' list site else Search.exposedByOpen t' list site) := by
  refine List.rel_flatMap hsites ?_
  intro site site' hsite
  dsimp only
  rw [← h.kind hsite]
  split
  · exact h.exposedByExecute list hsite
  · exact h.exposedByOpen list hsite

end Mirror

end PlsqlAudit
