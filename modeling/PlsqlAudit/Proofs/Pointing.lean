import PlsqlAudit.Detection.Injection
import PlsqlAudit.Proofs.ProgramSpelling
import PlsqlAudit.Proofs.Routines
import PlsqlAudit.Proofs.SearchAccount

/-!
# Findings point at what they name

A finding reports a name that a search came to, at the span of that name.  Spans
of names start at the token of an identifier and end with a token, so the range
of a finding is a piece of the text, with the line and column where it starts; and
a search reports only names that a parameter of the routine around them has.
-/

namespace PlsqlAudit

/-! ### What is reported -/

namespace Search

variable {t : Tree} {list : AllowList}

/-- What a search reports are names of the tree that mean parameters. -/
theorem exposed_spec {seed p : Place} (hseed : seed ∈ t.placesOf (· == .name))
    (hp : p ∈ exposed t list seed) :
    p ∈ t.placesOf (· == .name) ∧ t.isParameter p = true := by
  rw [exposed_eq_filter hseed, List.mem_filter, isReported, isExposed] at hp
  simp only [Bool.and_eq_true] at hp
  exact ⟨trail_subset hseed hp.1, hp.2.2.1⟩

theorem exposedIn_spec {expr p : Place} (hexpr : expr ∈ t.places)
    (hp : p ∈ exposedIn t list expr) :
    p ∈ t.placesOf (· == .name) ∧ t.isParameter p = true := by
  obtain ⟨seed, hseed, hp⟩ := List.mem_flatMap.1 hp
  exact exposed_spec (Tree.reads_subset hexpr hseed) hp

end Search

theorem Place.executedSql?_mem_children {site sql : Place} (h : site.executedSql? = some sql) :
    sql ∈ site.children := by
  unfold executedSql? at h
  split at h
  · exact List.mem_of_mem_head? (Option.filter_eq_some_iff.1 h).1
  · simp at h

theorem Place.openedSql?_mem_children {site sql : Place} (h : site.openedSql? = some sql) :
    sql ∈ site.children := by
  unfold openedSql? at h
  split at h
  · exact List.mem_of_mem_tail (List.mem_of_mem_head? (Option.filter_eq_some_iff.1 h).1)
  · simp at h

theorem Tree.exposures_spec {t : Tree} {list : AllowList} {p : Place}
    (hp : p ∈ t.exposures list) : p ∈ t.placesOf (· == .name) ∧ t.isParameter p = true := by
  obtain ⟨site, hsite, hp⟩ := List.mem_flatMap.1 hp
  have hplace := (mem_placesOf.1 hsite).1
  split at hp
  · cases hsql : site.executedSql? with
    | none => simp [Search.exposedByExecute, hsql] at hp
    | some sql =>
      simp only [Search.exposedByExecute, hsql] at hp
      exact Search.exposedIn_spec
        (children_subset_places hplace (Place.executedSql?_mem_children hsql)) hp
  · cases hsql : site.openedSql? with
    | none => simp [Search.exposedByOpen, hsql] at hp
    | some sql =>
      simp only [Search.exposedByOpen, hsql] at hp
      exact Search.exposedIn_spec
        (children_subset_places hplace (Place.openedSql?_mem_children hsql)) hp

/-- A name that means a parameter has the key of one of the nearest routine. -/
theorem Tree.LaidOut.hasParameter {t : Tree} {p : Place} (hlaid : t.LaidOut) (hp : p ∈ t.places)
    (h : t.isParameter p = true) :
    ∃ routine, p.ancestor? Kind.isRoutine = some routine ∧
      ∃ parameter, t.HasParameter routine (t.nameKey p) parameter := by
  rw [isParameter, Bool.and_eq_true, Bool.and_eq_true] at h
  obtain ⟨routine, hroutine, hany⟩ := (Option.any_eq_true _ _).1 h.2
  have hnearest := Place.ancestor?_of_routine? hroutine
  have hmem := (ancestors_spec hp (List.mem_of_find?_eq_some hnearest)).1
  exact ⟨routine, hnearest, (hlaid.any_isParameterOf hmem).1 hany⟩

/-! ### Names in the text -/

/-- A name starts at the lexeme of an identifier. -/
theorem Tree.name_covers {source : String} {t : Tree} {p : Place} (hparse : parse source = .ok t)
    (hp : p ∈ t.placesOf (· == .name)) :
    ∃ before first after, Lexeme.lexemes source.toList = (before ++ first :: after, none) ∧
      (first.kind = .token .word ∨ first.kind = .token .quotedIdent) ∧
      ∃ more rest, p.span.Covers source (Lexeme.join before) (first.text ++ more) rest := by
  obtain ⟨hplace, hkind⟩ := mem_placesOf.1 hp
  have hname : p.kind = .name := by simpa using hkind
  obtain ⟨-, hroot, -⟩ := parse_spells hparse
  have hbelow : p ∈ t.top.descendants := by
    rcases mem_places.1 hplace with rfl | hbelow
    · have htop : t.root.kind = .name := hname
      simp [hroot] at htop
    · exact hbelow
  obtain ⟨tokens, htokens, hspelled⟩ := spelled_of_parse hparse hbelow
  rcases hspelled with ⟨us, hus, htakes⟩ | ⟨token, -, hleaf⟩
  · obtain ⟨before, first, after, hlexemes, ⟨token, hhead, hfirst⟩, hcovers⟩ :=
      htakes.fits.spans.covers hus htokens
    obtain ⟨token', hhead', hidentifier⟩ := htakes.fits.named hname
    obtain rfl : token = token' := Option.some.inj (hhead.symm.trans hhead')
    refine ⟨before, first, after, hlexemes, ?_, hcovers⟩
    rw [hfirst]
    cases hcase : token.kind <;> simp [hcase, TokenKind.isIdentifier] at hidentifier ⊢
  · simp [Place.kind, hleaf, Node.leaf, Node.kind] at hname

/-! ### Findings -/

/-- What a finding in the text `source` points at: a name of its tree. -/
structure Finding.PointsAt (f : Finding) (source : String) (t : Tree) (name : Place) : Prop where
  isName : name ∈ t.placesOf (· == .name)
  span : name.span.offset = f.offset ∧ name.span.length = f.length ∧
    name.span.line.toNat = f.line ∧ name.span.column.toNat = f.column
  /-- The range is a piece of the text, the one that the finding quotes.  It starts
  at the lexeme of an identifier, so inside no comment and no literal.  In a text whose
  characters can be counted in 32 bits, its line and column are those of that lexeme. -/
  range : ∃ before first after, Lexeme.lexemes source.toList = (before ++ first :: after, none) ∧
    (first.kind = .token .word ∨ first.kind = .token .quotedIdent) ∧
    ∃ more rest, f.data = String.ofList (first.text ++ more) ∧
      name.span.Covers source (Lexeme.join before) (first.text ++ more) rest ∧
      (source.length < 2 ^ 32 - 1 → f.line = 1 + (Lexeme.join before).count '\n' ∧
        f.column = 1 + ((Lexeme.join before).reverse.takeWhile (· != '\n')).length)
  /-- The nearest routine has a parameter of that name that can carry text. -/
  parameter : ∃ routine, name.ancestor? Kind.isRoutine = some routine ∧
    ∃ parameter, t.HasParameter routine (nameKey f.data) parameter

namespace Injection

/-- **Findings point at what they name.**  Whatever the detector finds in a text
that parses stands at a name in the text, and is quoted as it is written there;
the name is that of a parameter of the nearest routine. -/
theorem finding_pointsAt (list : AllowList) (limit : Option Nat) {path source : String}
    {unit : SourceUnit} {findings : List Finding} {f : Finding}
    (hunit : SourceUnit.ofSource path source = .ok unit)
    (hfindings : (detector list limit).detect unit = .ok findings) (hf : f ∈ findings) :
    ∃ name, f.PointsAt source unit.tree name := by
  obtain ⟨t, hparse, rfl⟩ : ∃ t, parse source = .ok t ∧ unit = ⟨path, t⟩ := by
    cases hparse : parse source with
    | error cause => simp [SourceUnit.ofSource, hparse] at hunit
    | ok t =>
      simp only [SourceUnit.ofSource, hparse, Except.ok.injEq] at hunit
      exact ⟨t, rfl, hunit.symm⟩
  obtain rfl : Injection.findings list ⟨path, t⟩ = findings := Except.ok.inj hfindings
  obtain ⟨p, hp, rfl⟩ := List.mem_map.1 hf
  obtain ⟨hname, hparameter⟩ := Tree.exposures_spec hp
  obtain ⟨hsource, -⟩ := parse_spells hparse
  refine ⟨p, hname, ⟨rfl, rfl, rfl, rfl⟩, ?_, ?_⟩
  · obtain ⟨before, first, after, hlexemes, hfirst, more, rest, hcovers⟩ :=
      Tree.name_covers hparse hname
    refine ⟨before, first, after, hlexemes, hfirst, more, rest, ?_, hcovers, fun hshort => ?_⟩
    · rw [← hcovers.text_eq, ← hsource]
      rfl
    · exact hcovers.exact hshort
  · exact (Tree.laidOut_of_parse hparse).hasParameter (Tree.mem_placesOf.1 hname).1 hparameter

/-- A finding on the second line of a text, after a character of two bytes. -/
theorem finding_pointsAt_of_second_line : ∃ unit findings f,
    SourceUnit.ofSource "a.sql"
        "CREATE PROCEDURE p(x CHAR) IS BEGIN EXECUTE IMMEDIATE 'é'\n||\"X\"; END;" = .ok unit ∧
      (detector AllowList.standard none).detect unit = .ok findings ∧ f ∈ findings ∧
      f.data = "\"X\"" ∧ f.offset = 61 ∧ f.line = 2 ∧ f.column = 3 ∧
      ∃ name, f.PointsAt
        "CREATE PROCEDURE p(x CHAR) IS BEGIN EXECUTE IMMEDIATE 'é'\n||\"X\"; END;" unit.tree name := by
  obtain ⟨t, hparse, htest⟩ := exists_parse
    "CREATE PROCEDURE p(x CHAR) IS BEGIN EXECUTE IMMEDIATE 'é'\n||\"X\"; END;"
    (fun t => (t.exposures AllowList.standard).head?.any fun p =>
      t.text p == "\"X\"" && p.span == ⟨61, 3, 2, 3⟩) (by decide +kernel)
  obtain ⟨p, hfirst, hp⟩ := (Option.any_eq_true _ _).1 htest
  rw [Bool.and_eq_true, beq_iff_eq, beq_iff_eq] at hp
  have hunit : SourceUnit.ofSource "a.sql"
      "CREATE PROCEDURE p(x CHAR) IS BEGIN EXECUTE IMMEDIATE 'é'\n||\"X\"; END;" =
        .ok ⟨"a.sql", t⟩ := by
    rw [SourceUnit.ofSource, hparse]
  have hf : finding ⟨"a.sql", t⟩ p ∈ findings AllowList.standard ⟨"a.sql", t⟩ :=
    List.mem_map_of_mem (List.mem_of_mem_head? hfirst)
  refine ⟨_, _, _, hunit, rfl, hf, hp.1, ?_, ?_, ?_,
    finding_pointsAt AllowList.standard none hunit rfl hf⟩
  · exact congrArg Span.offset hp.2
  · exact congrArg (fun span => span.line.toNat) hp.2
  · exact congrArg (fun span => span.column.toNat) hp.2

end Injection

end PlsqlAudit
