import Mathlib.Data.List.DropRight
import PlsqlAudit.Project.Config

/-!
# What a pattern with stars excludes

A pattern is cut at its stars, and a path is tested against the pieces.  The tests do not
know of each other, nor of where the directories of a path end.

The slash in front of two stars is dropped before the test.  So a directory with `/**`
behind it stands for all paths that begin with its name: for what is inside it, but also
for its own path and for neighbours with a longer name (`Exclusion.globMatches_directory`).

The pieces around a single star are tested one by one, in front and at the end of the path.
So they may share a part of it (`Exclusion.Overlap`), and in a path that is shorter than
both together they do (`Exclusion.globMatches_single`).
-/

namespace PlsqlAudit

namespace Exclusion

variable {c : Char}

section

variable {mark front dir before after path : List Char}

/-! ### Cutting -/

theorem cutAt?_eq_none (h : mark ≠ []) : cutAt? mark path = none ↔ ¬ mark <:+: path := by
  induction path with
  | nil => simp [cutAt?, h]
  | cons c path ih =>
    rw [cutAt?, List.infix_cons_iff, ← List.isPrefixOf_iff_prefix]
    by_cases hfront : mark.isPrefixOf (c :: path) = true
    · simp [hfront]
    · rw [if_neg hfront, Option.map_eq_none_iff, ih]
      simp [hfront]

/-- What has not the first character of the mark in front is cut at the first mark. -/
theorem cutAt?_append (mark rest : List Char) (h : c ∉ front) :
    cutAt? (c :: mark) (front ++ (c :: mark ++ rest)) = some (front, rest) := by
  induction front with
  | nil => simp [cutAt?]
  | cons d front ih =>
    rw [List.mem_cons, not_or] at h
    have hfront : (c :: mark).isPrefixOf (d :: (front ++ (c :: mark ++ rest))) = false := by
      simp [List.isPrefixOf, h.1]
    rw [List.cons_append, cutAt?, hfront, if_neg (by simp), ih h.2]
    rfl

/-! ### A directory -/

/-- A directory with `/**` behind it matches what begins with its name. -/
theorem matchesChars_directory (hne : dir ≠ []) (hstar : '*' ∉ dir)
    (hslash : dir.getLast? ≠ some '/') :
    matchesChars (dir ++ ['/', '*', '*']) path = dir.isPrefixOf path := by
  have hfirst : ['*', '*', '/'].isPrefixOf (dir ++ ['/', '*', '*']) = false := by
    obtain ⟨d, others, rfl⟩ := List.exists_cons_of_ne_nil hne
    rw [List.mem_cons, not_or] at hstar
    simp [List.isPrefixOf, hstar.1]
  have hcut : cutAt? ['*', '*'] (dir ++ ['/', '*', '*']) = some (dir ++ ['/'], []) := by
    have hfront : '*' ∉ dir ++ ['/'] := by simp [hstar]
    simpa using cutAt?_append ['*'] [] hfront
  have hname : Text.dropEndWhile (· == '/') (dir ++ ['/']) = dir := by
    change List.rdropWhile (· == '/') (dir ++ ['/']) = dir
    rw [List.rdropWhile_concat_pos _ _ _ (by simp), List.rdropWhile_eq_self_iff]
    intro hdir hlast
    rw [List.getLast?_eq_some_getLast hdir] at hslash
    simp_all
  rw [matchesChars, hfirst, Bool.false_and, if_neg (by simp), hcut]
  simp [matchesAround, hname, cutAt?]

/-! ### A single star -/

/-- A star with no other beside it is where a pattern is cut. -/
theorem matchesChars_single (hbefore : '*' ∉ before) (hafter : '*' ∉ after) :
    matchesChars (before ++ '*' :: after) path =
      (before.isPrefixOf path && after.isSuffixOf path) := by
  have hpair : ¬ ['*', '*'] <:+: before ++ '*' :: after := by
    intro hpair
    have hcount := hpair.sublist.count_le '*'
    simp [List.count_eq_zero.2 hbefore, List.count_eq_zero.2 hafter] at hcount
  have hfirst : ['*', '*', '/'].isPrefixOf (before ++ '*' :: after) = false := by
    rw [Bool.eq_false_iff, ne_eq, List.isPrefixOf_iff_prefix]
    intro hprefix
    exact hpair (((List.prefix_append ['*', '*'] ['/']).trans hprefix).isInfix)
  rw [matchesChars, hfirst, Bool.false_and, if_neg (by simp), (cutAt?_eq_none (by simp)).2 hpair]
  dsimp only
  rw [show before ++ '*' :: after = before ++ (['*'] ++ after) from rfl,
    cutAt?_append [] after hbefore]

/-- Two pieces in front of a path and at its end either leave something between them, or
share a part of it. -/
theorem prefix_and_suffix_iff : before <+: path ∧ after <:+ path ↔
    (∃ middle, path = before ++ middle ++ after) ∨
      ∃ front shared back, shared ≠ [] ∧ before = front ++ shared ∧ after = shared ++ back ∧
        path = front ++ shared ++ back := by
  constructor
  · rintro ⟨⟨rest, rfl⟩, ⟨lead, hlead⟩⟩
    rcases List.append_eq_append_iff.1 hlead with ⟨shared, hbefore, hafter⟩ | ⟨middle, hlead, hrest⟩
    · by_cases hshared : shared = []
      · left
        exact ⟨[], by simp_all⟩
      · right
        exact ⟨lead, shared, rest, hshared, hbefore, hafter, by rw [hbefore]⟩
    · left
      exact ⟨middle, by rw [hrest, List.append_assoc]⟩
  · rintro (⟨middle, rfl⟩ | ⟨front, shared, back, -, rfl, rfl, rfl⟩)
    · exact ⟨⟨middle ++ after, by simp⟩, ⟨before ++ middle, rfl⟩⟩
    · exact ⟨⟨back, rfl⟩, ⟨front, by simp⟩⟩

end

/-! ### Texts -/

theorem toList_surjective : Function.Surjective String.toList :=
  fun cs => ⟨String.ofList cs, String.toList_ofList⟩

theorem exists_eq_append {whole piece : String} :
    (∃ rest, whole = piece ++ rest) ↔ piece.toList <+: whole.toList := by
  simp only [List.IsPrefix, toList_surjective.exists, ← String.toList_inj, String.toList_append,
    eq_comm]

/-- A path is laid over by two pieces, of which the first ends with what the second begins
with. -/
def Overlap (before after path : String) : Prop :=
  ∃ front shared back, shared ≠ "" ∧ before = front ++ shared ∧ after = shared ++ back ∧
    path = front ++ shared ++ back

end Exclusion

/-- The patterns in force are the project's own and, unless they are switched off, those
that are always used. -/
theorem ExclusionSettings.mem_patterns {settings : ExclusionSettings} {pattern : String} :
    pattern ∈ settings.patterns ↔ pattern ∈ settings.paths ∨
      settings.skipDefaults = false ∧ pattern ∈ Exclusion.defaultPatterns := by
  have hfold (patterns : List String) :
      pattern ∈ settings.paths.foldl
          (fun patterns path => if patterns.contains path then patterns else patterns ++ [path])
          patterns ↔ pattern ∈ settings.paths ∨ pattern ∈ patterns := by
    induction settings.paths generalizing patterns with
    | nil => simp
    | cons path paths ih =>
      rw [List.foldl_cons, ih]
      by_cases hpath : patterns.contains path = true
      · rw [if_pos hpath]
        grind
      · rw [if_neg hpath]
        grind
  rw [patterns, hfold]
  cases settings.skipDefaults <;> simp

theorem Config.excludes_iff {config : Config} {path : String} :
    config.excludes path = true ↔ ∃ pattern, (pattern ∈ config.exclusion.paths ∨
      config.exclusion.skipDefaults = false ∧ pattern ∈ Exclusion.defaultPatterns) ∧
        Exclusion.globMatches pattern (Text.replaceChar '\\' '/' path) = true := by
  rw [excludes, List.any_eq_true]
  simp only [ExclusionSettings.mem_patterns]

namespace Exclusion

theorem globMatches_directory_iff {dir path : String} (hne : dir ≠ "") (hstar : '*' ∉ dir.toList)
    (hslash : dir.toList.getLast? ≠ some '/') :
    globMatches (dir ++ "/**") path = true ↔ ∃ rest, path = dir ++ rest := by
  have hpattern : (dir ++ "/**").toList = dir.toList ++ ['/', '*', '*'] := by simp
  rw [globMatches, hpattern, matchesChars_directory (by simpa using hne) hstar hslash,
    List.isPrefixOf_iff_prefix, exists_eq_append]

/-- **A directory with `/**` behind it stands for all that begins with its name.**  So it
excludes what is inside the directory, and nothing else, just as long as no path goes on
with anything but a slash behind the name, or ends there.  This is all that such a pattern
adds to the patterns that are always used. -/
theorem globMatches_directory {dir : String} (hne : dir ≠ "") (hstar : '*' ∉ dir.toList)
    (hslash : dir.toList.getLast? ≠ some '/') :
    (∀ path, globMatches (dir ++ "/**") path = true ↔ ∃ rest, path = dir ++ rest) ∧
      (∀ path, (globMatches (dir ++ "/**") path = true ↔ ∃ rest, path = dir ++ "/" ++ rest) ↔
        ∀ rest, path = dir ++ rest → ∃ inside, rest = "/" ++ inside) ∧
      ∀ (config : Config) (path : String), config.exclusion.paths = [dir ++ "/**"] →
        (config.excludes path = true ↔
          (∃ rest, Text.replaceChar '\\' '/' path = dir ++ rest) ∨
            config.exclusion.skipDefaults = false ∧ ∃ pattern ∈ defaultPatterns,
              globMatches pattern (Text.replaceChar '\\' '/' path) = true) := by
  refine ⟨fun path => globMatches_directory_iff hne hstar hslash, ?_, ?_⟩
  · intro path
    rw [globMatches_directory_iff hne hstar hslash]
    constructor
    · intro hiff rest hrest
      obtain ⟨inside, hinside⟩ := hiff.1 ⟨rest, hrest⟩
      rw [hrest, String.append_assoc, String.append_right_inj] at hinside
      exact ⟨inside, hinside⟩
    · intro hslashed
      constructor
      · rintro ⟨rest, hrest⟩
        obtain ⟨inside, rfl⟩ := hslashed rest hrest
        exact ⟨inside, by rw [hrest, String.append_assoc]⟩
      · rintro ⟨inside, hinside⟩
        exact ⟨"/" ++ inside, by rw [hinside, String.append_assoc]⟩
  · intro config path hpaths
    rw [Config.excludes_iff, hpaths]
    simp only [List.mem_singleton, or_and_right, exists_or, exists_eq_left,
      globMatches_directory_iff hne hstar hslash, and_assoc, exists_and_left]

/-- A file inside the directory is excluded, also where its path is written with a
backslash. -/
theorem globMatches_directory_of_generated :
    "generated" ≠ "" ∧ '*' ∉ "generated".toList ∧ "generated".toList.getLast? ≠ some '/' ∧
      globMatches ("generated" ++ "/**") "generated/api.pkb" = true ∧
      ({ exclusion := { paths := ["generated" ++ "/**"] } } : Config).excludes
        "generated\\api.pkb" = true := by
  obtain ⟨hmatches, -, hexcludes⟩ :=
    @globMatches_directory "generated" (by decide) (by decide) (by decide)
  refine ⟨by decide, by decide, by decide, (hmatches _).2 ⟨"/api.pkb", rfl⟩, ?_⟩
  exact (hexcludes _ _ rfl).2 (.inl ⟨"/api.pkb", by decide⟩)

/-- **A neighbour with a longer name is excluded too.** -/
theorem neighbour_excluded :
    "generated" ≠ "" ∧ '*' ∉ "generated".toList ∧ "generated".toList.getLast? ≠ some '/' ∧
      ¬ (globMatches ("generated" ++ "/**") "generated_old/a.sql" = true ↔
        ∃ rest, "generated_old/a.sql" = "generated" ++ "/" ++ rest) ∧
      ({ exclusion := { paths := ["generated" ++ "/**"] } } : Config).excludes
        "generated_old/a.sql" = true := by
  have hmatches : globMatches ("generated" ++ "/**") "generated_old/a.sql" = true :=
    (globMatches_directory_iff (by decide) (by decide) (by decide)).2 ⟨"_old/a.sql", rfl⟩
  have hreplaced : Text.replaceChar '\\' '/' "generated_old/a.sql" = "generated_old/a.sql" := by
    decide
  refine ⟨by decide, by decide, by decide, ?_, ?_⟩
  · intro honlyInside
    have hinside := exists_eq_append.1 (honlyInside.1 hmatches)
    rw [← List.isPrefixOf_iff_prefix] at hinside
    exact absurd hinside (by decide)
  · exact Config.excludes_iff.2 ⟨_, .inl List.mem_cons_self, hreplaced.symm ▸ hmatches⟩

theorem globMatches_single_iff {before after path : String} (hbefore : '*' ∉ before.toList)
    (hafter : '*' ∉ after.toList) :
    globMatches (before ++ "*" ++ after) path = true ↔
      (∃ middle, path = before ++ middle ++ after) ∨ Overlap before after path := by
  have hpattern : (before ++ "*" ++ after).toList = before.toList ++ '*' :: after.toList := by simp
  rw [globMatches, hpattern, matchesChars_single hbefore hafter, Bool.and_eq_true,
    List.isPrefixOf_iff_prefix, List.isSuffixOf_iff_suffix, prefix_and_suffix_iff]
  simp only [Overlap, toList_surjective.exists, ← String.toList_inj, String.toList_append,
    String.toList_empty, ne_eq]

/-- A path that two pieces lay over has no room for both. -/
theorem Overlap.not_apart {before after path : String} (h : Overlap before after path) :
    ¬ ∃ middle, path = before ++ middle ++ after := by
  obtain ⟨front, shared, back, hshared, rfl, rfl, rfl⟩ := h
  rintro ⟨middle, hmiddle⟩
  have hlength := congrArg String.length hmiddle
  simp only [String.length_append] at hlength
  have hpos : shared.length ≠ 0 := by simpa using hshared
  omega

/-- **A single star matches by what stands in front of it and behind it, each for itself.**
So it stands for any text between the two, unless the first ends with what the second begins
with: then it also matches where they share that part. -/
theorem globMatches_single {before after : String} (hbefore : '*' ∉ before.toList)
    (hafter : '*' ∉ after.toList) :
    (∀ path, globMatches (before ++ "*" ++ after) path = true ↔
        (∃ middle, path = before ++ middle ++ after) ∨ Overlap before after path) ∧
      ((∀ path, globMatches (before ++ "*" ++ after) path = true ↔
          ∃ middle, path = before ++ middle ++ after) ↔
        ¬ ∃ path, Overlap before after path) := by
  refine ⟨fun path => globMatches_single_iff hbefore hafter, ?_⟩
  constructor
  · rintro honlyApart ⟨path, hoverlap⟩
    have hmatches := (globMatches_single_iff hbefore hafter).2 (.inr hoverlap)
    exact hoverlap.not_apart ((honlyApart path).1 hmatches)
  · intro hnone path
    rw [globMatches_single_iff hbefore hafter, or_iff_left fun hoverlap => hnone ⟨path, hoverlap⟩]

/-- With two dots in the path something may stand between them; with one they share it. -/
theorem globMatches_single_of_dots :
    '*' ∉ "gen.".toList ∧ '*' ∉ ".sql".toList ∧
      globMatches ("gen." ++ "*" ++ ".sql") "gen.api.sql" = true ∧
      globMatches ("gen." ++ "*" ++ ".sql") "gen.sql" = true := by
  obtain ⟨hmatches, -⟩ := @globMatches_single "gen." ".sql" (by decide) (by decide)
  exact ⟨by decide, by decide, (hmatches _).2 (.inl ⟨"api", rfl⟩),
    (hmatches _).2 (.inr ⟨"gen", ".", "sql", by decide, rfl, rfl, rfl⟩)⟩

/-- **One dot is matched as two.** -/
theorem shared_dot_matched :
    '*' ∉ "gen.".toList ∧ '*' ∉ ".sql".toList ∧
      ¬ (globMatches ("gen." ++ "*" ++ ".sql") "gen.sql" = true ↔
        ∃ middle, "gen.sql" = "gen." ++ middle ++ ".sql") := by
  have hoverlap : Overlap "gen." ".sql" "gen.sql" := ⟨"gen", ".", "sql", by decide, rfl, rfl, rfl⟩
  refine ⟨by decide, by decide, fun honlyApart => ?_⟩
  exact hoverlap.not_apart
    (honlyApart.1 ((globMatches_single_iff (by decide) (by decide)).2 (.inr hoverlap)))

end Exclusion

end PlsqlAudit
