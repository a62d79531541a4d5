import PlsqlAudit.Proofs.DottedText
import PlsqlAudit.Proofs.ExclusionPatterns

/-!
# Directories that are left out wherever they stand

The pattern `**/x/**` is tested on the text of a path, with `x` between two slashes or at
the front with a slash behind it.  Since a name has no slash in it, this is the same as to
ask whether the name is one of the pieces between the slashes of the path, the last piece
apart: what the last slash is followed by is the file and not a directory
(`Text.mem_dropLast_splitChars_iff`).  So the patterns that are always used leave out just
what is inside a directory for the code of others.
-/

namespace PlsqlAudit

namespace Text

variable {c : Char} {run cs : List Char}

/-- **Closed runs.**  A text without the character `c` is one of the runs that `c` closes
exactly where it has a `c` behind it, and a `c` or nothing in front. -/
theorem mem_dropLast_splitChars_iff (h : c ∉ run) :
    run ∈ (splitChars c cs).dropLast ↔ run ++ [c] <+: cs ∨ c :: run ++ [c] <:+: cs := by
  refine ⟨between_of_mem_dropLast, ?_⟩
  rintro (⟨back, rfl⟩ | ⟨front, back, rfl⟩)
  · have hcut : run ++ [c] ++ back = run ++ c :: back := by simp
    rw [hcut, splitChars_append, splitChars_of_not_mem h, List.singleton_append,
      List.dropLast_cons_of_ne_nil (splitChars_ne_nil c back)]
    exact List.mem_cons_self
  · have hcut : front ++ (c :: run ++ [c]) ++ back = front ++ c :: (run ++ c :: back) := by simp
    rw [hcut, splitChars_append, splitChars_append, splitChars_of_not_mem h, List.singleton_append,
      List.dropLast_append_of_ne_nil (List.cons_ne_nil _ _),
      List.dropLast_cons_of_ne_nil (splitChars_ne_nil c back)]
    exact List.mem_append_right _ List.mem_cons_self

/-- Whether a piece of a text is closed is read off its characters. -/
theorem mem_dropLast_split_iff {piece s : String} :
    piece ∈ (split c s).dropLast ↔ piece.toList ∈ (splitChars c s.toList).dropLast := by
  rw [split, ← List.map_dropLast, List.mem_map]
  constructor
  · rintro ⟨run, hrun, rfl⟩
    rwa [String.toList_ofList]
  · intro hpiece
    exact ⟨piece.toList, hpiece, String.ofList_toList⟩

end Text

namespace Exclusion

section

variable {part cs name path : List Char}

/-! ### Copies at the ends -/

theorem dropCopies_of_not_prefix (h : ¬ part <+: cs) : dropCopies part cs = cs := by
  rw [dropCopies.eq_def]
  split
  · rfl
  · rw [if_neg (by rwa [List.isPrefixOf_iff_prefix])]

theorem dropCopies_append (hne : part ≠ []) :
    dropCopies part (part ++ cs) = dropCopies part cs := by
  obtain ⟨c, others, rfl⟩ := List.exists_cons_of_ne_nil hne
  have hfront : (c :: others).isPrefixOf (c :: (others ++ cs)) = true := by simp
  rw [List.cons_append, dropCopies, if_pos hfront]
  simp

theorem dropEndCopies_of_not_suffix (h : ¬ part <:+ cs) : dropEndCopies part cs = cs := by
  rw [dropEndCopies, dropCopies_of_not_prefix (by rwa [List.reverse_prefix]), List.reverse_reverse]

theorem dropEndCopies_append (hne : part ≠ []) :
    dropEndCopies part (cs ++ part) = dropEndCopies part cs := by
  rw [dropEndCopies, List.reverse_append, dropCopies_append (by simpa using hne), ← dropEndCopies]

/-! ### A directory anywhere -/

/-- Between its stars a pattern names a directory. -/
theorem matchesChars_anywhere (hstar : '*' ∉ name) :
    matchesChars (['*', '*', '/'] ++ name ++ ['/', '*', '*']) path = hasDirectory name path := by
  have hfirst : ¬ ['*', '*', '/'] <+: name ++ ['/', '*', '*'] := by
    cases name with
    | nil => simp
    | cons c others =>
      rw [List.mem_cons, not_or] at hstar
      simp [hstar.1]
  have hlast : ¬ ['/', '*', '*'] <:+ name := fun hsuffix => hstar (hsuffix.subset (by simp))
  have hname : dropEndCopies ['/', '*', '*']
      (dropCopies ['*', '*', '/'] (['*', '*', '/'] ++ name ++ ['/', '*', '*'])) = name := by
    rw [List.append_assoc, dropCopies_append (by simp), dropCopies_of_not_prefix hfirst,
      dropEndCopies_append (by simp), dropEndCopies_of_not_suffix hlast]
  have hends : (['*', '*', '/'].isPrefixOf (['*', '*', '/'] ++ name ++ ['/', '*', '*']) &&
      ['/', '*', '*'].isSuffixOf (['*', '*', '/'] ++ name ++ ['/', '*', '*'])) = true := by
    rw [Bool.and_eq_true, List.isPrefixOf_iff_prefix, List.isSuffixOf_iff_suffix, List.append_assoc]
    exact ⟨List.prefix_append _ _, ⟨['*', '*', '/'] ++ name, by simp⟩⟩
  rw [matchesChars, if_pos hends, hname]

/-- A name is a directory of a path when it is one of its pieces, the last one apart. -/
theorem hasDirectory_iff (hslash : '/' ∉ name) :
    hasDirectory name path = true ↔ name ∈ (Text.splitChars '/' path).dropLast := by
  rw [hasDirectory, Bool.or_eq_true, Text.occursIn_iff, List.isPrefixOf_iff_prefix, or_comm,
    Text.mem_dropLast_splitChars_iff hslash]

end

theorem globMatches_anywhere_iff {name path : String} (hslash : '/' ∉ name.toList)
    (hstar : '*' ∉ name.toList) :
    globMatches ("**/" ++ name ++ "/**") path = true ↔ name ∈ (Text.split '/' path).dropLast := by
  have hpattern : ("**/" ++ name ++ "/**").toList =
      ['*', '*', '/'] ++ name.toList ++ ['/', '*', '*'] := by
    simp
  rw [globMatches, hpattern, matchesChars_anywhere hstar, hasDirectory_iff hslash,
    Text.mem_dropLast_split_iff]

/-- The names of directories for the code of others. -/
def foreignNames : List String := ["vendor", "third_party", "third-party", "node_modules"]

theorem defaultPatterns_eq :
    defaultPatterns = foreignNames.map fun name => "**/" ++ name ++ "/**" := by
  decide

theorem plain_of_mem_foreignNames {name : String} (h : name ∈ foreignNames) :
    '/' ∉ name.toList ∧ '*' ∉ name.toList := by
  revert name
  decide

/-- **A directory anywhere.**  The pattern `**/x/**` matches the paths that have `x` among
the pieces between their slashes, the last piece apart.  So without patterns of its own, a
project leaves out the paths that go through a directory for the code of others. -/
theorem globMatches_anywhere :
    (∀ name path : String, '/' ∉ name.toList → '*' ∉ name.toList →
      (globMatches ("**/" ++ name ++ "/**") path = true ↔
        name ∈ (Text.split '/' path).dropLast)) ∧
    ∀ (config : Config) (path : String), config.exclusion = {} →
      (config.excludes path = true ↔
        ∃ name ∈ foreignNames,
          name ∈ (Text.split '/' (Text.replaceChar '\\' '/' path)).dropLast) := by
  refine ⟨fun name path => globMatches_anywhere_iff, ?_⟩
  intro config path hdefault
  rw [Config.excludes_iff, hdefault, defaultPatterns_eq]
  constructor
  · rintro ⟨pattern, hpattern, hmatches⟩
    have hmem : pattern ∈ foreignNames.map fun name => "**/" ++ name ++ "/**" := by
      simpa using hpattern
    obtain ⟨name, hname, rfl⟩ := List.mem_map.1 hmem
    obtain ⟨hslash, hstar⟩ := plain_of_mem_foreignNames hname
    exact ⟨name, hname, (globMatches_anywhere_iff hslash hstar).1 hmatches⟩
  · rintro ⟨name, hname, hpiece⟩
    obtain ⟨hslash, hstar⟩ := plain_of_mem_foreignNames hname
    exact ⟨_, .inr ⟨rfl, List.mem_map_of_mem hname⟩,
      (globMatches_anywhere_iff hslash hstar).2 hpiece⟩

/-- A directory behind a doubled slash counts, and the file at the end does not. -/
theorem globMatches_anywhere_of_vendor :
    '/' ∉ "vendor".toList ∧ '*' ∉ "vendor".toList ∧
      globMatches ("**/" ++ "vendor" ++ "/**") "/db//vendor/" = true ∧
      ¬ globMatches ("**/" ++ "vendor" ++ "/**") "db/vendor" = true ∧
      ({} : Config).excludes "db\\third-party\\api.pkb" = true ∧
      ¬ ({} : Config).excludes "db/my_vendor/node_modules" = true := by
  obtain ⟨hmatches, hexcludes⟩ := globMatches_anywhere
  have hslash : '/' ∉ "vendor".toList := by decide
  have hstar : '*' ∉ "vendor".toList := by decide
  refine ⟨hslash, hstar, ?_, ?_, ?_, ?_⟩
  · exact (hmatches "vendor" _ hslash hstar).2 (by decide)
  · exact fun h => absurd ((hmatches "vendor" _ hslash hstar).1 h) (by decide)
  · exact (hexcludes {} _ rfl).2 (by decide)
  · exact fun h => absurd ((hexcludes {} _ rfl).1 h) (by decide)

end Exclusion

end PlsqlAudit
