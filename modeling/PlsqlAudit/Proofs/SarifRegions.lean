import Mathlib.Data.List.DropRight
import PlsqlAudit.Proofs.DottedText
import PlsqlAudit.Proofs.Pointing
import PlsqlAudit.Report.Sarif

/-!
# Where a SARIF region points

A region points at a stretch of a file twice: by a line with two columns, and by an offset
with a length.  Columns count characters, and the end column is counted on by the characters
of the text that the finding quotes.  So on its line a region spells that text, as long as
there is no line break in it (`Sarif.Region.spelling?_of_covers`).

The offset and the length are those of the finding, which count bytes.  They are numbers of
characters exactly where every character is a single byte (`Text.utf8Len_eq_length_iff`):
the offset if the text is ASCII up to there, the length if the name is.
-/

namespace PlsqlAudit

namespace Text

variable {c : Char} {cs run : List Char}

/-! ### Lines -/

theorem length_splitChars (c : Char) (cs : List Char) :
    (splitChars c cs).length = cs.count c + 1 := by
  induction cs with
  | nil => rfl
  | cons d cs ih =>
    by_cases hd : d = c
    · simp [splitChars, hd, ih]
    · obtain ⟨run, runs, hruns⟩ := List.exists_cons_of_ne_nil (splitChars_ne_nil c cs)
      rw [splitChars_cons_of_ne hd hruns, List.count_cons_of_ne hd, ← ih, hruns]
      rfl

/-- What stands in front of a text and is not cut belongs to the first run. -/
theorem splitChars_append_of_not_mem {first : List Char} {runs : List (List Char)} (h : c ∉ run)
    (hcs : splitChars c cs = first :: runs) :
    splitChars c (run ++ cs) = (run ++ first) :: runs := by
  induction run with
  | nil => exact hcs
  | cons d run ih =>
    rw [List.mem_cons, not_or] at h
    exact splitChars_cons_of_ne (Ne.symm h.1) (ih h.2)

theorem not_mem_rtakeWhile (c : Char) (cs : List Char) : c ∉ cs.rtakeWhile (· != c) := by
  intro h
  simpa using List.mem_rtakeWhile_imp h

/-- In front of the end of a text that is not cut there is a cut, or nothing. -/
theorem eq_rtakeWhile_or (c : Char) (cs : List Char) :
    cs = cs.rtakeWhile (· != c) ∨ ∃ front, cs = front ++ c :: cs.rtakeWhile (· != c) := by
  have hcut : cs.rdropWhile (· != c) ++ cs.rtakeWhile (· != c) = cs :=
    List.rdropWhile_append_rtakeWhile
  by_cases hfront : cs.rdropWhile (· != c) = []
  · left
    rw [hfront, List.nil_append] at hcut
    exact hcut.symm
  · right
    have hlast : (cs.rdropWhile (· != c)).getLast hfront = c := by
      simpa using List.rdropWhile_last_not (· != c) cs hfront
    refine ⟨(cs.rdropWhile (· != c)).dropLast, ?_⟩
    nth_rewrite 1 [← hcut, ← List.dropLast_append_getLast hfront, hlast]
    simp

/-- The run that a place of a text is in has as many cuts in front of it as the place, and
begins with what stands between the last of them and the place. -/
theorem getElem?_splitChars (before : List Char) {first : List Char} {runs : List (List Char)}
    (hcs : splitChars c cs = first :: runs) :
    (splitChars c (before ++ cs))[before.count c]? =
      some (before.rtakeWhile (· != c) ++ first) := by
  have hrun := not_mem_rtakeWhile c before
  have hlast := splitChars_append_of_not_mem hrun hcs
  rcases eq_rtakeWhile_or c before with hbefore | ⟨front, hbefore⟩
  · have hcount : before.count c = 0 := List.count_eq_zero.2 (hbefore ▸ hrun)
    rw [← hbefore] at hlast ⊢
    rw [hcount, hlast]
    rfl
  · have hcount : before.count c = (splitChars c front).length := by
      rw [hbefore, length_splitChars, List.count_append, List.count_cons_self,
        List.count_eq_zero.2 hrun]
    rw [hcount]
    nth_rewrite 1 [hbefore]
    rw [List.append_assoc, List.cons_append, splitChars_append, hlast,
      List.getElem?_append_right (Nat.le_refl _)]
    simp

/-! ### Bytes -/

theorem utf8Size_eq_one_iff : c.utf8Size = 1 ↔ c.toNat < 128 := by
  rw [Char.utf8Size_eq_one_iff, UInt32.le_iff_toNat_le]
  exact Nat.lt_succ_iff.symm

theorem length_le_utf8Len (cs : List Char) : cs.length ≤ String.utf8Len cs := by
  induction cs with
  | nil => simp
  | cons c cs ih =>
    have hpos := c.utf8Size_pos
    rw [List.length_cons, String.utf8Len_cons]
    omega

/-- A text has as many bytes as characters exactly if it is ASCII. -/
theorem utf8Len_eq_length_iff :
    String.utf8Len cs = cs.length ↔ ∀ c ∈ cs, c.toNat < 128 := by
  induction cs with
  | nil => simp
  | cons c cs ih =>
    have hle := length_le_utf8Len cs
    have hpos := c.utf8Size_pos
    rw [List.forall_mem_cons, ← ih, ← utf8Size_eq_one_iff, String.utf8Len_cons, List.length_cons]
    omega

theorem utf8ByteSize_eq_length_iff {s : String} :
    s.utf8ByteSize = s.length ↔ ∀ c ∈ s.toList, c.toNat < 128 := by
  rw [← utf8Len_eq_length_iff, String.length_toList, ← String.utf8ByteSize_ofList,
    String.ofList_toList]

end Text

/-! ### Regions -/

/-- The column of a span is counted from the last line break in front of it. -/
theorem Span.Covers.column_eq {span : Span} {source : String} {before middle after : List Char}
    (h : span.Covers source before middle after) (hshort : source.length < 2 ^ 32 - 1) :
    span.column.toNat = 1 + (before.rtakeWhile (· != '\n')).length := by
  rw [List.rtakeWhile, List.length_reverse]
  exact h.toNat_column hshort

namespace Sarif.Region

/-- What stands on the line of a region from its first column on and up to its end. -/
def spelling? (region : Region) (source : String) : Option String :=
  (Text.split '\n' source)[region.startLine - 1]?.map fun line => String.ofList
    ((line.toList.drop (region.startColumn - 1)).take (region.endColumn - region.startColumn))

/-- On its line, a region spells what its finding quotes. -/
theorem spelling?_of_line {f : Finding} {source : String} {before after : List Char}
    (hsource : source.toList = before ++ f.data.toList ++ after)
    (hnumber : f.line = 1 + before.count '\n')
    (hcolumn : f.column = 1 + (before.rtakeWhile (· != '\n')).length)
    (hfeed : '\n' ∉ f.data.toList) (hend : f.column + f.data.length < columnCount) :
    (ofFinding f).spelling? source = some f.data := by
  obtain ⟨first, runs, hruns⟩ := List.exists_cons_of_ne_nil (Text.splitChars_ne_nil '\n' after)
  have hline := Text.getElem?_splitChars before (Text.splitChars_append_of_not_mem hfeed hruns)
  rw [← List.append_assoc, ← hsource] at hline
  have hwidth : (f.column + f.data.length) % columnCount - f.column = f.data.toList.length := by
    rw [Nat.mod_eq_of_lt hend, Nat.add_sub_cancel_left, String.length_toList]
  simp only [spelling?, ofFinding, Text.split, hwidth, hnumber, Nat.add_sub_cancel_left,
    List.getElem?_map, hline]
  rw [hcolumn]
  simp

/-- What the region of a finding says about the text `source`, where the finding quotes
`data` behind `before`. -/
structure Locates (region : Region) (source before data : String) : Prop where
  startLine : region.startLine = 1 + before.toList.count '\n'
  startColumn : region.startColumn = 1 + (before.toList.rtakeWhile (· != '\n')).length
  /-- No number is too large for its 32 bits, so that none has begun again at zero. -/
  endColumn : region.endColumn = region.startColumn + data.length
  bounds : region.startLine < 2 ^ 32 ∧ region.startColumn + data.length < 2 ^ 32
  spelling : '\n' ∉ data.toList → region.spelling? source = some data
  /-- The offset and the length count bytes. -/
  bytes : region.charOffset = before.utf8ByteSize ∧ region.charLength = data.utf8ByteSize
  /-- They count characters only in front of, and for, what is ASCII. -/
  charOffset : region.charOffset = before.length ↔ ∀ c ∈ before.toList, c.toNat < 128
  charLength : region.charLength = data.length ↔ ∀ c ∈ data.toList, c.toNat < 128

theorem locates_of_covers {f : Finding} {span : Span} {source : String}
    {before after : List Char} (hshort : source.length < 2 ^ 32 - 1)
    (hcovers : span.Covers source before f.data.toList after)
    (hspan : f.offset = span.offset ∧ f.length = span.length ∧ f.line = span.line.toNat ∧
      f.column = span.column.toNat) :
    (ofFinding f).Locates source (String.ofList before) f.data := by
  have hline : f.line = 1 + before.count '\n' :=
    hspan.2.2.1.trans (hcovers.toNat_line_of_short hshort)
  have hcolumn : f.column = 1 + (before.rtakeWhile (· != '\n')).length :=
    hspan.2.2.2.trans (hcovers.column_eq hshort)
  have hlength : before.length + f.data.length + after.length = source.length := by
    rw [← String.length_toList, ← String.length_toList, hcovers.text, List.length_append,
      List.length_append]
  have hfeeds : before.count '\n' ≤ before.length := List.count_le_length
  have hrun : (before.rtakeWhile (· != '\n')).length ≤ before.length :=
    (List.rtakeWhile_suffix _ _).length_le
  have hend : f.column + f.data.length < columnCount := by
    rw [hcolumn, columnCount]
    omega
  have hoffset : f.offset = (String.ofList before).utf8ByteSize :=
    hspan.1.trans hcovers.offset
  have hwidth : f.length = f.data.utf8ByteSize := by
    rw [← String.ofList_toList (s := f.data)]
    exact hspan.2.1.trans hcovers.length
  refine ⟨?_, ?_, Nat.mod_eq_of_lt hend, ⟨?_, hend⟩,
    fun hfeed => spelling?_of_line hcovers.text hline hcolumn hfeed hend, ⟨hoffset, hwidth⟩,
    ?_, ?_⟩
  · rw [String.toList_ofList]
    exact hline
  · rw [String.toList_ofList]
    exact hcolumn
  · change f.line < 2 ^ 32
    omega
  · rw [← Text.utf8ByteSize_eq_length_iff, ← hoffset]
    rfl
  · rw [← Text.utf8ByteSize_eq_length_iff, ← hwidth]
    rfl

end Sarif.Region

theorem SourceUnit.exists_of_ofSource {path source : String} {unit : SourceUnit}
    (h : SourceUnit.ofSource path source = .ok unit) :
    ∃ t, parse source = .ok t ∧ unit = ⟨path, t⟩ := by
  cases hparse : parse source with
  | error cause => simp [SourceUnit.ofSource, hparse] at h
  | ok t =>
    rw [SourceUnit.ofSource, hparse] at h
    exact ⟨t, rfl, (Except.ok.inj h).symm⟩

namespace Injection

/-- A finding has the span of a name, which covers what the finding quotes. -/
theorem exists_covers {list : AllowList} {path source : String} {t : Tree} {f : Finding}
    (hparse : parse source = .ok t) (hf : f ∈ findings list ⟨path, t⟩) :
    ∃ (span : Span) (before after : List Char),
      (f.offset = span.offset ∧ f.length = span.length ∧ f.line = span.line.toNat ∧
        f.column = span.column.toNat) ∧
      span.Covers source before f.data.toList after := by
  obtain ⟨p, hp, rfl⟩ := List.mem_map.1 hf
  obtain ⟨before, first, -, -, -, more, rest, hcovers⟩ :=
    Tree.name_covers hparse (Tree.exposures_spec hp).1
  have htext : t.text p = String.ofList (first.text ++ more) := by
    rw [← hcovers.text_eq, ← (parse_spells hparse).1]
    rfl
  refine ⟨p.span, Lexeme.join before, rest, ⟨rfl, rfl, rfl, rfl⟩, ?_⟩
  change p.span.Covers source _ (t.text p).toList _
  rwa [htext, String.toList_ofList]

/-- **The columns of a region spell the name, and its offset and length count bytes.**  In a
text of less than `2 ^ 32 - 1` characters, the region of each finding spells the name that
the finding quotes, unless there is a line break in it.  Its offset and its length count
characters just as far as the text is ASCII. -/
theorem region_locates (list : AllowList) (limit : Option Nat) {path source : String}
    {unit : SourceUnit} {findings : List Finding} {f : Finding}
    (hshort : source.length < 2 ^ 32 - 1) (hunit : SourceUnit.ofSource path source = .ok unit)
    (hfindings : (detector list limit).detect unit = .ok findings) (hf : f ∈ findings) :
    ∃ before after, source = before ++ f.data ++ after ∧
      (Sarif.Result.ofFinding f).region.Locates source before f.data := by
  obtain ⟨t, hparse, rfl⟩ := SourceUnit.exists_of_ofSource hunit
  obtain rfl : Injection.findings list ⟨path, t⟩ = findings := Except.ok.inj hfindings
  obtain ⟨span, before, after, hspan, hcovers⟩ := exists_covers hparse hf
  refine ⟨String.ofList before, String.ofList after, ?_,
    Sarif.Region.locates_of_covers hshort hcovers hspan⟩
  rw [← String.toList_inj, hcovers.text]
  simp

/-- A procedure with an accent in the name of its parameter. -/
def accented : String := "CREATE PROCEDURE p(é CHAR) IS BEGIN EXECUTE IMMEDIATE é; END;"

theorem exists_accented_finding : ∃ t f, SourceUnit.ofSource "a.sql" accented = .ok ⟨"a.sql", t⟩ ∧
    f ∈ findings AllowList.standard ⟨"a.sql", t⟩ ∧ f.data = "é" ∧ f.offset = 55 ∧ f.length = 2 ∧
      f.column = 55 := by
  obtain ⟨t, hparse, htest⟩ := exists_parse accented
    (fun t => (t.exposures AllowList.standard).head?.any fun p =>
      t.text p == "é" && p.span == ⟨55, 2, 1, 55⟩) (by decide +kernel)
  obtain ⟨p, hfirst, hp⟩ := (Option.any_eq_true _ _).1 htest
  rw [Bool.and_eq_true, beq_iff_eq, beq_iff_eq] at hp
  refine ⟨t, finding ⟨"a.sql", t⟩ p, ?_, List.mem_map_of_mem (List.mem_of_mem_head? hfirst), hp.1,
    congrArg Span.offset hp.2, congrArg Span.length hp.2,
    congrArg (fun span => span.column.toNat) hp.2⟩
  rw [SourceUnit.ofSource, hparse]

/-- The region of an accented name starts and ends at the right columns. -/
theorem region_locates_of_accent : ∃ unit findings f, accented.length < 2 ^ 32 - 1 ∧
    SourceUnit.ofSource "a.sql" accented = .ok unit ∧
    (detector AllowList.standard none).detect unit = .ok findings ∧ f ∈ findings ∧
    f.data = "é" ∧ f.column = 55 ∧
    ∃ before after, accented = before ++ f.data ++ after ∧
      (Sarif.Result.ofFinding f).region.Locates accented before f.data := by
  obtain ⟨t, f, hunit, hf, hdata, -, -, hcolumn⟩ := exists_accented_finding
  have hshort : accented.length < 2 ^ 32 - 1 := by decide
  exact ⟨_, _, f, hshort, hunit, rfl, hf, hdata, hcolumn,
    region_locates AllowList.standard none hshort hunit rfl hf⟩

/-- **Behind and at an accent, a region counts too many characters.** -/
theorem accent_not_located : ∃ unit findings f before after, accented.length < 2 ^ 32 - 1 ∧
    SourceUnit.ofSource "a.sql" accented = .ok unit ∧
    (detector AllowList.standard none).detect unit = .ok findings ∧ f ∈ findings ∧
    accented = before ++ f.data ++ after ∧ f.offset = before.utf8ByteSize ∧
    (Sarif.Result.ofFinding f).region.charOffset ≠ before.length ∧
    (Sarif.Result.ofFinding f).region.charLength ≠ f.data.length := by
  obtain ⟨t, f, hunit, hf, hdata, hoffset, hlength, -⟩ := exists_accented_finding
  refine ⟨_, _, f, "CREATE PROCEDURE p(é CHAR) IS BEGIN EXECUTE IMMEDIATE ", "; END;", by decide,
    hunit, rfl, hf, ?_, ?_, ?_, ?_⟩
  · rw [hdata]
    decide
  · rw [hoffset]
    decide
  · change f.offset ≠ _
    rw [hoffset]
    decide
  · change f.length ≠ _
    rw [hlength, hdata]
    decide

end Injection

end PlsqlAudit
