import Mathlib.Algebra.Group.Nat.Defs
import Mathlib.Data.List.Nodup
import Mathlib.Tactic.MkIffOfInductiveProp
import PlsqlAudit.Proofs.JsonText
import PlsqlAudit.Report.Render

/-!
# Reports are read back

A report is written as an object with one field for each part, and the parts are read from
their fields again.  An object with each name once gives back every value it was written
with (`Json.exists_record?`), so a record is read back as soon as the value of each field is.

The numbers of a report have fixed sizes (`Report.Fits`); a larger one would be refused.
-/

namespace PlsqlAudit

namespace Json

/-! ### Fields and values -/

/-- The fields of an object. -/
def fields : Json → List (String × Json)
  | .object fields => fields
  | _ => []

/-- The value of a field is the one that is written with its name. -/
theorem field?_object {fields : List (String × Json)} (hnodup : (fields.map Prod.fst).Nodup)
    {field : String × Json} (h : field ∈ fields) :
    (Json.object fields).field? field.1 = some field.2 := by
  cases hfind : fields.reverse.find? (·.1 == field.1) with
  | none =>
    have hdiffers := List.find?_eq_none.1 hfind field (List.mem_reverse.2 h)
    simp at hdiffers
  | some found =>
    have hname : found.1 = field.1 := by simpa using List.find?_some hfind
    have hmem := List.mem_reverse.1 (List.mem_of_find?_eq_some hfind)
    have hsame := List.inj_on_of_nodup_map hnodup hmem h hname
    rw [field?, hfind, hsame]
    rfl

/-- A record is read from an object that has each of its fields once. -/
theorem exists_record? {json : Json} (names : List String) (hobject : json = .object json.fields)
    (hnames : json.fields.map Prod.fst = names) (hnodup : names.Nodup) :
    ∃ get, json.record? names = some get ∧ ∀ field ∈ json.fields, get field.1 = some field.2 := by
  refine ⟨(Json.object json.fields).field?, ?_, ?_⟩
  · rw [hobject]
    rfl
  · exact fun field h => field?_object (hnames ▸ hnodup) h

/-- What is read first is handed on to what is read next. -/
theorem bind_eq {α β : Type} {first : Option α} {next : α → Option β} {a : α} {b : β}
    (hfirst : first = some a) (hnext : next a = some b) : (first >>= next) = some b := by
  rw [hfirst]
  exact hnext

/-- A field that has to be there is read back if its value is. -/
theorem required_eq {α : Type} {get : String → Option Json} {name : String} {json : Json}
    {value? : Json → Option α} {value : α} (hget : get name = some json)
    (hvalue : value? json = some value) : required get name value? = some value := by
  rw [required, hget, Option.bind_some, hvalue]

/-- A field with a default is read back if it is written and its value is read back. The default
then plays no part. -/
theorem optional_eq {α : Type} {get : String → Option Json} {name : String} {json : Json}
    {default : α} {value? : Json → Option α} {value : α} (hget : get name = some json)
    (hvalue : value? json = some value) : optional get name default value? = some value := by
  rw [optional, hget]
  exact hvalue

/-- A natural number below the bound is read back from the JSON it is written as. -/
theorem natBelow?_ofNat {bound n : Nat} (h : n < bound) : natBelow? bound (.ofNat n) = some n := by
  have hrange : (decide (0 ≤ (n : Int)) && decide ((n : Int) < bound)) = true := by
    rw [Bool.and_eq_true, decide_eq_true_iff, decide_eq_true_iff]
    omega
  rw [ofNat, natBelow?, if_pos hrange, Int.toNat_natCast]

/-- A number of 32 bits is read back as such. -/
theorem nat32?_ofNat {n : Nat} (h : n < 2 ^ 32) : nat32? (.ofNat n) = some n := natBelow?_ofNat h

/-- A number of 64 bits is read back as such. -/
theorem nat64?_ofNat {n : Nat} (h : n < 2 ^ 64) : nat64? (.ofNat n) = some n := natBelow?_ofNat h

/-- A text that may be missing is read back; a missing one is written as `null`. -/
theorem textOrNull?_ofString? (text : Option String) :
    textOrNull? (.ofString? text) = some text := by
  cases text <;> rfl

/-- A list is read back item by item if each item is. -/
theorem list?_map {α : Type} {item? : Json → Option α} {toJson : α → Json} {items : List α}
    (h : ∀ item ∈ items, item? (toJson item) = some item) :
    list? item? (.array (items.map toJson)) = some items := by
  induction items with
  | nil => rfl
  | cons item items ih =>
    rw [List.forall_mem_cons] at h
    have hrest : (items.map toJson).mapM item? = some items := ih h.2
    simp [list?, h.1, hrest]

/-! ### Numbers of 64 bits at most -/

/-- A number of 64 bits is one that a reader of JSON keeps as it is. -/
theorem Plain.ofNat {n : Nat} (h : n < 2 ^ 64) : (Json.ofNat n).Plain := by
  refine .number ?_
  rw [isWord, Bool.and_eq_true, decide_eq_true_iff, decide_eq_true_iff]
  omega

/-- Neither a text nor `null` in its place holds a number that could be lost. -/
@[simp]
theorem Plain.ofString? (text : Option String) : (Json.ofString? text).Plain := by
  cases text with
  | none => exact .null
  | some s => exact .string s

end Json

/-- The name of a severity is read back as that severity. -/
theorem Severity.ofJson?_name (severity : Severity) :
    ofJson? (.string severity.name) = some severity := by
  cases severity <;> decide

/-! ### Records -/

/-- The numbers of a finding have the sizes of their fields: 64 bits for the offset and the
length, and 32 for the others. -/
@[mk_iff]
structure Finding.Fits (f : Finding) : Prop where
  guideline : f.guideline < 2 ^ 32
  line : f.line < 2 ^ 32
  column : f.column < 2 ^ 32
  offset : f.offset < 2 ^ 64
  length : f.length < 2 ^ 64

/-- The counts of a summary have at most 64 bits. -/
@[mk_iff]
structure Summary.Fits (s : Summary) : Prop where
  critical : s.critical < 2 ^ 64
  high : s.high < 2 ^ 64
  medium : s.medium < 2 ^ 64
  low : s.low < 2 ^ 64
  info : s.info < 2 ^ 64
  total : s.total < 2 ^ 64

/-- All numbers of a report have the sizes of their fields. -/
@[mk_iff]
structure Report.Fits (r : Report) : Prop where
  findings : ∀ f ∈ r.findings, f.Fits
  summary : r.summary.Fits
  filesAnalyzed : r.filesAnalyzed < 2 ^ 64

instance (f : Finding) : Decidable f.Fits := decidable_of_iff _ (Finding.fits_iff f).symm

instance (s : Summary) : Decidable s.Fits := decidable_of_iff _ (Summary.fits_iff s).symm

instance (r : Report) : Decidable r.Fits := decidable_of_iff _ (Report.fits_iff r).symm

/-- A finding whose numbers fit is read back from its JSON, with all of its fields. -/
theorem Finding.Fits.ofJson?_toJson {f : Finding} (h : f.Fits) : ofJson? f.toJson = some f := by
  obtain ⟨get, hget, hfields⟩ := Json.exists_record? fieldNames
    (rfl : f.toJson = .object f.toJson.fields) rfl (by decide)
  simp only [toJson, Json.fields, List.forall_mem_cons] at hfields
  obtain ⟨hid, hdetector, hguideline, hseverity, htitle, hmessage, hfile, hline, hcolumn, hoffset,
    hlength, hdata, hcategory, hcwe, hfix, -⟩ := hfields
  refine Json.bind_eq hget ?_
  refine Json.bind_eq (Json.optional_eq hid rfl) ?_
  refine Json.bind_eq (Json.optional_eq hdetector rfl) ?_
  refine Json.bind_eq (Json.optional_eq hguideline (Json.nat32?_ofNat h.guideline)) ?_
  refine Json.bind_eq (Json.optional_eq hseverity (Severity.ofJson?_name _)) ?_
  refine Json.bind_eq (Json.optional_eq htitle rfl) ?_
  refine Json.bind_eq (Json.optional_eq hmessage rfl) ?_
  refine Json.bind_eq (Json.optional_eq hfile rfl) ?_
  refine Json.bind_eq (Json.optional_eq hline (Json.nat32?_ofNat h.line)) ?_
  refine Json.bind_eq (Json.optional_eq hcolumn (Json.nat32?_ofNat h.column)) ?_
  refine Json.bind_eq (Json.optional_eq hoffset (Json.nat64?_ofNat h.offset)) ?_
  refine Json.bind_eq (Json.optional_eq hlength (Json.nat64?_ofNat h.length)) ?_
  refine Json.bind_eq (Json.optional_eq hdata rfl) ?_
  refine Json.bind_eq (Json.optional_eq hcategory (Json.textOrNull?_ofString? _)) ?_
  refine Json.bind_eq (Json.optional_eq hcwe (Json.textOrNull?_ofString? _)) ?_
  refine Json.bind_eq (Json.optional_eq hfix (Json.textOrNull?_ofString? _)) ?_
  rfl

/-- A summary whose counts fit is read back from its JSON. -/
theorem Summary.Fits.ofJson?_toJson {s : Summary} (h : s.Fits) : ofJson? s.toJson = some s := by
  obtain ⟨get, hget, hfields⟩ := Json.exists_record? fieldNames
    (rfl : s.toJson = .object s.toJson.fields) rfl (by decide)
  simp only [toJson, Json.fields, List.forall_mem_cons] at hfields
  obtain ⟨hcritical, hhigh, hmedium, hlow, hinfo, htotal, -⟩ := hfields
  refine Json.bind_eq hget ?_
  refine Json.bind_eq (Json.required_eq hcritical (Json.nat64?_ofNat h.critical)) ?_
  refine Json.bind_eq (Json.required_eq hhigh (Json.nat64?_ofNat h.high)) ?_
  refine Json.bind_eq (Json.required_eq hmedium (Json.nat64?_ofNat h.medium)) ?_
  refine Json.bind_eq (Json.required_eq hlow (Json.nat64?_ofNat h.low)) ?_
  refine Json.bind_eq (Json.required_eq hinfo (Json.nat64?_ofNat h.info)) ?_
  refine Json.bind_eq (Json.required_eq htotal (Json.nat64?_ofNat h.total)) ?_
  rfl

/-- A report that fits is read back from its JSON: its metadata, its findings and its summary. -/
theorem Report.Fits.ofJson?_toJson {r : Report} (h : r.Fits) : ofJson? r.toJson = some r := by
  obtain ⟨get, hget, hfields⟩ := Json.exists_record? fieldNames
    (rfl : r.toJson = .object r.toJson.fields) rfl (by decide)
  simp only [toJson, Json.fields, List.forall_mem_cons] at hfields
  obtain ⟨hfindings, hsummary, hanalyzed, hskipped, -⟩ := hfields
  have hfound := Json.list?_map fun f hf => (h.findings f hf).ofJson?_toJson
  refine Json.bind_eq hget ?_
  refine Json.bind_eq (Json.required_eq hfindings hfound) ?_
  refine Json.bind_eq (Json.required_eq hsummary h.summary.ofJson?_toJson) ?_
  refine Json.bind_eq (Json.required_eq hanalyzed (Json.nat64?_ofNat h.filesAnalyzed)) ?_
  refine Json.bind_eq (Json.optional_eq hskipped (Json.list?_map fun _ _ => rfl)) ?_
  rfl

/-! ### The text of a report -/

/-- The JSON of a finding that fits holds no number of more than 64 bits. -/
theorem Finding.Fits.plain {f : Finding} (h : f.Fits) : f.toJson.Plain := by
  have hguideline := h.guideline
  have hline := h.line
  have hcolumn := h.column
  simp [toJson, Json.Plain.ofNat (n := f.guideline) (by omega),
    Json.Plain.ofNat (n := f.line) (by omega), Json.Plain.ofNat (n := f.column) (by omega),
    Json.Plain.ofNat h.offset, Json.Plain.ofNat h.length]

/-- The JSON of a summary that fits holds no number of more than 64 bits. -/
theorem Summary.Fits.plain {s : Summary} (h : s.Fits) : s.toJson.Plain := by
  simp [toJson, Json.Plain.ofNat h.critical, Json.Plain.ofNat h.high, Json.Plain.ofNat h.medium,
    Json.Plain.ofNat h.low, Json.Plain.ofNat h.info, Json.Plain.ofNat h.total]

/-- The JSON of a report that fits holds no number of more than 64 bits, so its text determines
it. -/
theorem Report.Fits.plain {r : Report} (h : r.Fits) : r.toJson.Plain := by
  simpa [toJson, h.summary.plain, Json.Plain.ofNat h.filesAnalyzed] using
    fun f hf => (h.findings f hf).plain

/-- **Reports are read back.**  From the text of a report in the JSON format the same report
is read, whatever its texts and counts are. -/
theorem Report.ofJsonText?_render (settings : RenderSettings) {r : Report} (h : r.Fits) :
    ofJsonText? (r.render settings .json) = some r := by
  have hparse : Json.parse? (r.render settings .json) = some r.toJson := h.plain.parse?_pretty
  rw [ofJsonText?, hparse]
  exact h.ofJson?_toJson

/-- A report on a finding with quotes, control characters and an emoji in its texts, the
largest numbers, and counts that do not belong to it. -/
def Report.oddReport : Report where
  findings := [{
    id := "\x00\x1f\x7f", message := "\"a\\b\"\n\t\x08\x0c\r", file := "ä/😀.sql", severity := .medium
    guideline := 4294967295, line := 4294967295, offset := 18446744073709551615
    cwe := some "", suggestedFix := some "null" }]
  summary := { critical := 7, total := 18446744073709551615 }
  filesSkipped := ["", "\u2028]\x7d"]

theorem Report.ofJsonText?_render_of_control :
    oddReport.Fits ∧
      ofJsonText? (oddReport.render { endTime := "" } .json) = some oddReport := by
  have hfits : oddReport.Fits := by decide
  exact ⟨hfits, ofJsonText?_render _ hfits⟩

end PlsqlAudit
