import Mathlib.Data.List.Forall2
import Mathlib.Order.MinMax
import PlsqlAudit.Proofs.ReportText

/-!
# The rules of a SARIF log

A log tells of each finding twice: once in its result, and once in the rule that its result
refers to.  The results are written finding by finding.  The rules are collected in two
steps: the identifiers first, each put in its place among the ascending ones, and then the
findings of each identifier, over which the rule is summed up.

Both rest on one fact, that an identifier is collected exactly if some finding carries it
(`Sarif.mem_ruleIds_iff`).  So no rule is without findings, and no result without its rule.
-/

namespace PlsqlAudit

/-! ### Severities -/

namespace Severity

/-- Severities of the same rank are the same. -/
theorem rank_injective : Function.Injective rank := by
  intro a b h
  cases a <;> cases b <;> first | rfl | cases h

/-- Severities are in the order of their ranks. -/
instance : LinearOrder Severity where
  le_refl a := Nat.le_refl a.rank
  le_trans _ _ _ := Nat.le_trans
  le_antisymm _ _ hab hba := rank_injective (Nat.le_antisymm hab hba)
  le_total a b := Nat.le_total a.rank b.rank
  toDecidableLE := inferInstance
  toDecidableEq := inferInstance
  max_def _ _ := rfl

/-- No severity is lighter than the lightest. -/
theorem info_le (a : Severity) : .info ≤ a := Nat.zero_le a.rank

end Severity

namespace Json

/-- The value at the end of a path of field names, if there is one. -/
def at? (json : Json) : List String → Option Json
  | [] => some json
  | name :: path => (json.field? name).bind fun value => value.at? path

end Json

namespace Sarif

/-! ### Identifiers -/

/-- Putting an identifier in its place adds this identifier and nothing else. -/
theorem mem_insertId {x id : String} {ids : List String} :
    x ∈ insertId id ids ↔ x = id ∨ x ∈ ids := by
  induction ids with
  | nil => simp [insertId]
  | cons other rest ih =>
    rw [insertId]
    by_cases hlt : id < other
    · rw [if_pos hlt, List.mem_cons]
    · rw [if_neg hlt]
      by_cases heq : id = other
      · subst heq
        simp
      · rw [if_neg heq, List.mem_cons, ih, List.mem_cons]
        exact or_left_comm

/-- Identifiers that ascend still do so when one more is put in its place, and none comes twice. -/
theorem pairwise_insertId {id : String} {ids : List String} (h : ids.Pairwise (· < ·)) :
    (insertId id ids).Pairwise (· < ·) := by
  induction ids with
  | nil => simp [insertId]
  | cons other rest ih =>
    obtain ⟨hother, hrest⟩ := List.pairwise_cons.1 h
    rw [insertId]
    by_cases hbefore : id < other
    · rw [if_pos hbefore]
      refine List.pairwise_cons.2 ⟨?_, h⟩
      intro x hx
      rcases List.mem_cons.1 hx with rfl | hx
      · exact hbefore
      · exact String.lt_trans hbefore (hother x hx)
    · rw [if_neg hbefore]
      by_cases heq : id = other
      · rw [if_pos heq]
        exact h
      · have hlt : other < id :=
          String.not_le.1 fun hle => heq (String.le_antisymm hle (String.not_lt.1 hbefore))
        rw [if_neg heq]
        refine List.pairwise_cons.2 ⟨?_, ih hrest⟩
        intro x hx
        rcases mem_insertId.1 hx with rfl | hx
        · exact hlt
        · exact hother x hx

/-- The identifiers are those that the findings carry. -/
theorem mem_ruleIds_iff {id : String} {findings : List Finding} :
    id ∈ ruleIds findings ↔ ∃ f ∈ findings, ruleId f = id := by
  have hfold (ids : List String) : id ∈ findings.foldl (fun ids f => insertId (ruleId f) ids) ids ↔
      id ∈ ids ∨ ∃ f ∈ findings, ruleId f = id := by
    induction findings generalizing ids with
    | nil => simp
    | cons f findings ih =>
      rw [List.foldl_cons, ih, mem_insertId, List.exists_mem_cons_iff, eq_comm, or_assoc,
        or_left_comm]
  rw [ruleIds, hfold]
  simp

/-- The collected identifiers ascend, so that each of them comes once. -/
theorem pairwise_ruleIds (findings : List Finding) : (ruleIds findings).Pairwise (· < ·) := by
  have hfold (ids : List String) (h : ids.Pairwise (· < ·)) :
      (findings.foldl (fun ids f => insertId (ruleId f) ids) ids).Pairwise (· < ·) := by
    induction findings generalizing ids with
    | nil => exact h
    | cons f findings ih => exact ih _ (pairwise_insertId h)
  exact hfold [] .nil

/-! ### The heaviest finding -/

/-- The heaviest severity so far only grows, and takes in every finding. -/
theorem le_foldl_max (findings : List Finding) (start : Severity) :
    start ≤ findings.foldl (fun severity f => max severity f.severity) start ∧
      ∀ f ∈ findings,
        f.severity ≤ findings.foldl (fun severity f => max severity f.severity) start := by
  induction findings generalizing start with
  | nil => simp
  | cons f findings ih =>
    obtain ⟨hstart, hfindings⟩ := ih (max start f.severity)
    refine ⟨(le_max_left _ _).trans hstart, ?_⟩
    rw [List.forall_mem_cons]
    exact ⟨(le_max_right _ _).trans hstart, hfindings⟩

/-- The heaviest severity is the one at the start or that of a finding. -/
theorem foldl_max_eq_or (findings : List Finding) (start : Severity) :
    findings.foldl (fun severity f => max severity f.severity) start = start ∨
      ∃ f ∈ findings,
        f.severity = findings.foldl (fun severity f => max severity f.severity) start := by
  induction findings generalizing start with
  | nil => exact .inl rfl
  | cons f findings ih =>
    rw [List.foldl_cons, List.exists_mem_cons_iff]
    rcases ih (max start f.severity) with htop | hmem
    · rw [htop]
      rcases max_choice start f.severity with hmax | hmax
      · exact .inl hmax
      · exact .inr (.inl hmax.symm)
    · exact .inr (.inr hmem)

/-- The severity kept for a rule is no less than that of any finding summed up in it. -/
theorem le_heaviest {findings : List Finding} {f : Finding} (h : f ∈ findings) :
    f.severity ≤ heaviest findings := (le_foldl_max findings .info).2 f h

/-- Where there are findings, one of them has the heaviest severity. -/
theorem exists_severity_eq_heaviest {findings : List Finding} (h : findings ≠ []) :
    ∃ f ∈ findings, f.severity = heaviest findings := by
  rcases foldl_max_eq_or findings .info with htop | hmem
  · obtain ⟨f, hf⟩ := List.exists_mem_of_ne_nil findings h
    have hinfo : f.severity ≤ .info := htop ▸ le_heaviest hf
    exact ⟨f, hf, (hinfo.antisymm (Severity.info_le _)).trans htop.symm⟩
  · exact hmem

/-! ### Levels -/

/-- How strict a level is. -/
def Level.rank : Level → Nat
  | .note => 0
  | .warning => 1
  | .error => 2

/-- Levels of the same strictness are the same. -/
theorem Level.rank_injective : Function.Injective Level.rank := by
  intro a b h
  cases a <;> cases b <;> first | rfl | cases h

/-- Levels are in the order of their strictness. -/
instance : LinearOrder Level := LinearOrder.lift' Level.rank Level.rank_injective

/-- A heavier severity has a level that is no less strict. -/
theorem Level.monotone_ofSeverity : Monotone Level.ofSeverity := by
  intro a b h
  have hrank : a.rank ≤ b.rank := h
  change (Level.ofSeverity a).rank ≤ (Level.ofSeverity b).rank
  cases a <;> cases b <;> simp_all [Severity.rank, Level.ofSeverity, Level.rank]

/-! ### Rules -/

/-- A rule sums up the findings that violate it. -/
structure Rule.SumsUp (rule : Rule) (findings : List Finding) : Prop where
  /-- The level and the score are those of a finding than which none weighs more. -/
  heaviest : ∃ f ∈ findings, (∀ g ∈ findings, g.severity ≤ f.severity) ∧
    rule.level = .ofSeverity f.severity ∧ rule.score = Sarif.score f.severity
  /-- The title and the name come from the first finding. -/
  first : ∃ f, findings.head? = some f ∧ rule.title = f.title ∧
    rule.name = Text.without f.detector "Detector"
  /-- The tag is the first weakness that a finding names, if there is one. -/
  tags : ((∀ f ∈ findings, f.cwe = none) ∧ rule.tags = ["security"]) ∨
    ∃ before f after cwe, findings = before ++ f :: after ∧ (∀ g ∈ before, g.cwe = none) ∧
      f.cwe = some cwe ∧ rule.tags = ["security", cwe]

/-- A rule made of findings sums them up: its level is that of the heaviest one, and its texts are
the texts of the first. -/
theorem Rule.ofFindings_sumsUp (id : String) {findings : List Finding} (h : findings ≠ []) :
    (Rule.ofFindings id findings).SumsUp findings where
  heaviest := by
    obtain ⟨f, hf, htop⟩ := exists_severity_eq_heaviest h
    refine ⟨f, hf, fun g hg => htop ▸ le_heaviest hg, ?_, ?_⟩
    · rw [htop]
      rfl
    · rw [htop]
      rfl
  first := by
    obtain ⟨f, others, rfl⟩ := List.exists_cons_of_ne_nil h
    exact ⟨f, rfl, rfl, rfl⟩
  tags := by
    cases hcwe : findings.findSome? (·.cwe) with
    | none =>
      refine .inl ⟨List.findSome?_eq_none_iff.1 hcwe, ?_⟩
      rw [Rule.ofFindings, hcwe]
      rfl
    | some cwe =>
      obtain ⟨before, f, after, hsplit, hf, hbefore⟩ := List.findSome?_eq_some_iff.1 hcwe
      refine .inr ⟨before, f, after, cwe, hsplit, hbefore, hf, ?_⟩
      rw [Rule.ofFindings, hcwe]
      rfl

/-! ### Logs -/

/-- The rules and the results of a log tell of the same findings. -/
structure Log.Accords (log : Log) (findings : List Finding) : Prop where
  /-- There is one result for each finding, in their order. -/
  results : List.Forall₂ (fun f result => result = .ofFinding f ∧
    result.region.endColumn = f.column + f.data.length) findings log.results
  ascending : (log.rules.map (·.id)).Pairwise (· < ·)
  ids : ∀ id, id ∈ log.rules.map (·.id) ↔ id ∈ log.results.map (·.ruleId)
  rules : ∀ rule ∈ log.rules, rule.SumsUp (findings.filter fun f => ruleId f = rule.id)
  levels : ∀ rule ∈ log.rules, ∀ result ∈ log.results, result.ruleId = rule.id →
    result.level ≤ rule.level

/-- The rules of a log are those of the collected identifiers, one rule for each and in the same
order. -/
theorem Log.map_id_rules (endTime : String) (r : Report) :
    (Log.ofReport endTime r).rules.map (·.id) = ruleIds r.findings := by
  simp [Log.ofReport, Rule.ofFindings, Function.comp_def]

/-- The results of a log name the identifiers of the findings, one result for each finding and in
the same order. -/
theorem Log.map_ruleId_results (endTime : String) (r : Report) :
    (Log.ofReport endTime r).results.map (·.ruleId) = r.findings.map ruleId := by
  simp [Log.ofReport, Result.ofFinding, Function.comp_def]

/-- Each rule sums up the findings that carry its identifier. -/
theorem Log.sumsUp_of_mem_rules {endTime : String} {r : Report} {rule : Rule}
    (h : rule ∈ (Log.ofReport endTime r).rules) :
    rule.SumsUp (r.findings.filter fun f => ruleId f = rule.id) := by
  obtain ⟨id, hid, rfl⟩ := List.mem_map.1 h
  obtain ⟨f, hf, hrule⟩ := mem_ruleIds_iff.1 hid
  refine Rule.ofFindings_sumsUp id ?_
  exact List.ne_nil_of_mem (List.mem_filter.2 ⟨hf, decide_eq_true hrule⟩)

/-- The log of a report accords with its findings: each result tells of its finding, and each rule
sums up the findings that carry its identifier. -/
theorem Log.accords (endTime : String) {r : Report}
    (hcolumns : ∀ f ∈ r.findings, f.column + f.data.length < 2 ^ 32) :
    (Log.ofReport endTime r).Accords r.findings where
  results := by
    change List.Forall₂ _ r.findings (r.findings.map Result.ofFinding)
    rw [List.forall₂_map_right_iff, List.forall₂_same]
    exact fun f hf => ⟨rfl, Nat.mod_eq_of_lt (hcolumns f hf)⟩
  ascending := by
    rw [Log.map_id_rules]
    exact pairwise_ruleIds r.findings
  ids := by
    intro id
    rw [Log.map_id_rules, Log.map_ruleId_results, mem_ruleIds_iff, List.mem_map]
  rules := fun _ hrule => Log.sumsUp_of_mem_rules hrule
  levels := by
    intro rule hrule result hresult hid
    obtain ⟨f, hf, rfl⟩ := List.mem_map.1 hresult
    obtain ⟨top, -, htop, hlevel, -⟩ := (Log.sumsUp_of_mem_rules hrule).heaviest
    rw [hlevel]
    exact Level.monotone_ofSeverity (htop f (List.mem_filter.2 ⟨hf, decide_eq_true hid⟩))

/-! ### The text of a log -/

/-- A message written as JSON can be read back. -/
theorem plain_messageJson (text : String) : (messageJson text).Plain := by simp [messageJson]

/-- A rule written as JSON can be read back, because it holds texts only. -/
theorem Rule.plain (rule : Rule) : rule.toJson.Plain := by
  simp [Rule.toJson, plain_messageJson]

/-- The region of a finding that fits can be read back: none of its numbers needs more than
64 bits. -/
theorem Region.plain {f : Finding} (h : f.Fits) : (Region.ofFinding f).toJson.Plain := by
  have hline := h.line
  have hcolumn := h.column
  have hend : (f.column + f.data.length) % columnCount < columnCount :=
    Nat.mod_lt _ (by decide)
  have hcount : columnCount < 2 ^ 64 := by decide
  simp [Region.ofFinding, Region.toJson, Json.Plain.ofNat (n := f.line) (by omega),
    Json.Plain.ofNat (n := f.column) (by omega), Json.Plain.ofNat (Nat.lt_trans hend hcount),
    Json.Plain.ofNat h.offset, Json.Plain.ofNat h.length]

/-- A result can be read back if its region can. -/
theorem Result.plain {result : Result} (h : result.region.toJson.Plain) : result.toJson.Plain := by
  cases hcategory : result.category <;> cases hcwe : result.cwe <;> cases hfix : result.fix <;>
    simp [Result.toJson, fieldIfAny, plain_messageJson, h, hcategory, hcwe, hfix]

/-- The log of a report whose numbers fit can be read back as a whole. -/
theorem Log.plain (endTime : String) {r : Report} (h : r.Fits) :
    (Log.ofReport endTime r).toJson.Plain := by
  have hresults : ∀ f ∈ r.findings, (Result.ofFinding f).toJson.Plain :=
    fun f hf => Result.plain (Region.plain (h.findings f hf))
  cases hskipped : r.filesSkipped.isEmpty <;>
    simpa [Log.toJson, Log.ofReport, Rule.plain, plain_messageJson, hskipped] using hresults

/-! ### What the text of a log tells -/

/-- A rule of a document sums up the findings that violate it. -/
structure RuleTells (rule : Json) (findings : List Finding) : Prop where
  /-- The level and the score are those of a finding than which none weighs more. -/
  heaviest : ∃ f ∈ findings, (∀ g ∈ findings, g.severity ≤ f.severity) ∧
    rule.at? ["defaultConfiguration", "level"] =
      some (.string (Level.ofSeverity f.severity).name) ∧
    rule.at? ["properties", "security-severity"] = some (.string (score f.severity))
  /-- The title and the name come from the first finding. -/
  first : ∃ f, findings.head? = some f ∧
    rule.at? ["shortDescription", "text"] = some (.string f.title) ∧
    rule.at? ["name"] = some (.string (Text.without f.detector "Detector"))
  /-- The tag is the first weakness that a finding names, if there is one. -/
  tags : ((∀ f ∈ findings, f.cwe = none) ∧
      rule.at? ["properties", "tags"] = some (.array [.string "security"])) ∨
    ∃ before f after cwe, findings = before ++ f :: after ∧ (∀ g ∈ before, g.cwe = none) ∧
      f.cwe = some cwe ∧
      rule.at? ["properties", "tags"] = some (.array [.string "security", .string cwe])

/-- A result of a document tells of a finding. -/
structure ResultTells (f : Finding) (result : Json) : Prop where
  ruleId : result.at? ["ruleId"] = some (.string (Sarif.ruleId f))
  level : result.at? ["level"] = some (.string (Level.ofSeverity f.severity).name)
  message : result.at? ["message", "text"] = some (.string f.message)
  severity : result.at? ["properties", "severity"] = some (.string f.severity.name)
  fingerprint : result.at? ["partialFingerprints", "plsqlGuard/v1"] = some (.string f.id)
  /-- The one location is that of the finding, and the columns of its region are as many as
  the spelling has characters. -/
  location : ∃ location, result.at? ["locations"] = some (.array [location]) ∧
    location.at? ["physicalLocation", "artifactLocation", "uri"] =
      some (.string (Text.replaceChar '\\' '/' f.file)) ∧
    location.at? ["physicalLocation", "region", "startLine"] = some (.ofNat f.line) ∧
    location.at? ["physicalLocation", "region", "startColumn"] = some (.ofNat f.column) ∧
    location.at? ["physicalLocation", "region", "endColumn"] =
      some (.ofNat (f.column + f.data.length))

/-- A document has one run, with these results and these rules. -/
def Holds (document : Json) (results rules : List Json) : Prop :=
  ∃ run, document.at? ["runs"] = some (.array [run]) ∧
    run.at? ["results"] = some (.array results) ∧
    run.at? ["tool", "driver", "rules"] = some (.array rules)

/-- The rules and the results of a document tell of the same findings. -/
structure DocumentTells (results rules : List Json) (findings : List Finding) : Prop where
  /-- There is one result for each finding, in their order. -/
  inOrder : List.Forall₂ ResultTells findings results
  ascending : ∃ ids : List String, ids.Pairwise (· < ·) ∧
    rules.map (·.at? ["id"]) = ids.map fun id => some (.string id)
  ids : ∀ id : String, some (.string id) ∈ rules.map (·.at? ["id"]) ↔
    some (.string id) ∈ results.map (·.at? ["ruleId"])
  sumsUp : ∀ rule ∈ rules, ∃ id, rule.at? ["id"] = some (.string id) ∧
    RuleTells rule (findings.filter fun f => ruleId f = id)
  /-- No result is stricter than its rule. -/
  levels : ∀ rule ∈ rules, ∀ result ∈ results, result.at? ["ruleId"] = rule.at? ["id"] →
    ∃ lenient strict : Level, result.at? ["level"] = some (.string lenient.name) ∧
      rule.at? ["defaultConfiguration", "level"] = some (.string strict.name) ∧ lenient ≤ strict

/-- The document of a log has the results and the rules of the log. -/
theorem Log.holds (log : Log) :
    Holds log.toJson (log.results.map Result.toJson) (log.rules.map Rule.toJson) :=
  ⟨_, rfl, rfl, rfl⟩

/-- A document has no other results and no other rules than those that it has. -/
theorem Holds.unique {document : Json} {results rules results' rules' : List Json}
    (h : Holds document results rules) (h' : Holds document results' rules') :
    results = results' ∧ rules = rules' := by
  obtain ⟨run, hrun, hresults, hrules⟩ := h
  obtain ⟨run', hrun', hresults', hrules'⟩ := h'
  obtain rfl : run = run' := by simpa [hrun] using hrun'
  exact ⟨by simpa [hresults] using hresults', by simpa [hrules] using hrules'⟩

/-- Looked up in the JSON of a rule, the identifier is that of the rule. -/
theorem Rule.at?_id (rule : Rule) : rule.toJson.at? ["id"] = some (.string rule.id) := rfl

/-- Looked up in the JSON of a rule, the default level is that of the rule. -/
theorem Rule.at?_level (rule : Rule) :
    rule.toJson.at? ["defaultConfiguration", "level"] = some (.string rule.level.name) := rfl

/-- A fix is written behind the other fields of a result, and does not change them. -/
theorem Result.at?_of_ne (result : Result) {name : String} (h : name ≠ "fixes")
    (path : List String) :
    result.toJson.at? (name :: path) = { result with fix := none }.toJson.at? (name :: path) := by
  cases hfix : result.fix with
  | none => simp only [Result.toJson, hfix]
  | some fix =>
    have hother : ("fixes" == name) = false := beq_eq_false_iff_ne.2 h.symm
    simp only [Result.toJson, hfix, Json.at?, Json.field?, List.append_nil, List.reverse_append,
      List.reverse_singleton, List.singleton_append, List.find?_cons, hother]

/-- Looked up in the JSON of a result, the identifier is that of the rule the result refers to. -/
theorem Result.at?_ruleId (result : Result) :
    result.toJson.at? ["ruleId"] = some (.string result.ruleId) :=
  result.at?_of_ne (by decide) []

/-- Looked up in the JSON of a result, the level is that of the result. -/
theorem Result.at?_level (result : Result) :
    result.toJson.at? ["level"] = some (.string result.level.name) :=
  result.at?_of_ne (by decide) []

/-- Looked up in the JSON of a result, the severity among its properties is that of the result. -/
theorem Result.at?_severity (result : Result) :
    result.toJson.at? ["properties", "severity"] = some (.string result.severity.name) := by
  rw [result.at?_of_ne (by decide)]
  obtain ⟨_, _, _, _, _, _, _, category, cwe, _⟩ := result
  cases category <;> cases cwe <;> rfl

/-- A rule that sums up its findings tells so when it is written. -/
theorem Rule.SumsUp.ruleTells {rule : Rule} {findings : List Finding} (h : rule.SumsUp findings) :
    RuleTells rule.toJson findings where
  heaviest := by
    obtain ⟨f, hf, hheaviest, hlevel, hscore⟩ := h.heaviest
    exact ⟨f, hf, hheaviest, hlevel ▸ rule.at?_level, hscore ▸ rfl⟩
  first := by
    obtain ⟨f, hf, htitle, hname⟩ := h.first
    exact ⟨f, hf, htitle ▸ rfl, hname ▸ rfl⟩
  tags := by
    have htags : rule.toJson.at? ["properties", "tags"] =
        some (.array (rule.tags.map .string)) := rfl
    rw [htags]
    rcases h.tags with ⟨hnone, htags⟩ | ⟨before, f, after, cwe, hsplit, hbefore, hf, htags⟩
    · exact .inl ⟨hnone, by rw [htags]; rfl⟩
    · exact .inr ⟨before, f, after, cwe, hsplit, hbefore, hf, by rw [htags]; rfl⟩

/-- The result of a finding tells of it when it is written. -/
theorem Result.resultTells {f : Finding}
    (h : (Result.ofFinding f).region.endColumn = f.column + f.data.length) :
    ResultTells f (Result.ofFinding f).toJson where
  ruleId := Result.at?_ruleId _
  level := Result.at?_level _
  message := Result.at?_of_ne _ (by decide) _
  severity := Result.at?_severity _
  fingerprint := Result.at?_of_ne _ (by decide) _
  location := by
    refine ⟨_, Result.at?_of_ne _ (by decide) _, rfl, rfl, rfl, ?_⟩
    rw [← h]
    rfl

/-- The rules and the results of a log that accords with the findings tell of them when they
are written. -/
theorem Log.Accords.documentTells {log : Log} {findings : List Finding}
    (h : log.Accords findings) : DocumentTells (log.results.map Result.toJson) (log.rules.map Rule.toJson) findings where
  inOrder := by
    rw [List.forall₂_map_right_iff]
    apply h.results.imp
    rintro f _ ⟨rfl, hend⟩
    exact Result.resultTells hend
  ascending := by
    refine ⟨log.rules.map (·.id), h.ascending, ?_⟩
    rw [List.map_map, List.map_map]
    rfl
  ids := by
    intro id
    have hids := h.ids id
    simpa [Rule.at?_id, Result.at?_ruleId] using hids
  sumsUp := by
    intro _ hmem
    obtain ⟨rule, hrule, rfl⟩ := List.mem_map.1 hmem
    exact ⟨rule.id, rule.at?_id, (h.rules rule hrule).ruleTells⟩
  levels := by
    intro _ hmem _ hmem' hid
    obtain ⟨rule, hrule, rfl⟩ := List.mem_map.1 hmem
    obtain ⟨result, hresult, rfl⟩ := List.mem_map.1 hmem'
    rw [result.at?_ruleId, rule.at?_id] at hid
    have hsame : result.ruleId = rule.id := by
      injection hid with hid
      injection hid
    exact ⟨result.level, rule.level, result.at?_level, rule.at?_level,
      h.levels rule hrule result hresult hsame⟩

/-- **Rules and results accord.**  The log of a report has one result for each finding, in
their order.  Its rules have ascending identifiers, those of the results, and each sums up
the findings that carry its identifier, so that no result is stricter than its rule.  All
this is read again from the text of the report: the text is that of a document with one
run, whose results and rules tell of the findings. -/
theorem Log.accords_of_render (settings : RenderSettings) {r : Report}
    (hcolumns : ∀ f ∈ r.findings, f.column + f.data.length < 2 ^ 32) :
    (Log.ofReport settings.endTime r).Accords r.findings ∧
      (r.Fits → ∃ document results rules, Json.parse? (r.render settings .sarif) = some document ∧
        document = (Log.ofReport settings.endTime r).toJson ∧ Holds document results rules ∧
        DocumentTells results rules r.findings) := by
  have haccords := Log.accords settings.endTime hcolumns
  refine ⟨haccords, fun hfits => ?_⟩
  exact ⟨_, _, _, (Log.plain settings.endTime hfits).parse?_pretty, rfl, Log.holds _,
    haccords.documentTells⟩

/-- Three findings, of which a light one and a heavy one share a rule: by its name a
detector can pass for a guideline. -/
def mixedReport : Report where
  findings := [
    { detector := "G-9501", severity := .low, title := "first", column := 3, data := "é" },
    { detector := "XDetector", guideline := 70, severity := .medium, cwe := some "CWE-20" },
    { detector := "YDetector", guideline := 9501, severity := .critical, cwe := some "CWE-89" }]

/-- The text of the mixed report has three results and two rules, of which the second is as
strict as the heavier of its two findings and bears the title of the other. -/
theorem Log.accords_of_render_of_mixed :
    (∀ f ∈ mixedReport.findings, f.column + f.data.length < 2 ^ 32) ∧ mixedReport.Fits ∧
      (Log.ofReport "" mixedReport).Accords mixedReport.findings ∧
      ∃ document results first second,
        Json.parse? (mixedReport.render { endTime := "" } .sarif) = some document ∧
        Holds document results [first, second] ∧
        DocumentTells results [first, second] mixedReport.findings ∧
        results.map (·.at? ["ruleId"]) =
          [some (.string "G-9501"), some (.string "G-70"), some (.string "G-9501")] ∧
        second.at? ["id"] = some (.string "G-9501") ∧
        second.at? ["shortDescription", "text"] = some (.string "first") ∧
        second.at? ["defaultConfiguration", "level"] = some (.string "error") ∧
        second.at? ["properties", "tags"] =
          some (.array [.string "security", .string "CWE-89"]) := by
  have hcolumns : ∀ f ∈ mixedReport.findings, f.column + f.data.length < 2 ^ 32 := by decide
  have hfits : mixedReport.Fits := by decide
  obtain ⟨haccords, hread⟩ := Log.accords_of_render { endTime := "" } hcolumns
  obtain ⟨document, results, rules, hdocument, rfl, hholds, htells⟩ := hread hfits
  obtain ⟨rfl, rfl⟩ := hholds.unique (Log.holds _)
  have hids : ruleIds mixedReport.findings = ["G-70", "G-9501"] := by decide
  have hrules : (Log.ofReport "" mixedReport).rules = ["G-70", "G-9501"].map fun id =>
      .ofFindings id (mixedReport.findings.filter fun f => ruleId f = id) := by
    rw [← hids]
    rfl
  rw [hrules] at hholds htells
  exact ⟨hcolumns, hfits, haccords, _, _, _, _, hdocument, hholds, htells, rfl, rfl, rfl, rfl, rfl⟩

end Sarif

end PlsqlAudit
