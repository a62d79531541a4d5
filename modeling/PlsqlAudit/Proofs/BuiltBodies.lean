import PlsqlAudit.Arena.Body
import PlsqlAudit.Proofs.BuiltExpressions

/-!
# Signatures, bodies and routines are built as they are read

What is no expression is put below a node as it is read.  A node that is made first and
completed later has, at every time in between, what was put below it so far.
-/

namespace PlsqlAudit.Build

open PlsqlAudit.Parser

variable {r : Rules} {a : Builders} {b b₀ b₁ b₂ : Builder} {node parent : NodeId}

/-! ### Signatures -/

/-- A data type hangs one leaf under its parent, from the first to the last token of the type. -/
theorem dataType_fills (context : Grammar.TypeContext) :
    Fills parent (fun n => [n]) (Grammar.dataType context) (dataType context parent) := by
  intro b
  refine .read fun s => .ite (fun _ => .unexpected "data type") fun _ => ?_
  exact .read fun _ => .read fun last => .addLeaf (.refl b parent) fun _ _ h => .pure h

/-- The result type of a function hangs one leaf under the routine. -/
theorem resultType_fills : Fills parent (fun n => [n]) Grammar.resultType (resultType parent) := by
  intro b
  refine .read fun s => .ite (fun _ => ?_) fun _ => dataType_fills .result b
  refine .read fun first => .read fun _ => .read fun last => ?_
  exact .addLeaf (.refl b parent) fun _ _ h => .pure h

/-- The name of what is defined hangs one leaf under its parent, with all of its dotted parts. -/
theorem definingName_fills :
    Fills parent (fun n => [n]) Grammar.definingName (definingName parent) := by
  intro b
  refine .read fun first => .read fun span => ?_
  exact .addLeaf (.refl b parent) fun _ _ h => .pure h

/-- A default value fills its parent with one expression, or with nothing where there is none. -/
theorem defaultValue_fills (h : RulesBuild r a) :
    Fills parent id (Grammar.defaultValue r) (defaultValue a parent) := by
  intro b
  have hvalue : Follows b (fun list _ b' => b.Filled parent list b')
      (do return [← r.expression]) (under parent a.expression) :=
    ((h.expression.under parent) b).map fun _ _ _ hn => hn
  refine .read fun _ => .ite (fun _ => hvalue) fun _ => ?_
  exact .read fun _ => .ite (fun _ => hvalue) fun _ => .pure (.refl b parent)

/-- A parameter hangs one node under its parent, filled with its name, its type and its default
value. -/
theorem parameter_fills (h : RulesBuild r a) :
    Fills parent (fun n => [n]) (Grammar.parameter r) (parameter a parent) := by
  intro b
  refine .read fun name => .addChild fun node b₁ hopen => ?_
  refine .addLeaf (.refl b₁ node) fun _ b₂ h₂ => .read fun mode => .read fun _ => .setKind ?_
  have hnamed := (h₂.graft hopen).setKind (.parameter mode)
  refine .fill (dataType_fills .parameter) (.refl _ node) fun type b₃ h₃ => ?_
  refine .fill (defaultValue_fills h) h₃ fun value b₄ h₄ => ?_
  exact .read fun last => .closed (h₄.graft hnamed) rfl

/-- The parameters of a routine are hung under it one after the other, in the order in which they
are written. -/
theorem parameters_fills (h : RulesBuild r a) :
    Fills parent id (Grammar.parameters r) (parameters a parent) := by
  intro b
  refine .read fun _ => .fill (.listed (parameter_fills h)) (.refl b parent) fun list b₁ h₁ => ?_
  refine .read fun _ => .pure ?_
  simpa using h₁

/-! ### Bodies and blocks -/

/-- What is skipped up to its semicolon hangs one leaf of the given kind under its parent. -/
theorem skipped_fills (kind : Kind) :
    Fills parent (fun n => [n]) (Grammar.skipped kind) (skipped kind parent) := by
  intro b
  refine .read fun start => .read fun _ => .addChild fun node b₁ hopen => ?_
  exact .read fun last => .closed hopen rfl

/-- Statements up to one of the given words are hung under their parent in the order in which they
are written. -/
theorem statements_fills (h : RulesBuild r a) (stops : List String) :
    Fills parent id (Grammar.statements r stops) (statements a stops parent) := by
  intro b
  refine (Follows.each _ (h.statement parent)).bind fun found _ b₁ h₁ => .pure ?_
  rw [id, List.filterMap_eq_flatMap_toList]
  exact h₁.2

/-- The declarations in front of a `BEGIN` hang one node under their parent, which is filled with
them. -/
theorem declareSection_fills (h : RulesBuild r a) :
    Fills parent (fun n => [n]) (Grammar.declareSection r) (declareSection a parent) := by
  intro b
  refine .read fun start => .addChild fun node b₁ hopen => ?_
  refine (Follows.each _ (h.declaration node)).bind fun declarations any b₂ h₂ => ?_
  obtain ⟨rfl, h₂⟩ := h₂
  rw [List.flatMap_singleton'] at h₂
  refine .read fun last => ?_
  cases declarations with
  | nil => exact .pure ⟨[node], h₂.graft hopen⟩
  | cons first others => exact .closed (h₂.graft hopen) rfl

/-- An exception handler hangs one node under its parent, filled with the statements behind its
`THEN`. -/
theorem exceptionHandler_fills (h : RulesBuild r a) :
    Fills parent (fun n => [n]) (Grammar.exceptionHandler r) (exceptionHandler a parent) := by
  intro b
  refine .read fun start => .addChild fun node b₁ hopen => .read fun _ => .read fun _ => ?_
  refine .fill (statements_fills h _) (.refl b₁ node) fun list b₂ h₂ => ?_
  exact .read fun last => .closed (h₂.graft hopen) rfl

/-- The body of a routine or block hangs one node under its parent, with its statements first and
its handlers behind them. -/
theorem body_fills (h : RulesBuild r a) :
    Fills parent (fun n => [n]) (Grammar.body r) (body a parent) := by
  intro b
  refine .read fun start => .addChild fun node b₁ hopen => ?_
  refine .fill (statements_fills h _) (.refl b₁ node) fun list b₂ h₂ => .read fun _ => ?_
  extract_lets rest rest'
  have hrest (handlers : List Node) (b₃ : Builder) (h₃ : b₁.Filled node (list ++ handlers) b₃) :
      Follows b₃ (fun n _ b' => b.Filled parent [n] b') (rest handlers) (rest' ()) := by
    refine .read fun _ => .read fun _ => .read fun last => .close (.read fun _ => .pure ?_)
    exact ⟨[node], (h₃.graft hopen).close last⟩
  refine .ite (fun _ => ?_) fun _ => hrest [] b₂ (by simpa using h₂)
  refine (Follows.each _ (exceptionHandler_fills h)).bind fun handlers _ b₃ h₃ => ?_
  rw [List.flatMap_singleton'] at h₃
  exact hrest handlers b₃ (h₂.trans h₃.2)

/-- A block hangs one node under its parent, filled with its declarations and its body. -/
theorem block_fills (h : RulesBuild r a) :
    Fills parent (fun n => [n]) (Grammar.block r) (block a parent) := by
  intro b
  refine .read fun _ => .read fun start => .addChild fun node b₁ hopen => .read fun _ => ?_
  refine .fillIf (fun _ => declareSection_fills h) (fun _ => rfl) (.refl b₁ node)
    fun declarations b₂ h₂ => ?_
  refine .fill (body_fills h) h₂ fun inner b₃ h₃ => ?_
  exact .read fun last => .closed (h₃.graft hopen) rfl

/-! ### Routines -/

/-- A routine hangs one node under its parent: its name, its parameters, its result type, and then
the declarations and the body it has. -/
theorem routine_fills (h : RulesBuild r a) (kind : Kind) (start : Span) :
    Fills parent (fun n => [n]) (Grammar.routine r kind start) (routine a kind start parent) := by
  intro b
  refine .addChild fun node b₁ hopen => .read fun s => ?_
  extract_lets ending signed
  refine .ite (fun _ => .unexpected _) fun _ => .read fun _ => ?_
  refine .fill definingName_fills (.refl b₁ node) fun name b₂ h₂ => .read fun s => ?_
  extract_lets signed'
  have hsigned (list : List Node) (b₃ : Builder) (h₃ : b₁.Filled node (name :: list) b₃) :
      Follows b₃ (fun n _ b' => b.Filled parent [n] b') (signed' list) (signed ()) := by
    refine .read fun _ => .fillIf (fun _ => resultType_fills) (fun _ => rfl) h₃
      fun result b₄ h₄ => .read fun _ => .read fun _ => ?_
    have hfinish (parts : List Node) (b₅ : Builder)
        (h₅ : b₁.Filled node (name :: list ++ result ++ parts) b₅) :
        Follows b₅ (fun n _ b' => b.Filled parent [n] b')
          (do return .mk kind (start.cover (← lastSpan)) (name :: list ++ result ++ parts))
          (do close node (← read lastSpan)) :=
      .read fun last => .closed (h₅.graft hopen) rfl
    have hempty := hfinish [] b₄ (by simpa using h₄)
    refine .ite (fun _ => hempty) fun _ => .read fun s => ?_
    refine .ite (fun _ => .read fun _ => .read fun s => ?_) fun _ => .unexpected _
    refine .ite (fun _ => .read fun _ => hempty) fun _ => ?_
    refine .fill (declareSection_fills h) h₄ fun declarations b₅ h₅ => ?_
    refine .fill (body_fills h) h₅ fun inner b₆ h₆ => hfinish [declarations, inner] b₆ ?_
    simpa using h₆
  refine .ite (fun _ => ?_) fun _ => hsigned [] b₂ h₂
  exact .fill (parameters_fills h) h₂ fun list b₃ h₃ => hsigned list b₃ h₃

end PlsqlAudit.Build
