import PlsqlAudit.Arena.Expression
import PlsqlAudit.Proofs.Planting
import PlsqlAudit.Proofs.Reading

/-!
# Readers that build follow readers that answer

Each reader that builds nodes has a counterpart that answers with a tree.  `Build.Follows`
says that the two read the same tokens and fail in the same way, and what their answers have
to do with each other and with what was built.  An expression is built as a tree of its own
(`Builds`); statements and declarations are put below a node (`Fills`).

There is one rule for each way in which readers are put together, so that a proof goes
through both readers side by side.
-/

namespace PlsqlAudit.Build

open PlsqlAudit.Parser

variable {α β γ δ : Type} {b b₀ b₁ : Builder} {P Q : α → β → Builder → Prop}
  {R : γ → δ → Builder → Prop} {p q : Parser α} {m k : Build β} {f : α → Parser γ}
  {g : β → Build δ} {a : α} {v : β} {n : Node} {ns : List Node} {id node : NodeId} {kind : Kind}
  {span : Span} {c : NodeId → Build β}

/-- From the builder `b` on, `m` reads what `p` reads and fails as `p` fails, no node gets
lost, and the answers and the builder at the end satisfy `Q`. -/
def Follows (b : Builder) (Q : α → β → Builder → Prop) (p : Parser α) (m : Build β) : Prop :=
  ∀ s, (∀ e, p s = .error e → m b s = .error e) ∧
    ∀ a s', p s = .ok (a, s') → ∃ v b', m b s = .ok ((v, b'), s') ∧ b.size ≤ b'.size ∧ Q a v b'

/-- `m` builds a detached tree, which is the one that `p` answers with. -/
def Builds (p : Parser Node) (m : Build NodeId) : Prop :=
  ∀ b, Follows b (fun n id b' => b.Grown none [n] [id] b') p m

/-- `m` puts trees below a node, those that are part of what `p` answers with. -/
def Fills (node : NodeId) (parts : α → List Node) (p : Parser α) (m : Build Unit) : Prop :=
  ∀ b, Follows b (fun a _ b' => b.Filled node (parts a) b') p m

namespace Follows

/-! ### Parts in a row -/

theorem pure (h : Q a v b) : Follows b Q (Pure.pure a) (Pure.pure v) := by
  intro s
  refine ⟨nofun, fun a' s' hrun => ?_⟩
  obtain ⟨rfl, rfl⟩ := pure_ok.1 hrun
  exact ⟨v, b, rfl, Nat.le_refl _, h⟩

/-- The second of two parts goes on with the builder that the first leaves. -/
theorem bind_run (m : Build β) (g : β → Build δ) (b : Builder) :
    (m >>= g) b = m b >>= fun r => g r.1 r.2 := rfl

/-- Two parts, each of which follows its counterpart, where the second may rely on the nodes
that were there before the first. -/
theorem bind_of_le (h : Follows b Q p m)
    (hnext : ∀ a v b', b.size ≤ b'.size → Q a v b' → Follows b' R (f a) (g v)) :
    Follows b R (p >>= f) (m >>= g) := by
  intro s
  obtain ⟨herror, hok⟩ := h s
  cases hrun : p s with
  | error e =>
    rw [bind_of_error hrun, bind_run, bind_of_error (herror e hrun)]
    constructor
    · intro e' he
      exact congrArg _ (Except.error.inj he)
    · intro a s' ha
      cases ha
  | ok r =>
    obtain ⟨a, s₁⟩ := r
    obtain ⟨v, b₁, hbuild, hle, hq⟩ := hok a s₁ hrun
    obtain ⟨herror', hok'⟩ := hnext a v b₁ hle hq s₁
    rw [bind_of_ok hrun, bind_run, bind_of_ok hbuild]
    refine ⟨herror', fun c s₂ hc => ?_⟩
    obtain ⟨w, b₂, hbuild', hle', hr⟩ := hok' c s₂ hc
    exact ⟨w, b₂, hbuild', hle.trans hle', hr⟩

/-- Two parts in a row follow two parts in a row, if each follows its counterpart; the second may
use what is known of the first answers and of the arena in between. -/
theorem bind (h : Follows b Q p m) (hnext : ∀ a v b', Q a v b' → Follows b' R (f a) (g v)) :
    Follows b R (p >>= f) (m >>= g) := h.bind_of_le fun a v b' _ => hnext a v b'

/-- Reading tokens leaves the nodes as they are, and answers as the parser alone does. -/
theorem reading (b : Builder) (p : Parser α) :
    Follows b (fun a v b' => a = v ∧ b' = b) p (Build.read p) := by
  intro s
  constructor
  · intro e he
    exact bind_of_error he
  · intro a s' ha
    exact ⟨a, b, bind_of_ok ha, Nat.le_refl _, rfl, rfl⟩

/-- Where both start by reading the same tokens, it remains to see what they do with the answer. -/
theorem read {f : α → Parser γ} {g : α → Build δ} (h : ∀ a, Follows b R (f a) (g a)) :
    Follows b R (p >>= f) (Build.read p >>= g) := by
  refine (reading b p).bind ?_
  rintro a _ _ ⟨rfl, rfl⟩
  exact h a

/-- A look at the tokens reads none of them, so the grammar may take it where the builder does not.
-/
theorem look {f : Stream → Parser α} (h : ∀ s, Follows b Q (f s) m) :
    Follows b Q (get >>= f) m := fun s => h s s

/-- Both fail at the same token, because something else was expected there. -/
theorem unexpected (expected : String) :
    Follows b Q (Parser.unexpected expected) (Build.read (Parser.unexpected expected)) := by
  intro s
  constructor
  · intro e he
    obtain rfl : s.unexpected expected = e := Except.error.inj he
    exact bind_of_error rfl
  · intro a s' ha
    exact absurd ha not_unexpected_ok

/-- Both fail because the bound on their rounds is met. -/
theorem throw (e : ParseError) : Follows b Q (throw e) (Build.read (throw e)) := by
  intro s
  constructor
  · intro e' he
    obtain rfl : e = e' := Except.error.inj he
    exact bind_of_error rfl
  · intro a s' ha
    exact absurd ha not_throw_ok

/-- Both take the same choice, if the condition is about the tokens only. -/
theorem ite {c : Prop} [Decidable c] (h : c → Follows b Q p m) (h' : ¬ c → Follows b Q q k) :
    Follows b Q (if c then p else q) (if c then m else k) := by
  by_cases hc : c
  · rw [if_pos hc, if_pos hc]
    exact h hc
  · rw [if_neg hc, if_neg hc]
    exact h' hc

/-! ### Work on nodes -/

/-- After a step that only works on the nodes, the rest goes on with what it leaves. -/
theorem after (h : Follows b₁ Q p m) (hle : b.size ≤ b₁.size) (hstep : k b = m b₁) :
    Follows b Q p k := by
  intro s
  obtain ⟨herror, hok⟩ := h s
  rw [hstep]
  refine ⟨herror, fun a s' ha => ?_⟩
  obtain ⟨v, b', hbuild, hle', hq⟩ := hok a s' ha
  exact ⟨v, b', hbuild, hle.trans hle', hq⟩

/-- A detached node is made, with nothing below it so far. -/
theorem add (h : ∀ x b', b.Grown none [.leaf kind span] [x] b' → Follows b' Q p (c x)) :
    Follows b Q p (Build.add kind span >>= c) :=
  (h _ _ (.leaf b none kind span)).after (Builder.Grown.leaf b none kind span).le rfl

/-- A node is made below another one, with nothing below it so far. -/
theorem addChild
    (h : ∀ x b', b.Grown (some node) [.leaf kind span] [x] b' → Follows b' Q p (c x)) :
    Follows b Q p (Build.addChild node kind span >>= c) :=
  (h _ _ (.leaf b (some node) kind span)).after (Builder.Grown.leaf b (some node) kind span).le rfl

/-- A node without anything below it is put below another one. -/
theorem addLeaf (h : b₀.Filled node ns b)
    (hnext : ∀ x b', b₀.Filled node (ns ++ [.leaf kind span]) b' → Follows b' Q p (c x)) :
    Follows b Q p (Build.addChild node kind span >>= c) :=
  .addChild fun x b' hleaf => hnext x b' (h.trans ⟨[x], hleaf⟩)

theorem spanOf {c : Span → Build β} (h : Follows b Q p (c (b.span node))) :
    Follows b Q p (Build.spanOf node >>= c) := h

theorem close {c : Unit → Build β} (h : Follows (b.close node span) Q p (c ())) :
    Follows b Q p (Build.close node span >>= c) :=
  h.after (Builder.size_update b node _).ge rfl

theorem setKind {c : Unit → Build β} (h : Follows (b.setKind node kind) Q p (c ())) :
    Follows b Q p (Build.setKind node kind >>= c) :=
  h.after (Builder.size_update b node _).ge rfl

theorem attach {c : Unit → Build β} (h : Follows (b.attach node id) Q p (c ())) :
    Follows b Q p (Build.attach node id >>= c) := h.after (b.size_attach node id).ge rfl

/-- A leaf of the grammar is a detached node that is made last, without any children. -/
theorem leaf (b : Builder) (kind : Kind) (span : Span) :
    Follows b (fun n id b' => b.Grown none [n] [id] b') (Pure.pure (.leaf kind span))
      (Build.add kind span) :=
  add (c := Pure.pure) fun _ _ h => .pure h

/-- A node is made of detached trees, as the tree that is answered. -/
theorem gather {ids : List NodeId} (h : b₀.Grown none ns ids b)
    (hn : b.size ≤ 2 ^ 32 → n = .mk kind span ns) :
    Follows b (fun n id b' => b₀.Grown none [n] [id] b') (Pure.pure n)
      (Build.gather kind span ids) := by
  have hgrown : b₀.Grown none [n] _ _ := (h.gather none kind span).of_eq fun hsmall => by
    rw [Builder.size_attachAll, Builder.size_addUnder] at hsmall
    rw [hn (by omega)]
  have hdone : Follows _ (fun n id b' => b₀.Grown none [n] [id] b') (Pure.pure n)
      (Pure.pure (b.addUnder none kind span).1) := .pure hgrown
  refine hdone.after ?_ rfl
  rw [Builder.size_attachAll, Builder.size_addUnder]
  exact Nat.le_succ _

/-- A node is made of detached trees and put below another one. -/
theorem gatherChild {parent : NodeId} {ids : List NodeId} (h : b₀.Grown none ns ids b)
    (hnext : ∀ x b', b₀.Grown (some parent) [.mk kind span ns] [x] b' → Follows b' Q p (c x)) :
    Follows b Q p (Build.addChild parent kind span >>= fun x =>
      Build.attachAll x ids >>= fun _ => c x) := by
  refine (hnext _ _ (h.gather (some parent) kind span)).after ?_ rfl
  rw [Builder.size_attachAll, Builder.size_addUnder]
  exact Nat.le_succ _

/-- Nodes are made without reading tokens, which the grammar does not notice. -/
theorem work {q : Parser γ} (h : Follows b Q (Pure.pure a) m)
    (hnext : ∀ v b', Q a v b' → Follows b' R q (g v)) : Follows b R q (m >>= g) := by
  intro s
  obtain ⟨v, b', hbuild, hle, hq⟩ := (h s).2 a s rfl
  obtain ⟨herror, hok⟩ := hnext v b' hq s
  rw [bind_run, bind_of_ok hbuild]
  refine ⟨herror, fun c s₂ hc => ?_⟩
  obtain ⟨w, b₂, hbuild', hle', hr⟩ := hok c s₂ hc
  exact ⟨w, b₂, hbuild', hle.trans hle', hr⟩

/-- The last step at a node below another one: its span is stretched. -/
theorem closed {parent : NodeId} {last : Span}
    (h : b₀.Grown (some parent) [.mk kind span ns] [node] b)
    (hn : n = .mk kind (span.cover last) ns) :
    Follows b (fun n _ b' => b₀.Filled parent [n] b') (Pure.pure n) (Build.close node last) := by
  subst hn
  exact .close (c := Pure.pure) (.pure ⟨[node], h.close last⟩)

/-! ### What is put below a node -/

/-- An answer of the grammar may be turned into another one, if what is known of it still tells
what has grown. -/
theorem map {h : α → γ} {R : γ → β → Builder → Prop} (hm : Follows b Q p m)
    (hr : ∀ a v b', Q a v b' → R (h a) v b') : Follows b R (p >>= fun a => Pure.pure (h a)) m := by
  have hbind : Follows b R (p >>= fun a => Pure.pure (h a)) (m >>= Pure.pure) :=
    hm.bind fun a v b' hq => .pure (hr a v b' hq)
  rwa [bind_pure] at hbind

section Filling

variable {parts : α → List Node} {work : Build Unit} {rest : Unit → Build δ}

/-- A node is filled, and what follows goes on with the node filled further. -/
theorem fill (hm : Fills node parts p work) (h : b₀.Filled node ns b)
    (hnext : ∀ a b', b₀.Filled node (ns ++ parts a) b' → Follows b' R (f a) (rest ())) :
    Follows b R (p >>= f) (work >>= rest) :=
  (hm b).bind fun a _ b' h' => hnext a b' (h.trans h')

/-- A node is filled where a condition holds, with what is read then and listed. -/
theorem fillIf {c : Prop} [Decidable c] {f : List Node → Parser γ} {parts : α → List Node}
    {list : α → List Node} (hm : c → Fills node parts p work) (hlist : ∀ a, parts a = list a)
    (h : b₀.Filled node ns b)
    (hnext : ∀ ms b', b₀.Filled node (ns ++ ms) b' → Follows b' R (f ms) (rest ())) :
    Follows b R
      (if c then p >>= fun a => Pure.pure (list a) >>= f else Pure.pure [] >>= f)
      (if c then work >>= rest else rest ()) := by
  refine .ite (fun hc => ?_) fun _ => ?_
  · exact .fill (hm hc) h fun a b' h' => hnext (list a) b' (hlist a ▸ h')
  · exact hnext [] b (by simpa using h)

/-- A node is filled unless a condition holds, with what is read then and listed. -/
theorem fillUnless {c : Prop} [Decidable c] {f : List Node → Parser γ} {parts : α → List Node}
    {list : α → List Node} (hm : ¬ c → Fills node parts p work) (hlist : ∀ a, parts a = list a)
    (h : b₀.Filled node ns b)
    (hnext : ∀ ms b', b₀.Filled node (ns ++ ms) b' → Follows b' R (f ms) (rest ())) :
    Follows b R
      (if c then Pure.pure [] >>= f else p >>= fun a => Pure.pure (list a) >>= f)
      (if c then rest () else work >>= rest) := by
  refine .ite (fun _ => ?_) fun hc => ?_
  · exact hnext [] b (by simpa using h)
  · exact .fill (hm hc) h fun a b' h' => hnext (list a) b' (hlist a ▸ h')

end Filling

/-! ### Repetition -/

/-- Both go on, or both stop, and what holds in between holds again. -/
def Next (I : α → β → Builder → Prop) (a : α) (v : β) : Option α → Option β → Builder → Prop
  | none, none, b => I a v b
  | some a, some v, b => I a v b
  | _, _, _ => False

/-- What holds before every round of a loop, of both answers and of the arena, holds at the end of
it. -/
theorem rounds {I : α → β → Builder → Prop} {step : α → Parser (Option α)}
    {step' : β → Build (Option β)}
    (hstep : ∀ a v b, I a v b → Follows b (Next I a v) (step a) (step' v)) (bound : List Token)
    (h : I a v b) : Follows b I (iterate step bound a) (Build.rounds step' bound v) := by
  induction bound generalizing a v b with
  | nil => exact .throw .exhausted
  | cons t bound ih =>
    refine (hstep a v b h).bind fun a' v' b' hnext => ?_
    match a', v', hnext with
    | none, none, hnext => exact .pure hnext
    | some a', some v', hnext => exact ih hnext

/-- What holds before every round of a loop, of both answers and of the arena, holds when the loop
is left. -/
theorem repeatedly {I : α → β → Builder → Prop} {step : α → Parser (Option α)}
    {step' : β → Build (Option β)}
    (hstep : ∀ a v b, I a v b → Follows b (Next I a v) (step a) (step' v)) (h : I a v b) :
    Follows b I (loop step a) (Build.repeatedly step' v) :=
  .read fun _ => .rounds hstep _ h

/-- A node is filled as long as a condition holds. -/
theorem each {parts : α → List Node} {item : Build Unit} (more : Stream → Bool)
    (hitem : Fills node parts p item) :
    Follows b (fun list any b' => any = !list.isEmpty ∧ b.Filled node (list.flatMap parts) b')
      (many more p) (Build.each more item) := by
  refine .map (Q := fun (reversed : List α) any b' => any = !reversed.isEmpty ∧
    b.Filled node (reversed.reverse.flatMap parts) b') ?_ fun reversed any b' h => ?_
  · refine .repeatedly (fun reversed any b₁ h => ?_) ⟨rfl, .refl b node⟩
    refine .read fun s => .ite (fun _ => ?_) fun _ => .pure h
    refine .fill hitem h.2 fun a b₂ h₂ => .pure ⟨rfl, ?_⟩
    simpa using h₂
  · simpa using h

/-- A node is filled once, and again behind each comma. -/
theorem listed {parts : α → List Node} {item : Build Unit} (hitem : Fills node parts p item) :
    Fills node (fun list => list.flatMap parts) (separated p) (Build.listed item) := by
  intro b
  refine .fill hitem (.refl b node) fun first b₁ h₁ => ?_
  refine .map (Q := fun (reversed : List α) _ b' =>
    b.Filled node (reversed.reverse.flatMap parts) b') ?_ fun reversed _ b' h => ?_
  · refine .repeatedly (fun reversed _ b₂ h => ?_) (by simpa using h₁)
    refine .read fun more => .ite (fun _ => ?_) fun _ => .pure h
    refine .fill hitem h fun a b₃ h₃ => .pure ?_
    simpa [Next] using h₃
  · exact h

end Follows

namespace Fills

/-- What puts one tree below a node is no less right where the grammar could answer with none. -/
theorem some {p : Parser Node} {m : Build Unit} (h : Fills node (fun n => [n]) p m) :
    Fills node Option.toList (do return some (← p)) m := fun b =>
  (h b).map fun _ _ _ hn => hn

/-- Where tokens are only passed, nothing is put below a node. -/
theorem none (p : Parser Unit) :
    Fills node Option.toList (do p; return (none : Option Node)) (Build.read p) := fun b =>
  (Follows.reading b p).map fun _ _ _ hsame => hsame.2 ▸ .refl b node

end Fills

/-- What is built as a tree of its own is put below a node. -/
theorem Builds.under {p : Parser Node} {m : Build NodeId} (h : Builds p m) (node : NodeId) :
    Fills node (fun n => [n]) p (Build.under node m) := by
  intro b
  have hunder : Follows b (fun n _ b' => b.Filled node [n] b') (p >>= Pure.pure)
      (Build.under node m) :=
    (h b).bind fun n id b' hgrown => .attach (c := Pure.pure) (.pure ⟨[id], hgrown.attach node⟩)
  rwa [bind_pure] at hunder

end PlsqlAudit.Build
