import Mathlib.Data.List.Forall2
import Mathlib.Data.Option.Basic

/-!
# Lists and options side by side

Two lists whose elements are related one by one stay related under the functions
of lists that look at the elements only; and so do two options.
-/

namespace PlsqlAudit

open List (Forall₂)

variable {α β γ δ : Type} {R : α → β → Prop} {S : γ → δ → Prop}
  {xs : List α} {ys : List β} {x : Option α} {y : Option β}

/-- Each element on the left has a partner on the right. -/
theorem exists_of_mem_left (h : Forall₂ R xs ys) {a : α} (ha : a ∈ xs) : ∃ b ∈ ys, R a b := by
  induction h with
  | nil => simp at ha
  | cons hab _ ih =>
    rcases List.mem_cons.1 ha with rfl | ha
    · exact ⟨_, List.mem_cons_self, hab⟩
    · obtain ⟨b, hb, hr⟩ := ih ha
      exact ⟨b, List.mem_cons_of_mem _ hb, hr⟩

/-- Partners can be taken to be elements of their lists. -/
theorem rel_mem_mem (h : Forall₂ R xs ys) :
    Forall₂ (fun a b => a ∈ xs ∧ b ∈ ys ∧ R a b) xs ys := by
  have hleft : Forall₂ (fun a b => a ∈ xs ∧ R a b) xs ys :=
    (List.forall₂_and_left _ _).2 ⟨fun _ ha => ha, h⟩
  have hright : Forall₂ (fun b a => b ∈ ys ∧ a ∈ xs ∧ R a b) ys xs :=
    (List.forall₂_and_left _ _).2 ⟨fun _ hb => hb, hleft.flip⟩
  exact hright.flip.imp fun _ _ hab => ⟨hab.2.1, hab.1, hab.2.2⟩

/-- Functions that agree on partners map the two lists to one. -/
theorem map_eq_of_rel {f : α → γ} {g : β → γ} (hfg : ∀ a b, R a b → f a = g b)
    (h : Forall₂ R xs ys) : xs.map f = ys.map g := by
  induction h with
  | nil => rfl
  | cons hab _ ih => rw [List.map_cons, List.map_cons, hfg _ _ hab, ih]

/-- Tests that agree on partners hold of some element on both sides or on neither. -/
theorem any_eq_of_rel {f : α → Bool} {g : β → Bool} (hfg : ∀ a b, R a b → f a = g b)
    (h : Forall₂ R xs ys) : xs.any f = ys.any g := by
  induction h with
  | nil => rfl
  | cons hab _ ih => rw [List.any_cons, List.any_cons, hfg _ _ hab, ih]

/-- Tests that agree on partners find partners, or nothing on either side. -/
theorem rel_find? {f : α → Bool} {g : β → Bool} (hfg : ∀ a b, R a b → f a = g b)
    (h : Forall₂ R xs ys) : Option.Rel R (xs.find? f) (ys.find? g) := by
  induction h with
  | nil => exact .none
  | @cons a b _ _ hab _ ih =>
    rw [List.find?_cons, List.find?_cons, hfg a b hab]
    cases g b
    · exact ih
    · exact .some hab

/-- The first results that are found on the two sides are related, if the results of partners
are. -/
theorem rel_findSome? {f : α → Option γ} {g : β → Option δ}
    (hfg : ∀ a b, R a b → Option.Rel S (f a) (g b)) (h : Forall₂ R xs ys) :
    Option.Rel S (xs.findSome? f) (ys.findSome? g) := by
  induction h with
  | nil => exact .none
  | @cons a b _ _ hab _ ih =>
    rw [List.findSome?_cons, List.findSome?_cons]
    have hhead := hfg a b hab
    generalize f a = first at hhead
    generalize g b = first' at hhead
    cases hhead with
    | none => exact ih
    | some hs => exact .some hs

/-- The first elements are partners, or both lists are empty. -/
theorem rel_head? (h : Forall₂ R xs ys) : Option.Rel R xs.head? ys.head? := by
  cases h with
  | nil => exact .none
  | cons hab _ => exact .some hab

/-- The last elements are partners, or both lists are empty. -/
theorem rel_getLast? (h : Forall₂ R xs ys) : Option.Rel R xs.getLast? ys.getLast? := by
  rw [List.getLast?_eq_head?_reverse, List.getLast?_eq_head?_reverse]
  exact rel_head? (List.rel_reverse h)

/-- Without their first elements the lists are still side by side. -/
theorem rel_tail (h : Forall₂ R xs ys) : Forall₂ R xs.tail ys.tail := by
  cases h with
  | nil => exact .nil
  | cons _ h => exact h

/-- Tests that agree on partners take equally many elements from the two lists, side by side. -/
theorem rel_takeWhile {f : α → Bool} {g : β → Bool} (hfg : ∀ a b, R a b → f a = g b)
    (h : Forall₂ R xs ys) : Forall₂ R (xs.takeWhile f) (ys.takeWhile g) := by
  induction h with
  | nil => exact .nil
  | @cons a b _ _ hab _ ih =>
    rw [List.takeWhile_cons, List.takeWhile_cons, hfg a b hab]
    split
    · exact .cons hab ih
    · exact .nil

/-- Tests that agree on partners leave lists that are side by side. -/
theorem rel_dropWhile {f : α → Bool} {g : β → Bool} (hfg : ∀ a b, R a b → f a = g b)
    (h : Forall₂ R xs ys) : Forall₂ R (xs.dropWhile f) (ys.dropWhile g) := by
  induction h with
  | nil => exact .nil
  | @cons a b _ _ hab h ih =>
    rw [List.dropWhile_cons, List.dropWhile_cons, hfg a b hab]
    split
    · exact ih
    · exact .cons hab h

/-- Options in relation stay so when both are followed by related functions. -/
theorem rel_bind {f : α → Option γ} {g : β → Option δ}
    (hfg : ∀ a b, R a b → Option.Rel S (f a) (g b)) (h : Option.Rel R x y) :
    Option.Rel S (x.bind f) (y.bind g) := by
  cases h with
  | none => exact .none
  | some hab => exact hfg _ _ hab

/-- A relation between options can be exchanged for one that it implies. -/
theorem rel_imp {Q : α → β → Prop} (hRQ : ∀ a b, R a b → Q a b) (h : Option.Rel R x y) :
    Option.Rel Q x y := by
  cases h with
  | none => exact .none
  | some hab => exact .some (hRQ _ _ hab)

/-- What is known of the element on the left can be added to the relation. -/
theorem rel_and_left {P : α → Prop} (hP : ∀ a, x = some a → P a) (h : Option.Rel R x y) :
    Option.Rel (fun a b => P a ∧ R a b) x y := by
  cases h with
  | none => exact .none
  | some hab => exact .some ⟨hP _ rfl, hab⟩

/-- Tests that agree on partners keep both options or neither. -/
theorem rel_optionFilter {f : α → Bool} {g : β → Bool} (hfg : ∀ a b, R a b → f a = g b)
    (h : Option.Rel R x y) : Option.Rel R (x.filter f) (y.filter g) := by
  cases h with
  | none => exact .none
  | @some a b hab =>
    rw [Option.filter_some, Option.filter_some, hfg a b hab]
    split
    · exact .some hab
    · exact .none

/-- Tests that agree on partners hold of some element of both options or of neither. -/
theorem optionAny_eq_of_rel {f : α → Bool} {g : β → Bool} (hfg : ∀ a b, R a b → f a = g b)
    (h : Option.Rel R x y) : x.any f = y.any g := by
  cases h with
  | none => rfl
  | some hab => exact hfg _ _ hab

/-- Tests that agree on partners hold of all elements of both options or of neither. -/
theorem optionAll_eq_of_rel {f : α → Bool} {g : β → Bool} (hfg : ∀ a b, R a b → f a = g b)
    (h : Option.Rel R x y) : x.all f = y.all g := by
  cases h with
  | none => rfl
  | some hab => exact hfg _ _ hab

/-- The first of two options that is there is related to its counterpart, where the second ones are
compared only if the first are missing. -/
theorem rel_orElse {x₂ : Option α} {y₂ : Option β} (h : Option.Rel R x y)
    (h₂ : x = none → Option.Rel R x₂ y₂) : Option.Rel R (x <|> x₂) (y <|> y₂) := by
  cases h with
  | none => exact h₂ rfl
  | some hab => exact .some hab

end PlsqlAudit
