import Mathlib.Data.List.Basic
import PlsqlAudit.Tree.NameKey

/-!
# Lowering twice

A text that was lowered is in small letters, and lowering does not change it any
more.  For single characters this is a fact about the table of capitals: no run
of capitals is moved onto a capital of another run.  It is checked run against
run, not character by character: two runs of every second code point can lie in
each other without touching.

Nor does lowering make a dot of anything else, since the small letters of the
table all come after the dot.
-/

namespace PlsqlAudit.Text

/-! ### The table of capitals -/

/-- The small letter of a member of a run. -/
def CapitalRun.small (run : CapitalRun) (n : Nat) : Nat := (Int.ofNat n + run.shift).toNat

/-- The members of a run. -/
def CapitalRun.Has (run : CapitalRun) (n : Nat) : Prop :=
  run.first ≤ n ∧ n ≤ run.last ∧ (n - run.first) % run.step = 0

/-- True when none of `lo`, `lo + step`, …, `hi` is `n`. -/
def avoids (lo hi step n : Nat) : Bool :=
  hi < n || n < lo || (step % 2 == 0 && (lo + n) % 2 == 1)

/-- True when none of `lo`, `lo + step`, …, `hi` is a capital. -/
def passes (lo hi step : Nat) : List CapitalRun → Bool
  | [] => true
  | run :: rest =>
    hi < run.first ||
      ((run.last < lo ||
        (run.step == 2 && (step % 2 == 0 || lo == hi) && (lo + run.first) % 2 == 1)) &&
        passes lo hi step rest)

/-- True when the small letters of a run are characters, from `a` on, and neither
capitals nor the capital I with a dot. -/
def CapitalRun.settles (run : CapitalRun) : Bool :=
  let lo := run.small run.first
  let hi := run.small run.last
  97 ≤ lo && (hi < 0xD800 || (0xDFFF < lo && hi < 0x110000)) && avoids lo hi run.step 0x130 &&
    passes lo hi run.step capitalRuns

/-- The small letters of every run of the table are settled: none of them is a capital of any
run. -/
theorem settles_capitalRuns : capitalRuns.all CapitalRun.settles = true := by decide +kernel

/-- Code points that pass all runs of a table are not changed by it. -/
theorem lowerCodePoint_of_passes {lo hi step n : Nat} {runs : List CapitalRun}
    (h : passes lo hi step runs = true) (hlo : lo ≤ n) (hhi : n ≤ hi)
    (hstep : (n - lo) % step = 0) : lowerCodePoint n runs = n := by
  induction runs with
  | nil => rfl
  | cons run rest ih =>
    simp only [passes, Bool.or_eq_true, Bool.and_eq_true, decide_eq_true_eq, beq_iff_eq] at h
    rw [lowerCodePoint]
    split
    case isTrue => rfl
    case isFalse hfirst =>
      rcases h with hbefore | ⟨hclear, hrest⟩
      · omega
      · have hnot : ¬ (n ≤ run.last ∧ (n - run.first) % run.step = 0) := by
          rintro ⟨hlast, hmember⟩
          rcases hclear with hafter | ⟨⟨htwo, heven⟩, hodd⟩
          · omega
          · rw [htwo] at hmember
            rcases heven with heven | rfl
            · obtain ⟨half, hhalf⟩ := Nat.dvd_of_mod_eq_zero heven
              obtain ⟨k, hk⟩ := Nat.dvd_of_mod_eq_zero hstep
              rw [hhalf, Nat.mul_assoc] at hk
              omega
            · omega
        rw [if_neg (by simpa using hnot)]
        exact ih hrest

/-- A code point that is changed is a member of some run. -/
theorem lowerCodePoint_cases (n : Nat) (runs : List CapitalRun) :
    lowerCodePoint n runs = n ∨
      ∃ run ∈ runs, run.Has n ∧ lowerCodePoint n runs = run.small n := by
  induction runs with
  | nil => exact .inl rfl
  | cons run rest ih =>
    rw [lowerCodePoint]
    split
    case isTrue => exact .inl rfl
    case isFalse hfirst =>
      split
      case isTrue hmember =>
        simp only [Bool.and_eq_true, decide_eq_true_eq, beq_iff_eq] at hmember
        exact .inr ⟨run, List.mem_cons_self, ⟨by omega, hmember⟩, rfl⟩
      case isFalse =>
        rcases ih with ih | ⟨other, hother, hhas, hsmall⟩
        · exact .inl ih
        · exact .inr ⟨other, List.mem_cons_of_mem run hother, hhas, hsmall⟩

/-- What the table says of a code point that it changes. -/
theorem small_spec {run : CapitalRun} {n : Nat} (hrun : run ∈ capitalRuns) (hhas : run.Has n) :
    97 ≤ run.small n ∧ (run.small n).isValidChar ∧ run.small n ≠ 0x130 ∧
      lowerCodePoint (run.small n) capitalRuns = run.small n := by
  have hsettles := List.all_eq_true.1 settles_capitalRuns run hrun
  simp only [CapitalRun.settles, Bool.and_eq_true, Bool.or_eq_true, decide_eq_true_eq] at hsettles
  obtain ⟨⟨⟨hletter, hvalid⟩, havoids⟩, hpasses⟩ := hsettles
  obtain ⟨hfirst, hlast, hmember⟩ := hhas
  have hlow : run.small n = run.small run.first + (n - run.first) := by
    simp only [CapitalRun.small, Int.ofNat_eq_natCast] at hletter ⊢
    omega
  have hhigh : run.small run.last = run.small run.first + (run.last - run.first) := by
    simp only [CapitalRun.small, Int.ofNat_eq_natCast] at hletter ⊢
    omega
  refine ⟨by omega, ?_, ?_, ?_⟩
  · simp only [Nat.isValidChar]
    omega
  · intro hdotted
    simp only [avoids, Bool.and_eq_true, Bool.or_eq_true, decide_eq_true_eq,
      beq_iff_eq] at havoids
    rcases havoids with (hlt | hlt) | ⟨heven, hodd⟩
    · omega
    · omega
    · obtain ⟨half, hhalf⟩ := Nat.dvd_of_mod_eq_zero heven
      obtain ⟨k, hk⟩ := Nat.dvd_of_mod_eq_zero hmember
      rw [hhalf, Nat.mul_assoc] at hk
      omega
  · refine lowerCodePoint_of_passes hpasses (by omega) (by omega) ?_
    rw [hlow, Nat.add_sub_cancel_left]
    exact hmember

/-! ### Small characters -/

/-- What holds of the first 128 characters holds of every ASCII character. -/
theorem forall_ascii {P : Char → Prop} (h : ∀ n < 128, P (Char.ofNat n)) {c : Char}
    (hc : c.toNat < 128) : P c := by
  have hp := h c.toNat hc
  rwa [Char.ofNat_toNat] at hp

/-- The code point of a character made from a valid code point is this code point. -/
theorem toNat_ofNat {n : Nat} (h : n.isValidChar) : (Char.ofNat n).toNat = n := by
  rw [Char.ofNat, dif_pos h]
  rfl

/-- Characters that lowering does not change. -/
def IsSmall (c : Char) : Prop := c ≠ 'Σ' ∧ lowerChar c = [c]

/-- A dot is a small character. -/
theorem isSmall_dot : IsSmall '.' := by
  constructor <;> decide

/-- An ASCII character that is no capital letter is a small character. -/
theorem isSmall_of_ascii {c : Char} (h : c.toNat < 128) (hlower : c.toLower = c) : IsSmall c := by
  refine ⟨?_, by rw [lowerChar, if_pos h, hlower]⟩
  rintro rfl
  exact absurd h (by decide)

/-- A code point that the table does not change, and no ASCII capital, is small. -/
theorem isSmall_ofNat {n : Nat} (hvalid : n.isValidChar) (hdotted : n ≠ 0x130)
    (hascii : n < 128 → 97 ≤ n) (hfixed : lowerCodePoint n capitalRuns = n) :
    IsSmall (Char.ofNat n) := by
  have hnat := toNat_ofNat hvalid
  by_cases hlt : n < 128
  · apply isSmall_of_ascii (by omega)
    have hall : ∀ m < 128, 97 ≤ m → (Char.ofNat m).toLower = Char.ofNat m := by decide
    exact hall n hlt (hascii hlt)
  · constructor
    · intro hsigma
      have hn : n = 0x3A3 := by
        rw [← hnat, hsigma]
        rfl
      rw [hn] at hfixed
      exact absurd hfixed (by decide)
    · have hne : Char.ofNat n ≠ '\u0130' := by
        intro heq
        apply hdotted
        rw [← hnat, heq]
        rfl
      rw [lowerChar, if_neg (by omega), if_neg (by simpa using hne), hnat, hfixed]

/-- What a character lowers to is small, also where one capital becomes two characters. -/
theorem isSmall_of_mem_lowerChar {c d : Char} (h : d ∈ lowerChar c) : IsSmall d := by
  unfold lowerChar at h
  split at h
  case isTrue hlt =>
    obtain rfl := List.mem_singleton.1 h
    have hc := forall_ascii
      (P := fun c => c.toLower.toNat < 128 ∧ c.toLower.toLower = c.toLower) (by decide) hlt
    exact isSmall_of_ascii hc.1 hc.2
  case isFalse hlt =>
    split at h
    case isTrue =>
      have hpair : d = 'i' ∨ d = '\u0307' := by simpa using h
      rcases hpair with rfl | rfl
      · constructor <;> decide
      · constructor <;> decide
    case isFalse hdotted =>
      obtain rfl := List.mem_singleton.1 h
      rcases lowerCodePoint_cases c.toNat capitalRuns with hsame | ⟨run, hrun, hhas, hsmall⟩
      · rw [hsame]
        refine isSmall_ofNat c.valid ?_ (by omega) hsame
        intro heq
        apply hdotted
        rw [← Char.ofNat_toNat c, heq]
        rfl
      · obtain ⟨hletter, hvalid, hne, hfixed⟩ := small_spec hrun hhas
        rw [hsmall]
        exact isSmall_ofNat hvalid hne (fun _ => hletter) hfixed

/-- Nothing but a dot lowers to a dot, so lowering makes no new parts of a dotted name. -/
theorem eq_dot_of_mem_lowerChar {c : Char} (h : '.' ∈ lowerChar c) : c = '.' := by
  unfold lowerChar at h
  split at h
  case isTrue hlt =>
    exact forall_ascii (P := fun c => '.' = c.toLower → c = '.') (by decide) hlt
      (List.mem_singleton.1 h)
  case isFalse hlt =>
    split at h
    · exact absurd h (by decide)
    · have hdot := List.mem_singleton.1 h
      rcases lowerCodePoint_cases c.toNat capitalRuns with hsame | ⟨run, hrun, hhas, hsmall⟩
      · rw [hsame, Char.ofNat_toNat] at hdot
        exact hdot.symm
      · obtain ⟨hletter, hvalid, -, -⟩ := small_spec hrun hhas
        have hnat : '.'.toNat = run.small c.toNat := by rw [hdot, hsmall, toNat_ofNat hvalid]
        have hdotNat : '.'.toNat = 46 := rfl
        omega

/-! ### Small texts -/

/-- What stands in a lowered text is a sigma, or one character was lowered to it. -/
theorem mem_lowerFrom_cases {before cs : List Char} {c : Char} (h : c ∈ lowerFrom before cs) :
    (c = 'ς' ∨ c = 'σ') ∨ ∃ d ∈ cs, c ∈ lowerChar d := by
  induction cs generalizing before with
  | nil => simp [lowerFrom] at h
  | cons d cs ih =>
    rw [lowerFrom, List.mem_append] at h
    rcases h with h | h
    · split at h
      · have hsigma := List.mem_singleton.1 h
        split at hsigma
        · exact .inl (.inl hsigma)
        · exact .inl (.inr hsigma)
      · exact .inr ⟨d, List.mem_cons_self, h⟩
    · exact (ih h).imp_right fun ⟨e, he, hc⟩ => ⟨e, List.mem_cons_of_mem d he, hc⟩

/-- All characters of a lowered text are small. -/
theorem isSmall_of_mem_lowerFrom {before cs : List Char} {c : Char}
    (h : c ∈ lowerFrom before cs) : IsSmall c := by
  rcases mem_lowerFrom_cases h with (rfl | rfl) | ⟨d, -, hc⟩
  · constructor <;> decide
  · constructor <;> decide
  · exact isSmall_of_mem_lowerChar hc

/-- A dot in a lowered text was there before. -/
theorem dot_mem_of_mem_lowerFrom {before cs : List Char} (h : '.' ∈ lowerFrom before cs) :
    '.' ∈ cs := by
  rcases mem_lowerFrom_cases h with hsigma | ⟨d, hd, hdot⟩
  · exact absurd hsigma (by decide)
  · rwa [eq_dot_of_mem_lowerChar hdot] at hd

/-- A text in small characters is not changed by lowering it. -/
theorem lowerFrom_of_isSmall {before cs : List Char} (h : ∀ c ∈ cs, IsSmall c) :
    lowerFrom before cs = cs := by
  induction cs generalizing before with
  | nil => rfl
  | cons c cs ih =>
    obtain ⟨hsigma, hlower⟩ := h c List.mem_cons_self
    rw [lowerFrom, if_neg (by simpa using hsigma), hlower,
      ih fun d hd => h d (List.mem_cons_of_mem c hd)]
    rfl

/-- A text in small letters is lowered already, and lowering it once more does not change it. -/
theorem lower_of_isSmall {s : String} (h : ∀ c ∈ s.toList, IsSmall c) : lower s = s := by
  rw [lower, lowerFrom_of_isSmall h, String.ofList_toList]

/-- Lowering does not make a text empty. -/
theorem lower_ne_empty {s : String} (h : s ≠ "") : lower s ≠ "" := by
  intro hempty
  have hnil : lowerFrom [] s.toList = [] := by
    rw [← String.toList_ofList (l := lowerFrom [] s.toList)]
    exact congrArg String.toList hempty
  cases hs : s.toList with
  | nil => exact h (String.toList_eq_nil_iff.1 hs)
  | cons c cs =>
    rw [hs, lowerFrom, List.append_eq_nil_iff] at hnil
    have hsmall := hnil.1
    split at hsmall
    · simp at hsmall
    · unfold lowerChar at hsmall
      split at hsmall
      · simp at hsmall
      · split at hsmall <;> simp at hsmall

/-- All characters of a lowered string are small. -/
theorem isSmall_of_mem_lower {s : String} {c : Char} (h : c ∈ (lower s).toList) : IsSmall c := by
  rw [lower, String.toList_ofList] at h
  exact isSmall_of_mem_lowerFrom h

/-- A dot in a lowered string was there before. -/
theorem dot_mem_of_mem_lower {s : String} (h : '.' ∈ (lower s).toList) : '.' ∈ s.toList := by
  rw [lower, String.toList_ofList] at h
  exact dot_mem_of_mem_lowerFrom h

end PlsqlAudit.Text
