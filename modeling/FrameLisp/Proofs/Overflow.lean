import FrameLisp.Proofs.Renaming
import Mathlib.Algebra.Order.Ring.Nat
import Mathlib.Tactic.Ring

/-!
Faults of the language's own primitives. Arithmetic overflows exactly if it combines an integer with
a number that is none, and the integer is at least halfway from the largest finite binary64 number
to the next power of two (`Operation.apply_eq_tooLarge_iff`). Equality needs room to go into its
arguments. Whatever else a primitive stops for is an error of the language (`Op.call_eq_error`).
-/
namespace FrameLisp

/-! ## Rounding -/

namespace Binary64

/-- The magnitude of an integer is at least halfway from the largest finite number, which is
    `2¹⁰²⁴ - 2⁹⁷¹`, to `2¹⁰²⁴`. -/
def Beyond (n : Int) : Prop := 2 ^ 1024 ≤ n.natAbs + 2 ^ 970

/-- A magnitude in units, rounded to 53 significant bits. -/
def rounded (units : Nat) : Nat := roundDiv units (spacing units) * spacing units

theorem le_roundDiv (num den : Nat) : num / den ≤ roundDiv num den := by
  unfold roundDiv
  dsimp only
  split <;> omega

theorem roundDiv_le (num den : Nat) : roundDiv num den ≤ num / den + 1 := by
  unfold roundDiv
  dsimp only
  split <;> omega

/-- A quotient is rounded to less than an even number exactly if it is less by more than a half. -/
theorem roundDiv_lt_iff {num half bound : Nat} (positive : 0 < half) (even : bound % 2 = 0) :
    roundDiv num (2 * half) < bound ↔ num + half < bound * (2 * half) := by
  have whole : 2 * half * (num / (2 * half)) + num % (2 * half) = num := Nat.div_add_mod _ _
  have small : num % (2 * half) < 2 * half := Nat.mod_lt _ (by omega)
  unfold roundDiv
  generalize num / (2 * half) = q at *
  generalize num % (2 * half) = r at *
  subst whole
  rcases Nat.lt_trichotomy (q + 1) bound with less | same | more
  · have fits : 2 * half * (q + 2) ≤ bound * (2 * half) := by
      rw [Nat.mul_comm bound]
      exact Nat.mul_le_mul_left _ (by omega)
    rw [Nat.mul_add] at fits
    refine iff_of_true ?_ (by omega)
    dsimp only
    split <;> omega
  · -- The number below an even one is odd, so that a half is rounded up.
    subst same
    have next : (q + 1) * (2 * half) = 2 * half * q + 2 * half := by ring
    rw [next]
    dsimp only
    split <;> omega
  · have large : bound * (2 * half) ≤ 2 * half * q := by
      rw [Nat.mul_comm bound]
      exact Nat.mul_le_mul_left _ (by omega)
    refine iff_of_false ?_ (by omega)
    dsimp only
    split <;> omega

section
variable {units k : Nat}

private theorem rounded_of_small (small : units.log2 < k + 53) :
    rounded units < 2 ^ (k + 54) ∧ units + 2 ^ k < 2 ^ (k + 54) := by
  have below : units < 2 ^ (units.log2 + 1) := Nat.lt_log2_self
  constructor
  · have quotient : units / spacing units < 2 ^ 53 := by
      refine Nat.div_lt_of_lt_mul (below.trans_le ?_)
      rw [spacing, Nat.pow_eq, ← Nat.pow_add]
      exact Nat.pow_le_pow_right (by decide) (by omega)
    calc rounded units ≤ 2 ^ 53 * spacing units :=
          Nat.mul_le_mul_right _ ((roundDiv_le _ _).trans quotient)
      _ = 2 ^ (53 + (units.log2 - 52)) := by rw [spacing, Nat.pow_eq, ← Nat.pow_add]
      _ < 2 ^ (k + 54) := Nat.pow_lt_pow_right (by decide) (by omega)
  · have half : units < 2 ^ (k + 53) :=
      below.trans_le (Nat.pow_le_pow_right (by decide) (by omega))
    have less : 2 ^ k ≤ 2 ^ (k + 53) := Nat.pow_le_pow_right (by decide) (by omega)
    rw [Nat.pow_succ 2 (k + 53)]
    omega

private theorem rounded_of_large (large : k + 53 < units.log2) :
    2 ^ (k + 54) ≤ rounded units ∧ 2 ^ (k + 54) ≤ units := by
  have nonzero : units ≠ 0 := by
    rintro rfl
    simp at large
  have above : 2 ^ units.log2 ≤ units := Nat.log2_self_le nonzero
  have beyond : 2 ^ (k + 54) ≤ 2 ^ units.log2 := Nat.pow_le_pow_right (by decide) large
  refine ⟨beyond.trans ?_, beyond.trans above⟩
  have whole : 2 ^ 52 * spacing units = 2 ^ units.log2 := by
    rw [spacing, Nat.pow_eq, ← Nat.pow_add]
    congr 1
    omega
  have quotient : 2 ^ 52 ≤ units / spacing units :=
    (Nat.le_div_iff_mul_le (Nat.two_pow_pos _)).mpr (whole ▸ above)
  rw [← whole]
  exact Nat.mul_le_mul_right _ (quotient.trans (le_roundDiv _ _))

/-- A magnitude is rounded to a power of two or more exactly from halfway on between that power and
    the number of 53 bits below it. -/
theorem le_rounded_iff (units k : Nat) :
    2 ^ (k + 54) ≤ rounded units ↔ 2 ^ (k + 54) ≤ units + 2 ^ k := by
  rcases Nat.lt_trichotomy units.log2 (k + 53) with small | same | large
  · obtain ⟨less, less'⟩ := rounded_of_small small
    exact iff_of_false less.not_ge less'.not_ge
  · have step : spacing units = 2 * 2 ^ k := by
      rw [spacing, same, Nat.pow_eq]
      exact Nat.pow_succ'
    have bound : 2 ^ (k + 54) = 2 ^ 53 * (2 * 2 ^ k) := by
      rw [← Nat.pow_succ', ← Nat.pow_add]
      congr 1
      omega
    rw [rounded, step, ← not_lt, ← not_lt, not_iff_not, bound,
      Nat.mul_lt_mul_right (Nat.mul_pos (by decide) (Nat.two_pow_pos _)),
      roundDiv_lt_iff (Nat.two_pow_pos _) (by decide)]
  · obtain ⟨more, more'⟩ := rounded_of_large large
    exact iff_of_true more (more'.trans (Nat.le_add_right _ _))

theorem finite?_round_one (negative : Bool) (units : Nat) :
    (round negative units 1).finite? = none ↔ unitsBound ≤ rounded units := by
  unfold round rounded
  generalize unitsBound = bound
  simp only [Nat.div_one, Nat.one_mul]
  by_cases less : roundDiv units (spacing units) * spacing units < bound
  · simp [less, finite?]
  · simp [less, not_lt.mp less, finite?]

/-- The same for a whole number of ones, if there are `2 ^ j` units in one. -/
theorem le_rounded_scaled_iff (n k j : Nat) :
    2 ^ (k + 54 + j) ≤ rounded (n * 2 ^ j) ↔ 2 ^ (k + 54) ≤ n + 2 ^ k := by
  have scaled : 2 ^ (k + 54) * 2 ^ j ≤ (n + 2 ^ k) * 2 ^ j ↔ 2 ^ (k + 54) ≤ n + 2 ^ k :=
    Nat.mul_le_mul_right_iff (Nat.two_pow_pos j)
  rw [← scaled, ← Nat.pow_add, Nat.add_mul, ← Nat.pow_add, Nat.add_right_comm k 54 j]
  exact le_rounded_iff _ _

end

theorem ofInt?_eq_none_iff {n : Int} : ofInt? n = none ↔ Beyond n := by
  have bound : unitsBound = 2 ^ (1024 + 1074) := by decide +kernel
  have one : unitsPerOne = 2 ^ 1074 := by decide +kernel
  have rounds : ofInt? n = none ↔ unitsBound ≤ rounded (n.natAbs * unitsPerOne) :=
    finite?_round_one (n < 0) _
  have scaled := le_rounded_scaled_iff n.natAbs 970 1074
  have exponent : 970 + 54 = 1024 := rfl
  rw [bound, one] at rounds
  rw [exponent] at scaled
  exact rounds.trans scaled

end Binary64

/-! ## Arithmetic -/

namespace Number

/-- Whether a number is a binary64 number or a nan. -/
def isFloat : Number → Bool
  | .int _ => false
  | _ => true

/-- One of two numbers is an integer that rounds beyond every finite binary64 number, and the other
    is no integer. -/
def Overflow (x y : Number) : Prop :=
  ∃ n, Binary64.Beyond n ∧ (x = .int n ∧ y.isFloat = true ∨ x.isFloat = true ∧ y = .int n)

variable {x y : Number}

theorem operand?_eq_none : x.operand? = none ↔ ∃ n, Binary64.Beyond n ∧ x = .int n := by
  cases x with
  | int n => simp [operand?, Binary64.ofInt?_eq_none_iff]
  | _ => simp [operand?]

/-- Arithmetic overflows exactly if it is asked to round an integer beyond every finite number. -/
theorem Operation.apply_eq_tooLarge_iff (op : Operation) :
    op.apply x y = .tooLarge ↔ Overflow x y := by
  by_cases ints : ∃ a b, x = .int a ∧ y = .int b
  · obtain ⟨a, b, rfl, rfl⟩ := ints
    simp [apply, Overflow, isFloat]
  have overflow : Overflow x y ↔ x.operand? = none ∨ y.operand? = none := by
    rw [operand?_eq_none, operand?_eq_none, ← exists_or]
    refine exists_congr fun n => ?_
    cases x <;> cases y <;> simp_all [isFloat]
  rw [overflow, op.apply_eq fun a b here there => ints ⟨a, b, here, there⟩]
  rcases x.operand? with _ | _ | a <;> rcases y.operand? with _ | _ | b <;> simp
  cases op.onFloats a b <;> simp

end Number

/-! ## Primitives -/

/-- A primitive is asked to add, subtract or multiply, and overflows. -/
def Op.Overflows (op : Op) (args : List Value) : Prop :=
  ∃ f x y, op = .binary f ∧ (f = .add ∨ f = .sub ∨ f = .mul) ∧
    args = [.number x, .number y] ∧ Number.Overflow x y

section
variable {a b : Value} {m m' : Machine} {c : Fault}

theorem Unary.isEvaluationError_of_nonEmpty {f : Unary} (failed : nonEmpty f a = .error c) :
    c.isEvaluationError = true := by
  unfold nonEmpty at failed
  split at failed <;> cases failed <;> rfl

theorem Unary.call_eq_error {f : Unary} (failed : f.call a m = .error (.fault c) m') :
    c.isEvaluationError = true := by
  cases f with
  | isNull => cases failed
  | car =>
    obtain ⟨_, same, failed⟩ := ofExcept_eq_error failed
    cases same
    cases found : nonEmpty .car a <;> rw [found] at failed <;> cases failed
    exact isEvaluationError_of_nonEmpty found
  | cdr =>
    rcases bind_eq_error failed with failed | ⟨_, _, _, failed⟩
    · obtain ⟨_, same, failed⟩ := ofExcept_eq_error failed
      cases same
      exact isEvaluationError_of_nonEmpty failed
    · cases failed

theorem Binary.isEvaluationError_of_numbers {f : Binary} (failed : numbers f a b = .error c) :
    c.isEvaluationError = true := by
  unfold numbers at failed
  split at failed <;> cases failed <;> rfl

theorem Binary.numbers_eq_ok {f : Binary} {x y : Number} (ok : numbers f a b = .ok (x, y)) :
    a = .number x ∧ b = .number y := by
  unfold numbers at ok
  cases a <;> cases b <;> simp_all [Value.number?]

theorem Binary.compare_eq_error {f : Binary} {test : Number → Number → Bool}
    (failed : Eval.ofExcept (compare f test a b) m = .error (.fault c) m') :
    c.isEvaluationError = true := by
  obtain ⟨_, same, failed⟩ := ofExcept_eq_error failed
  cases same
  unfold compare at failed
  cases found : numbers f a b <;> rw [found] at failed <;> cases failed
  exact isEvaluationError_of_numbers found

theorem Binary.compute_eq_error {f : Binary} {op : Number.Operation}
    (failed : compute f op a b m = .error (.fault c) m') :
    c.isEvaluationError = true ∨
      c = .intTooLarge ∧ ∃ x y, a = .number x ∧ b = .number y ∧ Number.Overflow x y := by
  rcases bind_eq_error failed with refused | ⟨⟨x, y⟩, m1, checked, stopped⟩
  · obtain ⟨_, same, refused⟩ := ofExcept_eq_error refused
    cases same
    exact .inl (isEvaluationError_of_numbers refused)
  · cases found : numbers f a b <;> rw [found] at checked <;> cases checked
    obtain ⟨rfl, rfl⟩ := numbers_eq_ok found
    dsimp only at stopped
    cases applied : op.apply x y <;> rw [applied] at stopped <;> cases stopped
    exact .inr ⟨rfl, x, y, rfl, rfl, op.apply_eq_tooLarge_iff.mp applied⟩

/-- What a primitive of the language can stop for: an error of the language, overflow, or values
    that are nested too deeply to be compared. -/
theorem Op.call_eq_error {room : Nat} {op : Op} {args : List Value} (own : op.isHost = false)
    (failed : op.call room args m = .error (.fault c) m') :
    c.isEvaluationError = true ∨ c = .tooDeep ∨ c = .intTooLarge ∧ op.Overflows args := by
  unfold call at failed
  split at failed
  · exact .inl (Unary.call_eq_error failed)
  · rename_i f a b
    cases f with
    | cons =>
      cases b with
      | list stamp items => cases failed
      | _ =>
        cases failed
        exact .inl rfl
    | add | sub | mul =>
      rcases Binary.compute_eq_error failed with error | ⟨rfl, x, y, rfl, rfl, overflow⟩
      · exact .inl error
      · exact .inr (.inr ⟨rfl, _, x, y, rfl, by simp, rfl, overflow⟩)
    | gt | ge | lt | le => exact .inl (Binary.compare_eq_error failed)
    | equal =>
      simp only [Binary.call, Binary.decideEqual] at failed
      cases known : Value.equal? .apart room a b <;> rw [known] at failed <;> cases failed
      exact .inr (.inl rfl)
  · cases failed
  · cases own
  · cases failed
    exact .inl rfl

end

end FrameLisp
