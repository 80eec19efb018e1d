import FrameLisp.Builtin
import Mathlib.Algebra.Order.Field.Basic
import Mathlib.Algebra.Order.Field.Rat
import Mathlib.Data.Rat.Cast.Order
import Mathlib.Order.WithBot

/-!
The order that the comparison primitives agree on. Every number but a nan has an exact value, a
rational number or an infinity, and the five primitives compare exact values
(`Comparison.lt_holds_iff`, `Comparison.le_holds_iff`, `Comparison.equal_holds_iff`): integers of
any size and binary64 numbers are in one total order, and nothing is rounded. A nan has no value; it
is before and after nothing, and equal to nothing but itself.
-/
namespace FrameLisp

/-! ## Exact values -/

/-- The exact value of a binary64 number. -/
def Binary64.value : Binary64 → WithBot (WithTop ℚ)
  | .finite negative units => ((signedUnits negative units / 2 ^ 1074 : ℚ) : WithTop ℚ)
  | .infinite true => ⊥
  | .infinite false => ⊤

/-- The exact value of a number; a nan has none. -/
def Number.value? : Number → Option (WithBot (WithTop ℚ))
  | .int n => some ((n : ℚ) : WithTop ℚ)
  | .float x => some x.value
  | .nan _ => none

namespace Position

/-- The value that a position on the scale stands for. -/
def value : Position → WithBot (WithTop ℚ)
  | .bottom => ⊥
  | .units n => ((n / 2 ^ 1074 : ℚ) : WithTop ℚ)
  | .top => ⊤

theorem units_value_lt (a b : Int) : (units a).value < (units b).value ↔ a < b := by
  have positive : (0 : ℚ) < 2 ^ 1074 := pow_pos two_pos 1074
  simp only [value, WithBot.coe_lt_coe, WithTop.coe_lt_coe]
  rw [div_lt_div_iff_of_pos_right positive, Int.cast_lt]

/-- One position is before another exactly if it stands for a smaller value. -/
theorem before_iff (p q : Position) : p.before q = true ↔ p.value < q.value := by
  cases p with
  | bottom => cases q <;> simp [before, value]
  | units a =>
    cases q with
    | bottom => simp [before, value]
    | units b => rw [units_value_lt, before, decide_eq_true_eq]
    | top => exact iff_of_true rfl (WithBot.coe_lt_coe.mpr (WithTop.coe_lt_top _))
  | top => cases q <;> simp [before, value]

/-- Different positions stand for different values. -/
theorem eq_iff (p q : Position) : p = q ↔ p.value = q.value := by
  refine ⟨congrArg value, fun same => ?_⟩
  have apart : ¬ p.before q = true ∧ ¬ q.before p = true := by
    rw [before_iff, before_iff, same]
    exact ⟨lt_irrefl _, lt_irrefl _⟩
  cases p with
  | bottom => cases q <;> simp [before] at apart ⊢
  | units a =>
    cases q with
    | units b =>
      simp only [before, decide_eq_true_eq] at apart
      rw [show a = b by omega]
    | _ => simp [before] at apart
  | top => cases q <;> simp [before] at apart ⊢

end Position

/-- The number of units in one, as a rational number. -/
theorem Binary64.cast_unitsPerOne : (unitsPerOne : ℚ) = 2 ^ 1074 := by
  unfold unitsPerOne
  generalize 1074 = bits
  simp

namespace Number

/-- A number stands on the scale where its exact value is. -/
theorem value?_eq (a : Number) : a.value? = a.position?.map Position.value := by
  cases a with
  | int n =>
    have nonzero : (2 ^ 1074 : ℚ) ≠ 0 := pow_ne_zero _ two_ne_zero
    have scaled : ((n * Binary64.unitsPerOne : Int) : ℚ) / 2 ^ 1074 = n := by
      rw [Int.cast_mul, Int.cast_natCast, Binary64.cast_unitsPerOne,
        mul_div_cancel_right₀ _ nonzero]
    simp only [value?, position?, Option.map_some, Position.value, scaled]
  | float x =>
    cases x with
    | finite negative units => rfl
    | infinite negative => cases negative <;> rfl
  | nan s => rfl

variable {a b : Number} {p q : WithBot (WithTop ℚ)}

theorem exists_position (known : a.value? = some p) :
    ∃ place, a.position? = some place ∧ place.value = p := by
  rw [value?_eq] at known
  exact Option.map_eq_some_iff.mp known

theorem lt_eq (left : a.value? = some p) (right : b.value? = some q) : a.lt b = decide (p < q) := by
  obtain ⟨place, here, rfl⟩ := exists_position left
  obtain ⟨other, there, rfl⟩ := exists_position right
  rw [lt, here, there, Bool.eq_iff_iff, decide_eq_true_eq]
  exact Position.before_iff place other

theorem le_eq (left : a.value? = some p) (right : b.value? = some q) : a.le b = decide (p ≤ q) := by
  obtain ⟨place, here, rfl⟩ := exists_position left
  obtain ⟨other, there, rfl⟩ := exists_position right
  rw [le, here, there, Bool.eq_iff_iff, decide_eq_true_eq, Bool.not_eq_true', ← Bool.not_eq_true,
    Position.before_iff, not_lt]

theorem same_eq (left : a.value? = some p) (right : b.value? = some q) :
    a.same b = decide (p = q) := by
  obtain ⟨place, here, rfl⟩ := exists_position left
  obtain ⟨other, there, rfl⟩ := exists_position right
  have compared : a.same b = (place == other) := by
    unfold same
    split
    · cases left
    · rw [here, there]
  rw [compared, Bool.eq_iff_iff, decide_eq_true_eq, beq_iff_eq, Position.eq_iff]

/-- A number other than a nan. -/
def Comparable (a : Number) : Prop := ∀ stamp, a ≠ .nan stamp

theorem value?_eq_none : a.value? = none ↔ ¬ a.Comparable := by
  cases a with
  | int n => simp [value?, Comparable]
  | float x => simp [value?, Comparable]
  | nan stamp => simp [value?, Comparable]

theorem exists_value (comparable : a.Comparable) : ∃ p, a.value? = some p := by
  rw [← Option.isSome_iff_exists, Option.isSome_iff_ne_none, ne_eq, value?_eq_none, not_not]
  exact comparable

theorem position?_eq_none (incomparable : ¬ a.Comparable) : a.position? = none := by
  rw [← value?_eq_none, value?_eq] at incomparable
  exact Option.map_eq_none_iff.mp incomparable

/-- A nan is neither before nor after anything. -/
theorem lt_le_eq_false (incomparable : ¬ a.Comparable ∨ ¬ b.Comparable) :
    a.lt b = false ∧ a.le b = false := by
  unfold lt le
  rcases incomparable with left | right
  · rw [position?_eq_none left]
    exact ⟨rfl, rfl⟩
  · rw [position?_eq_none right]
    cases a.position? <;> exact ⟨rfl, rfl⟩

/-- A nan is the same only as itself. -/
theorem same_iff_eq (incomparable : ¬ a.Comparable ∨ ¬ b.Comparable) :
    a.same b = true ↔ a = b := by
  unfold same
  split
  · rw [beq_iff_eq, nan.injEq]
  · rename_i different
    have apart : a ≠ b := by
      rintro rfl
      have incomparable := incomparable.elim id id
      simp only [Comparable, not_forall, not_not] at incomparable
      obtain ⟨stamp, rfl⟩ := incomparable
      exact different stamp stamp rfl rfl
    rcases incomparable with left | right
    · rw [position?_eq_none left]
      exact iff_of_false Bool.false_ne_true apart
    · rw [position?_eq_none right]
      cases a.position? <;> exact iff_of_false Bool.false_ne_true apart

end Number

/-! ## The primitives -/

/-- The primitives that compare numbers. -/
inductive Comparison where
  | lt
  | le
  | gt
  | ge
  | equal
deriving DecidableEq, Repr

namespace Comparison

/-- The primitive of a comparison. -/
def op : Comparison → Op
  | .lt => .binary .lt
  | .le => .binary .le
  | .gt => .binary .gt
  | .ge => .binary .ge
  | .equal => .binary .equal

/-- The test that a comparison makes of two numbers. -/
def test : Comparison → Number → Number → Bool
  | .lt, a, b => a.lt b
  | .le, a, b => a.le b
  | .gt, a, b => b.lt a
  | .ge, a, b => b.le a
  | .equal, a, b => a.same b

/-- Calling the primitive on two numbers yields true, in every state and with any room. -/
def Holds (c : Comparison) (a b : Number) : Prop :=
  ∀ room m, c.op.call room [.number a, .number b] m = .ok (.bool true) m

/-- Calling the primitive on two numbers yields false. -/
def Fails (c : Comparison) (a b : Number) : Prop :=
  ∀ room m, c.op.call room [.number a, .number b] m = .ok (.bool false) m

theorem call_eq (c : Comparison) (a b : Number) (room : Nat) (m : Machine) :
    c.op.call room [.number a, .number b] m = .ok (.bool (c.test a b)) m := by
  cases c <;> rfl

section
variable {c : Comparison} {a b : Number}

theorem holds_iff : c.Holds a b ↔ c.test a b = true := by
  constructor
  · intro holds
    simpa [call_eq] using holds 0 .empty
  · intro passed room m
    rw [call_eq, passed]

theorem fails_iff : c.Fails a b ↔ c.test a b = false := by
  constructor
  · intro fails
    simpa [call_eq] using fails 0 .empty
  · intro refused room m
    rw [call_eq, refused]

end

/-- How the comparisons of two numbers hang together: exactly one of three cases holds, which is the
    case of their exact values. -/
structure Agree (a b : Number) : Prop where
  oneCase : lt.Holds a b ∧ equal.Fails a b ∧ gt.Fails a b ∨
    lt.Fails a b ∧ equal.Holds a b ∧ gt.Fails a b ∨
    lt.Fails a b ∧ equal.Fails a b ∧ gt.Holds a b
  le_iff : le.Holds a b ↔ lt.Holds a b ∨ equal.Holds a b
  ge_iff : ge.Holds a b ↔ le.Holds b a
  gt_iff : gt.Holds a b ↔ lt.Holds b a
  lt_iff_value : ∀ p q, a.value? = some p → b.value? = some q → (lt.Holds a b ↔ p < q)
  equal_iff_value : ∀ p q, a.value? = some p → b.value? = some q → (equal.Holds a b ↔ p = q)

section
variable {a b c : Number} {p q : WithBot (WithTop ℚ)}

theorem lt_holds_iff (left : a.value? = some p) (right : b.value? = some q) :
    lt.Holds a b ↔ p < q := by
  rw [holds_iff, test, Number.lt_eq left right, decide_eq_true_eq]

theorem le_holds_iff (left : a.value? = some p) (right : b.value? = some q) :
    le.Holds a b ↔ p ≤ q := by
  rw [holds_iff, test, Number.le_eq left right, decide_eq_true_eq]

theorem equal_holds_iff (left : a.value? = some p) (right : b.value? = some q) :
    equal.Holds a b ↔ p = q := by
  rw [holds_iff, test, Number.same_eq left right, decide_eq_true_eq]

theorem fails_iff_not_holds {c : Comparison} : c.Fails a b ↔ ¬ c.Holds a b := by
  rw [fails_iff, holds_iff, Bool.not_eq_true]

theorem gt_holds_iff : gt.Holds a b ↔ lt.Holds b a := by
  rw [holds_iff, holds_iff, test, test]

theorem ge_holds_iff : ge.Holds a b ↔ le.Holds b a := by
  rw [holds_iff, holds_iff, test, test]

theorem agree (left : a.Comparable) (right : b.Comparable) : Agree a b := by
  obtain ⟨p, valueA⟩ := Number.exists_value left
  obtain ⟨q, valueB⟩ := Number.exists_value right
  have before := lt_holds_iff valueA valueB
  have after := lt_holds_iff valueB valueA
  have same := equal_holds_iff valueA valueB
  refine ⟨?_, ?_, ge_holds_iff, gt_holds_iff, ?_, ?_⟩
  · simp only [fails_iff_not_holds, gt_holds_iff, before, after, same]
    rcases lt_trichotomy p q with less | rfl | more
    · exact .inl ⟨less, less.ne, less.asymm⟩
    · exact .inr (.inl ⟨lt_irrefl p, rfl, lt_irrefl p⟩)
    · exact .inr (.inr ⟨more.asymm, more.ne', more⟩)
  · rw [le_holds_iff valueA valueB, before, same, le_iff_lt_or_eq]
  · intro p' q' valueA' valueB'
    exact lt_holds_iff valueA' valueB'
  · intro p' q' valueA' valueB'
    exact equal_holds_iff valueA' valueB'

/-- Numbers that are found in order have exact values. -/
theorem exists_values (ordered : lt.Holds a b ∨ le.Holds a b) :
    ∃ p q, a.value? = some p ∧ b.value? = some q := by
  have comparable : a.Comparable ∧ b.Comparable := by
    by_contra incomparable
    rw [not_and_or] at incomparable
    obtain ⟨notLt, notLe⟩ := Number.lt_le_eq_false incomparable
    rw [holds_iff, holds_iff, test, test, notLt, notLe] at ordered
    exact ordered.elim Bool.false_ne_true Bool.false_ne_true
  obtain ⟨p, valueA⟩ := Number.exists_value comparable.1
  obtain ⟨q, valueB⟩ := Number.exists_value comparable.2
  exact ⟨p, q, valueA, valueB⟩

theorem lt_trans (first : lt.Holds a b) (second : lt.Holds b c) : lt.Holds a c := by
  obtain ⟨p, q, valueA, valueB⟩ := exists_values (.inl first)
  obtain ⟨_, r, _, valueC⟩ := exists_values (.inl second)
  rw [lt_holds_iff valueA valueB] at first
  rw [lt_holds_iff valueB valueC] at second
  rw [lt_holds_iff valueA valueC]
  exact first.trans second

theorem le_trans (first : le.Holds a b) (second : le.Holds b c) : le.Holds a c := by
  obtain ⟨p, q, valueA, valueB⟩ := exists_values (.inr first)
  obtain ⟨_, r, _, valueC⟩ := exists_values (.inr second)
  rw [le_holds_iff valueA valueB] at first
  rw [le_holds_iff valueB valueC] at second
  rw [le_holds_iff valueA valueC]
  exact first.trans second

end

end Comparison

open Comparison in
/-- The comparison primitives always answer, and agree on one total order of all numbers but nans:
    that of the exact values. An integer equals a binary64 number exactly if it is its value. A nan
    is in no order with anything, and equal only to itself. -/
theorem comparisons_agree_on_order :
    (∀ (f : Comparison) (a b : Number), f.Holds a b ∨ f.Fails a b) ∧
    (∀ a b : Number, a.Comparable → b.Comparable → Agree a b) ∧
    (∀ a b c : Number, lt.Holds a b → lt.Holds b c → lt.Holds a c) ∧
    (∀ a b c : Number, le.Holds a b → le.Holds b c → le.Holds a c) ∧
    (∀ (n : Int) (x : Binary64),
      (equal.Holds (.int n) (.float x) ↔ x.value = ((n : ℚ) : WithTop ℚ)) ∧
      (equal.Holds (.float x) (.int n) ↔ x.value = ((n : ℚ) : WithTop ℚ))) ∧
    ∀ a b : Number, ¬ a.Comparable ∨ ¬ b.Comparable →
      lt.Fails a b ∧ le.Fails a b ∧ gt.Fails a b ∧ ge.Fails a b ∧ (equal.Holds a b ↔ a = b) := by
  refine ⟨?_, fun a b => agree, fun a b c => lt_trans, fun a b c => le_trans, ?_, ?_⟩
  · intro f a b
    rw [fails_iff_not_holds]
    exact em _
  · intro n x
    have valueN : (Number.int n).value? = some ((n : ℚ) : WithTop ℚ) := rfl
    have valueX : (Number.float x).value? = some x.value := rfl
    rw [equal_holds_iff valueN valueX, equal_holds_iff valueX valueN]
    exact ⟨eq_comm, Iff.rfl⟩
  · intro a b incomparable
    obtain ⟨notLt, notLe⟩ := Number.lt_le_eq_false incomparable
    obtain ⟨notGt, notGe⟩ := Number.lt_le_eq_false incomparable.symm
    refine ⟨fails_iff.mpr notLt, fails_iff.mpr notLe, fails_iff.mpr notGt, fails_iff.mpr notGe, ?_⟩
    rw [holds_iff]
    exact Number.same_iff_eq incomparable

open Comparison in
/-- The integer after `2⁵³` rounds to `2⁵³`, but is compared as it is; an infinity is after both. -/
theorem comparisons_agree_on_order_afterRounding :
    let power := Number.float (.finite false (2 ^ (53 + 1074)))
    let next := Number.int (2 ^ 53 + 1)
    let infinity := Number.float (.infinite false)
    let nan := Number.nan ⟨1⟩
    (power.Comparable ∧ next.Comparable ∧ Agree power next) ∧
      (lt.Holds power next ∧ lt.Holds next infinity ∧ lt.Holds power infinity) ∧
      (¬ nan.Comparable ∧ le.Fails nan next ∧ equal.Holds nan nan) := by
  intro power next infinity nan
  have comparable : power.Comparable ∧ next.Comparable := ⟨fun _ => nofun, fun _ => nofun⟩
  have first : lt.Holds power next := holds_iff.mpr (by decide +kernel)
  have second : lt.Holds next infinity := holds_iff.mpr (by decide +kernel)
  have incomparable : ¬ nan.Comparable := by simp [nan, Number.Comparable]
  obtain ⟨_, agree, trans, _, _, undefined⟩ := comparisons_agree_on_order
  obtain ⟨_, notLe, _⟩ := undefined nan next (.inl incomparable)
  obtain ⟨_, _, _, _, same⟩ := undefined nan nan (.inl incomparable)
  exact ⟨⟨comparable.1, comparable.2, agree power next comparable.1 comparable.2⟩,
    ⟨first, second, trans _ _ _ first second⟩, incomparable, notLe, same.mpr rfl⟩

end FrameLisp
