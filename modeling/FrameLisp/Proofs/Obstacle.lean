import FrameLisp.Eval.Evaluate
import Mathlib.Algebra.Ring.Nat

/-!
Why a value cannot be written. There is an integer of more than 4300 digits somewhere in it
(`exists_long_of_obstacle?`), or it is nested more deeply than there is room for
(`nestsBeyond_of_obstacle?`). Where faults and reports show values these are the only obstacles, and
the fault that takes their place tells which of them it was.
-/
namespace FrameLisp

namespace Value

/-- The values that are written inside another, if it is one that has an inside. -/
def contents? : Value → Option (List Value)
  | .list _ items => some items
  | .tuple _ items => some items
  | .dict _ entries => some (parts entries)
  | .closure _ _ body _ => some [body]
  | _ => none

/-- A value is written somewhere in the written form of another. -/
inductive ShownIn (part : Value) : Value → Prop
  | self : ShownIn part part
  | inside {v item : Value} {items : List Value} (contents : v.contents? = some items)
      (member : item ∈ items) (shown : ShownIn part item) : ShownIn part v

/-- A value has more than so many levels of nesting. -/
inductive NestsBeyond : Nat → Value → Prop
  | here {v : Value} {items : List Value} (contents : v.contents? = some items) : NestsBeyond 0 v
  | inside {levels : Nat} {v item : Value} {items : List Value}
      (contents : v.contents? = some items) (member : item ∈ items)
      (nests : NestsBeyond levels item) : NestsBeyond (levels + 1) v

section
variable {levels : Nat} {v : Value} {items : List Value} {o : Obstacle}

private theorem obstacleInEntries_eq (entries : List (Value × Value)) :
    obstacleInEntries levels entries = obstacleInItems levels (parts entries) := by
  induction entries with
  | nil => simp only [obstacleInEntries, parts, List.flatMap_nil, obstacleInItems]
  | cons entry entries ih =>
    simp only [obstacleInEntries, ih, parts, List.flatMap_cons, List.cons_append, List.nil_append,
      obstacleInItems]

/-- Writing a value that has an inside takes one level. -/
theorem obstacle?_of_contents (contents : v.contents? = some items) :
    obstacle? levels v = obstacleWithin levels fun rest => obstacleInItems rest items := by
  cases v with
  | list | tuple =>
    cases contents
    rfl
  | dict stamp entries =>
    cases contents
    simp only [obstacle?, obstacleInEntries_eq]
  | closure stamp params body env =>
    cases contents
    simp only [obstacle?, obstacleInItems, Option.or_none]
  | _ => cases contents

theorem exists_item_of_obstacleInItems (blocked : obstacleInItems levels items = some o) :
    ∃ item ∈ items, obstacle? levels item = some o := by
  induction items with
  | nil => simp [obstacleInItems] at blocked
  | cons item items ih =>
    rw [obstacleInItems, Option.or_eq_some_iff] at blocked
    rcases blocked with here | ⟨_, later⟩
    · exact ⟨item, List.mem_cons_self, here⟩
    · obtain ⟨found, member, blocked⟩ := ih later
      exact ⟨found, List.mem_cons_of_mem _ member, blocked⟩

/-- The obstacle to writing a value is that it is a long integer, that there is no level left for
    its inside, or an obstacle on the inside. -/
theorem obstacle?_cases (blocked : obstacle? levels v = some o) :
    (o = .digits ∧ ∃ n : Int, v = .int n ∧ 10 ^ Number.digitLimit ≤ n.natAbs) ∨
      ∃ items, v.contents? = some items ∧ (levels = 0 ∧ o = .depth ∨
        ∃ rest, levels = rest + 1 ∧ ∃ item ∈ items, obstacle? rest item = some o) := by
  cases contents : v.contents? with
  | some items =>
    refine .inr ⟨items, rfl, ?_⟩
    rw [obstacle?_of_contents contents] at blocked
    cases levels with
    | zero =>
      cases blocked
      exact .inl ⟨rfl, rfl⟩
    | succ rest => exact .inr ⟨rest, rfl, exists_item_of_obstacleInItems blocked⟩
  | none =>
    cases v with
    | number x =>
      simp only [obstacle?] at blocked
      split at blocked <;> cases blocked
      rename_i long
      cases x with
      | int n =>
        simp only [Number.isPrintable, decide_eq_true_eq, Nat.not_lt] at long
        refine .inl ⟨rfl, n, rfl, ?_⟩
        generalize Number.digitLimit = limit at long ⊢
        exact long
      | _ => cases long rfl
    | list | tuple | dict | closure => cases contents
    | _ => simp [obstacle?] at blocked

/-- An obstacle of digits is a long integer. -/
theorem exists_long_of_obstacle? (blocked : obstacle? levels v = some .digits) :
    ∃ n : Int, (int n).ShownIn v ∧ 10 ^ Number.digitLimit ≤ n.natAbs := by
  induction levels generalizing v with
  | zero =>
    rcases obstacle?_cases blocked with ⟨_, n, rfl, long⟩ | ⟨_, _, ⟨_, ⟨⟩⟩ | ⟨_, ⟨⟩, _⟩⟩
    exact ⟨n, .self, long⟩
  | succ levels ih =>
    rcases obstacle?_cases blocked with
      ⟨_, n, rfl, long⟩ | ⟨items, contents, ⟨⟨⟩, _⟩ | ⟨_, ⟨⟩, item, member, blocked⟩⟩
    · exact ⟨n, .self, long⟩
    · obtain ⟨n, shown, long⟩ := ih blocked
      exact ⟨n, .inside contents member shown, long⟩

/-- An obstacle of depth is that a value is nested too deeply. -/
theorem nestsBeyond_of_obstacle? (blocked : obstacle? levels v = some .depth) :
    v.NestsBeyond levels := by
  induction levels generalizing v with
  | zero =>
    rcases obstacle?_cases blocked with ⟨⟨⟩, _⟩ | ⟨_, contents, _⟩
    exact .here contents
  | succ levels ih =>
    rcases obstacle?_cases blocked with
      ⟨⟨⟩, _⟩ | ⟨items, contents, ⟨⟨⟩, _⟩ | ⟨_, ⟨⟩, item, member, blocked⟩⟩
    exact .inside contents member (ih blocked)

theorem obstacleInItems_ne_none {item : Value} (member : item ∈ items)
    (blocked : obstacle? levels item ≠ none) : obstacleInItems levels items ≠ none := by
  induction items with
  | nil => cases member
  | cons first rest ih =>
    intro clear
    rw [obstacleInItems, Option.or_eq_none_iff] at clear
    rcases List.mem_cons.mp member with rfl | member
    · exact blocked clear.1
    · exact ih member clear.2

/-- A long integer that would be written is an obstacle, if not the first one met. -/
theorem obstacle?_ne_none_of_shownIn {n : Int} (shown : (int n).ShownIn v)
    (long : 10 ^ Number.digitLimit ≤ n.natAbs) : obstacle? levels v ≠ none := by
  induction shown generalizing levels with
  | self =>
    have hidden : ¬ (Number.int n).isPrintable = true := by
      simp only [Number.isPrintable, decide_eq_true_eq, Nat.not_lt]
      generalize Number.digitLimit = limit at long ⊢
      exact long
    simp [int, obstacle?, hidden]
  | inside contents member _ ih =>
    rw [obstacle?_of_contents contents]
    cases levels with
    | zero => exact Option.some_ne_none _
    | succ rest => exact obstacleInItems_ne_none member ih

/-- Too many levels of nesting are an obstacle, if not the first one met. -/
theorem obstacle?_ne_none_of_nestsBeyond (nests : v.NestsBeyond levels) :
    obstacle? levels v ≠ none := by
  induction nests with
  | here contents =>
    rw [obstacle?_of_contents contents]
    exact Option.some_ne_none _
  | inside contents member _ ih =>
    rw [obstacle?_of_contents contents]
    exact obstacleInItems_ne_none member ih

end

end Value

/-! ## Faults in place of others -/

/-- A fault is passed on as it is, unless its value cannot be written. -/
theorem Fault.settle_cases (levels : Nat) (c : Fault) :
    c.settle levels = c ∨ ∃ v, c.culprit? = some v ∧
      (c.settle levels = .unprintable ∧ v.obstacle? levels = some .digits ∨
        c.settle levels = .tooDeep) := by
  unfold settle
  split
  · rename_i o blocked
    obtain ⟨v, culprit, blocked⟩ := Option.bind_eq_some_iff.mp blocked
    refine .inr ⟨v, culprit, ?_⟩
    cases o with
    | digits => exact .inl ⟨rfl, blocked⟩
    | depth => exact .inr rfl
  · exact .inl rfl

/-- What keeps an expression from being written within so many levels. -/
theorem showWithin_cases {levels : Nat} {e : Value} {c : Fault}
    (blocked : showWithin levels e = .error c) :
    c = .unprintable ∧ e.obstacle? levels = some .digits ∨
      c = .tooDeep ∧ e.NestsBeyond levels := by
  unfold showWithin Fault.unlessBlocked at blocked
  cases found : e.obstacle? levels with
  | some o =>
    rw [found] at blocked
    cases blocked
    cases o with
    | digits => exact .inl ⟨rfl, rfl⟩
    | depth => exact .inr ⟨rfl, Value.nestsBeyond_of_obstacle? found⟩
  | none =>
    obtain ⟨text, written⟩ := Option.isSome_iff_exists.mp (Value.isSome_render .display e found)
    rw [found, Value.display, written] at blocked
    cases blocked

end FrameLisp
