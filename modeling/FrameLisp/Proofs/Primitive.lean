import FrameLisp.Builtin
import FrameLisp.Proofs.Outcome

/-!
What primitives can yield. A primitive only takes apart and puts together what it is given: whatever
occurs in its result occurs in an argument or is a number, a boolean or a list
(`Op.call_ends`). No primitive touches the store.
-/
namespace FrameLisp

namespace Value

/-- A value occurs in another if it is that value, or occurs in an item of a list or a tuple, or
    in a key of a dictionary or under one. The inside of a closure is not looked at. -/
inductive OccursIn (part : Value) : Value → Prop where
  | self : OccursIn part part
  | list {stamp : Stamp} {items : List Value} {item : Value} (member : item ∈ items)
      (inside : OccursIn part item) : OccursIn part (.list stamp items)
  | tuple {stamp : Stamp} {items : List Value} {item : Value} (member : item ∈ items)
      (inside : OccursIn part item) : OccursIn part (.tuple stamp items)
  | dict {stamp : Stamp} {entries : List (Value × Value)} {item : Value}
      (member : item ∈ parts entries) (inside : OccursIn part item) :
      OccursIn part (.dict stamp entries)

/-- The values that a primitive may make: numbers, booleans and lists, whatever their items. -/
def isMade : Value → Bool
  | .number _ => true
  | .bool _ => true
  | .list .. => true
  | _ => false

theorem occursIn_number {part : Value} {x : Number} (inside : part.OccursIn (.number x)) :
    part = .number x := by
  cases inside
  rfl

theorem occursIn_bool {part : Value} {b : Bool} (inside : part.OccursIn (.bool b)) :
    part = .bool b := by
  cases inside
  rfl

theorem occursIn_list {part : Value} {stamp : Stamp} {items : List Value}
    (inside : part.OccursIn (.list stamp items)) :
    part = .list stamp items ∨ ∃ item ∈ items, part.OccursIn item := by
  cases inside with
  | self => exact .inl rfl
  | list member inside => exact .inr ⟨_, member, inside⟩

/-- What is asked of a closure, by its parameters, its body and its environment, and of no other
    value. -/
def WhenClosure (P : List Symbol → Value → EnvRef → Prop) (v : Value) : Prop :=
  ∀ stamp params body env, v = .closure stamp params body env → P params body env

section
variable {P Q : List Symbol → Value → EnvRef → Prop} {v : Value}

theorem WhenClosure.mono (asked : v.WhenClosure P)
    (implies : ∀ params body env, P params body env → Q params body env) : v.WhenClosure Q :=
  fun stamp params body env closure =>
    implies params body env (asked stamp params body env closure)

theorem whenClosure_of_isMade (made : v.isMade = true) : v.WhenClosure P := by
  rintro stamp params body env rfl
  cases made

theorem whenClosure_unit : unit.WhenClosure P := by
  rintro stamp params body env ⟨⟩

theorem whenClosure_unassigned (inside : v.OccursIn .unassigned) : v.WhenClosure P := by
  cases inside
  rintro stamp params body env ⟨⟩

end

/-- What occurs in a value is made, or occurs already in some other values. -/
def MadeFrom (args : List Value) (v : Value) : Prop :=
  ∀ part : Value, part.OccursIn v → part.isMade = true ∨ ∃ a ∈ args, part.OccursIn a

variable {args : List Value}

theorem madeFrom_number (x : Number) : MadeFrom args (.number x) := by
  intro part inside
  rw [occursIn_number inside]
  exact .inl rfl

theorem madeFrom_bool (b : Bool) : MadeFrom args (.bool b) := by
  intro part inside
  rw [occursIn_bool inside]
  exact .inl rfl

theorem madeFrom_arg {v : Value} (member : v ∈ args) : MadeFrom args v :=
  fun _ inside => .inr ⟨v, member, inside⟩

/-- An item of a list that is given. -/
theorem madeFrom_item {stamp : Stamp} {items : List Value} {item : Value}
    (given : .list stamp items ∈ args) (member : item ∈ items) : MadeFrom args item :=
  fun _ inside => .inr ⟨_, given, .list member inside⟩

theorem madeFrom_list {stamp : Stamp} {items : List Value}
    (each : ∀ item ∈ items, MadeFrom args item) : MadeFrom args (.list stamp items) := by
  intro part inside
  rcases occursIn_list inside with rfl | ⟨item, member, inside⟩
  · exact .inl rfl
  · exact each item member part inside

end Value

/-- A computation has left the store as it was, and given out no stamp twice. -/
structure Quiet (m m' : Machine) : Prop where
  store : m'.store = m.store
  stamps : m.stamps ≤ m'.stamps

theorem Quiet.refl (m : Machine) : Quiet m m := ⟨rfl, Nat.le_refl _⟩

theorem Quiet.trans {m m1 m2 : Machine} (first : Quiet m m1) (second : Quiet m1 m2) :
    Quiet m m2 :=
  ⟨second.store.trans first.store, Nat.le_trans first.stamps second.stamps⟩

/-- Stopping for a cause other than an unbound variable. -/
def Halt.Bound (h : Halt) : Prop := ∀ x, h ≠ .fault (.unbound x)

theorem Halt.bound_fault {c : Fault} (bound : ∀ x, c ≠ .unbound x) : (Halt.fault c).Bound :=
  fun x same => bound x (by injection same)

/-- How a primitive ends: the store is as it was, and a result is made from the arguments. -/
abbrev EndsQuietly (m : Machine) (args : List Value) : EStateM.Result Halt Machine Value → Prop :=
  Ends (fun v m' => Quiet m m' ∧ Value.MadeFrom args v) (fun h m' => Quiet m m' ∧ h.Bound)

section
variable {m : Machine} {args : List Value}

theorem newList_ends {items : List Value} (each : ∀ item ∈ items, Value.MadeFrom args item) :
    EndsQuietly m args (Eval.newList items m) :=
  ⟨⟨rfl, Nat.le_succ _⟩, Value.madeFrom_list each⟩

theorem fail_ends {c : Fault} (bound : ∀ x, c ≠ .unbound x) :
    EndsQuietly m args (Eval.fail c m) :=
  ⟨.refl m, Halt.bound_fault bound⟩

theorem pure_ends {v : Value} (made : Value.MadeFrom args v) :
    EndsQuietly m args ((pure v : EvalM Value) m) :=
  ⟨.refl m, made⟩

theorem Unary.nonEmpty_eq_ok {f : Unary} {a first : Value} {rest : List Value}
    (ok : nonEmpty f a = .ok (first, rest)) : ∃ stamp, a = .list stamp (first :: rest) := by
  unfold nonEmpty at ok
  split at ok
  · cases ok
  · rename_i stamp _ _
    cases ok
    exact ⟨stamp, rfl⟩
  · cases ok

theorem Unary.nonEmpty_eq_error {f : Unary} {a : Value} {c : Fault}
    (error : nonEmpty f a = .error c) (x : Symbol) : c ≠ .unbound x := by
  unfold nonEmpty at error
  split at error <;> cases error <;> simp

theorem Unary.call_ends (f : Unary) (a : Value) (m : Machine) :
    EndsQuietly m [a] (f.call a m) := by
  cases f with
  | isNull => exact pure_ends (Value.madeFrom_bool _)
  | car =>
    refine Ends.ofExcept ?_ ?_
    · intro v ok
      cases found : nonEmpty .car a with
      | error c => simp [found, Except.map] at ok
      | ok parts =>
        obtain ⟨stamp, rfl⟩ := nonEmpty_eq_ok found
        simp only [found, Except.map, Except.ok.injEq] at ok
        subst ok
        exact ⟨.refl m, Value.madeFrom_item List.mem_cons_self List.mem_cons_self⟩
    · intro c error
      cases found : nonEmpty .car a with
      | error c' =>
        simp only [found, Except.map, Except.error.injEq] at error
        subst error
        exact ⟨.refl m, Halt.bound_fault (nonEmpty_eq_error found)⟩
      | ok parts => simp [found, Except.map] at error
  | cdr =>
    refine Ends.bind (Q := fun parts m' => m' = m ∧ nonEmpty .cdr a = .ok parts) ?_ ?_
    · refine Ends.ofExcept (fun parts ok => ⟨rfl, ok⟩) ?_
      intro c error
      exact ⟨.refl m, Halt.bound_fault (nonEmpty_eq_error error)⟩
    · rintro ⟨first, rest⟩ m' - ⟨rfl, found⟩
      obtain ⟨stamp, rfl⟩ := nonEmpty_eq_ok found
      refine newList_ends ?_
      intro item member
      exact Value.madeFrom_item List.mem_cons_self (List.mem_cons_of_mem _ member)

theorem Binary.numbers_eq_error {f : Binary} {a b : Value} {c : Fault}
    (error : numbers f a b = .error c) (x : Symbol) : c ≠ .unbound x := by
  unfold numbers at error
  split at error <;> cases error <;> simp

theorem Binary.compare_ends (f : Binary) (test : Number → Number → Bool) (a b : Value)
    (m : Machine) : EndsQuietly m [a, b] (Eval.ofExcept (compare f test a b) m) := by
  unfold compare
  cases found : numbers f a b with
  | ok parts => exact pure_ends (Value.madeFrom_bool _)
  | error c => exact fail_ends (numbers_eq_error found)

theorem Binary.compute_ends (f : Binary) (op : Number.Operation) (a b : Value) (m : Machine) :
    EndsQuietly m [a, b] (compute f op a b m) := by
  refine Ends.bind (Q := fun _ m' => m' = m) ?_ ?_
  · refine Ends.ofExcept (fun _ _ => rfl) ?_
    intro c error
    exact ⟨.refl m, Halt.bound_fault (numbers_eq_error error)⟩
  · rintro ⟨x, y⟩ m' - rfl
    dsimp only
    cases op.apply x y with
    | number z => exact pure_ends (Value.madeFrom_number z)
    | undefined => exact ⟨⟨rfl, Nat.le_succ _⟩, Value.madeFrom_number _⟩
    | tooLarge => exact fail_ends (by simp)

theorem Binary.consOnto_ends (a b : Value) (m : Machine) :
    EndsQuietly m [a, b] (consOnto a b m) := by
  unfold consOnto
  split
  · refine newList_ends ?_
    intro item member
    rcases List.mem_cons.mp member with rfl | member
    · exact Value.madeFrom_arg (by simp)
    · exact Value.madeFrom_item (List.mem_cons_of_mem _ List.mem_cons_self) member
  · exact fail_ends (by simp)

theorem Binary.call_ends (room : Nat) (f : Binary) (a b : Value) (m : Machine) :
    EndsQuietly m [a, b] (f.call room a b m) := by
  cases f with
  | cons => exact consOnto_ends a b m
  | add | sub | mul => exact compute_ends _ _ a b m
  | gt | ge | lt | le => exact compare_ends _ _ a b m
  | equal =>
    simp only [call, decideEqual]
    cases Value.equal? .apart room a b with
    | some answer => exact pure_ends (Value.madeFrom_bool answer)
    | none => exact fail_ends (by simp)

theorem Op.writeAll_eq_error {room : Nat} {args : List Value} {c : Fault}
    (error : writeAll room args = .error c) (x : Symbol) : c ≠ .unbound x := by
  unfold writeAll Fault.unlessBlocked at error
  split at error
  · rename_i obstacle _
    cases error
    cases obstacle <;> simp [Fault.ofObstacle]
  · split at error <;> cases error
    simp

theorem Op.noteCall_ends (room : Nat) (args : List Value) (m : Machine) :
    EndsQuietly m args (noteCall room args m) := by
  refine Ends.bind (Q := fun _ => Quiet m) ⟨rfl, Nat.le_refl _⟩ ?_
  intro count m1 _ counted
  refine Ends.bind (Q := fun _ => Quiet m) ?_ ?_
  · refine Ends.ofExcept (fun _ _ => counted) ?_
    intro c error
    exact ⟨counted, Halt.bound_fault (writeAll_eq_error error)⟩
  · intro texts m2 _ written
    refine Ends.bind (Q := fun _ => Quiet m) (written.trans ⟨rfl, Nat.le_refl _⟩) ?_
    intro _ m3 _ noted
    refine ⟨noted, ?_⟩
    cases args with
    | nil => exact Value.madeFrom_number _
    | cons a rest => exact Value.madeFrom_arg (by simp)

/-- A primitive leaves the store alone, its result is made from its arguments, and it never stops
    for an unbound variable. -/
theorem Op.call_ends (room : Nat) (op : Op) (args : List Value) (m : Machine) :
    EndsQuietly m args (op.call room args m) := by
  unfold call
  split
  · exact Unary.call_ends _ _ m
  · exact Binary.call_ends room _ _ _ m
  · exact newList_ends fun item member => Value.madeFrom_arg member
  · split
    · exact noteCall_ends room _ m
    · exact fail_ends (by simp)
  · exact fail_ends (by simp)

end

end FrameLisp
