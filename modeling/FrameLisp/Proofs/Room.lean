import FrameLisp.Proofs.Depth
import FrameLisp.Proofs.Obstacle
import FrameLisp.Proofs.Overflow
import FrameLisp.Proofs.Verdict

/-!
Enough room. Only primitives that go into values need room for nested values, and values are nested
finitely deep. So an evaluation that may nest so many calls ends in one and the same way from some
amount of room on (`eval_settles`), and not because a value is nested too deeply
(`exists_enough_room`). No primitive ever stops for lack of depth (`Op.call_faultsOnly`).
-/
namespace FrameLisp

/-! ## Finite nesting -/

namespace Value

variable {levels : Nat} {v item : Value} {items : List Value}

theorem sizeOf_lt_of_contents? (contents : v.contents? = some items) (member : item ∈ items) :
    sizeOf item < sizeOf v := by
  cases v with
  | list | tuple | dict =>
    cases contents
    exact sizeOf_lt_of_mem_inside member
  | closure stamp params body env =>
    cases contents
    obtain rfl := List.mem_singleton.mp member
    simp only [closure.sizeOf_spec]
    omega
  | _ => cases contents

theorem NestsBeyond.lt_sizeOf (nests : v.NestsBeyond levels) : levels < sizeOf v := by
  induction nests with
  | @here v items contents => cases v <;> simp +arith
  | inside contents member _ ih =>
    have smaller := sizeOf_lt_of_contents? contents member
    omega

/-- There are enough levels to write values if there are as many as the values are large. -/
theorem obstacleInItems_ne_depth (enough : sizeOf items ≤ levels) :
    obstacleInItems levels items ≠ some .depth := by
  intro blocked
  obtain ⟨item, member, blocked⟩ := exists_item_of_obstacleInItems blocked
  have nested := (nestsBeyond_of_obstacle? blocked).lt_sizeOf
  have smaller := List.sizeOf_lt_of_mem member
  omega

end Value

/-- A fault can be put into words, unless it is one of depth itself, if there are as many levels as
    its value is large. -/
theorem Fault.settle_ne_tooDeep {c : Fault} {levels : Nat} (other : c ≠ .tooDeep)
    (enough : ∀ v ∈ c.culprit?, sizeOf v ≤ levels) : c.settle levels ≠ .tooDeep := by
  unfold settle
  split
  · rename_i obstacle blocked
    obtain ⟨v, culprit, blocked⟩ := Option.bind_eq_some_iff.mp blocked
    cases obstacle with
    | digits => exact nofun
    | depth =>
      have nested := (Value.nestsBeyond_of_obstacle? blocked).lt_sizeOf
      exact absurd (enough v culprit) (Nat.not_le.mpr nested)
  · exact other

/-! ## Computations that stop for faults only -/

/-- A computation stops for no other reason than a fault of some kind. -/
def FaultsOnly {α : Type} (P : Fault → Prop) (x : EvalM α) : Prop :=
  ∀ m h m', x m = .error h m' → ∃ c, h = .fault c ∧ P c

namespace FaultsOnly

variable {α β : Type} {P : Fault → Prop} {x : EvalM β}

theorem mono {Q : Fault → Prop} (only : FaultsOnly P x) (implies : ∀ c, P c → Q c) :
    FaultsOnly Q x := by
  intro m h m' stopped
  obtain ⟨c, same, kind⟩ := only m h m' stopped
  exact ⟨c, same, implies c kind⟩

theorem of_ok (yields : ∀ m, ∃ b m', x m = .ok b m') : FaultsOnly P x := by
  intro m h m' stopped
  obtain ⟨b, m1, done⟩ := yields m
  cases done.symm.trans stopped

theorem ofExcept {r : Except Fault α} (kind : ∀ c, r = .error c → P c) :
    FaultsOnly P (Eval.ofExcept r) := by
  intro m h m' stopped
  obtain ⟨c, same, refused⟩ := ofExcept_eq_error stopped
  exact ⟨c, same, kind c refused⟩

theorem fail {c : Fault} (kind : P c) : FaultsOnly P (Eval.fail c : EvalM α) := by
  rintro m h m' ⟨⟩
  exact ⟨c, rfl, kind⟩

theorem bind {next : β → EvalM α} (first : FaultsOnly P x) (second : ∀ b, FaultsOnly P (next b)) :
    FaultsOnly P (x >>= next) := by
  intro m h m' stopped
  rcases bind_eq_error stopped with stopped | ⟨b, m1, _, stopped⟩
  · exact first m h m' stopped
  · exact second b m1 h m' stopped

end FaultsOnly

theorem Unary.call_faultsOnly (f : Unary) (a : Value) : FaultsOnly (· ≠ .tooDeep) (f.call a) := by
  have refused {f : Unary} {c : Fault} (error : nonEmpty f a = .error c) : c ≠ .tooDeep := by
    rintro rfl
    cases isEvaluationError_of_nonEmpty error
  cases f with
  | isNull => exact .of_ok fun m => ⟨_, _, rfl⟩
  | car =>
    refine .ofExcept fun c error => ?_
    cases found : nonEmpty .car a with
    | ok parts => simp [found, Except.map] at error
    | error c' =>
      simp only [found, Except.map, Except.error.injEq] at error
      exact error ▸ refused found
  | cdr => exact .bind (.ofExcept fun c => refused) fun parts => .of_ok fun m => ⟨_, _, rfl⟩

theorem Binary.call_faultsOnly {f : Binary} (other : f ≠ .equal) (room : Nat) (a b : Value) :
    FaultsOnly (· ≠ .tooDeep) (f.call room a b) := by
  have refused {f : Binary} {c : Fault} (error : numbers f a b = .error c) : c ≠ .tooDeep := by
    rintro rfl
    cases isEvaluationError_of_numbers error
  have computed (f : Binary) (op : Number.Operation) :
      FaultsOnly (· ≠ .tooDeep) (compute f op a b) := by
    refine .bind (.ofExcept fun c => refused) fun (x, y) => ?_
    dsimp only
    cases op.apply x y with
    | number z => exact .of_ok fun m => ⟨_, _, rfl⟩
    | undefined => exact .of_ok fun m => ⟨_, _, rfl⟩
    | tooLarge => exact .fail (by simp)
  have compared (f : Binary) (test : Number → Number → Bool) :
      FaultsOnly (· ≠ .tooDeep) (Eval.ofExcept (compare f test a b)) := by
    refine .ofExcept fun c error => ?_
    unfold compare at error
    cases found : numbers f a b with
    | ok parts => simp [found, Except.map] at error
    | error c' =>
      simp only [found, Except.map, Except.error.injEq] at error
      exact error ▸ refused found
  cases f with
  | cons =>
    simp only [call]
    unfold consOnto
    split
    · exact .of_ok fun m => ⟨_, _, rfl⟩
    · exact .fail (by simp)
  | add | sub | mul => exact computed _ _
  | gt | ge | lt | le => exact compared _ _
  | equal => exact absurd rfl other

/-- A primitive stops for no other reason than a fault. -/
theorem Op.call_faultsOnly (room : Nat) (op : Op) (args : List Value) :
    FaultsOnly (fun _ => True) (op.call room args) := by
  unfold call
  split
  · exact (Unary.call_faultsOnly _ _).mono fun _ _ => trivial
  · rename_i f a b
    by_cases equal : f = .equal
    · subst equal
      simp only [Binary.call, Binary.decideEqual]
      split
      · exact .of_ok fun m => ⟨_, _, rfl⟩
      · exact .fail trivial
    · exact (Binary.call_faultsOnly equal room a b).mono fun _ _ => trivial
  · exact .of_ok fun m => ⟨_, _, rfl⟩
  · split
    · refine .bind (.of_ok fun m => ⟨_, _, rfl⟩) fun count => ?_
      exact .bind (.ofExcept fun _ _ => trivial) fun texts => .of_ok fun m => ⟨_, _, rfl⟩
    · exact .fail trivial
  · exact .fail trivial

/-! ## Computations that settle -/

/-- From some amount of room on a computation ends in one way, and not because a value is nested too
    deeply. -/
def Settles {α : Type} (x : Nat → EvalM α) : Prop :=
  ∀ m, ∃ room r, (∀ m', r ≠ .error (.fault .tooDeep) m') ∧ ∀ room', room ≤ room' → x room' m = r

namespace Settles

variable {α β : Type}

theorem of_faultsOnly {x : EvalM α} (only : FaultsOnly (· ≠ .tooDeep) x) :
    Settles fun _ => x := by
  intro m
  refine ⟨0, x m, fun m' stopped => ?_, fun _ _ => rfl⟩
  obtain ⟨c, same, other⟩ := only m _ m' stopped
  cases same
  exact other rfl

theorem of_ok {x : EvalM α} (yields : ∀ m, ∃ a m', x m = .ok a m') : Settles fun _ => x :=
  of_faultsOnly (.of_ok yields)

theorem bind {x : Nat → EvalM β} {next : Nat → β → EvalM α} (first : Settles x)
    (second : ∀ b, Settles fun room => next room b) :
    Settles fun room => x room >>= next room := by
  intro m
  obtain ⟨room, r, other, same⟩ := first m
  cases r with
  | error h m1 =>
    refine ⟨room, .error h m1, ?_, fun room' more => ?_⟩
    · rintro m' ⟨⟩
      exact other m1 rfl
    · simp [Bind.bind, EStateM.bind, same room' more]
  | ok b m1 =>
    obtain ⟨later, r, other, last⟩ := second b m1
    refine ⟨max room later, r, other, fun room' more => ?_⟩
    have first := same room' (Nat.le_trans (Nat.le_max_left _ _) more)
    exact (bind_ok first).trans (last room' (Nat.le_trans (Nat.le_max_right _ _) more))

theorem mapM {f : Nat → Value → EvalM Value} (each : ∀ e, Settles fun room => f room e)
    (items : List Value) : Settles fun room => items.mapM (f room) := by
  induction items with
  | nil => exact of_ok fun m => ⟨_, _, rfl⟩
  | cons e rest ih =>
    simp only [List.mapM_cons]
    exact (each e).bind fun v => ih.bind fun vs => of_ok fun m => ⟨_, _, rfl⟩

end Settles

theorem settles_writeAll (args : List Value) :
    Settles fun room => Eval.ofExcept (Op.writeAll room args) := by
  intro m
  have clear := Value.obstacleInItems_ne_depth (Nat.le_refl (sizeOf args))
  refine ⟨sizeOf args, Eval.ofExcept (Op.writeAll (sizeOf args) args) m, ?_, fun room more => ?_⟩
  · intro m' stopped
    obtain ⟨c, same, refused⟩ := ofExcept_eq_error stopped
    cases same
    unfold Op.writeAll Fault.unlessBlocked at refused
    split at refused
    · rename_i obstacle blocked
      cases obstacle with
      | digits => cases refused
      | depth => exact clear blocked
    · split at refused <;> cases refused
  · simp only [Op.writeAll, Value.obstacleInItems_mono args more clear]

theorem settles_call (op : Op) (args : List Value) : Settles fun room => op.call room args := by
  unfold Op.call
  split
  · exact .of_faultsOnly (Unary.call_faultsOnly _ _)
  · rename_i f a b
    by_cases equal : f = .equal
    · subst equal
      obtain ⟨answer, room, known⟩ := Value.exists_verdict .apart a b
      refine fun m => ⟨room, .ok (.bool answer) m, nofun, fun room' more => ?_⟩
      simp only [Binary.call, Binary.decideEqual, known room' more]
      rfl
    · have same (room : Nat) : f.call room a b = f.call 0 a b := by cases f <;> trivial
      simp only [same]
      exact .of_faultsOnly (Binary.call_faultsOnly equal 0 a b)
  · exact .of_ok fun m => ⟨_, _, rfl⟩
  · split
    · refine .bind (.of_ok fun m => ⟨_, _, rfl⟩) fun count => ?_
      exact (settles_writeAll _).bind fun texts => .of_ok fun m => ⟨_, _, rfl⟩
    · exact .of_faultsOnly (.fail (by simp))
  · exact .of_faultsOnly (.fail (by simp))

theorem settles_extend (env : EnvRef) (params : List Symbol) (args : List Value) :
    Settles fun _ => Eval.extend env params args := by
  refine .of_faultsOnly fun m h m' stopped => ⟨_, Eval.extend_eq_error stopped, by simp⟩

theorem settles_rebindHead (env : EnvRef) (params : List Symbol) (args : List Value) :
    Settles fun _ => Eval.rebindHead env params args := by
  refine .of_faultsOnly fun m h m' stopped => ?_
  rw [Eval.rebindHead_eq] at stopped
  rcases bind_eq_error stopped with stopped | ⟨head, m1, _, stopped⟩
  · obtain ⟨c, same, refused⟩ := ofExcept_eq_error stopped
    refine ⟨c, same, ?_⟩
    unfold Store.headFor at refused
    split at refused
    · split at refused <;> cases refused
      simp
    · cases refused
      simp
  · cases stopped

section
variable {ev : Nat → Evaluator}

theorem settles_apply (nested : ∀ e env, Settles fun room => ev room e env) (fn : Value)
    (args : List Value) : Settles fun room => Eval.apply room (ev room) fn args := by
  cases fn with
  | primitive stamp op => exact settles_call op args
  | closure stamp params body env =>
    exact (settles_extend env params args).bind fun inner => nested body inner
  | _ => exact .of_faultsOnly (.fail (by simp))

/-- A call settles if the calls nested in it do. -/
theorem settles_run (nested : ∀ e env, Settles fun room => ev room e env) (env : EnvRef)
    (p : Phrase) : Settles fun room => p.run room (ev room) env := by
  cases p with
  | number x => exact .of_ok fun m => ⟨_, _, rfl⟩
  | name x =>
    refine .of_faultsOnly fun m h m' stopped => ?_
    obtain ⟨c, same, refused⟩ := ofExcept_eq_error (r := m.store.lookup env x) stopped
    refine ⟨c, same, ?_⟩
    unfold Store.lookup at refused
    split at refused <;> cases refused <;> simp
  | application head args =>
    refine (nested head env).bind fun fn => ?_
    refine (Settles.mapM (fun e => nested e env) args).bind fun values => ?_
    exact settles_apply nested fn values
  | lambda params body => exact .of_ok fun m => ⟨_, _, rfl⟩
  | letPlain b => exact nested _ env
  | letRec b =>
    refine (settles_extend _ _ _).bind fun inner => ?_
    refine (Settles.mapM (fun e => nested e inner) b.inits).bind fun values => ?_
    refine (settles_rebindHead _ _ _).bind fun _ => ?_
    exact Settles.bind (.of_ok fun m => ⟨_, _, rfl⟩) fun _ => nested _ inner
  | branch condition consequent alternative =>
    refine (nested condition env).bind fun v => ?_
    cases v.isTrue with
    | true => exact nested consequent env
    | false => exact nested alternative env
  | define x expr =>
    refine Settles.bind (.of_ok fun m => ⟨_, _, rfl⟩) fun m => (nested expr env).bind fun v => ?_
    cases m.store.find? env x <;> exact .of_ok fun m => ⟨_, _, rfl⟩

end

/-- An evaluation that may nest so many calls needs a certain amount of room only. -/
theorem eval_settles (depth : Nat) (e : Value) (env : EnvRef) :
    Settles fun room => eval room depth e env := by
  induction depth generalizing e env with
  | zero => exact fun m => ⟨0, .error .exhausted m, nofun, fun _ _ => rfl⟩
  | succ depth ih =>
    simp only [eval_succ_eq_run]
    refine Settles.bind (.of_faultsOnly (.ofExcept fun c refused => ?_)) fun p =>
      settles_run ih env p
    rcases Phrase.of_eq_error refused with rfl | rfl | ⟨how, rfl⟩ <;> simp

/-- Given enough room, an evaluation does not stop because a value is nested too deeply for what is
    done with it, or for the fault that shows it. -/
theorem exists_enough_room (depth : Nat) (e : Value) (env : EnvRef) (m : Machine) :
    ∃ room, ∀ room' c m', room ≤ room' → eval room' depth e env m = .error (.fault c) m' →
      c.settle room' ≠ .tooDeep := by
  obtain ⟨room, r, other, settled⟩ := eval_settles depth e env m
  replace settled : ∀ room', room ≤ room' → eval room' depth e env m = r := settled
  match r, other, settled with
  | .ok v m1, _, settled | .error .exhausted m1, _, settled =>
    refine ⟨room, fun room' c m' more stopped => ?_⟩
    cases (settled room' more).symm.trans stopped
  | .error (.fault c) m1, other, settled =>
    -- The fault does not depend on the room any more, so there is room to show it, too.
    refine ⟨max room ((c.culprit?.map sizeOf).getD 0), fun room' c' m' more stopped => ?_⟩
    obtain ⟨enough, shown⟩ := Nat.max_le.mp more
    cases (settled room' enough).symm.trans stopped
    refine Fault.settle_ne_tooDeep ?_ fun v culprit => ?_
    · rintro rfl
      exact other _ rfl
    · simpa [Option.mem_def.mp culprit] using shown

end FrameLisp
