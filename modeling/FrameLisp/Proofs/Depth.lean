import FrameLisp.Eval.Evaluate
import FrameLisp.Proofs.Calls

/-!
More depth. An evaluation that ends for any other reason than lack of depth ends in the same way
when it is given more (`eval_agrees`): every computation nested in it agrees with the deeper one
until depth runs out, and `Agrees.bind` carries this through sequences of computations. A higher
recursion limit also gives more room for nested values, and an answer that a comparison or a written
form has within some room it keeps with more (`Value.equal?_mono`, `Value.obstacle?_mono`).
-/
namespace FrameLisp

namespace Value

/-- An answer that is either at hand or found one level further in. -/
private theorem answerWithin_mono {s t : Stamp} {room room' : Nat} {answer : Bool}
    {inside : Nat → Option Bool} (more : room ≤ room')
    (known : (if s = t then some true else answerWithin room inside) = some answer)
    (deeper : ∀ rest rest', rest ≤ rest' → inside rest = some answer → inside rest' = some answer) :
    (if s = t then some true else answerWithin room' inside) = some answer := by
  by_cases same : s = t
  · simpa only [same, if_true] using known
  simp only [same, if_false] at known ⊢
  cases room with
  | zero => simp [answerWithin] at known
  | succ rest =>
    cases room' with
    | zero => omega
    | succ rest' => exact deeper rest rest' (by omega) known

/-- A key that is found is also found by a comparison that answers more. -/
theorem underKey?_mono {same same' : Value → Option Bool} {found : Option Value}
    (deeper : ∀ key answer, same key = some answer → same' key = some answer)
    (entries : List (Value × Value)) (known : underKey? same entries = some found) :
    underKey? same' entries = some found := by
  induction entries with
  | nil => exact known
  | cons entry entries ih =>
    obtain ⟨key, item⟩ := entry
    simp only [underKey?] at known ⊢
    cases here : same key with
    | none => simp [here] at known
    | some answer =>
      rw [here] at known
      rw [deeper key answer here]
      cases answer with
      | true => exact known
      | false => exact ih known

mutual

/-- What a comparison finds out it also finds out with more room. -/
theorem equal?_mono {regard : Regard} (a b : Value) {room room' : Nat} {answer : Bool}
    (more : room ≤ room') (known : equal? regard room a b = some answer) :
    equal? regard room' a b = some answer := by
  cases a with
  | list s items =>
    cases b with
    | list t others =>
      simp only [equal?] at known ⊢
      refine answerWithin_mono more known ?_
      intro rest rest' more known
      by_cases lengths : items.length = others.length
      · simp only [lengths, if_true] at known ⊢
        exact equalItems?_mono items others more known
      · simpa only [lengths, if_false] using known
    | _ => simpa only [equal?] using known
  | tuple s items =>
    cases b with
    | tuple t others =>
      simp only [equal?] at known ⊢
      refine answerWithin_mono more known ?_
      intro rest rest' more known
      exact equalItems?_mono items others more known
    | _ => simpa only [equal?] using known
  | dict s entries =>
    cases b with
    | dict t others =>
      simp only [equal?] at known ⊢
      refine answerWithin_mono more known ?_
      intro rest rest' more known
      by_cases sizes : entries.length = others.length
      · simp only [sizes, if_true] at known ⊢
        exact equalEntries?_mono entries others more known
      · simpa only [sizes, if_false] using known
    | _ => simpa only [equal?] using known
  | _ => cases b <;> simpa only [equal?] using known

theorem equalItems?_mono {regard : Regard} (items others : List Value) {room room' : Nat}
    {answer : Bool} (more : room ≤ room')
    (known : equalItems? regard room items others = some answer) :
    equalItems? regard room' items others = some answer := by
  cases items with
  | nil => cases others <;> simpa only [equalItems?] using known
  | cons a items =>
    cases others with
    | nil => simpa only [equalItems?] using known
    | cons b others =>
      simp only [equalItems?] at known ⊢
      cases first : equal? regard room a b with
      | none => simp [first] at known
      | some same =>
        rw [first] at known
        rw [equal?_mono a b more first]
        cases same with
        | true => exact equalItems?_mono items others more known
        | false => exact known

theorem equalEntries?_mono (entries others : List (Value × Value)) {room room' : Nat}
    {answer : Bool} (more : room ≤ room')
    (known : equalEntries? room entries others = some answer) :
    equalEntries? room' entries others = some answer := by
  cases entries with
  | nil => simpa only [equalEntries?] using known
  | cons entry entries =>
    obtain ⟨key, a⟩ := entry
    simp only [equalEntries?] at known ⊢
    cases found : underKey? (equal? .asNumber room key) others with
    | none => simp [found] at known
    | some under =>
      rw [found] at known
      rw [underKey?_mono (fun other _ => equal?_mono key other more) others found]
      cases under with
      | none => exact known
      | some b =>
        dsimp only at known ⊢
        cases first : equal? .asNumber room a b with
        | none => simp [first] at known
        | some same =>
          rw [first] at known
          rw [equal?_mono a b more first]
          cases same with
          | true => exact equalEntries?_mono entries others more known
          | false => exact known

end

variable {levels levels' : Nat}

private theorem obstacleWithin_mono {inside : Nat → Option Obstacle} (more : levels ≤ levels')
    (enough : obstacleWithin levels inside ≠ some .depth)
    (deeper : ∀ rest rest', rest ≤ rest' → inside rest ≠ some .depth → inside rest' = inside rest) :
    obstacleWithin levels' inside = obstacleWithin levels inside := by
  cases levels with
  | zero => simp [obstacleWithin] at enough
  | succ rest =>
    cases levels' with
    | zero => omega
    | succ rest' => exact deeper rest rest' (by omega) enough

private theorem or_mono {a a' b b' : Option Obstacle} (enough : a.or b ≠ some .depth)
    (first : a ≠ some .depth → a' = a) (second : b ≠ some .depth → b' = b) :
    a'.or b' = a.or b := by
  cases a with
  | none => rw [first (by simp), second (by simpa using enough)]
  | some obstacle => rw [first (by simpa using enough), Option.some_or, Option.some_or]

mutual

/-- More levels to write a value change nothing unless the levels were too few. -/
theorem obstacle?_mono (v : Value) {levels levels' : Nat} (more : levels ≤ levels')
    (enough : obstacle? levels v ≠ some .depth) : obstacle? levels' v = obstacle? levels v := by
  cases v with
  | list s items =>
    simp only [obstacle?] at enough ⊢
    exact obstacleWithin_mono more enough fun _ _ => obstacleInItems_mono items
  | tuple s items =>
    simp only [obstacle?] at enough ⊢
    exact obstacleWithin_mono more enough fun _ _ => obstacleInItems_mono items
  | dict s entries =>
    simp only [obstacle?] at enough ⊢
    exact obstacleWithin_mono more enough fun _ _ => obstacleInEntries_mono entries
  | closure s params body env =>
    simp only [obstacle?] at enough ⊢
    exact obstacleWithin_mono more enough fun _ _ => obstacle?_mono body
  | _ => simp only [obstacle?]

theorem obstacleInItems_mono (items : List Value) {levels levels' : Nat} (more : levels ≤ levels')
    (enough : obstacleInItems levels items ≠ some .depth) :
    obstacleInItems levels' items = obstacleInItems levels items := by
  cases items with
  | nil => simp only [obstacleInItems]
  | cons item items =>
    simp only [obstacleInItems] at enough ⊢
    exact or_mono enough (obstacle?_mono item more) (obstacleInItems_mono items more)

theorem obstacleInEntries_mono (entries : List (Value × Value)) {levels levels' : Nat}
    (more : levels ≤ levels') (enough : obstacleInEntries levels entries ≠ some .depth) :
    obstacleInEntries levels' entries = obstacleInEntries levels entries := by
  cases entries with
  | nil => simp only [obstacleInEntries]
  | cons entry entries =>
    obtain ⟨key, item⟩ := entry
    simp only [obstacleInEntries] at enough ⊢
    refine or_mono enough (obstacle?_mono key more) fun enough => ?_
    exact or_mono enough (obstacle?_mono item more) (obstacleInEntries_mono entries more)

end

end Value

/-! ## Agreement of computations -/

/-- Stopping for lack of depth, or for lack of room where there is more of it. -/
def Halt.Short (room room' : Nat) (h : Halt) : Prop :=
  h = .exhausted ∨ room ≠ room' ∧ h = .fault .tooDeep

/-- A computation does the same as another, unless that one stops for a given kind of cause. -/
def Agrees {α : Type} (short : Halt → Prop) (x y : EvalM α) : Prop :=
  ∀ m, y m = x m ∨ ∃ h m', x m = .error h m' ∧ short h

namespace Agrees

variable {α β : Type} {short : Halt → Prop}

theorem refl (x : EvalM α) : Agrees short x x := fun _ => .inl rfl

theorem bind {x y : EvalM β} {f g : β → EvalM α} (first : Agrees short x y)
    (second : ∀ b, Agrees short (f b) (g b)) : Agrees short (x >>= f) (y >>= g) := by
  intro m
  rcases first m with same | ⟨h, m', stopped, reason⟩
  · cases run : x m with
    | ok b m' =>
      rw [bind_ok run, bind_ok (same.trans run)]
      exact second b m'
    | error h m' => simp [Bind.bind, EStateM.bind, same, run]
  · exact .inr ⟨h, m', by simp [Bind.bind, EStateM.bind, stopped], reason⟩

theorem mapM {f g : Value → EvalM Value} (each : ∀ e, Agrees short (f e) (g e))
    (items : List Value) : Agrees short (items.mapM f) (items.mapM g) := by
  induction items with
  | nil => exact refl _
  | cons e rest ih =>
    rw [List.mapM_cons, List.mapM_cons]
    exact (each e).bind fun v => ih.bind fun vs => refl _

end Agrees

section
variable {room room' : Nat}

theorem agrees_decideEqual (more : room ≤ room') (a b : Value) :
    Agrees (Halt.Short room room') (Binary.decideEqual room a b)
      (Binary.decideEqual room' a b) := by
  intro m
  by_cases same : room = room'
  · exact .inl (by rw [same])
  unfold Binary.decideEqual
  cases known : Value.equal? .apart room a b with
  | some answer => exact .inl (by rw [Value.equal?_mono a b more known])
  | none => exact .inr ⟨_, m, rfl, .inr ⟨same, rfl⟩⟩

theorem agrees_writeAll (more : room ≤ room') (args : List Value) :
    Agrees (Halt.Short room room') (Eval.ofExcept (Op.writeAll room args))
      (Eval.ofExcept (Op.writeAll room' args)) := by
  intro m
  by_cases same : room = room'
  · exact .inl (by rw [same])
  by_cases blocked : Value.obstacleInItems room args = some .depth
  · exact .inr ⟨.fault .tooDeep, m, by simp only [Op.writeAll, blocked]; rfl, .inr ⟨same, rfl⟩⟩
  · exact .inl (by rw [Op.writeAll, Op.writeAll, Value.obstacleInItems_mono args more blocked])

theorem agrees_call (more : room ≤ room') (op : Op) (args : List Value) :
    Agrees (Halt.Short room room') (op.call room args) (op.call room' args) := by
  unfold Op.call
  split
  · exact .refl _
  · rename_i f a b
    cases f with
    | equal => exact agrees_decideEqual more a b
    | _ => exact .refl _
  · exact .refl _
  · split
    · exact .bind (.refl _) fun count => (agrees_writeAll more _).bind fun texts => .refl _
    · exact .refl _
  · exact .refl _

variable {ev ev' : Evaluator}

theorem agrees_apply (more : room ≤ room')
    (nested : ∀ e env, Agrees (Halt.Short room room') (ev e env) (ev' e env)) (fn : Value)
    (args : List Value) :
    Agrees (Halt.Short room room') (Eval.apply room ev fn args) (Eval.apply room' ev' fn args) := by
  cases fn with
  | primitive stamp op => exact agrees_call more op args
  | closure stamp params body env => exact .bind (.refl _) fun inner => nested body inner
  | _ => exact .refl _

/-- One call agrees with a deeper one if the calls nested in it do. -/
theorem agrees_run (more : room ≤ room')
    (nested : ∀ e env, Agrees (Halt.Short room room') (ev e env) (ev' e env)) (env : EnvRef)
    (p : Phrase) : Agrees (Halt.Short room room') (p.run room ev env) (p.run room' ev' env) := by
  cases p with
  | number x => exact .refl _
  | name x => exact .refl _
  | application head args =>
    refine (nested head env).bind fun fn => ?_
    refine (Agrees.mapM (fun e => nested e env) args).bind fun values => ?_
    exact agrees_apply more nested fn values
  | lambda params body => exact .refl _
  | letPlain b => exact nested _ env
  | letRec b =>
    refine .bind (.refl _) fun inner => ?_
    refine (Agrees.mapM (fun e => nested e inner) b.inits).bind fun values => ?_
    exact .bind (.refl _) fun _ => .bind (.refl _) fun _ => nested _ inner
  | branch condition consequent alternative =>
    refine (nested condition env).bind fun v => ?_
    cases v.isTrue with
    | true => exact nested consequent env
    | false => exact nested alternative env
  | define x expr =>
    exact .bind (.refl _) fun m => (nested expr env).bind fun v => .refl _

/-- Evaluation with more depth and more room agrees with evaluation with less. -/
theorem eval_agrees (more : room ≤ room') {depth depth' : Nat} (deeper : depth ≤ depth')
    (e : Value) (env : EnvRef) :
    Agrees (Halt.Short room room') (eval room depth e env) (eval room' depth' e env) := by
  induction depth generalizing depth' e env with
  | zero =>
    intro m
    exact .inr ⟨.exhausted, m, rfl, .inl rfl⟩
  | succ depth ih =>
    cases depth' with
    | zero => omega
    | succ depth' =>
      rw [eval_succ_eq_run, eval_succ_eq_run]
      refine .bind (.refl _) fun p => ?_
      exact agrees_run more (fun e env => ih (by omega) e env) env p

end

/-! ## Recursion limits -/

/-- An evaluation for a caller yields what evaluation within the limit in force yields. -/
theorem evaluate_eq_ok {p : Policy} {e v : Value} {env : EnvRef} {m m' : Machine} :
    evaluate p e env m = .ok v m' ↔ ∃ limit, p.recursionLimit = .ok limit ∧
      eval (p.stack.levels limit) (p.stack.calls limit) e env m = .ok v m' := by
  have exhausted (levels limit : Nat) (m1 : Machine) :
      endExhausted levels limit e m1 ≠ .ok v m' := by
    unfold endExhausted
    cases showWithin levels e <;> exact nofun
  have faulty (levels : Nat) (cause : Fault) (m1 : Machine) :
      endFaulty p.level levels e cause m1 ≠ .ok v m' := by
    unfold endFaulty
    split
    · cases showWithin levels e <;> exact nofun
    · exact nofun
  unfold evaluate
  cases p.recursionLimit with
  | error cause => exact iff_of_false nofun (by simp)
  | ok limit =>
    simp only [Except.ok.injEq, exists_eq_left']
    cases run : eval (p.stack.levels limit) (p.stack.calls limit) e env m with
    | ok w m1 => simp only [EStateM.Result.ok.injEq]
    | error h m1 =>
      cases h with
      | exhausted => simpa using exhausted _ limit m1
      | fault cause =>
        dsimp only
        split
        · simpa using exhausted _ limit m1
        · simpa using faulty _ _ m1

/-- More depth changes nothing but lack of depth: an evaluation that ends in a value or in a fault
    ends in the same one, in the same state, when more calls may be nested; and a value that is
    found under one recursion limit is found on the same stack, with the same state, under every
    higher one. -/
theorem eval_deeper (e : Value) (env : EnvRef) (m : Machine) :
    (∀ room depth depth', depth ≤ depth' →
      (∀ m', eval room depth e env m ≠ .error .exhausted m') →
      eval room depth' e env m = eval room depth e env m) ∧
    ∀ p p' limit limit' v m', p.stack = p'.stack → p.recursionLimit = .ok limit →
      p'.recursionLimit = .ok limit' → limit ≤ limit' →
      evaluate p e env m = .ok v m' → evaluate p' e env m = .ok v m' := by
  constructor
  · intro room depth depth' deeper enough
    rcases eval_agrees (Nat.le_refl room) deeper e env m with same | ⟨h, m', stopped, reason⟩
    · exact same
    · rcases reason with rfl | ⟨different, _⟩
      · exact absurd stopped (enough m')
      · exact absurd rfl different
  · intro p p' limit limit' v m' sameStack inForce inForce' higher done
    obtain ⟨_, same, done⟩ := evaluate_eq_ok.mp done
    cases inForce.symm.trans same
    refine evaluate_eq_ok.mpr ⟨limit', inForce', ?_⟩
    rw [← sameStack]
    have more := p.stack.levels_mono limit limit' higher
    have deeper := p.stack.calls_mono limit limit' higher
    rcases eval_agrees more deeper e env m with same | ⟨h, m1, stopped, _⟩
    · exact same.trans done
    · rw [done] at stopped
      cases stopped

/-- `((lambda (f) (f (f 1))) (lambda (x) (+ x x)))`. -/
def twiceDoubled : Value :=
  .list ⟨1⟩ [
    .list ⟨2⟩ [.symbol ⟨"lambda"⟩, .list ⟨3⟩ [.symbol ⟨"f"⟩],
      .list ⟨4⟩ [.symbol ⟨"f"⟩, .list ⟨5⟩ [.symbol ⟨"f"⟩, .number (.int 1)]]],
    .list ⟨6⟩ [.symbol ⟨"lambda"⟩, .list ⟨7⟩ [.symbol ⟨"x"⟩],
      .list ⟨8⟩ [.symbol ⟨"+"⟩, .symbol ⟨"x"⟩, .symbol ⟨"x"⟩]]]

/-- A value found under the least limit is found under a limit of 5000, and a value found with five
    calls nested in each other is found with five hundred. -/
theorem eval_deeper_twiceDoubled :
    let env := Machine.empty.newGlobal.1
    let m := Machine.empty.newGlobal.2
    let p : Policy := ⟨none, .warning, .halved⟩
    let p' : Policy := ⟨some " 5000 ", .warning, .halved⟩
    p.recursionLimit = .ok 1000 ∧ p'.recursionLimit = .ok 5000 ∧
      (∃ m', evaluate p twiceDoubled env m = .ok (.int 4) m' ∧
        evaluate p' twiceDoubled env m = .ok (.int 4) m') ∧
      ∃ m', eval 500 5 twiceDoubled env m = .ok (.int 4) m' ∧
        eval 500 500 twiceDoubled env m = .ok (.int 4) m' := by
  intro env m p p'
  have limit : p.recursionLimit = .ok 1000 := rfl
  have limit' : p'.recursionLimit = .ok 5000 := rfl
  have done : ∃ m', evaluate p twiceDoubled env m = .ok (.int 4) m' := ⟨_, rfl⟩
  have shallow : ∃ m', eval 500 5 twiceDoubled env m = .ok (.int 4) m' := ⟨_, rfl⟩
  obtain ⟨m1, done⟩ := done
  obtain ⟨m2, shallow⟩ := shallow
  refine ⟨limit, limit', ⟨m1, done, ?_⟩, m2, shallow, ?_⟩
  · exact (eval_deeper twiceDoubled env m).2 p p' 1000 5000 _ m1 rfl limit limit' (by decide)
      done
  · have ended : ∀ m', eval 500 5 twiceDoubled env m ≠ .error .exhausted m' := by simp [shallow]
    exact ((eval_deeper twiceDoubled env m).1 500 5 500 (by decide) ended).trans shallow

end FrameLisp
