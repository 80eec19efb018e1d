import FrameLisp.Proofs.Depth
import FrameLisp.Proofs.Environment

/-!
Closures in the hands of a caller. Whatever a caller has got from its evaluations, in a state that
it has reached since, has no loose ends either (`Obtained.knows`). So every closure that is around
has an environment that is there and distinct parameters, and applying it binds each parameter to
the argument in the same place, in a frame that is new, or is refused because the arguments are not
as many (`reached_applies`).
-/
namespace FrameLisp

/-! ## Values that a caller has got -/

/-- A value that a caller has got from an evaluation, in the state reached then or later. -/
inductive Obtained : List EnvRef → Machine → Value → Prop
  | result {made : List EnvRef} {m m' : Machine} {env : EnvRef} {p : Policy} {e v : Value}
      (before : Reached made m) (member : env ∈ made) (done : evaluate p e env m = .ok v m') :
      Obtained made m' v
  | global {made : List EnvRef} {m : Machine} {v : Value} (before : Obtained made m v) :
      Obtained (m.newGlobal.1 :: made) m.newGlobal.2 v
  | evaluate {made : List EnvRef} {m : Machine} {env : EnvRef} {v : Value}
      (before : Obtained made m v) (member : env ∈ made) (p : Policy) (e : Value) :
      Obtained made (stateAfter (evaluate p e env m)) v

/-- A value that a name is bound to or a caller has got, or a part of one. -/
def Around (made : List EnvRef) (m : Machine) (part : Value) : Prop :=
  ∃ v, part.OccursIn v ∧ ((∃ f x, m.store.Binds f x v) ∨ Obtained made m v)

section
variable {made : List EnvRef} {m m' : Machine} {env : EnvRef} {p : Policy} {e v part : Value}

theorem Obtained.reached (obtained : Obtained made m v) : Reached made m := by
  induction obtained with
  | @result made m m' env p e v before member done =>
    have after := before.evaluate member p e
    rwa [done] at after
  | global _ ih => exact ih.global
  | evaluate _ member p e ih => exact ih.evaluate member p e

/-- The value of an evaluation has no loose ends. -/
theorem knows_of_evaluate (wf : m.store.WellFormed) (there : m.store.HasEnv env)
    (done : evaluate p e env m = .ok v m') (inside : part.OccursIn v) : m'.store.Knows part := by
  obtain ⟨limit, _, done⟩ := evaluate_eq_ok.mp done
  have meets := (wellFormedness (p.stack.levels limit)).sound (p.stack.calls limit) e env m wf there
  rw [done] at meets
  exact meets.2.2 part inside

theorem Obtained.knows (obtained : Obtained made m v) (inside : part.OccursIn v) :
    m.store.Knows part := by
  induction obtained with
  | result before member done =>
    obtain ⟨wf, there⟩ := before.wellFormed
    exact knows_of_evaluate wf (there _ member) done inside
  | @global made m v _ ih => exact (ih inside).mono (fixes_newGlobal m).chains
  | @evaluate made m env v before member p e ih =>
    obtain ⟨wf, there⟩ := before.reached.wellFormed
    exact (ih inside).mono (wellFormed_evaluate wf (there env member) p e).2.envs

theorem Around.knows (reached : Reached made m) (around : Around made m part) :
    m.store.Knows part := by
  obtain ⟨v, inside, ⟨f, x, binds⟩ | obtained⟩ := around
  · exact reached.wellFormed.1.values f x v binds part inside
  · exact obtained.knows inside

end

/-! ## Entering a closure -/

/-- The state in which the body of a closure is evaluated: only the store differs from before, by an
    environment for the body and a frame in front of the frames that the closure has captured. The
    frame has an entry for each parameter, in order, with the argument in the same place. -/
structure Entered (params : List Symbol) (args : List Value) (captured : EnvRef) (m m' : Machine)
    (inner : EnvRef) (head : FrameRef) : Prop where
  machine : m' = { m with store := m'.store }
  adds : Adds m.store m'.store
  newEnv : ¬ m.store.HasEnv inner
  hasEnv : m'.store.HasEnv inner
  newFrame : ¬ m.store.HasFrame head
  hasFrame : m'.store.HasFrame head
  chain : m'.store.chain inner = head :: m.store.chain captured
  size : (m'.store.frame head).entries.length = args.length
  entry : ∀ (i : Nat) (p : Symbol) (a : Value), params[i]? = some p → args[i]? = some a →
    (m'.store.frame head).entries[i]? = some (p, a) ∧ m'.store.Binds head p a

section
variable {room : Nat} {ev : Evaluator} {stamp : Stamp} {params : List Symbol} {body : Value}
  {captured : EnvRef} {args : List Value} {m : Machine}

theorem apply_of_lengths_ne (different : args.length ≠ params.length) :
    Eval.apply room ev (.closure stamp params body captured) args m =
      .error (.fault (.frameArity params args.length)) m := by
  obtain ⟨_, refused, _⟩ := Eval.refused_of_lengths different.symm captured m
  show (Eval.extend captured params args >>= ev body) m = _
  simp only [bind, EStateM.bind, refused]

/-- With as many arguments as parameters, the body of a closure is entered. -/
theorem exists_entered (distinct : params.Nodup) (lengths : args.length = params.length)
    (room : Nat) (ev : Evaluator) (stamp : Stamp) (body : Value) (captured : EnvRef) (m : Machine) :
    ∃ inner head m', Eval.apply room ev (.closure stamp params body captured) args m =
        ev body inner m' ∧ Entered params args captured m m' inner head := by
  have entry := Eval.extend_zip lengths.symm distinct captured m
  obtain ⟨fixes, newEnv, hasEnv, chain⟩ := fixes_of_extend entry
  have frame : (m.store.extend captured ⟨params.zip args⟩).2.frame m.store.nextFrame =
      ⟨params.zip args⟩ := (Store.frame_extend ..).trans (if_pos rfl)
  refine ⟨_, m.store.nextFrame, _, bind_ok entry, rfl, adds_of_extend entry, newEnv, hasEnv,
    Store.not_hasFrame_nextFrame, ?_, chain, ?_, ?_⟩
  · show m.store.frames.size < (m.store.extend captured ⟨params.zip args⟩).2.frames.size
    rw [Store.frames_size_extend]
    exact Nat.lt_succ_self _
  · show ((m.store.extend captured ⟨params.zip args⟩).2.frame m.store.nextFrame).entries.length = _
    rw [frame, List.length_zip, lengths, Nat.min_self]
  · intro i p a param arg
    have pair : (params.zip args)[i]? = some (p, a) := by
      rw [List.getElem?_zip_eq_some]
      exact ⟨param, arg⟩
    have names : (⟨params.zip args⟩ : Frame).names = params := Frame.keys_zip lengths.symm
    have unrepeated : (⟨params.zip args⟩ : Frame).names.Nodup := by rwa [names]
    have found : (⟨params.zip args⟩ : Frame).get? p = some a :=
      Frame.get?_of_mem_entries unrepeated (List.mem_of_getElem? pair)
    constructor
    · show ((m.store.extend captured ⟨params.zip args⟩).2.frame m.store.nextFrame).entries[i]? = _
      rw [frame, pair]
    · show ((m.store.extend captured ⟨params.zip args⟩).2.frame m.store.nextFrame).get? p = _
      rw [frame, found]

end

/-- In every state that a caller reaches, references lead somewhere and frames bind no name twice.
    Every closure that is around has an environment that is there and distinct parameters, and its
    application is refused, with nothing changed, exactly if the arguments are not as many, and else
    enters its body. -/
theorem reached_applies {made : List EnvRef} {m : Machine} (reached : Reached made m) :
    (∀ env ∈ made, m.store.HasEnv env) ∧ (∀ env, ∀ f ∈ m.store.chain env, m.store.HasFrame f) ∧
      (∀ f, (m.store.frame f).names.Nodup) ∧
      ∀ stamp params body captured, Around made m (.closure stamp params body captured) →
        m.store.HasEnv captured ∧ params.Nodup ∧ ∀ room ev args,
          (args.length ≠ params.length →
            Eval.apply room ev (.closure stamp params body captured) args m =
              .error (.fault (.frameArity params args.length)) m) ∧
          (args.length = params.length → ∃ inner head m',
            Eval.apply room ev (.closure stamp params body captured) args m = ev body inner m' ∧
              Entered params args captured m m' inner head) := by
  obtain ⟨wf, there⟩ := reached.wellFormed
  refine ⟨there, wf.chains, wf.names, ?_⟩
  intro stamp params body captured around
  obtain ⟨hasEnv, distinct⟩ := around.knows reached stamp params body captured rfl
  refine ⟨hasEnv, distinct, fun room ev args => ⟨apply_of_lengths_ne, fun lengths => ?_⟩⟩
  exact exists_entered distinct lengths room ev stamp body captured m

/-- `(lambda (x y) x)`. -/
def keepsFirst : Lambda := ⟨[⟨"x"⟩, ⟨"y"⟩], .symbol ⟨"x"⟩⟩

/-- A function that was got from a global environment refuses a single argument, and has two bound
    in order before its body is evaluated. -/
theorem reached_applies_keepsFirst :
    let env := Machine.empty.newGlobal.1
    let m := Machine.empty.newGlobal.2.nextStamp.2
    let fn := .closure ⟨Machine.empty.newGlobal.2.stamps⟩ keepsFirst.params keepsFirst.body env
    Reached [env] m ∧ Around [env] m fn ∧
      Eval.apply 10 (eval 10 10) fn [.int 1] m =
        .error (.fault (.frameArity keepsFirst.params 1)) m ∧
      ∃ inner head m', Eval.apply 10 (eval 10 10) fn [.int 1, .int 2] m =
          eval 10 10 keepsFirst.body inner m' ∧
        m'.store.Binds head ⟨"x"⟩ (.int 1) ∧ m'.store.Binds head ⟨"y"⟩ (.int 2) := by
  intro env m fn
  have written : keepsFirst.WrittenAs (.list ⟨1⟩ [.symbol Keyword.lambda.symbol,
      .list ⟨2⟩ (keepsFirst.params.map .symbol), keepsFirst.body]) := ⟨by decide, _, rfl⟩
  have made : eval 500 (499 + 1) _ env Machine.empty.newGlobal.2 = .ok fn m :=
    eval_of_writtenAs written
  have done : evaluate ⟨none, .warning, .halved⟩ _ env Machine.empty.newGlobal.2 = .ok fn m :=
    evaluate_eq_ok.mpr ⟨leastLimit, rfl, made⟩
  have obtained : Obtained [env] m fn := .result Reached.start.global List.mem_cons_self done
  have around : Around [env] m fn := ⟨fn, .self, .inr obtained⟩
  obtain ⟨_, _, applies⟩ := (reached_applies obtained.reached).2.2.2 _ _ _ _ around
  obtain ⟨inner, head, m', run, entered⟩ := (applies 10 (eval 10 10) [.int 1, .int 2]).2 rfl
  refine ⟨obtained.reached, around, (applies 10 (eval 10 10) [.int 1]).1 (by decide), inner, head,
    m', run, ?_, ?_⟩
  · exact (entered.entry 0 _ _ rfl rfl).2
  · exact (entered.entry 1 _ _ rfl rfl).2

end FrameLisp
