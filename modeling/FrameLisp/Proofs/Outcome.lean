import FrameLisp.Eval.Basic
import FrameLisp.Proofs.Store

/-!
How computations end. `Ends done halted` says of an outcome that `done` holds of its value and
state, or `halted` of its cause and state; `Ends.bind` carries it through a sequence of
computations, with the run so far at hand. The elementary steps of evaluation are each described
once, by what they leave behind.
-/
namespace FrameLisp

/-- The state that a computation leaves, whether it yields a value or stops. -/
def stateAfter {ε α : Type} : EStateM.Result ε Machine α → Machine
  | .ok _ m => m
  | .error _ m => m

/-- Whether a computation yields a value. -/
def yields {ε α : Type} : EStateM.Result ε Machine α → Bool
  | .ok _ _ => true
  | .error _ _ => false

theorem exists_of_yields {ε α : Type} {r : EStateM.Result ε Machine α} (done : yields r = true) :
    ∃ a m, r = .ok a m := by
  cases r with
  | ok a m => exact ⟨a, m, rfl⟩
  | error h m => cases done

/-- What holds of the value and the state of an outcome, or else of its cause and the state. -/
def Ends {α : Type} (done : α → Machine → Prop) (halted : Halt → Machine → Prop) :
    EStateM.Result Halt Machine α → Prop
  | .ok a m => done a m
  | .error h m => halted h m

namespace Ends

variable {α β : Type} {done : α → Machine → Prop} {halted : Halt → Machine → Prop}

theorem mono {done' : α → Machine → Prop} {halted' : Halt → Machine → Prop}
    {r : EStateM.Result Halt Machine α} (ends : Ends done halted r)
    (value : ∀ a m, done a m → done' a m) (cause : ∀ h m, halted h m → halted' h m) :
    Ends done' halted' r := by
  cases r with
  | ok a m => exact value a m ends
  | error h m => exact cause h m ends

/-- A sequence of computations ends well if the second does wherever the first may have led. -/
theorem bind {x : EvalM β} {next : β → EvalM α} {m : Machine} {Q : β → Machine → Prop}
    (first : Ends Q halted (x m))
    (second : ∀ b m', x m = .ok b m' → Q b m' → Ends done halted (next b m')) :
    Ends done halted ((x >>= next) m) := by
  cases run : x m with
  | ok b m' =>
    have opened : (x >>= next) m = next b m' := by simp [Bind.bind, EStateM.bind, run]
    rw [run] at first
    rw [opened]
    exact second b m' run first
  | error h m' =>
    have opened : (x >>= next) m = .error h m' := by simp [Bind.bind, EStateM.bind, run]
    rw [run] at first
    rw [opened]
    exact first

theorem ofExcept {r : Except Fault α} {m : Machine} (value : ∀ a, r = .ok a → done a m)
    (cause : ∀ c, r = .error c → halted (.fault c) m) : Ends done halted (Eval.ofExcept r m) := by
  cases r with
  | ok a => exact value a rfl
  | error c => exact cause c rfl

/-- What holds of the state however a computation ends. -/
theorem state {P : Machine → Prop} {r : EStateM.Result Halt Machine α}
    (ends : Ends (fun _ => P) (fun _ => P) r) : P (stateAfter r) := by
  cases r with
  | ok a m => exact ends
  | error h m => exact ends

end Ends

/-! ## Sequences of computations that yield values -/

theorem bind_ok {α β : Type} {x : EvalM β} {next : β → EvalM α} {b : β} {m m' : Machine}
    (run : x m = .ok b m') : (x >>= next) m = next b m' := by
  simp [bind, EStateM.bind, run]

theorem bind_eq_ok {α β : Type} {x : EvalM β} {next : β → EvalM α} {a : α} {m m' : Machine}
    (run : (x >>= next) m = .ok a m') : ∃ b m1, x m = .ok b m1 ∧ next b m1 = .ok a m' := by
  cases first : x m with
  | ok b m1 =>
    rw [bind_ok first] at run
    exact ⟨b, m1, rfl, run⟩
  | error h m1 => simp [bind, EStateM.bind, first] at run

theorem bind_eq_error {α β : Type} {x : EvalM β} {next : β → EvalM α} {h : Halt} {m m' : Machine}
    (run : (x >>= next) m = .error h m') :
    x m = .error h m' ∨ ∃ b m1, x m = .ok b m1 ∧ next b m1 = .error h m' := by
  cases first : x m with
  | ok b m1 =>
    rw [bind_ok first] at run
    exact .inr ⟨b, m1, rfl, run⟩
  | error h1 m1 =>
    simp only [bind, EStateM.bind, first] at run
    cases run
    exact .inl rfl

theorem ofExcept_eq_error {α : Type} {r : Except Fault α} {h : Halt} {m m' : Machine}
    (failed : Eval.ofExcept r m = .error h m') : ∃ c, h = .fault c ∧ r = .error c := by
  cases r with
  | ok a => cases failed
  | error c =>
    cases failed
    exact ⟨c, rfl, rfl⟩

/-- Results of evaluating expressions in order, the first before the others. -/
theorem mapM_cons_eq_ok {ev : Value → EvalM Value} {e : Value} {rest vs : List Value}
    {m m' : Machine} (run : (e :: rest).mapM ev m = .ok vs m') :
    ∃ v m1 others, ev e m = .ok v m1 ∧ rest.mapM ev m1 = .ok others m' ∧ vs = v :: others := by
  rw [List.mapM_cons] at run
  obtain ⟨v, m1, first, run⟩ := bind_eq_ok run
  obtain ⟨others, m2, later, run⟩ := bind_eq_ok run
  cases run
  exact ⟨v, m1, others, first, later, rfl⟩

theorem mapM_cons_ok {ev : Value → EvalM Value} {e v : Value} {rest vs : List Value}
    {m m1 m' : Machine} (first : ev e m = .ok v m1) (later : rest.mapM ev m1 = .ok vs m') :
    (e :: rest).mapM ev m = .ok (v :: vs) m' := by
  rw [List.mapM_cons, bind_ok first, bind_ok later]
  rfl

theorem length_of_mapM {ev : Value → EvalM Value} {items vs : List Value} {m m' : Machine}
    (run : items.mapM ev m = .ok vs m') : vs.length = items.length := by
  induction items generalizing m vs with
  | nil =>
    cases run
    rfl
  | cons e rest ih =>
    obtain ⟨v, m1, others, _, later, rfl⟩ := mapM_cons_eq_ok run
    rw [List.length_cons, List.length_cons, ih later]

/-! ## Elementary steps of evaluation -/

namespace Eval

variable {env inner : EnvRef} {params : List Symbol} {args : List Value} {m m' : Machine}

/-- What binding names in front of an environment leaves behind. -/
theorem extend_eq_ok (run : extend env params args m = .ok inner m') :
    ∃ fr, Frame.bind params args = .ok fr ∧ inner = m.store.nextEnv ∧
      m' = m.mapStore fun s => (s.extend env fr).2 := by
  obtain ⟨fr, m1, bound, run⟩ := bind_eq_ok run
  cases whole : Frame.bind params args with
  | ok fr' =>
    rw [whole] at bound
    cases bound
    cases run
    exact ⟨fr, rfl, rfl, rfl⟩
  | error cause =>
    rw [whole] at bound
    cases bound

theorem extend_of_bind {fr : Frame} (bound : Frame.bind params args = .ok fr) :
    extend env params args m =
      .ok m.store.nextEnv (m.mapStore fun s => (s.extend env fr).2) := by
  unfold extend
  rw [bound]
  rfl

/-- Names are bound in front of an environment, or else are not as many as their values. -/
theorem extend_ends {done : EnvRef → Machine → Prop} {halted : Halt → Machine → Prop}
    (value : ∀ inner m', extend env params args m = .ok inner m' → done inner m')
    (cause : halted (.fault (.frameArity params args.length)) m) :
    Ends done halted (extend env params args m) := by
  cases run : extend env params args m with
  | ok inner m' => exact value inner m' run
  | error h m' =>
    cases bound : Frame.bind params args with
    | ok fr =>
      rw [extend_of_bind bound] at run
      cases run
    | error c =>
      unfold extend at run
      rw [bound] at run
      cases run
      simp only [Frame.bind] at bound
      split at bound <;> cases bound
      exact cause

theorem extend_eq_error {h : Halt} (failed : extend env params args m = .error h m') :
    h = .fault (.frameArity params args.length) := by
  have ends : Ends (fun _ _ => True) (fun h _ => h = .fault (.frameArity params args.length))
      (extend env params args m) := extend_ends (fun _ _ _ => trivial) rfl
  rw [failed] at ends
  exact ends

theorem binds_of_extend {f : FrameRef} {x : Symbol} {v : Value}
    (run : extend env params args m = .ok inner m') (binds : m'.store.Binds f x v) :
    m.store.Binds f x v ∨ f = m.store.nextFrame ∧ v ∈ args := by
  obtain ⟨fr, bound, _, rfl⟩ := extend_eq_ok run
  rcases Store.binds_extend binds with binds | ⟨here, found⟩
  · exact .inl binds
  · exact .inr ⟨here, Frame.mem_args_of_bind bound found⟩

theorem rebindHead_eq (env : EnvRef) (params : List Symbol) (args : List Value) (m : Machine) :
    rebindHead env params args m =
      (ofExcept (m.store.headFor env params args) >>= fun head =>
        modify (·.mapStore (·.assignAll head (params.zip args)))) m := rfl

/-- What binding names again in the head frame leaves behind. -/
theorem rebindHead_eq_ok {u : Unit} (run : rebindHead env params args m = .ok u m') :
    ∃ head rest, params.length = args.length ∧ m.store.chain env = head :: rest ∧
      m' = m.mapStore (·.assignAll head (params.zip args)) := by
  rw [rebindHead_eq] at run
  cases whole : m.store.headFor env params args with
  | ok head =>
    rw [whole] at run
    cases run
    obtain ⟨same, rest, chain⟩ := Store.headFor_eq_ok.mp whole
    exact ⟨head, rest, same, chain, rfl⟩
  | error cause =>
    rw [whole] at run
    cases run

theorem binds_of_rebindHead {u : Unit} {f : FrameRef} {x : Symbol} {v : Value}
    (run : rebindHead env params args m = .ok u m') (binds : m'.store.Binds f x v) :
    m.store.Binds f x v ∨ v ∈ args := by
  obtain ⟨head, _, _, _, rfl⟩ := rebindHead_eq_ok run
  rcases Store.binds_assignAll binds with ⟨binds, _⟩ | ⟨_, member⟩
  · exact .inl binds
  · exact .inr (List.of_mem_zip member).2

/-- Names are bound again in the head frame, or else the cause is not an unbound variable. -/
theorem rebindHead_ends {done : Unit → Machine → Prop} {halted : Halt → Machine → Prop}
    (value : ∀ m', rebindHead env params args m = .ok () m' → done () m')
    (cause : ∀ c, (∀ x, c ≠ .unbound x) → halted (.fault c) m) :
    Ends done halted (rebindHead env params args m) := by
  cases found : m.store.headFor env params args with
  | ok head =>
    have run : rebindHead env params args m =
        .ok () (m.mapStore (·.assignAll head (params.zip args))) := by
      rw [rebindHead_eq, found]
      rfl
    rw [run]
    exact value _ run
  | error c =>
    rw [rebindHead_eq, found]
    refine cause c fun x same => ?_
    subst same
    unfold Store.headFor at found
    split at found
    · split at found <;> cases found
    · cases found

end Eval

end FrameLisp
