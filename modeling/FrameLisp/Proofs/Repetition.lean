import FrameLisp.Proofs.Environment
import FrameLisp.Proofs.FirstOrder

/-!
How often nested initializers are evaluated. A `letrec` evaluates its initializer in front of a
placeholder, and again in front of the value that the first evaluation has yielded
(`eval_letRec_single`); the body sees the second value (`eval_application_single`). So whatever the
initializer has the host count is counted twice (`CallsTimes.letRec`), and the calls double with
each `letrec` around another (`eval_nested_doubles`).
-/
namespace FrameLisp

/-! ## Frames that leave a name alone -/

theorem Frame.get?_single (a x : Symbol) (v : Value) :
    (⟨[(a, v)]⟩ : Frame).get? x = if x = a then some v else none := Assoc.get?_cons ..

namespace Store

variable {s t u : Store} {env inner : EnvRef} {f : FrameRef} {x y : Symbol} {v : Value}

/-- Every frame has for a name what it had before; frames that were not there do not bind it. -/
def KeepsName (x : Symbol) (s t : Store) : Prop := ∀ f, (t.frame f).get? x = (s.frame f).get? x

theorem KeepsName.trans (first : KeepsName x s t) (second : KeepsName x t u) : KeepsName x s u :=
  fun f => (second f).trans (first f)

theorem keepsName_extend (s : Store) (env : EnvRef) {fr : Frame} (absent : fr.get? x = none) :
    KeepsName x s (s.extend env fr).2 := by
  intro f
  rw [frame_extend]
  by_cases here : f = s.nextFrame
  · rw [if_pos here, here, absent, frame_of_not_hasFrame not_hasFrame_nextFrame, Frame.get?_empty]
  · rw [if_neg here]

theorem keepsName_assignAll (s : Store) (f : FrameRef) {pairs : List (Symbol × Value)}
    (absent : x ∉ Assoc.keys pairs) : KeepsName x s (s.assignAll f pairs) := by
  intro g
  rcases frame_modifyFrame s f g (·.insertAll pairs) with same | ⟨_, _, changed⟩
  · rw [assignAll, same]
  · rw [assignAll, changed]
    rcases Frame.get?_insertAll pairs (s.frame g) x with ⟨w, member, _⟩ | ⟨_, same⟩
    · exact absurd (List.mem_map_of_mem member) absent
    · exact same

/-- A name is looked up past a frame in front that does not bind it. -/
theorem KeepsName.lookup_eq {fr : Frame} (keeps : KeepsName x s t)
    (chain : t.chain inner = f :: s.chain env) (frame : t.frame f = fr)
    (absent : fr.get? x = none) : t.lookup inner x = s.lookup env x := by
  have binding : t.binding? inner x = s.binding? env x := by
    unfold binding?
    rw [chain, List.findSome?_cons, frame, absent]
    exact congrArg (List.findSome? · _) (funext keeps)
  unfold lookup
  rw [binding]

theorem lookup_of_head {rest : Chain} (chain : s.chain env = f :: rest) (binds : s.Binds f x v)
    (assigned : v ≠ .unassigned) : s.lookup env x = .ok v := by
  have bound : (s.frame f).binds x = true :=
    Frame.binds_iff.mpr (Frame.mem_names_iff.mpr ⟨v, binds⟩)
  have found : s.find? env x = some f := by
    unfold find?
    rw [chain, List.find?_cons, bound]
  exact lookup_of_resolves ⟨found, binds⟩ assigned

theorem hasEnv_of_lookup (found : s.lookup env x = .ok v) : s.HasEnv env := by
  by_contra absent
  unfold lookup binding? at found
  rw [chain_of_not_hasEnv absent] at found
  cases found

end Store

/-! ## A `letrec` of one name -/

section
variable {room depth : Nat} {e init v w : Value} {a : Symbol} {env : EnvRef} {m m1 : Machine}

/-- The names, initializers and body of `(letrec ((a init)) a)`. -/
def Form.Bindings.single (a : Symbol) (init : Value) : Form.Bindings := ⟨[a], [init], .symbol a⟩

/-- A name has been bound to a value in front of an environment. -/
def Machine.binding (m : Machine) (env : EnvRef) (a : Symbol) (v : Value) : Machine :=
  m.mapStore fun s => (s.extend env ⟨[(a, v)]⟩).2

theorem Machine.chain_binding (m : Machine) (env : EnvRef) (a : Symbol) (v : Value) :
    (m.binding env a v).store.chain m.store.nextEnv = m.store.nextFrame :: m.store.chain env :=
  (Store.chain_extend ..).trans (if_pos rfl)

theorem Machine.frame_binding (m : Machine) (env : EnvRef) (a : Symbol) (v : Value) :
    (m.binding env a v).store.frame m.store.nextFrame = ⟨[(a, v)]⟩ :=
  (Store.frame_extend ..).trans (if_pos rfl)

/-- A `letrec` of one name has bound it to the first value of its initializer, in a frame. -/
def Machine.tied (m : Machine) (f : FrameRef) (a : Symbol) (v : Value) : Machine :=
  (m.mapStore (·.assignAll f [(a, v)])).addRecord (.letrecBound [a])

theorem Eval.extend_single (env : EnvRef) (a : Symbol) (v : Value) (m : Machine) :
    extend env [a] [v] m = .ok m.store.nextEnv (m.binding env a v) :=
  extend_zip rfl (List.pairwise_singleton _ a) env m

/-- When the initializer has yielded a value, the name is bound to it, and the `letrec` goes on as
    the application that it stands for. -/
theorem eval_letRec_single (phrase : Phrase.of e = .ok (.letRec (.single a init)))
    (first : eval room depth init m.store.nextEnv (m.binding env a .unassigned) = .ok v m1)
    (adds : Adds (m.binding env a .unassigned).store m1.store) :
    let tied := m1.tied m.store.nextFrame a v
    Adds m.store tied.store ∧
      tied.store.chain m.store.nextEnv = m.store.nextFrame :: m.store.chain env ∧
      tied.store.frame m.store.nextFrame = ⟨[(a, v)]⟩ ∧
      eval room (depth + 1) e env m =
        eval room depth (Form.application (.single a init)) m.store.nextEnv tied := by
  have entry := Eval.extend_single env a .unassigned m
  let run : LetRecRun room depth e env m :=
    ⟨⟨.single a init, _, _, phrase, entry⟩, [v], m1, mapM_cons_ok first rfl⟩
  obtain ⟨m', rebound⟩ := run.rebindHead_ok
  have knot := run.tied adds rebound
  have grown : Adds m.store m'.store := adds_of_letRec run adds rebound
  obtain rfl : m' = m1.mapStore (·.assignAll m.store.nextFrame [(a, v)]) := knot.machine
  exact ⟨grown, knot.chain, knot.frame, run.eval_eq rebound⟩

/-- The application evaluates the initializer and yields what it does. -/
theorem eval_application_single
    (run : eval room (depth + 1) init env m.nextStamp.2 = .ok w m1) (assigned : w ≠ .unassigned) :
    eval room (depth + 2) (Form.application (.single a init)) env m =
      .ok w (m1.binding env a w) := by
  have distinct : (Form.Bindings.single a init).params.Nodup := List.pairwise_singleton _ a
  have inits : [init].mapM (eval room (depth + 1) · env) m.nextStamp.2 = .ok [w] m1 :=
    mapM_cons_ok run rfl
  have entry := Eval.extend_single env a w m1
  have binds : (m1.binding env a w).store.Binds m1.store.nextFrame a w := by
    rw [Store.Binds, m1.frame_binding, Frame.get?_single, if_pos rfl]
  have found : (m1.binding env a w).store.lookup m1.store.nextEnv a = .ok w :=
    Store.lookup_of_head (m1.chain_binding env a w) binds assigned
  rw [eval_application distinct]
  refine (bind_ok inits).trans ((bind_ok entry).trans ?_)
  show Eval.ofExcept ((m1.binding env a w).store.lookup m1.store.nextEnv a) _ = _
  rw [found]
  rfl

end

/-! ## Calls that the host counts -/

/-- A primitive of the host that can be called without arguments. -/
def Value.IsCounter (fn : Value) : Prop :=
  ∃ stamp tag arity, fn = .primitive stamp (.note tag arity) ∧ (arity = none ∨ arity = some 0)

/-- The host's primitives have been called so many times without arguments, and otherwise the store
    has been added to, by frames that do not bind a name. -/
structure Repeats (t : Symbol) (n : Nat) (m m' : Machine) : Prop where
  calls : m'.calls = m.calls + n
  notes : m'.notes = m.notes ++ Array.replicate n []
  adds : Adds m.store m'.store
  keeps : Store.KeepsName t m.store m'.store

/-- Wherever a name leads to a primitive that counts its calls, an expression calls it so many times
    and yields the new count. -/
def CallsTimes (room depth : Nat) (t : Symbol) (n : Nat) (e : Value) : Prop :=
  ∀ (env : EnvRef) (m : Machine) (fn : Value), fn.IsCounter → m.store.lookup env t = .ok fn →
    ∃ m', eval room depth e env m = .ok (.int (m.calls + n : Nat)) m' ∧ Repeats t n m m'

section
variable {room depth n k : Nat} {a t : Symbol} {e init : Value} {m m1 m2 : Machine}

theorem Repeats.trans (first : Repeats t n m m1) (second : Repeats t k m1 m2) :
    Repeats t (n + k) m m2 where
  calls := by rw [second.calls, first.calls, Nat.add_assoc]
  notes := by rw [second.notes, first.notes, Array.append_assoc, Array.replicate_append_replicate]
  adds := first.adds.trans second.adds
  keeps := first.keeps.trans second.keeps

theorem repeats_binding (apart : a ≠ t) (m : Machine) (env : EnvRef) (v : Value) :
    Repeats t 0 m (m.binding env a v) where
  calls := rfl
  notes := by simp [Machine.binding, Machine.mapStore]
  adds := adds_of_extend (Eval.extend_single env a v m)
  keeps := Store.keepsName_extend m.store env ((Frame.get?_single ..).trans (if_neg apart.symm))

/-- An expression that calls a name without arguments calls it once. -/
theorem callsTimes_call (room depth : Nat) (plain : Keyword.ofSymbol? t = none)
    (items : e.items? = some [.symbol t]) : CallsTimes room (depth + 2) t 1 e := by
  rintro env m fn ⟨stamp, tag, arity, rfl, free⟩ found
  have phrase : Phrase.of e = .ok (.application (.symbol t) []) := by
    have head : Eval.keyword? (.symbol t) = none := plain
    rw [Phrase.of_eq_ofItems items]
    simp only [Phrase.ofItems, head]
  have operator : eval room (depth + 1) (.symbol t) env m =
      .ok (.primitive stamp (.note tag arity)) m := by
    show Eval.ofExcept (m.store.lookup env t) m = _
    rw [found]
    rfl
  have called : (Op.note tag arity).call room [] m =
      .ok (.int (m.calls + 1 : Nat)) (m.countCall.2.addNote []) := by
    rcases free with rfl | rfl <;> rfl
  refine ⟨m.countCall.2.addNote [], ?_, rfl, Array.push_eq_append, .refl _, fun _ => rfl⟩
  rw [eval_of_phrase phrase]
  exact (bind_ok operator).trans called

/-- A `letrec` calls as often as its initializer does the first time and the second time, and yields
    the count after the second. -/
theorem CallsTimes.letRec (apart : a ≠ t) (phrase : Phrase.of e = .ok (.letRec (.single a init)))
    (first : CallsTimes room (depth + 2) t n init) (second : CallsTimes room (depth + 1) t k init) :
    CallsTimes room (depth + 3) t (n + k) e := by
  intro env m fn counter found
  have absent (v : Value) : (⟨[(a, v)]⟩ : Frame).get? t = none :=
    (Frame.get?_single ..).trans (if_neg apart.symm)
  -- The first time, the name of the `letrec` is bound to a placeholder.
  have opened := repeats_binding apart m env .unassigned
  have pending : (m.binding env a .unassigned).store.lookup m.store.nextEnv t = .ok fn :=
    (opened.keeps.lookup_eq (m.chain_binding ..) (m.frame_binding ..) (absent _)).trans found
  obtain ⟨m1, run1, repeats1⟩ := first _ _ fn counter pending
  obtain ⟨adds, chain, frame, begun⟩ := eval_letRec_single phrase run1 repeats1.adds
  -- The second time, it is bound to the first count.
  let tied := m1.tied m.store.nextFrame a (.int (m.calls + n : Nat))
  have before : Repeats t (0 + n) m tied.nextStamp.2 := by
    obtain ⟨calls, notes, _, keeps⟩ := opened.trans repeats1
    have other : t ∉ Assoc.keys [(a, Value.int (m.calls + n : Nat))] := by
      simpa [Assoc.keys] using apart.symm
    exact ⟨calls, notes, adds, keeps.trans (Store.keepsName_assignAll _ _ other)⟩
  have settled : tied.store.lookup m.store.nextEnv t = .ok fn :=
    (before.keeps.lookup_eq chain frame (absent _)).trans found
  obtain ⟨m2, run2, repeats2⟩ := second _ tied.nextStamp.2 fn counter settled
  have count : tied.nextStamp.2.calls + k = m.calls + (n + k) := by
    rw [before.calls, Nat.zero_add, Nat.add_assoc]
  rw [count] at run2
  have whole := (before.trans repeats2).trans (repeats_binding apart m2 m.store.nextEnv
    (.int (m.calls + (n + k) : Nat)))
  rw [Nat.zero_add, Nat.add_zero] at whole
  refine ⟨_, ?_, whole⟩
  rw [begun]
  exact eval_application_single run2 Value.noConfusion

end

/-! ## Nested initializers -/

/-- A call of a name without arguments, as the initializer of a `letrec` that yields what it binds,
    which is the initializer of another, and so on, so many times. -/
inductive Nested (a t : Symbol) : Nat → Value → Prop
  | call {e : Value} (items : e.items? = some [.symbol t]) : Nested a t 0 e
  | letRec {k : Nat} {e init : Value} {stamp stamp' : Stamp} (inside : Nested a t k init)
      (items : e.items? = some [.symbol Keyword.letRec.symbol,
        .list stamp [.list stamp' [.symbol a, init]], .symbol a]) :
      Nested a t (k + 1) e

/-- Each `letrec` takes two more calls of depth, and doubles how often the name is called. -/
theorem Nested.callsTimes {a t : Symbol} {k depth : Nat} {e : Value} (nested : Nested a t k e)
    (plain : Keyword.ofSymbol? t = none) (apart : a ≠ t) (room : Nat)
    (enough : 2 * k + 2 ≤ depth) : CallsTimes room depth t (2 ^ k) e := by
  induction nested generalizing depth with
  | call items =>
    obtain ⟨depth, rfl⟩ := Nat.exists_eq_add_of_le' enough
    exact callsTimes_call room depth plain items
  | @letRec k e init stamp stamp' _ items ih =>
    have written : (Form.Bindings.single a init).WrittenAs
        [.list stamp [.list stamp' [.symbol a, init]], .symbol a] :=
      ⟨⟨stamp, _, rfl, .cons ⟨stamp', rfl⟩ .nil⟩, rfl, List.pairwise_singleton _ a⟩
    have phrase := (Phrase.of_eq_ofForm items).trans (Phrase.ofForm_letRec written)
    obtain ⟨depth, rfl⟩ : ∃ rest, depth = rest + 3 := ⟨depth - 3, by omega⟩
    have first : CallsTimes room (depth + 2) t (2 ^ k) init := ih (by omega)
    have second : CallsTimes room (depth + 1) t (2 ^ k) init := ih (by omega)
    rw [Nat.pow_succ, Nat.mul_two]
    exact first.letRec apart phrase second

/-- With so many `letrec`s around a call, the primitive that the name leads to is called twice as
    often for each of them. The last count is the value, and neither the frames that were there nor
    those of the environment have changed. -/
theorem eval_nested_doubles {a t : Symbol} {k : Nat} {e : Value} (nested : Nested a t k e)
    (plain : Keyword.ofSymbol? t = none) (apart : a ≠ t) {env : EnvRef} {m : Machine} {fn : Value}
    (counter : fn.IsCounter) (found : m.store.lookup env t = .ok fn) (room : Nat) {depth : Nat}
    (enough : 2 * k + 2 ≤ depth) :
    ∃ m', eval room depth e env m = .ok (.int (m.calls + 2 ^ k : Nat)) m' ∧
      m'.calls = m.calls + 2 ^ k ∧ m'.notes = m.notes ++ Array.replicate (2 ^ k) [] ∧
      (∀ f, m.store.HasFrame f → m'.store.frame f = m.store.frame f) ∧
      m'.store.chain env = m.store.chain env := by
  obtain ⟨m', run, calls, notes, adds, _⟩ :=
    nested.callsTimes plain apart room enough env m fn counter found
  exact ⟨m', run, calls, notes, adds.frame, adds.chain env (Store.hasEnv_of_lookup found)⟩

/-- `(letrec ((a (letrec ((a (tick))) a))) a)`. -/
def ticksTwiceNested : Value :=
  let around (init : Value) : Value := .list ⟨1⟩ [.symbol Keyword.letRec.symbol,
    .list ⟨2⟩ [.list ⟨3⟩ [.symbol ⟨"a"⟩, init]], .symbol ⟨"a"⟩]
  around (around (.tuple ⟨4⟩ [.symbol ⟨"tick"⟩]))

/-- A primitive that a global environment has got is called four times from within two `letrec`s. -/
theorem eval_nested_doubles_ticksTwiceNested :
    let env := Machine.empty.newGlobal.1
    let m := Machine.empty.newGlobal.2.mapStore
      (·.push env ⟨[(⟨"tick"⟩, .primitive ⟨5⟩ (.note ⟨"tick"⟩ (some 0)))]⟩)
    Nested ⟨"a"⟩ ⟨"tick"⟩ 2 ticksTwiceNested ∧
      m.store.lookup env ⟨"tick"⟩ = .ok (.primitive ⟨5⟩ (.note ⟨"tick"⟩ (some 0))) ∧
      ∃ m', eval 0 6 ticksTwiceNested env m = .ok (.int 4) m' ∧ m'.calls = 4 ∧
        m'.notes = #[[], [], [], []] ∧ m'.store.chain env = m.store.chain env := by
  intro env m
  have nested : Nested ⟨"a"⟩ ⟨"tick"⟩ 2 ticksTwiceNested :=
    .letRec (.letRec (.call rfl) rfl) rfl
  have found : m.store.lookup env ⟨"tick"⟩ =
      .ok (.primitive ⟨5⟩ (.note ⟨"tick"⟩ (some 0))) := rfl
  have counter : (Value.primitive ⟨5⟩ (.note ⟨"tick"⟩ (some 0))).IsCounter :=
    ⟨⟨5⟩, ⟨"tick"⟩, some 0, rfl, .inr rfl⟩
  obtain ⟨m', run, calls, notes, _, chain⟩ :=
    eval_nested_doubles nested (by decide) (by decide) counter found 0 (Nat.le_refl _)
  exact ⟨nested, found, m', run, calls, notes, chain⟩

end FrameLisp
