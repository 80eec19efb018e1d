import FrameLisp.Proofs.WellFormed

/-!
Programs without definitions. Where `define` is written neither in an expression nor in the body of
a closure around, evaluation only adds to the store: every frame keeps its entries and every
environment its frames, however the evaluation ends (`eval_pure`). The names of a `letrec` are bound
again in a frame that the same `letrec` has made, since nothing gets in front of that frame.
-/
namespace FrameLisp

/-! ## Where `define` is written -/

namespace Value

/-- The word `define` is written nowhere in a value. -/
def DefineFree (v : Value) : Prop := ¬ (symbol Keyword.define.symbol).OccursIn v

variable {stamp : Stamp} {items : List Value} {x : Symbol}

@[simp]
theorem defineFree_symbol : (symbol x).DefineFree ↔ x ≠ Keyword.define.symbol := by
  constructor
  · rintro free rfl
    exact free .self
  · rintro apart ⟨⟩
    exact apart rfl

@[simp]
theorem defineFree_list : (list stamp items).DefineFree ↔ ∀ item ∈ items, item.DefineFree := by
  constructor
  · intro free item member inside
    exact free (.list member inside)
  · rintro each (_ | ⟨member, inside⟩)
    exact each _ member inside

@[simp]
theorem defineFree_tuple : (tuple stamp items).DefineFree ↔ ∀ item ∈ items, item.DefineFree := by
  constructor
  · intro free item member inside
    exact free (.tuple member inside)
  · rintro each (_ | _ | ⟨member, inside⟩)
    exact each _ member inside

end Value

/-- Where a form that binds names has no `define` in it, the application that it stands for has
    none either. -/
theorem Form.defineFree_application {form : String} {tail : List Value} {b : Bindings}
    (split : splitBindings form tail = .ok b) (free : ∀ e ∈ tail, e.DefineFree) :
    (∀ init ∈ b.inits, init.DefineFree) ∧ (application b).DefineFree := by
  obtain ⟨stamp, bindings, rfl, there⟩ := mem_binding_of_splitBindings split
  have parts : ∀ part ∈ b.params.map Value.symbol ++ b.inits, part.DefineFree := by
    intro part member
    obtain ⟨stamp', items, binding, inside⟩ := there part member
    have bindings := Value.defineFree_list.mp (free _ List.mem_cons_self)
    exact Value.defineFree_list.mp (bindings _ binding) part inside
  have names := fun name member => parts name (List.mem_append_left _ member)
  have inits := fun init member => parts init (List.mem_append_right _ member)
  have body : b.body.DefineFree := free _ (by simp)
  have keyword : Keyword.lambda.symbol ≠ Keyword.define.symbol := by decide
  refine ⟨inits, Value.defineFree_list.mpr ?_⟩
  refine List.forall_mem_cons.mpr ⟨Value.defineFree_list.mpr ?_, inits⟩
  refine List.forall_mem_cons.mpr ⟨Value.defineFree_symbol.mpr keyword, ?_⟩
  refine List.forall_mem_cons.mpr ⟨Value.defineFree_list.mpr names, ?_⟩
  exact List.forall_mem_singleton.mpr body

/-- A keyword at the head of a sequence is the keyword's own symbol. -/
theorem Eval.keyword?_eq_some {v : Value} {k : Keyword} (word : keyword? v = some k) :
    v = .symbol k.symbol := by
  cases v with
  | symbol x =>
    have named := List.find?_some (p := fun k : Keyword => k.name == x.name) word
    rw [Keyword.symbol, beq_iff_eq.mp named]
  | _ => cases word

namespace Phrase

/-- What an expression without `define` says: it is no definition, and neither is anything that is
    evaluated for it. -/
def DefineFree : Phrase → Prop
  | .application head args => ∀ e ∈ head :: args, e.DefineFree
  | .lambda _ body => body.DefineFree
  | .letPlain b => (Form.application b).DefineFree
  | .letRec b => (∀ init ∈ b.inits, init.DefineFree) ∧ (Form.application b).DefineFree
  | .branch condition consequent alternative =>
    condition.DefineFree ∧ consequent.DefineFree ∧ alternative.DefineFree
  | .define .. => False
  | _ => True

private theorem defineFree_ofForm {k : Keyword} {tail : List Value} {p : Phrase}
    (phrase : ofForm k tail = .ok p) (other : k ≠ .define) (free : ∀ e ∈ tail, e.DefineFree) :
    p.DefineFree := by
  unfold ofForm at phrase
  split at phrase
  · obtain ⟨names, _, rfl⟩ := map_eq_ok phrase
    exact free _ (by simp)
  · cases phrase
  · obtain ⟨b, split, rfl⟩ := map_eq_ok phrase
    exact (Form.defineFree_application split free).2
  · obtain ⟨b, split, rfl⟩ := map_eq_ok phrase
    exact Form.defineFree_application split free
  · cases phrase
    simpa [DefineFree] using free
  · cases phrase
  · exact absurd rfl other

private theorem defineFree_ofItems {items : List Value} {p : Phrase}
    (phrase : ofItems items = .ok p) (free : ∀ e ∈ items, e.DefineFree) : p.DefineFree := by
  cases items with
  | nil => cases phrase
  | cons head tail =>
    simp only [ofItems] at phrase
    split at phrase
    · rename_i k word
      refine defineFree_ofForm phrase ?_ fun e member => free e (List.mem_cons_of_mem _ member)
      rintro rfl
      have written := free head List.mem_cons_self
      rw [Eval.keyword?_eq_some word, Value.defineFree_symbol] at written
      exact written rfl
    · cases phrase
      exact free

theorem defineFree_of {e : Value} {p : Phrase} (phrase : of e = .ok p) (free : e.DefineFree) :
    p.DefineFree := by
  cases e with
  | list stamp items => exact defineFree_ofItems phrase (Value.defineFree_list.mp free)
  | tuple stamp items => exact defineFree_ofItems phrase (Value.defineFree_tuple.mp free)
  | number x =>
    cases phrase
    trivial
  | symbol x =>
    cases phrase
    trivial
  | _ => cases phrase

end Phrase

/-- The body of a closure has no `define` in it. -/
def Value.BodyDefineFree : Value → Prop := Value.WhenClosure fun _ body _ => body.DefineFree

/-- No closure that occurs in what a name is bound to has `define` in its body. -/
def Store.DefineFree (s : Store) : Prop := s.HoldsOnly Value.BodyDefineFree

/-! ## Stores that are only added to -/

/-- Every environment has the same frames as before, and every frame the same entries. -/
structure Adds (s t : Store) : Prop extends Fixes s t where
  frame : ∀ f, s.HasFrame f → t.frame f = s.frame f

section
variable {s t u : Store} {m m' : Machine} {env inner : EnvRef} {params : List Symbol}
  {args : List Value}

theorem Adds.refl (s : Store) : Adds s s := ⟨.refl s, fun _ _ => rfl⟩

theorem Adds.trans (first : Adds s t) (second : Adds t u) : Adds s u := by
  refine ⟨first.toFixes.trans second.toFixes, fun f there => ?_⟩
  rw [second.frame f (first.hasFrame there), first.frame f there]

theorem adds_of_extend (entry : Eval.extend env params args m = .ok inner m') :
    Adds m.store m'.store := by
  refine ⟨(fixes_of_extend entry).1, fun f there => ?_⟩
  obtain ⟨fr, _, rfl, rfl⟩ := Eval.extend_eq_ok entry
  exact (Store.frame_extend ..).trans (if_neg (Store.ne_nextFrame there))

/-- The names of `letrec` are bound again in a frame that was not there before. -/
theorem adds_of_letRec {room depth : Nat} {e : Value} (run : LetRecRun room depth e env m)
    (adds : Adds run.opened.store run.initialized.store)
    (rebound : Eval.rebindHead run.inner run.bindings.params run.values run.initialized =
      .ok () m') : Adds m.store m'.store := by
  have grows : Grows run.inner run.opened.store run.initialized.store := adds.toFixes.grows
  have before := (adds_of_extend run.entry).trans adds
  refine ⟨fixes_of_letRec run grows rebound, fun f there => ?_⟩
  obtain ⟨head, rest, _, chain, rfl⟩ := Eval.rebindHead_eq_ok rebound
  have apart : f ≠ head := by
    rintro rfl
    exact fresh_head run.entry grows chain there
  exact (Store.frame_modifyFrame_other apart _).trans (before.frame f there)

end

/-! ## Evaluation -/

/-- The store is only added to. -/
def purity (room : Nat) : Discipline room where
  Inv m := m.store.DefineFree
  Part _ v := v.BodyDefineFree
  Moves _ m m' := Adds m.store m'.store
  Admits c := c.expr.DefineFree
  Stops _ := True
  onHalt := True
  moves_refl _ m := .refl m.store
  moves_trans := Adds.trans
  part_moves _ free := free
  part_made := Value.whenClosure_of_isMade
  part_unit := Value.whenClosure_unit
  inv_quiet quiet closures := quiet.store ▸ closures
  moves_quiet quiet := quiet.store ▸ .refl _
  stops_bound _ := trivial
  unbound _ _ _ := trivial
  lookup closures _ _ found assigned := by
    obtain ⟨f, _, binds⟩ := Store.binding?_eq_some found
    exact closures f _ _ binds assigned
  lambda _ free phrase := by
    rintro stamp params body env ⟨⟩
    exact Phrase.defineFree_of phrase free
  operand free phrase turn _ := Phrase.defineFree_of phrase free _ turn.mem
  body _ _ _ free := free _ _ _ _ rfl
  enter closures _ free entry := Store.HoldsOnly.of_extend closures free entry
  leave _ entry adds := (adds_of_extend entry).trans adds
  letPlain free phrase := Phrase.defineFree_of phrase free
  condition free phrase := (Phrase.defineFree_of phrase free).1
  branch {_ _ _ _ _ _ _ v _} free phrase _ _ := by
    obtain ⟨_, consequent, alternative⟩ := Phrase.defineFree_of phrase free
    cases v.isTrue with
    | true => exact consequent
    | false => exact alternative
  define free phrase := (Phrase.defineFree_of phrase free).elim
  assign run free _ _ _ _ _ _ := (Phrase.defineFree_of run.phrase free).elim
  push run free _ _ _ _ _ := (Phrase.defineFree_of run.phrase free).elim
  opening run _ closures := Store.HoldsOnly.of_opening closures run
  initializer run free turn _ := (Phrase.defineFree_of run.phrase free).1 _ turn.mem
  abandon run _ adds := (adds_of_extend run.entry).trans adds
  rebind _ _ _ closures free rebound := Store.HoldsOnly.of_rebindHead closures free rebound
  letRec run free _ _ := (Phrase.defineFree_of run.phrase free).2
  close run _ adds _ rebound last := (adds_of_letRec run adds rebound).trans last

/-- Evaluating expressions without `define` in turn only adds to the store. -/
theorem adds_of_mapM {room depth : Nat} {items values : List Value} {env : EnvRef}
    {m m' : Machine} (free : ∀ e ∈ items, e.DefineFree) (closures : m.store.DefineFree)
    (done : items.mapM (eval room depth · env) m = .ok values m') : Adds m.store m'.store := by
  let D := purity room
  have ends : Ends _ _ (items.mapM (eval room depth · env) m) :=
    D.sound_items (D.sound depth) items m closures fun next _ turn _ => free next turn.mem
  rw [done] at ends
  exact ends.2.1

/-- Evaluation without `define` only adds to the store, however it ends, and the closures that it
    makes have no `define` in their bodies: those in the store and in its value afterwards, and any
    others that are made on the way. -/
theorem eval_pure (room depth : Nat) {e : Value} (env : EnvRef) {m : Machine}
    (free : e.DefineFree) (closures : m.store.DefineFree) :
    Adds m.store (stateAfter (eval room depth e env m)).store ∧
      (stateAfter (eval room depth e env m)).store.DefineFree ∧
      (∀ v m', eval room depth e env m = .ok v m' →
        ∀ part : Value, part.OccursIn v → part.BodyDefineFree) ∧
      ∀ c params body, Call.Visits room ⟨depth, e, env, m⟩ c →
        Phrase.of c.expr = .ok (.lambda params body) → body.DefineFree := by
  let D := purity room
  have meets := D.sound depth e env m closures free
  obtain ⟨closures', adds⟩ := D.state trivial meets
  refine ⟨adds, closures', ?_, ?_⟩
  · intro v m' done
    rw [done] at meets
    exact meets.2.2
  · intro c params body visited phrase
    exact Phrase.defineFree_of phrase (D.visits visited closures free).2

theorem defineFree_newGlobal : Machine.empty.newGlobal.2.store.DefineFree := by
  intro f x v binds _ part inside
  exact whenClosure_newGlobal (Nat.not_lt_zero _) binds inside

/-- `(letrec ((f (lambda (again) (if again (f false) nil)))) (f true))`. -/
def calledAgain : Value :=
  .list ⟨1⟩ [.symbol ⟨"letrec"⟩,
    .list ⟨2⟩ [.list ⟨3⟩ [.symbol ⟨"f"⟩,
      .list ⟨4⟩ [.symbol ⟨"lambda"⟩, .list ⟨5⟩ [.symbol ⟨"again"⟩],
        .list ⟨6⟩ [.symbol ⟨"if"⟩, .symbol ⟨"again"⟩,
          .list ⟨7⟩ [.symbol ⟨"f"⟩, .symbol ⟨"false"⟩], .symbol ⟨"nil"⟩]]]],
    .list ⟨8⟩ [.symbol ⟨"f"⟩, .symbol ⟨"true"⟩]]

/-- A function that `letrec` makes, and that calls itself, changes nothing that was there. -/
theorem eval_pure_calledAgain :
    let env := Machine.empty.newGlobal.1
    let m := Machine.empty.newGlobal.2
    calledAgain.DefineFree ∧ m.store.DefineFree ∧
      ∃ v m', eval 20 20 calledAgain env m = .ok v m' ∧ Adds m.store m'.store := by
  intro env m
  have free : calledAgain.DefineFree := by simp [calledAgain, Keyword.symbol, Keyword.name]
  have done : yields (eval 20 20 calledAgain Machine.empty.newGlobal.1
      Machine.empty.newGlobal.2) = true := by decide +kernel
  obtain ⟨v, m', done⟩ := exists_of_yields done
  have adds := (eval_pure 20 20 env free defineFree_newGlobal).1
  rw [done] at adds
  exact ⟨free, defineFree_newGlobal, v, m', done, adds⟩

end FrameLisp
