import FrameLisp.Proofs.Grammar
import FrameLisp.Proofs.Placeholder
import FrameLisp.Proofs.Purity

/-!
How `letrec` makes functions that call each other. The functions are made in an environment whose
first frame holds placeholders for them, and again after that frame has got them; the body sees the
second ones, and both have captured that one environment. So the names lead to functions wherever
the frame, or the one of the body, is the first to bind them (`eval_letRec_ties`).
-/
namespace FrameLisp

/-! ## Frames that bind names once -/

namespace Assoc

variable {α β : Type} [DecidableEq α] {key : α} {value : β} {front rest pairs : List (α × β)}

theorem insert_append (absent : key ∉ keys front) :
    insert key value (front ++ rest) = front ++ insert key value rest := by
  induction front with
  | nil => rfl
  | cons entry front ih =>
    obtain ⟨first, old⟩ := entry
    simp only [keys, List.map_cons, List.mem_cons, not_or] at absent
    rw [List.cons_append, insert, if_neg absent.1, ih absent.2, List.cons_append]

/-- Distinct keys, of which some are there already as the last ones and in the same order, get
    their values in place or are added in order. -/
theorem insertAll_append (there : keys rest <+: keys pairs)
    (distinct : (keys (front ++ pairs)).Nodup) :
    insertAll (front ++ rest) pairs = front ++ pairs := by
  induction pairs generalizing front rest with
  | nil =>
    obtain rfl : rest = [] := by simpa [keys] using there
    rfl
  | cons pair pairs ih =>
    obtain ⟨key, value⟩ := pair
    have absent : key ∉ keys front := by
      simp only [keys, List.map_append, List.map_cons, List.nodup_append] at distinct
      exact fun member => distinct.2.2 key member key List.mem_cons_self rfl
    obtain ⟨others, later, step⟩ : ∃ others, keys others <+: keys pairs ∧
        insert key value rest = (key, value) :: others := by
      cases rest with
      | nil => exact ⟨[], by simp [keys], rfl⟩
      | cons entry rest =>
        obtain ⟨first, old⟩ := entry
        obtain ⟨rfl, later⟩ := List.cons_prefix_cons.mp there
        exact ⟨rest, later, if_pos rfl⟩
    show insertAll (insert key value (front ++ rest)) pairs = _
    rw [insert_append absent, step, List.append_cons, ih later (by simpa using distinct),
      ← List.append_cons]

end Assoc

namespace Frame

variable {params : List Symbol} {args : List Value}

theorem keys_zip (lengths : params.length = args.length) : Assoc.keys (params.zip args) = params :=
  List.map_fst_zip (Nat.le_of_eq lengths)

/-- A frame of distinct names has them in order. -/
theorem ofPairs_zip (lengths : params.length = args.length) (distinct : params.Nodup) :
    ofPairs (params.zip args) = ⟨params.zip args⟩ := by
  have entries : Assoc.insertAll ([] ++ []) (params.zip args) = [] ++ params.zip args :=
    Assoc.insertAll_append (by simp [Assoc.keys]) (by rwa [List.nil_append, keys_zip lengths])
  exact congrArg Frame.mk entries

/-- Binding the names of a frame again replaces all of its entries. -/
theorem insertAll_zip {f : Frame} (names : f.names = params) (lengths : params.length = args.length)
    (distinct : params.Nodup) : f.insertAll (params.zip args) = ⟨params.zip args⟩ := by
  have there : Assoc.keys f.entries <+: Assoc.keys (params.zip args) := by
    rw [keys_zip lengths, ← names]
    exact List.prefix_refl _
  have entries : Assoc.insertAll ([] ++ f.entries) (params.zip args) = [] ++ params.zip args :=
    Assoc.insertAll_append there (by rwa [List.nil_append, keys_zip lengths])
  exact congrArg Frame.mk entries

end Frame

/-- Distinct names are bound in order, in front of an environment. -/
theorem Eval.extend_zip {params : List Symbol} {args : List Value}
    (lengths : params.length = args.length) (distinct : params.Nodup) (env : EnvRef) (m : Machine) :
    extend env params args m = .ok m.store.nextEnv
      (m.mapStore fun s => (s.extend env ⟨params.zip args⟩).2) := by
  rw [← Frame.ofPairs_zip lengths distinct]
  exact extend_of_bind (Frame.bind_eq_ok.mpr ⟨lengths, rfl⟩)

/-! ## Functions made in order -/

/-- A function without the environment that it is made in. -/
structure Lambda where
  params : List Symbol
  body : Value

namespace Lambda

/-- An expression for a function. -/
structure WrittenAs (fn : Lambda) (e : Value) : Prop where
  distinct : fn.params.Nodup
  parts : ∃ stamp, e.items? = some [.symbol Keyword.lambda.symbol,
    .list stamp (fn.params.map .symbol), fn.body]

/-- A closure of a function over an environment. -/
def ClosedOver (env : EnvRef) (fn : Lambda) (v : Value) : Prop :=
  ∃ stamp, v = .closure stamp fn.params fn.body env

end Lambda

section
variable {room depth : Nat} {e : Value} {b : Form.Bindings} {env : EnvRef} {m : Machine}
  {fn : Lambda} {functions : List Lambda} {inits values : List Value} {p : Symbol} {v : Value}

theorem eval_of_writtenAs (written : fn.WrittenAs e) :
    eval room (depth + 1) e env m =
      .ok (.closure ⟨m.stamps⟩ fn.params fn.body env) m.nextStamp.2 := by
  obtain ⟨distinct, stamp, items⟩ := written
  have phrase := (Phrase.of_eq_ofForm items).trans (Phrase.ofForm_lambda distinct stamp fn.body)
  exact eval_of_phrase phrase

/-- Expressions for functions yield them, and leave the store alone. -/
theorem mapM_of_writtenAs (room depth : Nat) (env : EnvRef)
    (written : List.Forall₂ Lambda.WrittenAs functions inits) (m : Machine) :
    ∃ values m', inits.mapM (eval room (depth + 1) · env) m = .ok values m' ∧
      m'.store = m.store ∧ List.Forall₂ (Lambda.ClosedOver env) functions values := by
  induction written generalizing m with
  | nil => exact ⟨[], m, rfl, rfl, .nil⟩
  | cons first _ ih =>
    obtain ⟨values, m', later, store, closures⟩ := ih m.nextStamp.2
    exact ⟨_, m', mapM_cons_ok (eval_of_writtenAs first) later, store, .cons ⟨_, rfl⟩ closures⟩

/-- What the application that a form stands for does. -/
theorem eval_application (distinct : b.params.Nodup) :
    eval room (depth + 2) (Form.application b) env m =
      (do
        let values ← b.inits.mapM (eval room (depth + 1) · env)
        let inner ← Eval.extend env b.params values
        eval room (depth + 1) b.body inner) m.nextStamp.2 := by
  rw [eval_of_phrase (Phrase.of_application b), Phrase.run,
    bind_ok (eval_functionOf distinct b.body)]
  rfl

/-- Among distinct names, each has the closure of its own function. -/
theorem closedOver_of_mem_zip {params : List Symbol} (distinct : params.Nodup)
    (closures : List.Forall₂ (Lambda.ClosedOver env) functions values)
    (named : (p, fn) ∈ params.zip functions) (bound : (p, v) ∈ params.zip values) :
    fn.ClosedOver env v := by
  induction closures generalizing params with
  | nil => simp at named
  | @cons fn0 v0 functions values first _ ih =>
    cases params with
    | nil => simp at named
    | cons p0 params =>
      obtain ⟨absent, distinct⟩ := List.nodup_cons.mp distinct
      rw [List.zip_cons_cons, List.mem_cons] at named bound
      rcases named with named | named <;> rcases bound with bound | bound
      · cases named
        cases bound
        exact first
      · cases named
        exact absurd (List.of_mem_zip bound).1 absent
      · cases bound
        exact absurd (List.of_mem_zip named).1 absent
      · exact ih distinct named bound

end

/-! ## The frame of a `letrec` -/

section
variable {room depth : Nat} {e : Value} {env : EnvRef} {m m' : Machine}

/-- The frame made for the names holds a placeholder for each, in order. -/
theorem LetRecOpening.frame_eq (run : LetRecOpening e env m) :
    run.opened.store.frame run.frame =
      ⟨run.bindings.params.zip (run.bindings.params.map fun _ => .unassigned)⟩ := by
  obtain ⟨distinct, _⟩ := Phrase.shaped_of run.phrase
  obtain ⟨fr, bound, _, same⟩ := Eval.extend_eq_ok run.entry
  obtain ⟨lengths, rfl⟩ := Frame.bind_eq_ok.mp bound
  rw [same, ← Frame.ofPairs_zip lengths distinct]
  exact (Store.frame_extend ..).trans (if_pos rfl)

theorem LetRecRun.lengths (run : LetRecRun room depth e env m) :
    run.bindings.params.length = run.values.length :=
  (Phrase.shaped_of run.phrase).2.trans (length_of_mapM run.initializers).symm

/-- When its names have been bound again, `letrec` goes on as the application that it stands for. -/
theorem LetRecRun.eval_eq (run : LetRecRun room depth e env m)
    (rebound : Eval.rebindHead run.inner run.bindings.params run.values run.initialized =
      .ok () m') :
    eval room (depth + 1) e env m = eval room depth (Form.application run.bindings) run.inner
      (m'.addRecord (.letrecBound run.bindings.params)) := by
  rw [eval_of_phrase run.phrase, Phrase.run, bind_ok run.entry, bind_ok run.initializers,
    bind_ok rebound]
  rfl

/-- What binding the names of a `letrec` again leaves behind. -/
structure LetRecRun.Tied (run : LetRecRun room depth e env m) (m' : Machine) : Prop where
  machine : m' = run.initialized.mapStore
    (·.assignAll run.frame (run.bindings.params.zip run.values))
  hasEnv : m'.store.HasEnv run.inner
  hasFrame : m'.store.HasFrame run.frame
  chain : m'.store.chain run.inner = run.frame :: m.store.chain env
  frame : m'.store.frame run.frame = ⟨run.bindings.params.zip run.values⟩

/-- Where the initializers only add to the store, the names are bound again in the frame made for
    them, and these are all of its entries. -/
theorem LetRecRun.tied (run : LetRecRun room depth e env m)
    (adds : Adds run.opened.store run.initialized.store)
    (rebound : Eval.rebindHead run.inner run.bindings.params run.values run.initialized =
      .ok () m') : run.Tied m' := by
  obtain ⟨distinct, _⟩ := Phrase.shaped_of run.phrase
  obtain ⟨made, _⟩ := run.frame_opened
  have madeEnv := (fixes_of_extend run.entry).2.2.1
  have there : run.initialized.store.HasFrame run.frame := adds.hasFrame made
  have chain := (adds.chain _ madeEnv).trans run.chain_inner
  obtain ⟨head, rest, lengths, chain', rfl⟩ := Eval.rebindHead_eq_ok rebound
  obtain ⟨rfl, _⟩ := List.cons.inj (chain'.symm.trans chain)
  have names : (run.initialized.store.frame run.frame).names = run.bindings.params := by
    rw [adds.frame _ made, run.frame_eq]
    exact Frame.keys_zip (List.length_map _).symm
  refine ⟨rfl, adds.hasEnv madeEnv, ?_, chain, ?_⟩
  · show (run.initialized.store.modifyFrame _ _).HasFrame _
    rwa [Store.HasFrame, Store.frames_size_modifyFrame]
  · rw [← Frame.insertAll_zip names lengths distinct]
    exact Store.frame_modifyFrame_self there _

end

/-! ## The knot -/

/-- What a `letrec` of functions has made of a store when its body comes to be evaluated. -/
structure Knot (b : Form.Bindings) (functions : List Lambda) (env : EnvRef) (s t : Store)
    (inner captured : EnvRef) (patched bound : FrameRef) : Prop where
  adds : Adds s t
  newInner : ¬ s.HasEnv inner
  newCaptured : ¬ s.HasEnv captured
  newPatched : ¬ s.HasFrame patched
  newBound : ¬ s.HasFrame bound
  envsApart : inner ≠ captured
  framesApart : bound ≠ patched
  chainInner : t.chain inner = bound :: patched :: s.chain env
  chainCaptured : t.chain captured = patched :: s.chain env
  /-- Both frames bind the names, in order, to closures over the same environment. -/
  frames : ∀ f, f = patched ∨ f = bound → ∃ values, t.frame f = ⟨b.params.zip values⟩ ∧
    List.Forall₂ (Lambda.ClosedOver captured) functions values

/-- Wherever one of the two frames is the first to bind a name, the name leads to its function. -/
theorem Knot.lookup {b : Form.Bindings} {functions : List Lambda} {env inner captured : EnvRef}
    {s t u : Store} {patched bound f : FrameRef} (knot : Knot b functions env s t inner captured
      patched bound) (distinct : b.params.Nodup)
    (lengths : b.params.length = functions.length) (either : f = patched ∨ f = bound)
    (kept : u.frame f = t.frame f) {p : Symbol} {fn : Lambda}
    (named : (p, fn) ∈ b.params.zip functions) {other : EnvRef} {front rest : Chain}
    (chain : u.chain other = front ++ f :: rest) (clear : ∀ g ∈ front, p ∉ (u.frame g).names) :
    ∃ v, fn.ClosedOver captured v ∧ u.lookup other p = .ok v := by
  obtain ⟨values, frame, closures⟩ := knot.frames f either
  have same : functions.length = values.length := closures.length_eq
  have there : p ∈ (u.frame f).names := by
    rw [kept, frame]
    show p ∈ (b.params.zip values).map Prod.fst
    rw [List.map_fst_zip (by omega)]
    exact (List.of_mem_zip named).1
  obtain ⟨v, found⟩ := Frame.mem_names_iff.mp there
  have pair : (p, v) ∈ b.params.zip values := by
    have member := Frame.mem_entries_of_get? found
    rwa [kept, frame] at member
  have closed := closedOver_of_mem_zip distinct closures named pair
  have front : front.findSome? (fun g => (u.frame g).get? p) = none := by
    rw [List.findSome?_eq_none_iff]
    intro g member
    rw [Option.eq_none_iff_forall_ne_some]
    exact fun w binds => clear g member (Frame.mem_names_iff.mpr ⟨w, binds⟩)
  have binding : u.binding? other p = some v := by
    unfold Store.binding?
    rw [chain, List.findSome?_append, front, Option.none_or, List.findSome?_cons, found]
  refine ⟨v, closed, ?_⟩
  obtain ⟨stamp, rfl⟩ := closed
  unfold Store.lookup
  rw [binding]

section
variable {room depth : Nat} {e : Value} {b : Form.Bindings} {functions : List Lambda}
  {env captured : EnvRef} {m : Machine}

/-- Functions are made, and put in the place of the placeholders. -/
theorem exists_tied (room depth : Nat) (phrase : Phrase.of e = .ok (.letRec b))
    (lambdas : List.Forall₂ Lambda.WrittenAs functions b.inits) (env : EnvRef) (m : Machine) :
    ∃ values tied, eval room (depth + 2) e env m =
        eval room (depth + 1) (Form.application b) m.store.nextEnv tied ∧
      Adds m.store tied.store ∧ tied.store.HasEnv m.store.nextEnv ∧
      tied.store.HasFrame m.store.nextFrame ∧
      tied.store.chain m.store.nextEnv = m.store.nextFrame :: m.store.chain env ∧
      tied.store.frame m.store.nextFrame = ⟨b.params.zip values⟩ ∧
      List.Forall₂ (Lambda.ClosedOver m.store.nextEnv) functions values := by
  obtain ⟨inner, opened, entry⟩ := extend_placeholders env b.params m
  obtain ⟨_, _, rfl, _⟩ := Eval.extend_eq_ok entry
  obtain ⟨values, initialized, initializers, store, closures⟩ :=
    mapM_of_writtenAs room depth m.store.nextEnv lambdas opened
  let run : LetRecRun room (depth + 1) e env m :=
    ⟨⟨b, m.store.nextEnv, opened, phrase, entry⟩, values, initialized, initializers⟩
  have still : Adds run.opened.store run.initialized.store := by
    show Adds opened.store initialized.store
    rw [store]
    exact .refl _
  obtain ⟨tied, rebound⟩ := run.rebindHead_ok
  have knot := run.tied still rebound
  have adds : Adds m.store tied.store := adds_of_letRec run still rebound
  exact ⟨values, tied.addRecord (.letrecBound b.params), run.eval_eq rebound, adds, knot.hasEnv,
    knot.hasFrame, knot.chain, knot.frame, closures⟩

/-- Functions are made again, and bound in front of the environment that they have captured. -/
theorem exists_bound (room depth : Nat) (distinct : b.params.Nodup)
    (lengths : b.params.length = b.inits.length)
    (lambdas : List.Forall₂ Lambda.WrittenAs functions b.inits) (env : EnvRef) (m : Machine) :
    ∃ values m', eval room (depth + 2) (Form.application b) env m =
        eval room (depth + 1) b.body m.store.nextEnv m' ∧
      m'.store = (m.store.extend env ⟨b.params.zip values⟩).2 ∧ Adds m.store m'.store ∧
      List.Forall₂ (Lambda.ClosedOver env) functions values := by
  obtain ⟨values, remade, again, store, closures⟩ :=
    mapM_of_writtenAs room depth env lambdas m.nextStamp.2
  replace store : remade.store = m.store := store
  have lengths : b.params.length = values.length := lengths.trans (length_of_mapM again).symm
  have entry := Eval.extend_zip lengths distinct env remade
  refine ⟨values, remade.mapStore fun s => (s.extend env ⟨b.params.zip values⟩).2, ?_, ?_, ?_,
    closures⟩
  · rw [eval_application distinct, bind_ok again, bind_ok entry, store]
  · rw [Machine.mapStore, store]
  · rw [← store]
    exact adds_of_extend entry

end

/-- A `letrec` of functions comes to its body without a fault, in a state that has only been added
    to. The body sees the functions in a frame of its own, in front of the one that the functions
    see each other in, and wherever one of these frames is the first to bind a name, the name leads
    to its function. -/
theorem eval_letRec_ties {e : Value} {tail : List Value} {b : Form.Bindings}
    {functions : List Lambda} (headed : e.items? = some (.symbol Keyword.letRec.symbol :: tail))
    (written : b.WrittenAs tail) (lambdas : List.Forall₂ Lambda.WrittenAs functions b.inits)
    (room depth : Nat) (env : EnvRef) (m : Machine) :
    ∃ inner captured patched bound m',
      eval room (depth + 3) e env m = eval room (depth + 1) b.body inner m' ∧
      Knot b functions env m.store m'.store inner captured patched bound ∧
      ∀ p fn, (p, fn) ∈ b.params.zip functions → ∀ f, f = patched ∨ f = bound →
        ∀ (u : Store) other front rest, u.frame f = m'.store.frame f →
          u.chain other = front ++ f :: rest → (∀ g ∈ front, p ∉ (u.frame g).names) →
          ∃ v, fn.ClosedOver captured v ∧ u.lookup other p = .ok v := by
  have phrase := (Phrase.of_eq_ofForm headed).trans (Phrase.ofForm_letRec written)
  have lengths : b.params.length = functions.length :=
    written.lengths.trans lambdas.length_eq.symm
  obtain ⟨first, tied, begun, adds, hasEnv, hasFrame, chain, patched, closures⟩ :=
    exists_tied room (depth + 1) phrase lambdas env m
  obtain ⟨second, m', ended, store, grown, closures'⟩ :=
    exists_bound room depth written.distinct written.lengths lambdas
      m.store.nextEnv tied
  have knot : Knot b functions env m.store m'.store tied.store.nextEnv m.store.nextEnv
      m.store.nextFrame tied.store.nextFrame := by
    refine ⟨adds.trans grown, ?_, Store.not_hasEnv_nextEnv, Store.not_hasFrame_nextFrame, ?_,
      (Store.ne_nextEnv hasEnv).symm, (Store.ne_nextFrame hasFrame).symm, ?_, ?_, ?_⟩
    · exact fun there => Store.not_hasEnv_nextEnv (adds.hasEnv there)
    · exact fun there => Store.not_hasFrame_nextFrame (adds.hasFrame there)
    · rw [store, Store.chain_extend, if_pos rfl, chain]
    · rw [grown.chain _ hasEnv, chain]
    · rintro f (rfl | rfl)
      · exact ⟨first, (grown.frame _ hasFrame).trans patched, closures⟩
      · refine ⟨second, ?_, closures'⟩
        rw [store, Store.frame_extend, if_pos rfl]
  refine ⟨_, _, _, _, m', begun.trans ended, knot, ?_⟩
  intro p fn named f either u other front rest kept place clear
  exact knot.lookup written.distinct lengths either kept named place clear

/-- `(lambda (n) (other n))`. -/
def passesOn (other : Symbol) : Lambda := ⟨[⟨"n"⟩], .list ⟨1⟩ [.symbol other, .symbol ⟨"n"⟩]⟩

/-- The names, initializers and body of
    `(letrec ((even (lambda (n) (odd n))) (odd (lambda (n) (even n)))) (even 1))`. -/
def mutualCalls : Form.Bindings where
  params := [⟨"even"⟩, ⟨"odd"⟩]
  inits := [
    .list ⟨2⟩ [.symbol ⟨"lambda"⟩, .list ⟨3⟩ [.symbol ⟨"n"⟩], (passesOn ⟨"odd"⟩).body],
    .tuple ⟨4⟩ [.symbol ⟨"lambda"⟩, .list ⟨5⟩ [.symbol ⟨"n"⟩], (passesOn ⟨"even"⟩).body]]
  body := .list ⟨6⟩ [.symbol ⟨"even"⟩, .int 1]

/-- Two functions that call each other see each other, and the body sees both. -/
theorem eval_letRec_ties_mutualCalls :
    let bindings := (mutualCalls.params.zip mutualCalls.inits).map fun (p, init) =>
      Value.list ⟨7⟩ [.symbol p, init]
    let tail := [.list ⟨8⟩ bindings, mutualCalls.body]
    let e := .list ⟨9⟩ (.symbol Keyword.letRec.symbol :: tail)
    mutualCalls.WrittenAs tail ∧
      List.Forall₂ Lambda.WrittenAs [passesOn ⟨"odd"⟩, passesOn ⟨"even"⟩] mutualCalls.inits ∧
      ∃ inner captured patched bound m' v w,
        eval 10 3 e ⟨0⟩ .empty = eval 10 1 mutualCalls.body inner m' ∧
        m'.store.chain inner = [bound, patched] ∧ m'.store.chain captured = [patched] ∧
        m'.store.lookup inner ⟨"even"⟩ = .ok v ∧ (passesOn ⟨"odd"⟩).ClosedOver captured v ∧
        m'.store.lookup captured ⟨"odd"⟩ = .ok w ∧ (passesOn ⟨"even"⟩).ClosedOver captured w := by
  intro bindings tail e
  have written : mutualCalls.WrittenAs tail :=
    ⟨⟨⟨8⟩, bindings, rfl, .cons ⟨⟨7⟩, rfl⟩ (.cons ⟨⟨7⟩, rfl⟩ .nil)⟩, rfl, by decide⟩
  have lambdas : List.Forall₂ Lambda.WrittenAs [passesOn ⟨"odd"⟩, passesOn ⟨"even"⟩]
      mutualCalls.inits :=
    .cons ⟨by decide, ⟨3⟩, rfl⟩ (.cons ⟨by decide, ⟨5⟩, rfl⟩ .nil)
  have headed : e.items? = some (.symbol Keyword.letRec.symbol :: tail) := rfl
  obtain ⟨inner, captured, patched, bound, m', run, knot, lookup⟩ :=
    eval_letRec_ties headed written lambdas 10 0 ⟨0⟩ .empty
  obtain ⟨v, closed, found⟩ := lookup ⟨"even"⟩ (passesOn ⟨"odd"⟩) (by simp [mutualCalls]) bound
    (.inr rfl) m'.store inner [] _ rfl knot.chainInner (by simp)
  obtain ⟨w, closed', found'⟩ := lookup ⟨"odd"⟩ (passesOn ⟨"even"⟩) (by simp [mutualCalls]) patched
    (.inl rfl) m'.store captured [] _ rfl knot.chainCaptured (by simp)
  exact ⟨written, lambdas, inner, captured, patched, bound, m', v, w, run, knot.chainInner,
    knot.chainCaptured, found, closed, found', closed'⟩

end FrameLisp
