import FrameLisp.Proofs.Obstacle
import FrameLisp.Proofs.Origin
import Mathlib.Data.List.Forall2

/-!
The grammar of special forms. `Grammar` says what may stand behind each keyword, without regard to
the order in which the checks are made. A form outside of it is refused before anything has
happened, and a form inside of it raises no fault of its own: whatever ends its evaluation has ended
the evaluation of an expression that stands in it (`eval_accepts_grammar`).
-/
namespace FrameLisp

/-- The items of a list or a tuple. -/
def Value.items? : Value → Option (List Value)
  | .list _ items => some items
  | .tuple _ items => some items
  | _ => none

/-! ## What may stand behind a keyword -/

namespace Form

/-- A binding is a list of a name and its initializer. -/
def IsBinding (binding : Value) (pair : Symbol × Value) : Prop :=
  ∃ stamp, binding = .list stamp [.symbol pair.1, pair.2]

/-- The operands of a form that binds names: a list of bindings, one for each name and its
    initializer in order, and a body. -/
structure Bindings.WrittenAs (b : Bindings) (tail : List Value) : Prop where
  parts : ∃ stamp bindings, tail = [.list stamp bindings, b.body] ∧
    List.Forall₂ IsBinding bindings (b.params.zip b.inits)
  lengths : b.params.length = b.inits.length
  distinct : b.params.Nodup

/-- The operands of a definition, with the name that it binds and the expression for its value. -/
inductive Defines (x : Symbol) : Value → List Value → Prop
  | name {expr : Value} : Defines x expr [.symbol x, expr]
  | function {stamp : Stamp} {params : List Value} {body : Value} :
      Defines x (functionOf params body) [.list stamp (.symbol x :: params), body]

end Form

/-- What may stand behind a keyword. -/
inductive Grammar : Keyword → List Value → Prop
  | lambda {stamp : Stamp} {names : List Symbol} {body : Value} (distinct : names.Nodup) :
      Grammar .lambda [.list stamp (names.map .symbol), body]
  | letPlain {b : Form.Bindings} {tail : List Value} (written : b.WrittenAs tail) :
      Grammar .letPlain tail
  | letRec {b : Form.Bindings} {tail : List Value} (written : b.WrittenAs tail) :
      Grammar .letRec tail
  | branch {condition consequent alternative : Value} :
      Grammar .branch [condition, consequent, alternative]
  | name {x : Symbol} {expr : Value} : Grammar .define [.symbol x, expr]
  | function {stamp : Stamp} {f : Symbol} {params : List Symbol} {body : Value}
      (distinct : params.Nodup) :
      Grammar .define [.list stamp (.symbol f :: params.map .symbol), body]

namespace Form

variable {form : String} {tail bindings : List Value} {b : Bindings}

private theorem mapM_splitBinding_eq_ok {pairs : List (Value × Value)} :
    bindings.mapM (splitBinding form) = .ok pairs ↔
      List.Forall₂ (fun binding pair => ∃ stamp, binding = .list stamp [pair.1, pair.2])
        bindings pairs := by
  induction bindings generalizing pairs with
  | nil =>
    rw [List.forall₂_nil_left_iff]
    constructor
    · rintro ⟨⟩
      rfl
    · rintro rfl
      rfl
  | cons binding rest ih =>
    constructor
    · intro ok
      obtain ⟨stamp, name, init, others, rfl, later, rfl⟩ := splitBinding_cons_eq_ok ok
      exact .cons ⟨stamp, rfl⟩ (ih.mp later)
    · intro each
      obtain ⟨pair, others, ⟨stamp, rfl⟩, later, rfl⟩ := List.forall₂_cons_left_iff.mp each
      rw [List.mapM_cons, ih.mpr later]
      rfl

/-- The parts of a form that binds names are found exactly if it is written as it should be. -/
theorem splitBindings_eq_ok_iff : splitBindings form tail = .ok b ↔ b.WrittenAs tail := by
  have pairs : (b.params.map Value.symbol).zip b.inits =
      (b.params.zip b.inits).map (Prod.map .symbol id) := by
    rw [← List.zip_map, List.map_id]
  constructor
  · intro ok
    obtain ⟨stamp, bindings, rfl, each, lengths, distinct⟩ := splitBindings_eq_ok ok
    refine ⟨⟨stamp, bindings, rfl, ?_⟩, lengths, distinct⟩
    rw [pairs, mapM_splitBinding_eq_ok, List.forall₂_map_right_iff] at each
    exact each
  · rintro ⟨⟨stamp, bindings, rfl, each⟩, lengths, distinct⟩
    have split : bindings.mapM (splitBinding form) =
        .ok ((b.params.map Value.symbol).zip b.inits) := by
      rw [pairs, mapM_splitBinding_eq_ok, List.forall₂_map_right_iff]
      exact each
    have names : ((b.params.map Value.symbol).zip b.inits).map Prod.fst = b.params.map .symbol :=
      List.map_fst_zip (by simp [lengths])
    have inits : ((b.params.map Value.symbol).zip b.inits).map Prod.snd = b.inits :=
      List.map_snd_zip (by simp [lengths])
    have checked : checkParams form (.list .transient (b.params.map .symbol)) = .ok b.params :=
      checkParams_eq_ok.mpr ⟨⟨_, rfl⟩, distinct⟩
    simp [splitBindings, split, names, inits, checked, bind, Except.bind, pure, Except.pure]

/-- The name and the expression of a definition are found exactly if it is written as one. -/
theorem splitDefine_eq_ok_iff {x : Symbol} {expr : Value} :
    splitDefine tail = .ok (x, expr) ↔ Defines x expr tail := by
  constructor
  · intro ok
    unfold splitDefine at ok
    split at ok
    · split at ok <;> cases ok
      · exact .name
      · exact .function
    · cases ok
  · intro defines
    cases defines <;> rfl

end Form

/-! ## Forms outside the grammar -/

/-- How many calls are nested in each other when a form is checked: the parameters of a function
    that is defined are checked where the expression for it is evaluated. -/
def Keyword.stages : Keyword → Nat
  | .define => 2
  | _ => 1

/-- What a malformed form is reported as, with room for so many levels of the value in its message:
    as it is, unless there is an obstacle to writing the value. -/
inductive Malformation.ReportedAs (levels : Nat) (how : Malformation) : Fault → Prop
  | itself (clear : ∀ v, how.culprit? = some v → ¬ v.NestsBeyond levels ∧
        ∀ n : Int, (Value.int n).ShownIn v → n.natAbs < 10 ^ Number.digitLimit) :
      ReportedAs levels how (.malformed how)
  | digits {v : Value} {n : Int} (culprit : how.culprit? = some v)
      (shown : (Value.int n).ShownIn v) (long : 10 ^ Number.digitLimit ≤ n.natAbs) :
      ReportedAs levels how .unprintable
  | depth {v : Value} (culprit : how.culprit? = some v) (nests : v.NestsBeyond levels) :
      ReportedAs levels how .tooDeep

theorem Malformation.reportedAs_settle (how : Malformation) (levels : Nat) :
    how.ReportedAs levels ((Fault.malformed how).settle levels) := by
  have culprit : (Fault.malformed how).culprit? = how.culprit? := rfl
  unfold Fault.settle
  rw [culprit]
  split
  · rename_i obstacle blocked
    obtain ⟨v, culprit, blocked⟩ := Option.bind_eq_some_iff.mp blocked
    cases obstacle with
    | digits =>
      obtain ⟨n, shown, long⟩ := Value.exists_long_of_obstacle? blocked
      exact .digits culprit shown long
    | depth => exact .depth culprit (Value.nestsBeyond_of_obstacle? blocked)
  · rename_i clear
    refine .itself fun v culprit => ⟨fun nests => ?_, fun n shown => ?_⟩
    · rw [culprit] at clear
      exact Value.obstacle?_ne_none_of_nestsBeyond nests clear
    · rw [culprit] at clear
      by_contra long
      exact Value.obstacle?_ne_none_of_shownIn shown (Nat.not_lt.mp long) clear

section
variable {room depth : Nat} {k : Keyword} {tail : List Value} {e : Value} {env : EnvRef}
  {m m' : Machine} {c : Fault} {b : Form.Bindings}

theorem Phrase.of_eq_ofForm (headed : e.items? = some (.symbol k.symbol :: tail)) :
    Phrase.of e = Phrase.ofForm k tail := by
  have keyword : Eval.keyword? (.symbol k.symbol) = some k := Keyword.ofSymbol?_symbol k
  have items : Phrase.ofItems (.symbol k.symbol :: tail) = Phrase.ofForm k tail := by
    simp only [Phrase.ofItems, keyword]
  cases e with
  | list stamp items =>
    cases headed
    exact items
  | tuple stamp items =>
    cases headed
    exact items
  | _ => cases headed

theorem Phrase.ofForm_lambda {names : List Symbol} (distinct : names.Nodup) (stamp : Stamp)
    (body : Value) :
    Phrase.ofForm .lambda [.list stamp (names.map .symbol), body] = .ok (.lambda names body) := by
  simp only [Phrase.ofForm, Form.checkParams_eq_ok.mpr ⟨⟨stamp, rfl⟩, distinct⟩]
  rfl

theorem Phrase.ofForm_letPlain (written : b.WrittenAs tail) :
    Phrase.ofForm .letPlain tail = .ok (.letPlain b) := by
  simp only [Phrase.ofForm, Form.splitBindings_eq_ok_iff.mpr written]
  rfl

theorem Phrase.ofForm_letRec (written : b.WrittenAs tail) :
    Phrase.ofForm .letRec tail = .ok (.letRec b) := by
  simp only [Phrase.ofForm, Form.splitBindings_eq_ok_iff.mpr written]
  rfl

/-- A form outside the grammar is refused for its shape, or for the parameters of the function that
    it defines. -/
theorem refused_of_not_grammar (outside : ¬ Grammar k tail) :
    (∃ c, Phrase.ofForm k tail = .error c) ∨ k = .define ∧ ∃ f params body,
      Phrase.ofForm k tail = .ok (.define f (Form.functionOf params body)) ∧
      ∃ c, Phrase.ofForm .lambda [.list .transient params, body] = .error c := by
  cases said : Phrase.ofForm k tail with
  | error c => exact .inl ⟨c, rfl⟩
  | ok p =>
    cases k with
    | lambda =>
      match tail with
      | [params, body] =>
        obtain ⟨names, checked, _⟩ := Phrase.map_eq_ok said
        obtain ⟨⟨stamp, rfl⟩, distinct⟩ := Form.checkParams_eq_ok.mp checked
        exact absurd (.lambda distinct) outside
      | [] | [_] | _ :: _ :: _ :: _ => cases said
    | letPlain =>
      obtain ⟨b, split, _⟩ := Phrase.map_eq_ok said
      exact absurd (.letPlain (Form.splitBindings_eq_ok_iff.mp split)) outside
    | letRec =>
      obtain ⟨b, split, _⟩ := Phrase.map_eq_ok said
      exact absurd (.letRec (Form.splitBindings_eq_ok_iff.mp split)) outside
    | branch =>
      match tail with
      | [_, _, _] => exact absurd .branch outside
      | [] | [_] | [_, _] | _ :: _ :: _ :: _ :: _ => cases said
    | define =>
      obtain ⟨⟨x, expr⟩, split, rfl⟩ := Phrase.map_eq_ok said
      cases Form.splitDefine_eq_ok_iff.mp split with
      | name => exact absurd .name outside
      | @function stamp params body =>
        refine .inr ⟨rfl, x, params, body, rfl, ?_⟩
        cases header : Phrase.ofForm .lambda [.list .transient params, body] with
        | error c => exact ⟨c, rfl⟩
        | ok p =>
          obtain ⟨names, checked, _⟩ := Phrase.map_eq_ok header
          obtain ⟨⟨_, same⟩, distinct⟩ := Form.checkParams_eq_ok.mp checked
          cases same
          exact absurd (.function distinct) outside

/-- A form outside the grammar is refused, and the state stays as it is. -/
theorem eval_of_not_grammar (headed : e.items? = some (.symbol k.symbol :: tail))
    (outside : ¬ Grammar k tail) (room depth : Nat) (env : EnvRef) (m : Machine) :
    (∃ how, eval room depth e env m = .error (.fault (.malformed how)) m) ∨
      depth < k.stages ∧ eval room depth e env m = .error .exhausted m := by
  have phrase := Phrase.of_eq_ofForm headed
  cases depth with
  | zero => exact .inr ⟨by cases k <;> decide, rfl⟩
  | succ depth =>
    rcases refused_of_not_grammar outside with
      ⟨c, refused⟩ | ⟨rfl, f, params, body, said, c, refused⟩
    · obtain ⟨how, rfl⟩ := Phrase.ofForm_eq_error refused
      exact .inl ⟨how, eval_of_refused (phrase.trans refused)⟩
    · -- The definition is accepted, and the expression for its value is refused.
      obtain ⟨how, rfl⟩ := Phrase.ofForm_eq_error refused
      rw [eval_of_phrase (phrase.trans said), run_define]
      cases depth with
      | zero => exact .inr ⟨by decide, rfl⟩
      | succ depth =>
        have value : eval room (depth + 1) (Form.functionOf params body) env m =
            .error (.fault (.malformed how)) m := eval_of_refused refused
        rw [value]
        exact .inl ⟨how, rfl⟩

/-! ## Forms inside the grammar -/

/-- What ended a call had ended a call made on the way, for one of some expressions. -/
def Call.StopsIn (room : Nat) (root : Call) (h : Halt) (m' : Machine) (P : Value → Prop) : Prop :=
  ∃ c, Call.Visits room root c ∧ P c.expr ∧ eval room c.depth c.expr c.env c.machine = .error h m'

theorem Call.Makes.stopsIn {root next : Call} {h : Halt} {P : Value → Prop}
    (made : Call.Makes room root next) (named : P next.expr)
    (stopped : eval room next.depth next.expr next.env next.machine = .error h m') :
    root.StopsIn room h m' P :=
  ⟨next, .single made, named, stopped⟩

theorem Call.Makes.stopsIn_of_next {root next : Call} {h : Halt} {P : Value → Prop}
    (made : Call.Makes room root next) (stops : next.StopsIn room h m' P) :
    root.StopsIn room h m' P := by
  obtain ⟨c, visited, named, stopped⟩ := stops
  exact ⟨c, .head made visited, named, stopped⟩

/-- The application that a form stands for stops in an initializer or in the body. -/
theorem stopsIn_application {P : Value → Prop} (distinct : b.params.Nodup)
    (lengths : b.params.length = b.inits.length) (named : ∀ part ∈ b.body :: b.inits, P part)
    (stopped : eval room depth (Form.application b) env m = .error (.fault c) m') :
    Call.StopsIn room ⟨depth, Form.application b, env, m⟩ (.fault c) m' P := by
  cases depth with
  | zero => cases stopped
  | succ depth =>
    have phrase := Phrase.of_application b
    rw [eval_of_phrase phrase] at stopped
    rcases bind_eq_error stopped with stopped | ⟨fn, m1, first, stopped⟩
    · cases depth with
      | zero => cases stopped
      | succ depth =>
        rw [eval_functionOf distinct] at stopped
        cases stopped
    rcases bind_eq_error stopped with stopped | ⟨values, m2, later, stopped⟩
    · obtain ⟨init, m2, turn, stopped⟩ := exists_inTurn_of_mapM stopped
      exact (Call.Makes.operand phrase (.later first turn)).stopsIn
        (named init (List.mem_cons_of_mem _ turn.mem)) stopped
    · let app : Application room depth (Form.application b) env m :=
        ⟨_, b.inits, fn, values, m2, phrase, mapM_cons_ok first later⟩
      obtain ⟨stamp, function, inner, m3, entry⟩ := app.extend_ok distinct lengths
      replace function : fn = .closure stamp b.params b.body env := function
      subst function
      let call : ClosureCall room depth (Form.application b) env m :=
        ⟨_, b.inits, stamp, b.params, b.body, env, values, m2, inner, m3, phrase,
          mapM_cons_ok first later, entry⟩
      rw [Eval.apply, bind_ok entry] at stopped
      exact (Call.Makes.body call).stopsIn (named b.body List.mem_cons_self) stopped

/-- The initializers and the body of a form stand in its operands. -/
theorem Form.Bindings.WrittenAs.occursIn (written : b.WrittenAs tail) :
    ∀ part ∈ b.body :: b.inits, ∃ operand ∈ tail, part.OccursIn operand := by
  have split : Form.splitBindings Keyword.letPlain.name tail = .ok b :=
    Form.splitBindings_eq_ok_iff.mpr written
  obtain ⟨stamp, bindings, rfl, each⟩ := Form.mem_binding_of_splitBindings split
  intro part member
  rcases List.mem_cons.mp member with rfl | member
  · exact ⟨_, List.mem_cons_of_mem _ List.mem_cons_self, .self⟩
  · obtain ⟨stamp', items, binding, inside⟩ := each part (List.mem_append_right _ member)
    exact ⟨_, List.mem_cons_self, .list binding (.list inside .self)⟩

private theorem stopsIn_letRec (phrase : Phrase.of e = .ok (.letRec b)) {P : Value → Prop}
    (named : ∀ part ∈ b.body :: b.inits, P part)
    (stopped : (Phrase.letRec b).run room (eval room depth) env m = .error (.fault c) m') :
    Call.StopsIn room ⟨depth + 1, e, env, m⟩ (.fault c) m' P := by
  obtain ⟨distinct, lengths⟩ := Phrase.shaped_of phrase
  obtain ⟨inner, opened, entry⟩ := extend_placeholders env b.params m
  let opening : LetRecOpening e env m := ⟨b, inner, opened, phrase, entry⟩
  rw [Phrase.run, bind_ok entry] at stopped
  rcases bind_eq_error stopped with stopped | ⟨values, initialized, done, stopped⟩
  · obtain ⟨init, m1, turn, stopped⟩ := exists_inTurn_of_mapM stopped
    exact (Call.Makes.initializer opening turn).stopsIn
      (named init (List.mem_cons_of_mem _ turn.mem)) stopped
  let run : LetRecRun room depth e env m := ⟨opening, values, initialized, done⟩
  obtain ⟨m1, rebound⟩ := run.rebindHead_ok
  rw [bind_ok rebound] at stopped
  exact (Call.Makes.letRec run rebound).stopsIn_of_next
    (stopsIn_application distinct lengths named stopped)

/-- A fault that ends the evaluation of a form inside the grammar has ended that of an expression
    that stands in it. -/
theorem stopsIn_of_grammar (headed : e.items? = some (.symbol k.symbol :: tail))
    (inside : Grammar k tail) (stopped : eval room depth e env m = .error (.fault c) m') :
    Call.StopsIn room ⟨depth, e, env, m⟩ (.fault c) m'
      fun part => ∃ operand ∈ tail, part.OccursIn operand := by
  cases depth with
  | zero => cases stopped
  | succ depth =>
    have phrase := Phrase.of_eq_ofForm headed
    cases inside with
    | @lambda stamp names body distinct =>
      rw [eval_of_phrase (phrase.trans (Phrase.ofForm_lambda distinct stamp body))] at stopped
      cases stopped
    | letPlain written =>
      have phrase := phrase.trans (Phrase.ofForm_letPlain written)
      rw [eval_of_phrase phrase] at stopped
      exact (Call.Makes.letPlain phrase).stopsIn_of_next
        (stopsIn_application written.distinct written.lengths written.occursIn stopped)
    | letRec written =>
      have phrase := phrase.trans (Phrase.ofForm_letRec written)
      rw [eval_of_phrase phrase] at stopped
      exact stopsIn_letRec phrase written.occursIn stopped
    | @branch condition consequent alternative =>
      rw [eval_of_phrase phrase] at stopped
      rcases bind_eq_error stopped with stopped | ⟨v, m1, done, stopped⟩
      · exact (Call.Makes.condition phrase).stopsIn ⟨condition, by simp, .self⟩ stopped
      · have made := Call.Makes.branch phrase done
        split at stopped
        · rename_i truth
          rw [if_pos truth] at made
          exact made.stopsIn ⟨consequent, by simp, .self⟩ stopped
        · rename_i truth
          rw [if_neg truth] at made
          exact made.stopsIn ⟨alternative, by simp, .self⟩ stopped
    | @name x expr =>
      have phrase : Phrase.of e = .ok (.define x expr) := phrase
      rw [eval_of_phrase phrase, run_define] at stopped
      split at stopped <;> cases stopped
      rename_i stopped
      exact (Call.Makes.define phrase).stopsIn ⟨expr, by simp, .self⟩ stopped
    | @function stamp f params body distinct =>
      have phrase : Phrase.of e = .ok (.define f (Form.functionOf (params.map .symbol) body)) :=
        phrase
      rw [eval_of_phrase phrase, run_define] at stopped
      cases depth with
      | zero => cases stopped
      | succ depth =>
        rw [eval_functionOf distinct] at stopped
        cases stopped

end

section
variable {k : Keyword} {tail : List Value}

theorem Grammar.exists_bindings (inside : Grammar k tail) (binds : k = .letPlain ∨ k = .letRec) :
    ∃ b, Form.splitBindings k.name tail = .ok b ∧ b.WrittenAs tail := by
  cases inside with
  | letPlain written => exact ⟨_, Form.splitBindings_eq_ok_iff.mpr written, written⟩
  | letRec written => exact ⟨_, Form.splitBindings_eq_ok_iff.mpr written, written⟩
  | _ => simp at binds

theorem Grammar.exists_defines (inside : Grammar .define tail) :
    ∃ x expr, Form.splitDefine tail = .ok (x, expr) ∧ Form.Defines x expr tail := by
  cases inside with
  | name => exact ⟨_, _, rfl, .name⟩
  | function => exact ⟨_, _, rfl, .function⟩

end

/-- A special form outside the grammar is refused as malformed while the state stays as it is, if
    there is depth left for its check. A form inside the grammar raises no fault itself, and what it
    binds is split up as it is written. -/
theorem eval_accepts_grammar {k : Keyword} {tail : List Value} {e : Value}
    (headed : e.items? = some (.symbol k.symbol :: tail)) (room depth : Nat) (env : EnvRef)
    (m : Machine) :
    (¬ Grammar k tail →
      (∃ how, eval room depth e env m = .error (.fault (.malformed how)) m ∧
        ∀ levels, how.ReportedAs levels ((Fault.malformed how).settle levels)) ∨
      depth < k.stages ∧ eval room depth e env m = .error .exhausted m) ∧
    (Grammar k tail →
      (∀ c m', eval room depth e env m = .error (.fault c) m' →
        Call.StopsIn room ⟨depth, e, env, m⟩ (.fault c) m'
          fun part => ∃ operand ∈ tail, part.OccursIn operand) ∧
      (k = .letPlain ∨ k = .letRec →
        ∃ b, Form.splitBindings k.name tail = .ok b ∧ b.WrittenAs tail) ∧
      (k = .define →
        ∃ x expr, Form.splitDefine tail = .ok (x, expr) ∧ Form.Defines x expr tail)) := by
  constructor
  · intro outside
    rcases eval_of_not_grammar headed outside room depth env m with ⟨how, refused⟩ | exhausted
    · exact .inl ⟨how, refused, how.reportedAs_settle⟩
    · exact .inr exhausted
  · intro inside
    refine ⟨fun c m' => stopsIn_of_grammar headed inside, inside.exists_bindings, ?_⟩
    rintro rfl
    exact inside.exists_defines

/-- `(define (f x x) x)`, the outer sequence a tuple. -/
def twiceNamed : Value :=
  .tuple ⟨1⟩ [.symbol ⟨"define"⟩,
    .list ⟨2⟩ [.symbol ⟨"f"⟩, .symbol ⟨"x"⟩, .symbol ⟨"x"⟩], .symbol ⟨"x"⟩]

/-- The parameters of a function that is defined have to be distinct, and are looked at before
    anything has happened. -/
theorem eval_accepts_grammar_twiceNamed :
    let tail := [.list ⟨2⟩ [.symbol ⟨"f"⟩, .symbol ⟨"x"⟩, .symbol ⟨"x"⟩], .symbol ⟨"x"⟩]
    twiceNamed.items? = some (.symbol Keyword.define.symbol :: tail) ∧ ¬ Grammar .define tail ∧
      ∃ how, eval 10 2 twiceNamed ⟨0⟩ .empty = .error (.fault (.malformed how)) .empty := by
  intro tail
  have headed : twiceNamed.items? = some (.symbol Keyword.define.symbol :: tail) := rfl
  have outside : ¬ Grammar .define tail := by
    intro inside
    generalize same : tail = operands at inside
    change [Value.list _ _, _] = _ at same
    cases inside with
    | name => cases same
    | @function stamp f params body distinct =>
      injection same with header
      injection header with _ items
      injection items with _ items
      have names : params = [⟨"x"⟩, ⟨"x"⟩] :=
        Option.some.inj ((Form.symbols_eq_some.mpr items).symm.trans rfl)
      subst names
      exact absurd distinct (by decide)
  refine ⟨headed, outside, ?_⟩
  rcases (eval_accepts_grammar headed 10 2 ⟨0⟩ .empty).1 outside with ⟨how, refused, _⟩ | ⟨few, _⟩
  · exact ⟨how, refused⟩
  · exact absurd few (by decide)

end FrameLisp
