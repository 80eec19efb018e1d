import FrameLisp.Form
import Mathlib.Tactic.Common

/-!
What the checks of special forms accept. A parameter list is accepted exactly if it is a list of
distinct symbols, and whatever a check refuses it refuses as malformed.
-/
namespace FrameLisp

namespace Form

variable {form : String} {v : Value} {names : List Symbol} {tail : List Value} {b : Bindings}
  {c : Fault}

theorem symbols_eq_some {items : List Value} :
    items.mapM Value.symbol? = some names ↔ items = names.map .symbol := by
  induction items generalizing names with
  | nil => cases names <;> simp
  | cons item rest ih =>
    rw [List.mapM_cons]
    cases item <;> cases names <;> simp [Value.symbol?, Option.bind_eq_some_iff, ih, and_comm]

/-- A parameter list is a list of distinct symbols. -/
theorem checkParams_eq_ok :
    checkParams form v = .ok names ↔
      (∃ stamp, v = .list stamp (names.map .symbol)) ∧ names.Nodup := by
  constructor
  · intro ok
    unfold checkParams at ok
    split at ok
    · split at ok
      · cases ok
      · rename_i symbols
        split at ok
        · rename_i distinct
          cases ok
          exact ⟨⟨_, by rw [symbols_eq_some.mp symbols]⟩, distinct⟩
        · cases ok
    · cases ok
  · rintro ⟨⟨stamp, rfl⟩, distinct⟩
    simp [checkParams, symbols_eq_some.mpr rfl, distinct]

theorem checkParams_eq_error (error : checkParams form v = .error c) :
    ∃ how, c = .malformed how := by
  unfold checkParams at error
  split at error
  · split at error
    · cases error
      exact ⟨_, rfl⟩
    · split at error <;> cases error
      exact ⟨_, rfl⟩
  · cases error
    exact ⟨_, rfl⟩

theorem splitBinding_eq_error (error : splitBinding form v = .error c) :
    ∃ how, c = .malformed how := by
  unfold splitBinding at error
  split at error <;> cases error
  exact ⟨_, rfl⟩

theorem splitBinding_eq_ok {pair : Value × Value} (ok : splitBinding form v = .ok pair) :
    ∃ stamp, v = .list stamp [pair.1, pair.2] := by
  unfold splitBinding at ok
  split at ok <;> cases ok
  exact ⟨_, rfl⟩

/-- The parts of bindings, the first before the others. -/
theorem splitBinding_cons_eq_ok {binding : Value} {rest : List Value}
    {pairs : List (Value × Value)} (ok : (binding :: rest).mapM (splitBinding form) = .ok pairs) :
    ∃ stamp name init others, binding = .list stamp [name, init] ∧
      rest.mapM (splitBinding form) = .ok others ∧ pairs = (name, init) :: others := by
  rw [List.mapM_cons] at ok
  cases first : splitBinding form binding with
  | error c => simp [first, bind, Except.bind] at ok
  | ok pair =>
    cases later : rest.mapM (splitBinding form) with
    | error c => simp [first, later, bind, Except.bind] at ok
    | ok others =>
      obtain ⟨stamp, rfl⟩ := splitBinding_eq_ok first
      have parts : pair :: others = pairs := by
        simpa [first, later, bind, Except.bind, pure, Except.pure] using ok
      exact ⟨stamp, pair.1, pair.2, others, rfl, rfl, parts.symm⟩

private theorem bindings_eq_error {bindings : List Value}
    (error : bindings.mapM (splitBinding form) = .error c) : ∃ how, c = .malformed how := by
  induction bindings with
  | nil => cases error
  | cons binding rest ih =>
    rw [List.mapM_cons] at error
    cases first : splitBinding form binding with
    | error c' =>
      rw [first] at error
      cases error
      exact splitBinding_eq_error first
    | ok pair =>
      cases later : rest.mapM (splitBinding form) with
      | error c' =>
        rw [first, later] at error
        cases error
        exact ih later
      | ok pairs =>
        rw [first, later] at error
        cases error

/-- The parts of a form that binds names: as many initializers as names, and each binding a name
    with its initializer. -/
theorem splitBindings_eq_ok (ok : splitBindings form tail = .ok b) :
    ∃ stamp bindings, tail = [.list stamp bindings, b.body] ∧
      bindings.mapM (splitBinding form) = .ok ((b.params.map Value.symbol).zip b.inits) ∧
      b.params.length = b.inits.length ∧ b.params.Nodup := by
  unfold splitBindings at ok
  split at ok
  · rename_i stamp bindings body
    cases each : bindings.mapM (splitBinding form) with
    | error c => simp [each, bind, Except.bind] at ok
    | ok pairs =>
      cases params : checkParams form (.list .transient (pairs.map Prod.fst)) with
      | error c => simp [each, params, bind, Except.bind] at ok
      | ok names =>
        have parts : (⟨names, pairs.map Prod.snd, body⟩ : Bindings) = b := by
          simpa [each, params, bind, Except.bind, pure, Except.pure] using ok
        subst parts
        obtain ⟨⟨stamp', symbols⟩, distinct⟩ := checkParams_eq_ok.mp params
        injection symbols with _ symbols
        have lengths : names.length = pairs.length := by
          simpa using (congrArg List.length symbols).symm
        refine ⟨stamp, bindings, rfl, ?_, by simpa using lengths, distinct⟩
        rw [each, ← symbols, ← List.unzip_fst, ← List.unzip_snd, List.zip_unzip]
  · cases ok

private theorem mem_bindings_of_mem {bindings : List Value} {pairs : List (Value × Value)}
    (each : bindings.mapM (splitBinding form) = .ok pairs) :
    ∀ pair ∈ pairs, ∃ stamp, .list stamp [pair.1, pair.2] ∈ bindings := by
  induction bindings generalizing pairs with
  | nil =>
    cases each
    simp
  | cons binding rest ih =>
    obtain ⟨stamp, name, init, others, rfl, later, rfl⟩ := splitBinding_cons_eq_ok each
    intro pair member
    rcases List.mem_cons.mp member with rfl | member
    · exact ⟨stamp, List.mem_cons_self⟩
    · obtain ⟨stamp', there⟩ := ih later pair member
      exact ⟨stamp', List.mem_cons_of_mem _ there⟩

/-- Every name and every initializer of a form stands in one of its bindings. -/
theorem mem_binding_of_splitBindings (ok : splitBindings form tail = .ok b) :
    ∃ stamp bindings, tail = [.list stamp bindings, b.body] ∧
      ∀ part ∈ b.params.map Value.symbol ++ b.inits,
        ∃ stamp' items, .list stamp' items ∈ bindings ∧ part ∈ items := by
  obtain ⟨stamp, bindings, rfl, each, lengths, _⟩ := splitBindings_eq_ok ok
  have there := mem_bindings_of_mem each
  have names : ((b.params.map Value.symbol).zip b.inits).map Prod.fst = b.params.map .symbol :=
    List.map_fst_zip (by simp [lengths])
  have inits : ((b.params.map Value.symbol).zip b.inits).map Prod.snd = b.inits :=
    List.map_snd_zip (by simp [lengths])
  refine ⟨stamp, bindings, rfl, fun part member => ?_⟩
  rcases List.mem_append.mp member with member | member
  · rw [← names] at member
    obtain ⟨pair, paired, rfl⟩ := List.mem_map.mp member
    obtain ⟨stamp', binding⟩ := there pair paired
    exact ⟨stamp', _, binding, by simp⟩
  · rw [← inits] at member
    obtain ⟨pair, paired, rfl⟩ := List.mem_map.mp member
    obtain ⟨stamp', binding⟩ := there pair paired
    exact ⟨stamp', _, binding, by simp⟩

theorem splitBindings_eq_error (error : splitBindings form tail = .error c) :
    ∃ how, c = .malformed how := by
  unfold splitBindings at error
  split at error
  · rename_i stamp bindings body
    cases each : bindings.mapM (splitBinding form) with
    | error c' =>
      have same : c' = c := by simpa [each, bind, Except.bind] using error
      exact same ▸ bindings_eq_error each
    | ok pairs =>
      cases params : checkParams form (.list .transient (pairs.map Prod.fst)) with
      | error c' =>
        have same : c' = c := by simpa [each, params, bind, Except.bind] using error
        exact same ▸ checkParams_eq_error params
      | ok names => simp [each, params, bind, Except.bind, pure, Except.pure] at error
  · cases error
    exact ⟨_, rfl⟩

theorem splitDefine_eq_error (error : splitDefine tail = .error c) : ∃ how, c = .malformed how := by
  unfold splitDefine at error
  split at error
  · split at error <;> cases error <;> exact ⟨_, rfl⟩
  · cases error
    exact ⟨_, rfl⟩

end Form

end FrameLisp
