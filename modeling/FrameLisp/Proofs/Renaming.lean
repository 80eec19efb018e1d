import FrameLisp.Proofs.Calls
import FrameLisp.Value.Equality
import Mathlib.Data.List.Forall2
import Mathlib.Logic.Relator

/-!
Values that differ in nothing but the references in them. A `Renaming` says which stamps,
environments and frames of one run stand for which of another, and `Value.Alike` that two values
are the same up to it. Alike values look the same to a caller (`Value.Alike.looks`), comparisons of
alike values have the same answer as long as no reference stands for two (`Value.equal?_alike`), and
alike expressions say the same, or are refused for the same reason (`Phrase.of_alike`).
-/
namespace FrameLisp

/-- Which references of one run stand for which of another, by their numbers. -/
structure Renaming where
  stamps : Nat → Nat → Prop
  envs : Nat → Nat → Prop
  frames : Nat → Nat → Prop
  /-- Whether there may be primitives of the host. -/
  hosts : Prop

/-- A renaming as it applies to code. A primitive that is written there is never called, so it may
    be any. -/
def Renaming.code (ρ : Renaming) : Renaming := { ρ with hosts := True }

/-- Whatever corresponds under one renaming does so under another. -/
structure Renaming.Included (ρ σ : Renaming) : Prop where
  stamps : ∀ {a b}, ρ.stamps a b → σ.stamps a b
  envs : ∀ {a b}, ρ.envs a b → σ.envs a b
  frames : ∀ {a b}, ρ.frames a b → σ.frames a b
  hosts : ρ.hosts → σ.hosts

namespace Renaming.Included

variable {ρ σ τ : Renaming}

theorem refl (ρ : Renaming) : Included ρ ρ := ⟨id, id, id, id⟩

theorem trans (first : Included ρ σ) (second : Included σ τ) : Included ρ τ :=
  ⟨fun h => second.stamps (first.stamps h), fun h => second.envs (first.envs h),
    fun h => second.frames (first.frames h), fun h => second.hosts (first.hosts h)⟩

theorem code (included : Included ρ σ) : Included ρ.code σ.code :=
  ⟨included.stamps, included.envs, included.frames, id⟩

theorem toCode (ρ : Renaming) : Included ρ ρ.code := ⟨id, id, id, fun _ => trivial⟩

end Renaming.Included

/-- Whether a primitive is one of the host's. -/
def Op.isHost : Op → Bool
  | .note .. => true
  | _ => false

/-! ## Numbers -/

/-- Numbers that are the same but for the stamp of a nan. -/
inductive Number.Alike (ρ : Renaming) : Number → Number → Prop where
  | int (n : Int) : Alike ρ (.int n) (.int n)
  | float (x : Binary64) : Alike ρ (.float x) (.float x)
  | nan {s t : Stamp} (stamps : ρ.stamps s.serial t.serial) : Alike ρ (.nan s) (.nan t)

/-- Stamps that correspond to the same stamp, or to which the same corresponds, are the same. -/
theorem Stamp.eq_iff_eq {R : Nat → Nat → Prop} (unique : Relator.BiUnique R) {s t s' t' : Stamp}
    (left : R s.serial t.serial) (right : R s'.serial t'.serial) : s = s' ↔ t = t' := by
  cases s
  cases t
  cases s'
  cases t'
  simp only [mk.injEq]
  constructor
  · rintro rfl
    exact unique.2 left right
  · rintro rfl
    exact unique.1 left right

namespace Number

variable {ρ σ : Renaming} {x y x' y' : Number}

theorem Alike.mono (included : ρ.Included σ) (alike : x.Alike ρ y) : x.Alike σ y := by
  cases alike with
  | int n => exact .int n
  | float z => exact .float z
  | nan stamps => exact .nan (included.stamps stamps)

theorem Alike.ofCode (alike : x.Alike ρ.code y) : x.Alike ρ y := by
  cases alike with
  | int n => exact .int n
  | float z => exact .float z
  | nan stamps => exact .nan stamps

theorem position?_alike (alike : x.Alike ρ y) : x.position? = y.position? := by
  cases alike <;> rfl

theorem operand?_alike (alike : x.Alike ρ y) : x.operand? = y.operand? := by
  cases alike <;> rfl

theorem lt_alike (left : x.Alike ρ y) (right : x'.Alike ρ y') : x.lt x' = y.lt y' := by
  rw [lt, lt, position?_alike left, position?_alike right]

theorem le_alike (left : x.Alike ρ y) (right : x'.Alike ρ y') : x.le x' = y.le y' := by
  rw [le, le, position?_alike left, position?_alike right]

theorem same_alike (unique : Relator.BiUnique ρ.stamps) (left : x.Alike ρ y)
    (right : x'.Alike ρ y') : x.same x' = y.same y' := by
  cases left with
  | int n => cases right <;> rfl
  | float z => cases right <;> rfl
  | nan stamps =>
    cases right with
    | int n => rfl
    | float z => rfl
    | nan stamps' =>
      simp only [same, beq_eq_beq]
      exact Stamp.eq_iff_eq unique stamps stamps'

/-- Arithmetic on anything but two integers looks at the operands in binary64. -/
theorem Operation.apply_eq (op : Operation) (mixed : ∀ a b, x = .int a → y = .int b → False) :
    op.apply x y =
      match x.operand?, y.operand? with
      | some (some a), some (some b) =>
        match op.onFloats a b with
        | some z => .number (.float z)
        | none => .undefined
      | some _, some _ => .undefined
      | _, _ => .tooLarge := by
  unfold apply
  split
  · exact (mixed _ _ rfl rfl).elim
  · rfl

/-- Arithmetic does not look at the stamps of nans. -/
theorem Operation.apply_alike (op : Operation) (left : x.Alike ρ y) (right : x'.Alike ρ y') :
    op.apply x x' = op.apply y y' := by
  have mixed (here : ∀ a b, x = .int a → x' = .int b → False)
      (there : ∀ a b, y = .int a → y' = .int b → False) : op.apply x x' = op.apply y y' := by
    rw [op.apply_eq here, op.apply_eq there, operand?_alike left, operand?_alike right]
  cases left with
  | int n =>
    cases right with
    | int k => rfl
    | float z => rfl
    | nan stamps => exact mixed (by simp) (by simp)
  | float z => exact mixed (by simp) (by simp)
  | nan stamps => exact mixed (by simp) (by simp)

/-- The results of arithmetic carry no stamps. -/
theorem Operation.alike_of_apply (op : Operation) {z : Number} (result : op.apply x y = .number z) :
    z.Alike ρ z := by
  by_cases ints : ∃ a b, x = .int a ∧ y = .int b
  · obtain ⟨a, b, rfl, rfl⟩ := ints
    simp only [apply, Outcome.number.injEq] at result
    exact result ▸ .int _
  · rw [op.apply_eq fun a b here there => ints ⟨a, b, here, there⟩] at result
    split at result
    · split at result
      · cases result
        exact .float _
      · cases result
    · cases result
    · cases result

end Number

/-! ## Values -/

namespace Value

mutual

/-- Values that are the same up to a renaming, and hold no primitive of the host outside code unless
    there may be such. -/
inductive Alike : Renaming → Value → Value → Prop where
  | number {ρ : Renaming} {x y : Number} (same : x.Alike ρ y) : Alike ρ (.number x) (.number y)
  | bool {ρ : Renaming} (b : Bool) : Alike ρ (.bool b) (.bool b)
  | symbol {ρ : Renaming} (x : Symbol) : Alike ρ (.symbol x) (.symbol x)
  | list {ρ : Renaming} {s t : Stamp} {items others : List Value}
      (stamps : ρ.stamps s.serial t.serial) (each : AlikeItems ρ items others) :
      Alike ρ (.list s items) (.list t others)
  | tuple {ρ : Renaming} {s t : Stamp} {items others : List Value}
      (stamps : ρ.stamps s.serial t.serial) (each : AlikeItems ρ items others) :
      Alike ρ (.tuple s items) (.tuple t others)
  | dict {ρ : Renaming} {s t : Stamp} {entries others : List (Value × Value)}
      (stamps : ρ.stamps s.serial t.serial) (each : AlikeEntries ρ entries others) :
      Alike ρ (.dict s entries) (.dict t others)
  | str {ρ : Renaming} (text : String) : Alike ρ (.str text) (.str text)
  | nothing {ρ : Renaming} : Alike ρ .nothing .nothing
  | unit {ρ : Renaming} : Alike ρ .unit .unit
  | unassigned {ρ : Renaming} : Alike ρ .unassigned .unassigned
  | closure {ρ : Renaming} {s t : Stamp} {params : List Symbol} {body other : Value}
      {env env' : EnvRef} (stamps : ρ.stamps s.serial t.serial) (bodies : Alike ρ.code body other)
      (envs : ρ.envs env.index env'.index) :
      Alike ρ (.closure s params body env) (.closure t params other env')
  | primitive {ρ : Renaming} {s t : Stamp} {op : Op} (stamps : ρ.stamps s.serial t.serial)
      (own : op.isHost = true → ρ.hosts) : Alike ρ (.primitive s op) (.primitive t op)

/-- Sequences whose items are alike, in order. -/
inductive AlikeItems : Renaming → List Value → List Value → Prop where
  | nil {ρ : Renaming} : AlikeItems ρ [] []
  | cons {ρ : Renaming} {a b : Value} {items others : List Value} (first : Alike ρ a b)
      (rest : AlikeItems ρ items others) : AlikeItems ρ (a :: items) (b :: others)

/-- Entries whose keys are alike and whose values are, in order. -/
inductive AlikeEntries : Renaming → List (Value × Value) → List (Value × Value) → Prop where
  | nil {ρ : Renaming} : AlikeEntries ρ [] []
  | cons {ρ : Renaming} {key other a b : Value} {entries others : List (Value × Value)}
      (keys : Alike ρ key other) (first : Alike ρ a b) (rest : AlikeEntries ρ entries others) :
      AlikeEntries ρ ((key, a) :: entries) ((other, b) :: others)

end

variable {ρ σ : Renaming} {v w : Value} {items others : List Value}

theorem alikeItems_iff : AlikeItems ρ items others ↔ List.Forall₂ (Alike ρ) items others := by
  constructor
  · intro alike
    induction items generalizing others with
    | nil =>
      cases alike
      exact .nil
    | cons a items ih =>
      cases alike with
      | cons first rest => exact .cons first (ih rest)
  · intro alike
    induction alike with
    | nil => exact .nil
    | cons first _ ih => exact .cons first ih

mutual

theorem Alike.mono : {ρ σ : Renaming} → ρ.Included σ → {v w : Value} → Alike ρ v w → Alike σ v w
  | _, _, included, _, _, .number same => .number (same.mono included)
  | _, _, _, _, _, .bool b => .bool b
  | _, _, _, _, _, .symbol x => .symbol x
  | _, _, included, _, _, .list stamps each => .list (included.stamps stamps) (each.mono included)
  | _, _, included, _, _, .tuple stamps each => .tuple (included.stamps stamps) (each.mono included)
  | _, _, included, _, _, .dict stamps each => .dict (included.stamps stamps) (each.mono included)
  | _, _, _, _, _, .str text => .str text
  | _, _, _, _, _, .nothing => .nothing
  | _, _, _, _, _, .unit => .unit
  | _, _, _, _, _, .unassigned => .unassigned
  | _, _, included, _, _, .closure stamps bodies envs =>
    .closure (included.stamps stamps) (bodies.mono included.code) (included.envs envs)
  | _, _, included, _, _, .primitive stamps own =>
    .primitive (included.stamps stamps) fun host => included.hosts (own host)

theorem AlikeItems.mono : {ρ σ : Renaming} → ρ.Included σ → {items others : List Value} →
    AlikeItems ρ items others → AlikeItems σ items others
  | _, _, _, _, _, .nil => .nil
  | _, _, included, _, _, .cons first rest => .cons (first.mono included) (rest.mono included)

theorem AlikeEntries.mono : {ρ σ : Renaming} → ρ.Included σ →
    {entries others : List (Value × Value)} → AlikeEntries ρ entries others →
    AlikeEntries σ entries others
  | _, _, _, _, _, .nil => .nil
  | _, _, included, _, _, .cons keys first rest =>
    .cons (keys.mono included) (first.mono included) (rest.mono included)

end

/-- Values that look the same to a caller, and are equally hard to write. -/
structure LooksLike (v w : Value) : Prop where
  typeName : v.typeName = w.typeName
  render : ∀ style, v.render style = w.render style
  obstacle? : ∀ levels, v.obstacle? levels = w.obstacle? levels

mutual

theorem render_alike (style : Style) : {ρ : Renaming} → {v w : Value} → Alike ρ v w →
    render style v = render style w
  | _, _, _, .number same => by cases same <;> rfl
  | _, _, _, .list _ each => by simp only [render, renderItems_alike style each]
  | _, _, _, .tuple _ each => by simp only [render, renderItems_alike .inspect each]
  | _, _, _, .dict _ each => by simp only [render, renderEntries_alike each]
  | _, _, _, .closure _ bodies _ => by simp only [render, render_alike .display bodies]
  | _, _, _, .primitive _ _ => rfl
  | _, _, _, .bool _ | _, _, _, .symbol _ | _, _, _, .str _ => rfl
  | _, _, _, .nothing | _, _, _, .unit | _, _, _, .unassigned => rfl

theorem renderItems_alike (style : Style) : {ρ : Renaming} → {items others : List Value} →
    AlikeItems ρ items others → renderItems style items = renderItems style others
  | _, _, _, .nil => rfl
  | _, _, _, .cons first rest => by
    simp only [renderItems, render_alike style first, renderItems_alike style rest]

theorem renderEntries_alike : {ρ : Renaming} → {entries others : List (Value × Value)} →
    AlikeEntries ρ entries others → renderEntries entries = renderEntries others
  | _, _, _, .nil => rfl
  | _, _, _, .cons keys first rest => by
    simp only [renderEntries, render_alike .inspect keys, render_alike .inspect first,
      renderEntries_alike rest]

end

mutual

theorem obstacle?_alike : {ρ : Renaming} → {v w : Value} → Alike ρ v w → (levels : Nat) →
    obstacle? levels v = obstacle? levels w
  | _, _, _, .number same, _ => by cases same <;> rfl
  | _, _, _, .list _ each, _ => by simp only [obstacle?, obstacleInItems_alike each]
  | _, _, _, .tuple _ each, _ => by simp only [obstacle?, obstacleInItems_alike each]
  | _, _, _, .dict _ each, _ => by simp only [obstacle?, obstacleInEntries_alike each]
  | _, _, _, .closure _ bodies _, _ => by simp only [obstacle?, obstacle?_alike bodies]
  | _, _, _, .primitive _ _, _ => rfl
  | _, _, _, .bool _, _ | _, _, _, .symbol _, _ | _, _, _, .str _, _ => rfl
  | _, _, _, .nothing, _ | _, _, _, .unit, _ | _, _, _, .unassigned, _ => rfl

theorem obstacleInItems_alike : {ρ : Renaming} → {items others : List Value} →
    AlikeItems ρ items others → (levels : Nat) →
    obstacleInItems levels items = obstacleInItems levels others
  | _, _, _, .nil, _ => rfl
  | _, _, _, .cons first rest, levels => by
    simp only [obstacleInItems, obstacle?_alike first, obstacleInItems_alike rest]

theorem obstacleInEntries_alike : {ρ : Renaming} → {entries others : List (Value × Value)} →
    AlikeEntries ρ entries others → (levels : Nat) →
    obstacleInEntries levels entries = obstacleInEntries levels others
  | _, _, _, .nil, _ => rfl
  | _, _, _, .cons keys first rest, levels => by
    simp only [obstacleInEntries, obstacle?_alike keys, obstacle?_alike first,
      obstacleInEntries_alike rest]

end

theorem Alike.looks (alike : Alike ρ v w) : v.LooksLike w := by
  refine ⟨?_, fun style => render_alike style alike, obstacle?_alike alike⟩
  cases alike with
  | number same => cases same <;> rfl
  | _ => rfl

theorem isTrue_alike (alike : Alike ρ v w) : v.isTrue = w.isTrue := by
  cases alike <;> rfl

theorem isNull_alike (alike : Alike ρ v w) : v.isNull = w.isNull := by
  cases alike with
  | list _ each => cases each <;> rfl
  | _ => rfl

theorem symbol?_alike (alike : Alike ρ v w) : v.symbol? = w.symbol? := by
  cases alike <;> rfl

theorem symbols_alike (alike : List.Forall₂ (Alike ρ) items others) :
    items.mapM symbol? = others.mapM symbol? := by
  induction alike with
  | nil => rfl
  | cons first _ ih => simp only [List.mapM_cons, symbol?_alike first, ih]

theorem alike_symbols (names : List Symbol) :
    List.Forall₂ (Alike ρ) (names.map symbol) (names.map symbol) := by
  induction names with
  | nil => exact .nil
  | cons x names ih => exact .cons (.symbol x) ih

end Value

/-! ## Entries -/

/-- The same key with alike values. -/
def EntryAlike {κ : Type} (ρ : Renaming) (p q : κ × Value) : Prop := p.1 = q.1 ∧ p.2.Alike ρ q.2

section
variable {κ : Type} {ρ σ : Renaming} {p q : κ × Value}
  {entries others pairs pairs' : List (κ × Value)}

theorem EntryAlike.mono (included : ρ.Included σ) (alike : EntryAlike ρ p q) : EntryAlike σ p q :=
  ⟨alike.1, alike.2.mono included⟩

/-- Entries that are alike have the same keys. -/
theorem EntryAlike.exists_eq (alike : EntryAlike ρ p q) :
    ∃ key v w, p = (key, v) ∧ q = (key, w) ∧ v.Alike ρ w := by
  obtain ⟨key, v⟩ := p
  obtain ⟨key', w⟩ := q
  obtain ⟨same, values⟩ := alike
  simp only at same values
  exact ⟨key, v, w, rfl, by rw [same], values⟩

variable [DecidableEq κ]

theorem get?_alike (alike : List.Forall₂ (EntryAlike ρ) entries others) (key : κ) :
    Option.Rel (Value.Alike ρ) (Assoc.get? key entries) (Assoc.get? key others) := by
  induction alike with
  | nil => exact .none
  | cons first _ ih =>
    obtain ⟨other, v, w, rfl, rfl, values⟩ := first.exists_eq
    rw [Assoc.get?_cons, Assoc.get?_cons]
    split
    · exact .some values
    · exact ih

theorem insert_alike (alike : List.Forall₂ (EntryAlike ρ) entries others) (key : κ)
    {v w : Value} (values : v.Alike ρ w) :
    List.Forall₂ (EntryAlike ρ) (Assoc.insert key v entries) (Assoc.insert key w others) := by
  induction alike with
  | nil => exact .cons ⟨rfl, values⟩ .nil
  | cons first rest ih =>
    obtain ⟨other, v, w, rfl, rfl, _⟩ := first.exists_eq
    simp only [Assoc.insert]
    split
    · exact .cons ⟨rfl, values⟩ rest
    · exact .cons first ih

theorem insertAll_alike (alike : List.Forall₂ (EntryAlike ρ) entries others)
    (added : List.Forall₂ (EntryAlike ρ) pairs pairs') :
    List.Forall₂ (EntryAlike ρ) (Assoc.insertAll entries pairs)
      (Assoc.insertAll others pairs') := by
  induction added generalizing entries others with
  | nil => exact alike
  | cons first _ ih =>
    obtain ⟨key, v, w, rfl, rfl, values⟩ := first.exists_eq
    exact ih (insert_alike alike key values)

end

namespace Value

variable {ρ : Renaming} {items others : List Value} {entries others' : List (Value × Value)}

/-- What alike dictionaries have inside is alike, in order. -/
theorem alikeItems_parts (alike : AlikeEntries ρ entries others') :
    AlikeItems ρ (parts entries) (parts others') := by
  induction entries generalizing others' with
  | nil =>
    cases alike
    exact .nil
  | cons entry entries ih =>
    cases alike with
    | cons keys first rest => exact .cons keys (.cons first (ih rest))

theorem alikeEntries_text {pairs pairs' : List (String × Value)}
    (alike : List.Forall₂ (EntryAlike ρ) pairs pairs') :
    AlikeEntries ρ (pairs.map fun (key, v) => (.str key, v))
      (pairs'.map fun (key, v) => (.str key, v)) := by
  induction alike with
  | nil => exact .nil
  | cons first _ ih =>
    obtain ⟨key, v, w, rfl, rfl, values⟩ := first.exists_eq
    exact .cons (.str key) values ih

/-! ## Comparisons -/

theorem length_alikeItems (alike : AlikeItems ρ items others) : items.length = others.length :=
  (alikeItems_iff.mp alike).length_eq

theorem length_alikeEntries (alike : AlikeEntries ρ entries others') :
    entries.length = others'.length := by
  induction entries generalizing others' with
  | nil =>
    cases alike
    rfl
  | cons entry entries ih =>
    cases alike with
    | cons _ _ rest => rw [List.length_cons, List.length_cons, ih rest]

/-- Under keys that are alike a comparison finds what is alike. -/
theorem underKey?_alike {same same' : Value → Option Bool}
    (agree : ∀ {key other : Value}, Alike ρ key other → same key = same' other)
    (alike : AlikeEntries ρ entries others') :
    Option.Rel (Option.Rel (Alike ρ)) (underKey? same entries) (underKey? same' others') := by
  induction entries generalizing others' with
  | nil =>
    cases alike
    exact .some .none
  | cons entry entries ih =>
    cases alike with
    | cons keys first rest =>
      simp only [underKey?, agree keys]
      split
      · exact .some (.some first)
      · exact ih rest
      · exact .none

mutual

/-- Whether values are equal does not depend on the names of the references in them. -/
theorem equal?_alike (unique : Relator.BiUnique ρ.stamps) (regard : Regard) : {v v' : Value} →
    Alike ρ v v' → {w w' : Value} → Alike ρ w w' → (room : Nat) →
    equal? regard room v w = equal? regard room v' w'
  | _, _, .number same, _, _, other, _ => by
    cases other with
    | number same' => simp only [equal?, Number.same_alike unique same same']
    | bool b =>
      cases regard with
      | apart => rfl
      | asNumber => simp only [equal?, Regard.equates, Number.same_alike unique same (.int _)]
    | _ => simp only [equal?]
  | _, _, .bool b, _, _, other, _ => by
    cases other with
    | number same =>
      cases regard with
      | apart => rfl
      | asNumber => simp only [equal?, Regard.equates, Number.same_alike unique same (.int _)]
    | _ => simp only [equal?]
  | _, _, .symbol _, _, _, other, _ => by cases other <;> simp only [equal?]
  | _, _, .list stamps each, _, _, other, room => by
    cases other with
    | list stamps' each' =>
      simp only [equal?, Stamp.eq_iff_eq unique stamps stamps', length_alikeItems each,
        length_alikeItems each', equalItems?_alike unique regard each each']
    | _ => simp only [equal?]
  | _, _, .tuple stamps each, _, _, other, room => by
    cases other with
    | tuple stamps' each' =>
      simp only [equal?, Stamp.eq_iff_eq unique stamps stamps',
        equalItems?_alike unique .asNumber each each']
    | _ => simp only [equal?]
  | _, _, .dict stamps each, _, _, other, room => by
    cases other with
    | dict stamps' each' =>
      simp only [equal?, Stamp.eq_iff_eq unique stamps stamps',
        length_alikeEntries each, length_alikeEntries each', equalEntries?_alike unique each each']
    | _ => simp only [equal?]
  | _, _, .str _, _, _, other, _ => by cases other <;> simp only [equal?]
  | _, _, .nothing, _, _, other, _ => by cases other <;> simp only [equal?]
  | _, _, .unit, _, _, other, _ => by cases other <;> simp only [equal?]
  | _, _, .unassigned, _, _, other, _ => by cases other <;> simp only [equal?]
  | _, _, .closure stamps _ _, _, _, other, _ => by
    cases other with
    | closure stamps' _ _ =>
      simp only [equal?, Option.some.injEq, beq_eq_beq]
      exact Stamp.eq_iff_eq unique stamps stamps'
    | _ => simp only [equal?]
  | _, _, .primitive stamps _, _, _, other, _ => by
    cases other with
    | primitive stamps' _ =>
      simp only [equal?, Option.some.injEq, beq_eq_beq]
      exact Stamp.eq_iff_eq unique stamps stamps'
    | _ => simp only [equal?]

theorem equalItems?_alike (unique : Relator.BiUnique ρ.stamps) (regard : Regard) :
    {items items' : List Value} →
    AlikeItems ρ items items' → {others others' : List Value} → AlikeItems ρ others others' →
    (room : Nat) → equalItems? regard room items others = equalItems? regard room items' others'
  | _, _, .nil, _, _, other, _ => by cases other <;> simp only [equalItems?]
  | _, _, .cons first rest, _, _, other, room => by
    cases other with
    | nil => simp only [equalItems?]
    | cons first' rest' =>
      simp only [equalItems?, equal?_alike unique regard first first',
        equalItems?_alike unique regard rest rest']

theorem equalEntries?_alike (unique : Relator.BiUnique ρ.stamps) :
    {entries entries' : List (Value × Value)} →
    AlikeEntries ρ entries entries' → {others others' : List (Value × Value)} →
    AlikeEntries ρ others others' →
    (room : Nat) → equalEntries? room entries others = equalEntries? room entries' others'
  | _, _, .nil, _, _, _, _ => by simp only [equalEntries?]
  | _, _, .cons keys first rest, _, _, other, room => by
    simp only [equalEntries?]
    have found := underKey?_alike (fun alike => equal?_alike unique .asNumber keys alike room) other
    revert found
    generalize underKey? _ _ = under
    generalize underKey? _ _ = under'
    rintro (⟨⟨alike⟩ | _⟩ | _)
    · simp only [equal?_alike unique .asNumber first alike, equalEntries?_alike unique rest other]
    · rfl
    · rfl

end

end Value

/-! ## Faults -/

/-- Faults that a caller cannot tell apart. -/
structure Fault.Same (c d : Fault) : Prop where
  faultClass : c.faultClass = d.faultClass
  symbol? : c.symbol? = d.symbol?
  message? : c.message? = d.message?
  obstacle? : ∀ levels,
    c.culprit?.bind (Value.obstacle? levels) = d.culprit?.bind (Value.obstacle? levels)

namespace Fault.Same

variable {c d : Fault}

theorem refl (c : Fault) : c.Same c := ⟨rfl, rfl, rfl, fun _ => rfl⟩

/-- Faults are the same if they put the same into words about values that look the same. -/
theorem of_culprits {v w : Value} (here : c.culprit? = some v) (there : d.culprit? = some w)
    (looks : v.LooksLike w) (faultClass : c.faultClass = d.faultClass)
    (symbol? : c.symbol? = d.symbol?) (style : c.style = d.style)
    (wording : ∀ shown, c.wording shown = d.wording shown) : c.Same d := by
  refine ⟨faultClass, symbol?, ?_, ?_⟩
  · simp only [Fault.message?, shown?, here, there, style, looks.render, wording]
  · intro levels
    simp only [here, there, Option.bind_some, looks.obstacle?]

theorem isEvaluationError (same : c.Same d) : c.isEvaluationError = d.isEvaluationError := by
  rw [Fault.isEvaluationError, Fault.isEvaluationError, same.faultClass]

theorem message (same : c.Same d) : c.message = d.message := by
  rw [Fault.message, Fault.message, same.message?]

/-- The only fault that is reported as running out of depth. -/
theorem tooDeep_iff (same : c.Same d) : c = .tooDeep ↔ d = .tooDeep := by
  have recursion (c : Fault) : c.faultClass = .recursion ↔ c = .tooDeep := by
    cases c <;> simp [Fault.faultClass]
  rw [← recursion c, ← recursion d, same.faultClass]

theorem settle (same : c.Same d) (levels : Nat) : (c.settle levels).Same (d.settle levels) := by
  unfold Fault.settle
  rw [same.obstacle? levels]
  cases d.culprit?.bind (Value.obstacle? levels) with
  | none => exact same
  | some obstacle => exact refl _

end Fault.Same

/-- Results of checks: both have one, and these are related, or they are refused for the same
    reason. -/
inductive Tallies {α β : Type} (R : α → β → Prop) : Except Fault α → Except Fault β → Prop where
  | ok {a : α} {b : β} (related : R a b) : Tallies R (.ok a) (.ok b)
  | error {c d : Fault} (same : c.Same d) : Tallies R (.error c) (.error d)

section
variable {α β α' β' : Type} {R : α → β → Prop} {S : α' → β' → Prop}

theorem Tallies.map {r : Except Fault α} {r' : Except Fault β} (tallies : Tallies R r r')
    {f : α → α'} {g : β → β'} (each : ∀ a b, R a b → S (f a) (g b)) :
    Tallies S (r.map f) (r'.map g) := by
  cases tallies with
  | ok related => exact .ok (each _ _ related)
  | error same => exact .error same

theorem Tallies.bind {r : Except Fault α} {r' : Except Fault β} (tallies : Tallies R r r')
    {f : α → Except Fault α'} {g : β → Except Fault β'}
    (each : ∀ a b, R a b → Tallies S (f a) (g b)) : Tallies S (r >>= f) (r' >>= g) := by
  cases tallies with
  | ok related => exact each _ _ related
  | error same => exact .error same

theorem Tallies.mapM {xs : List α} {ys : List β} (related : List.Forall₂ R xs ys)
    {f : α → Except Fault α'} {g : β → Except Fault β'}
    (each : ∀ a b, R a b → Tallies S (f a) (g b)) :
    Tallies (List.Forall₂ S) (xs.mapM f) (ys.mapM g) := by
  induction related with
  | nil => exact .ok .nil
  | cons first _ ih =>
    rw [List.mapM_cons, List.mapM_cons]
    refine (each _ _ first).bind fun a b related => ?_
    exact ih.bind fun as bs rest => .ok (.cons related rest)

end

/-! ## Forms -/

namespace Form

variable {ρ : Renaming} {v w : Value} {items others : List Value}

/-- The parts of forms that say the same. -/
structure Bindings.Alike (ρ : Renaming) (b b' : Bindings) : Prop where
  params : b.params = b'.params
  inits : List.Forall₂ (Value.Alike ρ) b.inits b'.inits
  body : Value.Alike ρ b.body b'.body

theorem checkParams_alike (form : String) (alike : Value.Alike ρ v w) :
    Tallies Eq (checkParams form v) (checkParams form w) := by
  have refused (make : Value → Malformation) (v w : Value) (looks : v.LooksLike w)
      (here : ∀ v, (make v).culprit? = some v)
      (wording : ∀ shown, (make v).wording shown = (make w).wording shown) :
      (Fault.malformed (make v)).Same (.malformed (make w)) :=
    .of_culprits (here v) (here w) looks rfl rfl rfl wording
  have looks := alike.looks
  cases alike with
  | list stamps each =>
    have each := Value.alikeItems_iff.mp each
    simp only [checkParams, Value.symbols_alike each]
    split
    · exact .error (refused (.params form) _ _ looks (fun _ => rfl) fun _ => rfl)
    · split
      · exact .ok rfl
      · exact .error (refused (.duplicateParams form) _ _ looks (fun _ => rfl) fun _ => rfl)
  | _ => exact .error (refused (.params form) _ _ looks (fun _ => rfl) fun _ => rfl)

theorem splitBinding_alike (form : String) (alike : Value.Alike ρ v w) :
    Tallies (fun p q => Value.Alike ρ p.1 q.1 ∧ Value.Alike ρ p.2 q.2) (splitBinding form v)
      (splitBinding form w) := by
  have refused (looks : v.LooksLike w) :
      (Fault.malformed (.binding form v)).Same (.malformed (.binding form w)) :=
    .of_culprits rfl rfl looks rfl rfl rfl fun _ => rfl
  have refused := refused alike.looks
  cases alike with
  | list stamps each =>
    cases each with
    | nil => exact .error refused
    | cons name rest =>
      cases rest with
      | nil => exact .error refused
      | cons init rest =>
        cases rest with
        | nil => exact .ok ⟨name, init⟩
        | cons _ _ => exact .error refused
  | _ => exact .error refused

variable (transient : ρ.stamps Stamp.transient.serial Stamp.transient.serial)
include transient

theorem functionOf_alike (params : List.Forall₂ (Value.Alike ρ) items others)
    (body : Value.Alike ρ v w) : Value.Alike ρ (functionOf items v) (functionOf others w) :=
  .list transient (.cons (.symbol _)
    (.cons (.list transient (Value.alikeItems_iff.mpr params)) (.cons body .nil)))

theorem application_alike {b b' : Bindings} (alike : b.Alike ρ b') :
    Value.Alike ρ (application b) (application b') := by
  have params : List.Forall₂ (Value.Alike ρ) (b.params.map .symbol) (b'.params.map .symbol) := by
    rw [alike.params]
    exact Value.alike_symbols _
  exact .list transient (.cons (functionOf_alike transient params alike.body)
    (Value.alikeItems_iff.mpr alike.inits))

theorem splitBindings_alike (form : String) (alike : List.Forall₂ (Value.Alike ρ) items others) :
    Tallies (Bindings.Alike ρ) (splitBindings form items) (splitBindings form others) := by
  have refused : Tallies (Bindings.Alike ρ) (.error (.malformed (.bindingShape form)))
      (.error (.malformed (.bindingShape form))) := .error (.refl _)
  cases alike with
  | nil => exact refused
  | cons first rest =>
    cases rest with
    | nil => cases first <;> exact refused
    | cons body rest =>
      cases rest with
      | cons _ _ => cases first <;> exact refused
      | nil =>
        cases first with
        | list _ each =>
          refine (Tallies.mapM (Value.alikeItems_iff.mp each)
            fun _ _ => splitBinding_alike form).bind fun pairs pairs' alike => ?_
          have names : List.Forall₂ (Value.Alike ρ) (pairs.map Prod.fst) (pairs'.map Prod.fst) := by
            rw [List.forall₂_map_left_iff, List.forall₂_map_right_iff]
            exact alike.imp fun _ _ => And.left
          have inits : List.Forall₂ (Value.Alike ρ) (pairs.map Prod.snd) (pairs'.map Prod.snd) := by
            rw [List.forall₂_map_left_iff, List.forall₂_map_right_iff]
            exact alike.imp fun _ _ => And.right
          refine (checkParams_alike form (.list transient (Value.alikeItems_iff.mpr names))).bind ?_
          rintro params _ rfl
          exact .ok ⟨rfl, inits, body⟩
        | _ => exact refused

theorem splitDefine_alike (alike : List.Forall₂ (Value.Alike ρ) items others) :
    Tallies (fun p q => p.1 = q.1 ∧ Value.Alike ρ p.2 q.2) (splitDefine items)
      (splitDefine others) := by
  have refused : Tallies (fun p q : Symbol × Value => p.1 = q.1 ∧ Value.Alike ρ p.2 q.2)
      (.error (.malformed .defineShape)) (.error (.malformed .defineShape)) := .error (.refl _)
  have target {v w : Value} (looks : v.LooksLike w) :
      (Fault.malformed (.target v)).Same (.malformed (.target w)) :=
    .of_culprits rfl rfl looks rfl rfl rfl fun _ => rfl
  have header {v w : Value} (looks : v.LooksLike w) :
      (Fault.malformed (.header v)).Same (.malformed (.header w)) :=
    .of_culprits rfl rfl looks rfl rfl rfl fun _ => rfl
  cases alike with
  | nil => exact refused
  | cons first rest =>
    cases rest with
    | nil => exact refused
    | cons expr rest =>
      cases rest with
      | cons _ _ => exact refused
      | nil =>
        have looks := first.looks
        cases first with
        | symbol x => exact .ok ⟨rfl, expr⟩
        | list stamps each =>
          cases each with
          | nil => exact .error (header looks)
          | cons name params =>
            cases name with
            | symbol f =>
              exact .ok ⟨rfl, functionOf_alike transient (Value.alikeItems_iff.mp params) expr⟩
            | _ => exact .error (header looks)
        | _ => exact .error (target looks)

end Form

/-! ## Phrases -/

namespace Phrase

/-- Phrases that say the same. -/
inductive Alike (ρ : Renaming) : Phrase → Phrase → Prop where
  | number {x y : Number} (same : x.Alike ρ y) : Alike ρ (.number x) (.number y)
  | name (x : Symbol) : Alike ρ (.name x) (.name x)
  | application {head head' : Value} {args args' : List Value} (heads : head.Alike ρ head')
      (each : List.Forall₂ (Value.Alike ρ) args args') :
      Alike ρ (.application head args) (.application head' args')
  | lambda {body body' : Value} (params : List Symbol) (bodies : body.Alike ρ body') :
      Alike ρ (.lambda params body) (.lambda params body')
  | letPlain {b b' : Form.Bindings} (parts : b.Alike ρ b') : Alike ρ (.letPlain b) (.letPlain b')
  | letRec {b b' : Form.Bindings} (parts : b.Alike ρ b') : Alike ρ (.letRec b) (.letRec b')
  | branch {condition consequent alternative condition' consequent' alternative' : Value}
      (conditions : condition.Alike ρ condition') (consequents : consequent.Alike ρ consequent')
      (alternatives : alternative.Alike ρ alternative') :
      Alike ρ (.branch condition consequent alternative)
        (.branch condition' consequent' alternative')
  | define {expr expr' : Value} (x : Symbol) (exprs : expr.Alike ρ expr') :
      Alike ρ (.define x expr) (.define x expr')

variable {ρ : Renaming} {items others : List Value} {e e' : Value}

theorem keyword?_alike (alike : e.Alike ρ e') : Eval.keyword? e = Eval.keyword? e' := by
  cases alike <;> rfl

variable (transient : ρ.stamps Stamp.transient.serial Stamp.transient.serial)
include transient

theorem ofForm_alike (k : Keyword) (alike : List.Forall₂ (Value.Alike ρ) items others) :
    Tallies (Alike ρ) (ofForm k items) (ofForm k others) := by
  cases k with
  | lambda =>
    have refused : Tallies (Alike ρ) (.error (.malformed .lambdaShape))
      (.error (.malformed .lambdaShape)) := .error (.refl _)
    cases alike with
    | nil => exact refused
    | cons params rest =>
      cases rest with
      | nil => exact refused
      | cons body rest =>
        cases rest with
        | cons _ _ => exact refused
        | nil =>
          refine (Form.checkParams_alike _ params).map ?_
          rintro names _ rfl
          exact .lambda names body
  | letPlain => exact (Form.splitBindings_alike transient _ alike).map fun _ _ => .letPlain
  | letRec => exact (Form.splitBindings_alike transient _ alike).map fun _ _ => .letRec
  | branch =>
    have refused : Tallies (Alike ρ) (.error (.malformed .branchShape))
      (.error (.malformed .branchShape)) := .error (.refl _)
    cases alike with
    | nil => exact refused
    | cons condition rest =>
      cases rest with
      | nil => exact refused
      | cons consequent rest =>
        cases rest with
        | nil => exact refused
        | cons alternative rest =>
          cases rest with
          | nil => exact .ok (.branch condition consequent alternative)
          | cons _ _ => exact refused
  | define =>
    refine (Form.splitDefine_alike transient alike).map ?_
    rintro ⟨x, expr⟩ ⟨_, expr'⟩ ⟨rfl, exprs⟩
    exact .define x exprs

theorem ofItems_alike (alike : List.Forall₂ (Value.Alike ρ) items others) :
    Tallies (Alike ρ) (ofItems items) (ofItems others) := by
  cases alike with
  | nil => exact .error (.refl _)
  | cons head tail =>
    simp only [ofItems, keyword?_alike head]
    split
    · exact ofForm_alike transient _ tail
    · exact .ok (.application head tail)

/-- Alike expressions say the same, or are refused for the same reason. -/
theorem of_alike (alike : e.Alike ρ e') : Tallies (Alike ρ) (of e) (of e') := by
  have refused (looks : e.LooksLike e') : (Fault.notExpression e).Same (.notExpression e') :=
    .of_culprits rfl rfl looks rfl rfl rfl fun _ => rfl
  have refused := refused alike.looks
  cases alike with
  | number same => exact .ok (.number same)
  | symbol x => exact .ok (.name x)
  | list _ each => exact ofItems_alike transient (Value.alikeItems_iff.mp each)
  | tuple _ each => exact ofItems_alike transient (Value.alikeItems_iff.mp each)
  | _ => exact .error refused

end Phrase

end FrameLisp
