import FrameLisp.Proofs.Verdict
import Mathlib.Data.List.Nodup

/-!
Equality as a relation. Among values that exist side by side, where a stamp tells what carries it
and no dictionary has two equal keys, the verdicts of comparisons are an equivalence relation, and
lists are equal exactly if their items are (`equal_is_congruence`).

Symmetry and transitivity hold of values if they hold of what these have inside. For dictionaries
each of the two takes both: among keys that are apart a key has one equal at most, so no two entries
share a partner, and of dictionaries of one size either has a partner for every entry of the other.
-/
namespace FrameLisp

namespace Value

variable {regard : Regard} {a b c : Value}

/-! ## Values side by side -/

/-- What stands at a path through lists. -/
def at? : List Nat → Value → Option Value
  | [], v => some v
  | i :: path, .list _ items => items[i]?.bind (at? path)
  | _ :: _, _ => none

/-- The stamp by which a list, a tuple or a dictionary is known. -/
def identity? : Value → Option Stamp
  | .list stamp _ => some stamp
  | .tuple stamp _ => some stamp
  | .dict stamp _ => some stamp
  | _ => none

/-- No two keys are equal. -/
def KeysApart (entries : List (Value × Value)) : Prop :=
  entries.Pairwise fun entry other => ¬ Equal .asNumber entry.1 other.1

/-- Values that exist side by side, with what they have inside: a stamp tells what carries it, and
    no dictionary has two equal keys. -/
structure Coexist (S : Value → Prop) : Prop where
  inside : ∀ {v item : Value}, S v → item ∈ v.inside → S item
  identified : ∀ {v w : Value} {stamp : Stamp}, S v → S w → v.identity? = some stamp →
    w.identity? = some stamp → v = w
  keys : ∀ {stamp : Stamp} {entries : List (Value × Value)}, S (.dict stamp entries) →
    KeysApart entries

/-- A value is found equal to itself in any room. -/
theorem equal?_self (regard : Regard) (a : Value) (room : Nat) :
    equal? regard room a a = some true := by
  cases a with
  | list | tuple | dict => simp [equal?]
  | _ => rw [equal?_eq_decide (.inl rfl), decide_eq_true rfl]

theorem equal_self (regard : Regard) (a : Value) : Equal regard a a :=
  ⟨0, fun more _ => equal?_self regard a more⟩

theorem forall₂_flip {R T : Value → Value → Prop} {xs ys : List Value}
    (related : List.Forall₂ R xs ys) (flip : ∀ x ∈ xs, ∀ y ∈ ys, R x y → T y x) :
    List.Forall₂ T ys xs := by
  induction related with
  | nil => exact .nil
  | cons first _ ih =>
    refine .cons (flip _ List.mem_cons_self _ List.mem_cons_self first) (ih ?_)
    intro x memberX y memberY
    exact flip x (List.mem_cons_of_mem _ memberX) y (List.mem_cons_of_mem _ memberY)

theorem forall₂_trans {R : Value → Value → Prop} {xs ys zs : List Value}
    (first : List.Forall₂ R xs ys) (second : List.Forall₂ R ys zs)
    (trans : ∀ x ∈ xs, ∀ y ∈ ys, ∀ z ∈ zs, R x y → R y z → R x z) : List.Forall₂ R xs zs := by
  induction first generalizing zs with
  | nil =>
    cases second
    exact .nil
  | cons related _ ih =>
    cases second with
    | cons related' second =>
      refine .cons (trans _ List.mem_cons_self _ List.mem_cons_self _ List.mem_cons_self
        related related') (ih second ?_)
      intro x memberX y memberY z memberZ
      exact trans x (List.mem_cons_of_mem _ memberX) y (List.mem_cons_of_mem _ memberY) z
        (List.mem_cons_of_mem _ memberZ)

/-- If each of some things has a partner that no other of them has, and there are not more partners
    than things, then there is no partner without a thing. -/
theorem exists_partner {α β : Type} {R : α → β → Prop} {xs : List α} {ys : List β}
    (sizes : ys.length ≤ xs.length) (total : ∀ x ∈ xs, ∃ y ∈ ys, R x y)
    (apart : xs.Pairwise fun x x' => ∀ y ∈ ys, R x y → ¬ R x' y) : ∀ y ∈ ys, ∃ x ∈ xs, R x y := by
  classical
  induction xs generalizing ys with
  | nil => simp [List.eq_nil_of_length_eq_zero (Nat.le_zero.mp sizes)]
  | cons x xs ih =>
    obtain ⟨⟨first, there, related⟩, total⟩ := List.forall_mem_cons.mp total
    obtain ⟨apartFirst, apart⟩ := List.pairwise_cons.mp apart
    have rest : ∀ y ∈ ys.erase first, ∃ x' ∈ xs, R x' y := by
      refine ih ?_ ?_ (apart.imp fun apart y member => apart y (List.mem_of_mem_erase member))
      · have shorter := List.length_erase_of_mem there
        simp only [List.length_cons] at sizes
        omega
      · intro x' member
        obtain ⟨y, memberY, related'⟩ := total x' member
        have other : y ≠ first := by
          rintro rfl
          exact apartFirst x' member y memberY related related'
        exact ⟨y, (List.mem_erase_of_ne other).mpr memberY, related'⟩
    intro y member
    by_cases same : y = first
    · exact ⟨x, List.mem_cons_self, same ▸ related⟩
    · obtain ⟨x', memberX, related'⟩ := rest y ((List.mem_erase_of_ne same).mpr member)
      exact ⟨x', List.mem_cons_of_mem _ memberX, related'⟩

/-- Among some values equality is symmetric and transitive. -/
structure Exchangeable (T : Value → Prop) : Prop where
  symm : ∀ {regard : Regard} {a b : Value}, T a → T b → Equal regard a b → Equal regard b a
  trans : ∀ {regard : Regard} {a b c : Value}, T a → T b → T c → Equal regard a b →
    Equal regard b c → Equal regard a c

/-! ### Dictionaries

What a dictionary has inside being exchangeable, a key has one equal at most among keys that are
apart, and it does not matter in which order they stand. -/

/-- Entries are equal if their keys are and what stands under them is. -/
def EntryEqual (entry other : Value × Value) : Prop :=
  Equal .asNumber entry.1 other.1 ∧ Equal .asNumber entry.2 other.2

section
variable {T : Value → Prop} (among : Exchangeable T) {entries others last : List (Value × Value)}
include among

theorem EntryEqual.symm {entry other : Value × Value} (here : T entry.1 ∧ T entry.2)
    (there : T other.1 ∧ T other.2) (equal : EntryEqual entry other) : EntryEqual other entry :=
  ⟨among.symm here.1 there.1 equal.1, among.symm here.2 there.2 equal.2⟩

theorem EntryEqual.trans {entry other third : Value × Value} (here : T entry.1 ∧ T entry.2)
    (there : T other.1 ∧ T other.2) (beyond : T third.1 ∧ T third.2)
    (first : EntryEqual entry other) (second : EntryEqual other third) : EntryEqual entry third :=
  ⟨among.trans here.1 there.1 beyond.1 first.1 second.1,
    among.trans here.2 there.2 beyond.2 first.2 second.2⟩

/-- A key is equal to one key at most. -/
theorem KeysApart.unique {key : Value} (apart : KeysApart others) (there : T key)
    (within : ∀ entry ∈ others, T entry.1 ∧ T entry.2) {entry other : Value × Value}
    (member : entry ∈ others) (member' : other ∈ others) (equal : Equal .asNumber key entry.1)
    (equal' : Equal .asNumber key other.1) : entry = other := by
  have same : ∀ entry ∈ others, ∀ other ∈ others, Equal .asNumber entry.1 other.1 →
      entry = other := by
    refine List.Pairwise.forall_of_forall_of_flip (fun _ _ _ => rfl) ?_ ?_
    · exact apart.imp fun distinct equal => absurd equal distinct
    · refine apart.imp_of_mem fun member member' distinct equal => absurd ?_ distinct
      exact among.symm (within _ member').1 (within _ member).1 equal
  refine same entry member other member' ?_
  exact among.trans (within _ member).1 there (within _ member').1
    (among.symm there (within _ member).1 equal) equal'

/-- Among keys that are apart, what a comparison finds under a key is what stands under an equal
    one. -/
theorem foundUnder_iff {key item : Value} (apart : KeysApart others) (there : T key)
    (within : ∀ entry ∈ others, T entry.1 ∧ T entry.2) : FoundUnder key others item ↔
      ∃ other ∈ others, Equal .asNumber key other.1 ∧ other.2 = item := by
  constructor
  · rintro ⟨room, found⟩
    obtain ⟨other, member, known, same⟩ := mem_of_underKey? found
    exact ⟨other, member, verdict_iff.mpr ⟨room, known⟩, same⟩
  · rintro ⟨other, member, equal, rfl⟩
    obtain ⟨room, enough⟩ := exists_common_room
      (fun (other : Value × Value) _ _ => isSome_equal?_mono (b := other.1)) others
      fun other _ => exists_isSome_equal? .asNumber key other.1
    obtain ⟨under, found⟩ := Option.isSome_iff_exists.mp (isSome_underKey? enough)
    refine ⟨room, ?_⟩
    cases under with
    | none => cases verdict_unique equal (of_underKey?_eq_none found other member)
    | some item =>
      obtain ⟨other', member', known, rfl⟩ := mem_of_underKey? found
      have equal' : Equal .asNumber key other'.1 := verdict_iff.mpr ⟨room, known⟩
      cases apart.unique among there within member member' equal equal'
      exact found

section
variable (within : ∀ entry ∈ entries, T entry.1 ∧ T entry.2)
  (within' : ∀ entry ∈ others, T entry.1 ∧ T entry.2)
include within within'

/-- Dictionaries of one size are equal if every entry of the one has an equal one in the other. -/
theorem entriesEqual_iff (apart : KeysApart others) :
    EntriesEqual entries others ↔ entries.length = others.length ∧
      ∀ entry ∈ entries, ∃ other ∈ others, EntryEqual entry other := by
  refine and_congr_right fun _ => forall₂_congr fun entry member => ?_
  simp only [foundUnder_iff among apart (within entry member).1 within', EntryEqual]
  constructor
  · rintro ⟨_, ⟨other, member, equal, rfl⟩, equal'⟩
    exact ⟨other, member, equal, equal'⟩
  · rintro ⟨other, member, equal, equal'⟩
    exact ⟨_, ⟨other, member, equal, rfl⟩, equal'⟩

theorem EntriesEqual.symm (apart : KeysApart entries) (apart' : KeysApart others)
    (each : EntriesEqual entries others) : EntriesEqual others entries := by
  obtain ⟨sizes, each⟩ := (entriesEqual_iff among within within' apart').mp each
  -- Two entries with the same partner would have equal keys.
  have partners := exists_partner (Nat.le_of_eq sizes.symm) each <|
    apart.imp_of_mem fun member member' distinct other there equal equal' =>
      distinct (among.trans (within _ member).1 (within' other there).1 (within _ member').1 equal.1
        (among.symm (within _ member').1 (within' other there).1 equal'.1))
  refine (entriesEqual_iff among within' within apart).mpr ⟨sizes.symm, fun other there => ?_⟩
  obtain ⟨entry, member, equal⟩ := partners other there
  exact ⟨entry, member, equal.symm among (within entry member) (within' other there)⟩

theorem EntriesEqual.trans (within'' : ∀ entry ∈ last, T entry.1 ∧ T entry.2)
    (apart : KeysApart others) (apart' : KeysApart last) (each : EntriesEqual entries others)
    (each' : EntriesEqual others last) : EntriesEqual entries last := by
  obtain ⟨sizes, each⟩ := (entriesEqual_iff among within within' apart).mp each
  obtain ⟨sizes', each'⟩ := (entriesEqual_iff among within' within'' apart').mp each'
  refine (entriesEqual_iff among within within'' apart').mpr
    ⟨sizes.trans sizes', fun entry member => ?_⟩
  obtain ⟨other, member', equal⟩ := each entry member
  obtain ⟨third, member'', equal'⟩ := each' other member'
  exact ⟨third, member'', equal.trans among (within entry member) (within' other member')
    (within'' third member'') equal'⟩

end

end

/-! ### All values -/

section
variable {S : Value → Prop} (side : Coexist S)
include side

section
variable {n : Nat} (among : Exchangeable fun v => S v ∧ sizeOf v < n)

theorem Coexist.below {v : Value} (here : S v ∧ sizeOf v < n + 1) :
    ∀ part ∈ v.inside, S part ∧ sizeOf part < n := by
  intro part member
  have smaller := sizeOf_lt_of_mem_inside member
  exact ⟨side.inside here.1 member, by omega⟩

include among

/-- Equality is symmetric if it is among what the values have inside. -/
theorem Exchangeable.symm_step (hereA : S a ∧ sizeOf a < n + 1) (hereB : S b ∧ sizeOf b < n + 1)
    (equal : Equal regard a b) : Equal regard b a := by
  cases a with
  | list s items =>
    obtain ⟨t, others, rfl⟩ := exists_list_of_equal equal
    rw [equal_list_iff] at equal ⊢
    refine equal.imp Eq.symm fun each => forall₂_flip each fun x memberX y memberY => ?_
    exact among.symm (side.below hereA x memberX) (side.below hereB y memberY)
  | tuple s items =>
    obtain ⟨t, others, rfl⟩ := exists_tuple_of_equal equal
    rw [equal_tuple_iff] at equal ⊢
    refine equal.imp Eq.symm fun each => forall₂_flip each fun x memberX y memberY => ?_
    exact among.symm (side.below hereA x memberX) (side.below hereB y memberY)
  | dict s entries =>
    obtain ⟨t, others, rfl⟩ := exists_dict_of_equal equal
    rw [equal_dict_iff] at equal ⊢
    exact equal.imp Eq.symm (EntriesEqual.symm among (forall_mem_parts.mp (side.below hereA))
      (forall_mem_parts.mp (side.below hereB)) (side.keys hereA.1) (side.keys hereB.1))
  | _ =>
    have same := token_eq_of_equal equal
    have atom : b.isAtom = true := by
      rw [← isAtom_token regard, ← same, isAtom_token]
      rfl
    exact equal_of_token atom same.symm

/-- Equality is transitive if it is among what the values have inside. -/
theorem Exchangeable.trans_step (hereA : S a ∧ sizeOf a < n + 1) (hereB : S b ∧ sizeOf b < n + 1)
    (hereC : S c ∧ sizeOf c < n + 1) (first : Equal regard a b) (second : Equal regard b c) :
    Equal regard a c := by
  cases a with
  -- Where two of the values are one and the same there is nothing to compose.
  | list s items =>
    obtain ⟨t, others, rfl⟩ := exists_list_of_equal first
    obtain ⟨u, last, rfl⟩ := exists_list_of_equal second
    rcases equal_list_iff.mp first with rfl | each
    · cases side.identified hereA.1 hereB.1 rfl rfl
      exact second
    rcases equal_list_iff.mp second with rfl | each'
    · cases side.identified hereB.1 hereC.1 rfl rfl
      exact first
    refine equal_list_iff.mpr (.inr (forall₂_trans each each' ?_))
    intro x memberX y memberY z memberZ
    exact among.trans (side.below hereA x memberX) (side.below hereB y memberY)
      (side.below hereC z memberZ)
  | tuple s items =>
    obtain ⟨t, others, rfl⟩ := exists_tuple_of_equal first
    obtain ⟨u, last, rfl⟩ := exists_tuple_of_equal second
    rcases equal_tuple_iff.mp first with rfl | each
    · cases side.identified hereA.1 hereB.1 rfl rfl
      exact second
    rcases equal_tuple_iff.mp second with rfl | each'
    · cases side.identified hereB.1 hereC.1 rfl rfl
      exact first
    refine equal_tuple_iff.mpr (.inr (forall₂_trans each each' ?_))
    intro x memberX y memberY z memberZ
    exact among.trans (side.below hereA x memberX) (side.below hereB y memberY)
      (side.below hereC z memberZ)
  | dict s entries =>
    obtain ⟨t, others, rfl⟩ := exists_dict_of_equal first
    obtain ⟨u, last, rfl⟩ := exists_dict_of_equal second
    rcases equal_dict_iff.mp first with rfl | each
    · cases side.identified hereA.1 hereB.1 rfl rfl
      exact second
    rcases equal_dict_iff.mp second with rfl | each'
    · cases side.identified hereB.1 hereC.1 rfl rfl
      exact first
    refine equal_dict_iff.mpr (.inr ?_)
    exact each.trans among (forall_mem_parts.mp (side.below hereA))
      (forall_mem_parts.mp (side.below hereB)) (forall_mem_parts.mp (side.below hereC))
      (side.keys hereB.1) (side.keys hereC.1) each'
  | _ => exact equal_of_token rfl ((token_eq_of_equal first).trans (token_eq_of_equal second))

end

/-- Values of any size that exist side by side are exchangeable. -/
theorem exchangeable_below : ∀ n, Exchangeable fun v => S v ∧ sizeOf v < n
  | 0 => ⟨fun here => absurd here.2 (Nat.not_lt_zero _),
      fun here => absurd here.2 (Nat.not_lt_zero _)⟩
  | n + 1 => ⟨(exchangeable_below n).symm_step side, (exchangeable_below n).trans_step side⟩

theorem equal_symm (hereA : S a) (hereB : S b) (equal : Equal regard a b) : Equal regard b a :=
  (exchangeable_below side (sizeOf a + sizeOf b + 1)).symm ⟨hereA, by omega⟩ ⟨hereB, by omega⟩ equal

theorem equal_trans (hereA : S a) (hereB : S b) (hereC : S c) (first : Equal regard a b)
    (second : Equal regard b c) : Equal regard a c :=
  (exchangeable_below side (sizeOf a + sizeOf b + sizeOf c + 1)).trans ⟨hereA, by omega⟩
    ⟨hereB, by omega⟩ ⟨hereC, by omega⟩ first second

/-- The verdict does not depend on the order of the two values. -/
theorem verdict_comm {answer : Bool} (hereA : S a) (hereB : S b)
    (verdict : Verdict regard a b answer) : Verdict regard b a answer := by
  cases answer with
  | true => exact equal_symm side hereA hereB verdict
  | false =>
    obtain ⟨answer, reverse⟩ := exists_verdict regard b a
    cases answer with
    | false => exact reverse
    | true =>
      obtain ⟨room, known⟩ := verdict_iff.mp (equal_symm side hereB hereA reverse)
      cases verdict_unique verdict known

/-! ## Lists -/

/-- Lists with one more item in front are equal if these items are, and the lists were. -/
theorem equal_cons_iff {s t s' t' : Stamp} {items others : List Value} (apart : s' ≠ t')
    (hereA : S (.list s items)) (hereB : S (.list t others)) :
    Equal regard (.list s' (a :: items)) (.list t' (b :: others)) ↔
      Equal regard a b ∧ Equal regard (.list s items) (.list t others) := by
  rw [equal_list_iff, equal_list_iff, List.forall₂_cons]
  constructor
  · rintro (same | ⟨first, each⟩)
    · exact absurd same apart
    · exact ⟨first, .inr each⟩
  · rintro ⟨first, rfl | each⟩
    · cases side.identified hereA hereB rfl rfl
      exact .inr ⟨first, List.forall₂_same.mpr fun item _ => equal_self regard item⟩
    · exact .inr ⟨first, each⟩

/-- Equal values have equal values at every path through lists. -/
theorem equal_at {path : List Nat} {x y : Value} (hereA : S a) (hereB : S b)
    (equal : Equal regard a b) (foundX : a.at? path = some x) (foundY : b.at? path = some y) :
    Equal regard x y := by
  induction path generalizing a b with
  | nil =>
    cases foundX
    cases foundY
    exact equal
  | cons i path ih =>
    cases a with
    | list s items =>
      obtain ⟨t, others, rfl⟩ := exists_list_of_equal equal
      obtain ⟨item, atX, foundX⟩ := Option.bind_eq_some_iff.mp foundX
      obtain ⟨other, atY, foundY⟩ := Option.bind_eq_some_iff.mp foundY
      have hereX := side.inside hereA (List.mem_of_getElem? atX)
      have hereY := side.inside hereB (List.mem_of_getElem? atY)
      refine ih hereX hereY ?_ foundX foundY
      rcases equal_list_iff.mp equal with rfl | each
      · cases side.identified hereA hereB rfl rfl
        cases atX.symm.trans atY
        exact equal_self regard item
      · have paired : (items.zip others)[i]? = some (item, other) :=
          List.getElem?_zip_eq_some.mpr ⟨atX, atY⟩
        exact List.forall₂_zip each (List.mem_of_getElem? paired)
    | _ => cases foundX

/-- Values are not equal where one has a boolean and the other a number. -/
theorem verdict_of_bool_number {path : List Nat} {x : Bool} {y : Number} (hereA : S a)
    (hereB : S b) (atBool : a.at? path = some (.bool x))
    (atNumber : b.at? path = some (.number y)) : Verdict .apart a b false := by
  obtain ⟨answer, verdict⟩ := exists_verdict .apart a b
  cases answer with
  | false => exact verdict
  | true => cases token_eq_of_equal (equal_at side hereA hereB verdict atBool atNumber)

end

end Value

open Value in
/-- Any two values can be told equal or not, given enough room. Among values that exist side by side
    this is an equivalence relation that keeps booleans and numbers in lists apart, and lists that
    are made by putting something in front of others are equal exactly if all parts are. -/
theorem equal_is_congruence {S : Value → Prop} (side : Coexist S) :
    (∀ a b, ∃ answer, Verdict .apart a b answer ∧
      ∀ room found, equal? .apart room a b = some found → found = answer) ∧
    (∀ a room, equal? .apart room a a = some true) ∧
    (∀ a b answer, S a → S b → (Verdict .apart a b answer ↔ Verdict .apart b a answer)) ∧
    (∀ a b c, S a → S b → S c → Verdict .apart a b true → Verdict .apart b c true →
      Verdict .apart a c true) ∧
    (∀ a b path x y, S a → S b → a.at? path = some (.bool x) → b.at? path = some (.number y) →
      Verdict .apart a b false ∧ Verdict .apart b a false) ∧
    ∀ a b s t items others, S (.list s items) → S (.list t others) →
      ∀ room m m', m.stamps < m'.stamps → ∃ v w,
        Op.call room (.binary .cons) [a, .list s items] m = .ok v m.nextStamp.2 ∧
        Op.call room (.binary .cons) [b, .list t others] m' = .ok w m'.nextStamp.2 ∧
        (Verdict .apart v w true ↔
          Verdict .apart a b true ∧ Verdict .apart (.list s items) (.list t others) true) := by
  refine ⟨?_, equal?_self .apart, ?_, ?_, ?_, ?_⟩
  · intro a b
    obtain ⟨answer, verdict⟩ := exists_verdict .apart a b
    exact ⟨answer, verdict, fun room found => verdict_unique verdict⟩
  · intro a b answer hereA hereB
    exact ⟨verdict_comm side hereA hereB, verdict_comm side hereB hereA⟩
  · intro a b c hereA hereB hereC
    exact equal_trans side hereA hereB hereC
  · intro a b path x y hereA hereB atBool atNumber
    have verdict := verdict_of_bool_number side hereA hereB atBool atNumber
    exact ⟨verdict, verdict_comm side hereA hereB verdict⟩
  · intro a b s t items others hereA hereB room m m' later
    have apart : (⟨m.stamps⟩ : Stamp) ≠ ⟨m'.stamps⟩ := by
      intro same
      injection same with same
      omega
    exact ⟨_, _, rfl, rfl, equal_cons_iff side apart hereA hereB⟩

/-- `true`, `1` and `1.0`, each in a tuple and as a key beside a nan, and these in a list; and
    `true` and `1` in lists of their own. -/
def trueAndOnes : List Value :=
  let nan : Value := .number (.nan ⟨0⟩)
  let one : Value := .number (.float (.finite false Binary64.unitsPerOne))
  let a : Value := .tuple ⟨1⟩ [.bool true]
  let b : Value := .tuple ⟨2⟩ [.int 1]
  let c : Value := .tuple ⟨3⟩ [one]
  let a' : Value := .dict ⟨4⟩ [(.bool true, .unit), (nan, .nothing)]
  let b' : Value := .dict ⟨5⟩ [(nan, .nothing), (.int 1, .unit)]
  let c' : Value := .dict ⟨6⟩ [(one, .unit), (nan, .nothing)]
  [.list ⟨7⟩ [a, a'], .list ⟨8⟩ [b, b'], .list ⟨9⟩ [c, c'], a, b, c, a', b', c',
    .list ⟨10⟩ [.bool true], .list ⟨11⟩ [.int 1]]

/-- Things with stamps of their own exist side by side, if what they have inside is among them or
    has no inside. -/
theorem Value.coexist_of_nodup {stamped : List Value}
    (inside : ∀ v ∈ stamped, ∀ item ∈ v.inside, item ∈ stamped ∨ item.isAtom = true)
    (distinct : (stamped.map identity?).Nodup)
    (keys : ∀ stamp entries, .dict stamp entries ∈ stamped → KeysApart entries) :
    Coexist fun v => v ∈ stamped ∨ v.isAtom = true where
  inside := by
    rintro v item (member | atom) there
    · exact inside v member item there
    · cases v with
      | list | tuple | dict => cases atom
      | _ => cases there
  identified := by
    have unstamped {v : Value} {stamp : Stamp} (atom : v.isAtom = true) :
        v.identity? ≠ some stamp := by
      cases v with
      | list | tuple | dict => cases atom
      | _ => nofun
    rintro v w stamp (memberV | atom) (memberW | atom') known known'
    · exact List.inj_on_of_nodup_map distinct memberV memberW (known.trans known'.symm)
    · exact absurd known' (unstamped atom')
    · exact absurd known (unstamped atom)
    · exact absurd known (unstamped atom)
  keys := by
    rintro stamp entries (member | atom)
    · exact keys stamp entries member
    · cases atom

open Value in
/-- A boolean counts as a number in a tuple and as a key, but not in a list. -/
theorem equal_is_congruence_trueAndOnes :
    let nan : Value := .number (.nan ⟨0⟩)
    let one : Value := .number (.float (.finite false Binary64.unitsPerOne))
    let a : Value := .list ⟨7⟩ [.tuple ⟨1⟩ [.bool true],
      .dict ⟨4⟩ [(.bool true, .unit), (nan, .nothing)]]
    let b : Value := .list ⟨8⟩ [.tuple ⟨2⟩ [.int 1], .dict ⟨5⟩ [(nan, .nothing), (.int 1, .unit)]]
    let c : Value := .list ⟨9⟩ [.tuple ⟨3⟩ [one], .dict ⟨6⟩ [(one, .unit), (nan, .nothing)]]
    (Coexist fun v => v ∈ trueAndOnes ∨ v.isAtom = true) ∧
      Verdict .apart a b true ∧ Verdict .apart b c true ∧ Verdict .apart a c true ∧
      Verdict .apart (.list ⟨10⟩ [.bool true]) (.list ⟨11⟩ [.int 1]) false := by
  intro nan one a b c
  have side : Coexist fun v => v ∈ trueAndOnes ∨ v.isAtom = true := by
    refine coexist_of_nodup ?_ (by decide) ?_
    · simp [trueAndOnes, Value.inside, Value.parts, isAtom, int]
    · intro stamp entries member
      simp only [trueAndOnes, List.mem_cons, dict.injEq, reduceCtorEq, List.not_mem_nil, or_false,
        false_or] at member
      rcases member with ⟨_, rfl⟩ | ⟨_, rfl⟩ | ⟨_, rfl⟩ <;>
        exact List.pairwise_pair.mpr fun equal =>
          absurd (token_eq_of_equal equal) (by decide +kernel)
  obtain ⟨_, _, _, trans, apart, _⟩ := equal_is_congruence side
  have first : Verdict .apart a b true := verdict_iff.mpr ⟨2, by decide +kernel⟩
  have second : Verdict .apart b c true := verdict_iff.mpr ⟨2, by decide +kernel⟩
  refine ⟨side, first, second, trans a b c ?_ ?_ ?_ first second, ?_⟩
  · simp [trueAndOnes, a, nan]
  · simp [trueAndOnes, b, nan]
  · simp [trueAndOnes, c, nan, one]
  · refine (apart _ _ [0] true (.int 1) ?_ ?_ rfl rfl).1
    · simp [trueAndOnes]
    · simp [trueAndOnes]

end FrameLisp
