import FrameLisp.Proofs.Depth
import Mathlib.Data.List.Forall2

/-!
What a comparison answers. Given enough room every comparison comes to a verdict
(`Value.exists_verdict`), which more room does not change (`Value.verdict_unique`). Lists and tuples
are equal if their items are, one by one, and dictionaries if each entry of the one finds an equal
item under its key in the other.

A `Token` is what a comparison sees of a value before it looks inside: values with different tokens
differ, and values without an inside are equal if their tokens are.
-/
namespace FrameLisp

/-! ## Tokens -/

/-- What a comparison sees of a value before it looks inside. -/
inductive Token where
  | number (place : Option Position) (nan : Option Stamp)
  | bool (b : Bool)
  | symbol (x : Symbol)
  | str (text : String)
  | nothing
  | unit
  | unassigned
  | closure (stamp : Stamp)
  | primitive (stamp : Stamp)
  | list
  | tuple
  | dict
deriving DecidableEq

/-- Whether a token is that of a value without an inside. -/
def Token.isAtom : Token → Bool
  | .list => false
  | .tuple => false
  | .dict => false
  | _ => true

namespace Number

/-- The stamp of a nan. -/
def nan? : Number → Option Stamp
  | .nan stamp => some stamp
  | _ => none

/-- A number as a comparison sees it. -/
def token (x : Number) : Token := .number x.position? x.nan?

/-- A number has a place, or else is a nan. -/
theorem token_cases (a : Number) :
    (∃ p, a.token = .number (some p) none ∧ a.position? = some p) ∨
      ∃ stamp, a = .nan stamp ∧ a.token = .number none (some stamp) := by
  rcases a with _ | (_ | _) | stamp
  · exact .inl ⟨_, rfl, rfl⟩
  · exact .inl ⟨_, rfl, rfl⟩
  · exact .inl ⟨_, rfl, rfl⟩
  · exact .inr ⟨stamp, rfl, rfl⟩

/-- Numbers are the same if they have the same place, or are the same nan. -/
theorem same_eq_decide (a b : Number) : a.same b = decide (a.token = b.token) := by
  rw [Bool.eq_iff_iff, decide_eq_true_eq]
  rcases a.token_cases with ⟨p, left, placed⟩ | ⟨s, rfl, left⟩ <;>
    rcases b.token_cases with ⟨q, right, placed'⟩ | ⟨t, rfl, right⟩ <;> rw [left, right]
  · unfold same
    split
    · cases placed
    · simp [placed, placed']
  · unfold same
    split
    · cases placed
    · simp [placed, show (nan t).position? = none from rfl]
  · unfold same
    split
    · cases placed'
    · simp [show (nan s).position? = none from rfl]
  · simp [same]

end Number

namespace Regard

/-- A boolean as a comparison sees it. -/
def boolToken : Regard → Bool → Token
  | .apart, b => .bool b
  | .asNumber, b => (Number.int (if b then 1 else 0)).token

/-- A value as a comparison sees it. -/
def token (regard : Regard) : Value → Token
  | .number x => x.token
  | .bool b => regard.boolToken b
  | .symbol x => .symbol x
  | .list .. => .list
  | .tuple .. => .tuple
  | .dict .. => .dict
  | .str text => .str text
  | .nothing => .nothing
  | .unit => .unit
  | .unassigned => .unassigned
  | .closure stamp .. => .closure stamp
  | .primitive stamp _ => .primitive stamp

theorem equates_eq_decide (regard : Regard) (b : Bool) (x : Number) :
    regard.equates b x = decide (x.token = regard.boolToken b) := by
  cases regard with
  | apart => simp [equates, boolToken, Number.token]
  | asNumber => exact Number.same_eq_decide x _

theorem boolToken_inj {regard : Regard} {a b : Bool} :
    regard.boolToken a = regard.boolToken b ↔ a = b := by
  cases regard with
  | apart => simp [boolToken]
  | asNumber => cases a <;> cases b <;> decide +kernel

end Regard

namespace Value

/-- Whether a value has no inside that is compared. -/
def isAtom : Value → Bool
  | .list .. => false
  | .tuple .. => false
  | .dict .. => false
  | _ => true

/-- The values that a list, a tuple or a dictionary has inside. -/
def inside : Value → List Value
  | .list _ items => items
  | .tuple _ items => items
  | .dict _ entries => parts entries
  | _ => []

theorem sizeOf_lt_of_mem_inside {v part : Value} (member : part ∈ v.inside) :
    sizeOf part < sizeOf v := by
  cases v with
  | list stamp items | tuple stamp items =>
    have smaller := List.sizeOf_lt_of_mem (show part ∈ items from member)
    simp only [list.sizeOf_spec, tuple.sizeOf_spec]
    omega
  | dict stamp entries =>
    obtain ⟨⟨key, item⟩, entry, rfl | rfl⟩ := mem_parts.mp member <;>
    · have smaller := List.sizeOf_lt_of_mem entry
      simp only [Prod.mk.sizeOf_spec] at smaller
      simp only [dict.sizeOf_spec]
      omega
  | _ => cases member

/-- Induction over what is compared inside a value. -/
@[elab_as_elim]
theorem inside_induction {P : Value → Prop}
    (list : ∀ stamp items, (∀ item ∈ items, P item) → P (.list stamp items))
    (tuple : ∀ stamp items, (∀ item ∈ items, P item) → P (.tuple stamp items))
    (dict : ∀ stamp entries, (∀ part ∈ parts entries, P part) → P (.dict stamp entries))
    (atom : ∀ v, v.isAtom = true → P v) (v : Value) : P v :=
  match v with
  | .list stamp items =>
    list stamp items fun item _member => inside_induction list tuple dict atom item
  | .tuple stamp items =>
    tuple stamp items fun item _member => inside_induction list tuple dict atom item
  | .dict stamp entries =>
    dict stamp entries fun part _member => inside_induction list tuple dict atom part
  | .number _ | .bool _ | .symbol _ | .str _ | .nothing | .unit | .unassigned | .closure ..
  | .primitive .. => atom _ rfl
termination_by sizeOf v
decreasing_by all_goals exact sizeOf_lt_of_mem_inside _member

variable {regard : Regard} {a b c : Value} {room : Nat}

theorem isAtom_token (regard : Regard) (a : Value) : (regard.token a).isAtom = a.isAtom := by
  cases regard <;> cases a <;> rfl

/-- The comparison of values that differ at once, or have no inside. -/
theorem equal?_eq_decide (simple : a.isAtom = true ∨ regard.token a ≠ regard.token b) :
    equal? regard room a b = some (decide (regard.token a = regard.token b)) := by
  cases a with
  | number x =>
    cases b with
    | number y => rw [equal?, Number.same_eq_decide, Regard.token, Regard.token]
    | bool y => rw [equal?, Regard.equates_eq_decide, Regard.token, Regard.token]
    | _ => simp [equal?, Regard.token, Number.token]
  | bool x =>
    cases b with
    | number y => simp only [equal?, Regard.equates_eq_decide, Regard.token, eq_comm]
    | bool y => simp [equal?, Regard.token, Regard.boolToken_inj, Bool.beq_eq_decide_eq]
    | _ => cases regard <;> simp [equal?, Regard.token, Regard.boolToken, Number.token]
  | list | tuple | dict =>
    cases b <;> cases regard <;>
      simp_all [equal?, Regard.token, Regard.boolToken, Number.token, isAtom]
  | _ =>
    cases b <;> cases regard <;>
      simp [equal?, Regard.token, Regard.boolToken, Number.token, Bool.beq_eq_decide_eq]

/-! ## Verdicts -/

/-- What a comparison answers when it has enough room. -/
def Verdict (regard : Regard) (a b : Value) (answer : Bool) : Prop :=
  ∃ room, ∀ more, room ≤ more → equal? regard more a b = some answer

theorem verdict_iff {answer : Bool} :
    Verdict regard a b answer ↔ ∃ room, equal? regard room a b = some answer := by
  constructor
  · rintro ⟨room, settled⟩
    exact ⟨room, settled room (Nat.le_refl _)⟩
  · rintro ⟨room, known⟩
    exact ⟨room, fun more enough => equal?_mono a b enough known⟩

/-- An answer found in any room is the verdict. -/
theorem verdict_unique {answer other : Bool} (verdict : Verdict regard a b answer)
    (known : equal? regard room a b = some other) : other = answer := by
  obtain ⟨enough, settled⟩ := verdict
  have found := settled (max enough room) (Nat.le_max_left ..)
  rw [equal?_mono a b (Nat.le_max_right ..) known] at found
  exact Option.some.inj found

/-- Values are equal if that is the verdict on them. -/
def Equal (regard : Regard) (a b : Value) : Prop := Verdict regard a b true

theorem token_eq_of_equal (equal : Equal regard a b) : regard.token a = regard.token b := by
  obtain ⟨room, known⟩ := verdict_iff.mp equal
  by_contra apart
  rw [equal?_eq_decide (.inr apart), decide_eq_false apart] at known
  cases known

theorem equal_of_token (atom : a.isAtom = true) (same : regard.token a = regard.token b) :
    Equal regard a b :=
  verdict_iff.mpr ⟨0, by rw [equal?_eq_decide (.inl atom), decide_eq_true same]⟩

/-- Where each of some things can do with some room, there is room that is enough for all. -/
theorem exists_common_room {α : Type} {P : α → Nat → Prop}
    (mono : ∀ x room room', room ≤ room' → P x room → P x room') (xs : List α)
    (each : ∀ x ∈ xs, ∃ room, P x room) : ∃ room, ∀ x ∈ xs, P x room := by
  induction xs with
  | nil => exact ⟨0, by simp⟩
  | cons x xs ih =>
    obtain ⟨⟨room, enough⟩, rest⟩ := List.forall_mem_cons.mp each
    obtain ⟨room', enough'⟩ := ih rest
    refine ⟨max room room', List.forall_mem_cons.mpr ⟨?_, fun y member => ?_⟩⟩
    · exact mono x room _ (Nat.le_max_left ..) enough
    · exact mono y room' _ (Nat.le_max_right ..) (enough' y member)

/-! ### What equal values have inside -/

/-- Sequences are found equal if all their items are. -/
theorem equalItems?_eq_true {items others : List Value} :
    equalItems? regard room items others = some true ↔
      List.Forall₂ (fun a b => equal? regard room a b = some true) items others := by
  induction items generalizing others with
  | nil => cases others <;> simp [equalItems?]
  | cons a items ih =>
    cases others with
    | nil => simp [equalItems?]
    | cons b others =>
      rw [List.forall₂_cons, ← ih, equalItems?]
      cases known : equal? regard room a b with
      | none => simp
      | some answer => cases answer <;> simp

section
variable {same : Value → Option Bool} {entries others : List (Value × Value)}

theorem mem_of_underKey? {item : Value} (found : underKey? same entries = some (some item)) :
    ∃ entry ∈ entries, same entry.1 = some true ∧ entry.2 = item := by
  induction entries with
  | nil => cases found
  | cons entry entries ih =>
    obtain ⟨key, v⟩ := entry
    rw [underKey?] at found
    split at found
    · rename_i here
      cases found
      exact ⟨_, List.mem_cons_self, here, rfl⟩
    · obtain ⟨entry, member, known⟩ := ih found
      exact ⟨entry, List.mem_cons_of_mem _ member, known⟩
    · cases found

theorem of_underKey?_eq_none (missing : underKey? same entries = some none) :
    ∀ entry ∈ entries, same entry.1 = some false := by
  induction entries with
  | nil => simp
  | cons entry entries ih =>
    obtain ⟨key, v⟩ := entry
    rw [underKey?] at missing
    split at missing
    · cases missing
    · rename_i here
      exact List.forall_mem_cons.mpr ⟨here, ih missing⟩
    · cases missing

theorem isSome_underKey? (each : ∀ entry ∈ entries, (same entry.1).isSome) :
    (underKey? same entries).isSome := by
  induction entries with
  | nil => rfl
  | cons entry entries ih =>
    obtain ⟨key, v⟩ := entry
    rw [List.forall_mem_cons] at each
    obtain ⟨answer, known⟩ := Option.isSome_iff_exists.mp each.1
    rw [underKey?, known]
    cases answer with
    | true => rfl
    | false => exact ih each.2

theorem equalEntries?_eq_true : equalEntries? room entries others = some true ↔
    ∀ entry ∈ entries, ∃ b, underKey? (equal? .asNumber room entry.1) others = some (some b) ∧
      equal? .asNumber room entry.2 b = some true := by
  induction entries with
  | nil => simp [equalEntries?]
  | cons entry entries ih =>
    obtain ⟨key, a⟩ := entry
    rw [List.forall_mem_cons, ← ih, equalEntries?]
    cases found : underKey? (equal? .asNumber room key) others with
    | none => simp
    | some under =>
      cases under with
      | none => simp
      | some b =>
        cases known : equal? .asNumber room a b with
        | none => simp [known]
        | some answer => cases answer <;> simp [known]

end

theorem exists_room_for_items {items others : List Value} :
    (∃ room, equalItems? regard room items others = some true) ↔
      List.Forall₂ (Equal regard) items others := by
  simp only [equalItems?_eq_true]
  constructor
  · rintro ⟨room, each⟩
    exact each.imp fun a b known => verdict_iff.mpr ⟨room, known⟩
  · intro each
    induction each with
    | nil => exact ⟨0, .nil⟩
    | cons first _ ih =>
      obtain ⟨room, known⟩ := verdict_iff.mp first
      obtain ⟨room', others⟩ := ih
      refine ⟨max room room', .cons (equal?_mono _ _ (Nat.le_max_left ..) known) ?_⟩
      exact others.imp fun a b known => equal?_mono a b (Nat.le_max_right ..) known

/-- What carries a stamp is equal to what has the same one, or else for what is inside. -/
private theorem exists_room_within {s t : Stamp} {inside : Nat → Option Bool} :
    (∃ room, (if s = t then some true else answerWithin room inside) = some true) ↔
      s = t ∨ ∃ room, inside room = some true := by
  by_cases same : s = t
  · simp [same]
  · simp only [same, if_false, false_or]
    constructor
    · rintro ⟨room, known⟩
      cases room with
      | zero => cases known
      | succ rest => exact ⟨rest, known⟩
    · rintro ⟨rest, known⟩
      exact ⟨rest + 1, known⟩

section
variable {s t : Stamp} {items others : List Value} {entries others' : List (Value × Value)}

theorem equal_list_iff : Equal regard (.list s items) (.list t others) ↔
    s = t ∨ List.Forall₂ (Equal regard) items others := by
  rw [Equal, verdict_iff, ← exists_room_for_items]
  simp only [equal?, exists_room_within]
  by_cases lengths : items.length = others.length
  · simp only [lengths, if_true]
  · have apart : ¬ ∃ room, equalItems? regard room items others = some true := by
      rw [exists_room_for_items]
      exact fun each => lengths each.length_eq
    simp [lengths, apart]

theorem equal_tuple_iff : Equal regard (.tuple s items) (.tuple t others) ↔
    s = t ∨ List.Forall₂ (Equal .asNumber) items others := by
  rw [Equal, verdict_iff, ← exists_room_for_items]
  simp only [equal?, exists_room_within]

/-- What a comparison finds under a key when it has enough room. -/
def FoundUnder (key : Value) (entries : List (Value × Value)) (item : Value) : Prop :=
  ∃ room, underKey? (equal? .asNumber room key) entries = some (some item)

/-- Every entry has an equal one under its key in another dictionary of the same size. -/
def EntriesEqual (entries others : List (Value × Value)) : Prop :=
  entries.length = others.length ∧ ∀ entry ∈ entries, ∃ b,
    FoundUnder entry.1 others b ∧ Equal .asNumber entry.2 b

theorem equal_dict_iff : Equal regard (.dict s entries) (.dict t others') ↔
    s = t ∨ EntriesEqual entries others' := by
  rw [Equal, verdict_iff]
  simp only [equal?, exists_room_within]
  refine or_congr_right ?_
  unfold EntriesEqual
  by_cases sizes : entries.length = others'.length
  · simp only [sizes, if_true, true_and, equalEntries?_eq_true]
    constructor
    · rintro ⟨room, each⟩ entry member
      obtain ⟨b, found, known⟩ := each entry member
      exact ⟨b, ⟨room, found⟩, verdict_iff.mpr ⟨room, known⟩⟩
    · intro each
      refine exists_common_room ?_ entries ?_
      · rintro entry room room' more ⟨b, found, known⟩
        have found := underKey?_mono (fun _ _ => equal?_mono _ _ more) _ found
        exact ⟨b, found, equal?_mono _ _ more known⟩
      · intro entry member
        obtain ⟨b, ⟨room, found⟩, equal⟩ := each entry member
        obtain ⟨room', known⟩ := verdict_iff.mp equal
        have found := underKey?_mono
          (fun _ _ => equal?_mono _ _ (Nat.le_max_left room room')) _ found
        exact ⟨max room room', b, found, equal?_mono _ _ (Nat.le_max_right ..) known⟩
  · simp [sizes]

theorem exists_list_of_equal (equal : Equal regard (.list s items) b) :
    ∃ t others, b = .list t others := by
  have same := token_eq_of_equal equal
  cases b with
  | list t others => exact ⟨t, others, rfl⟩
  | bool x => cases regard <;> cases same
  | _ => cases same

theorem exists_tuple_of_equal (equal : Equal regard (.tuple s items) b) :
    ∃ t others, b = .tuple t others := by
  have same := token_eq_of_equal equal
  cases b with
  | tuple t others => exact ⟨t, others, rfl⟩
  | bool x => cases regard <;> cases same
  | _ => cases same

theorem exists_dict_of_equal (equal : Equal regard (.dict s entries) b) :
    ∃ t others', b = .dict t others' := by
  have same := token_eq_of_equal equal
  cases b with
  | dict t others' => exact ⟨t, others', rfl⟩
  | bool x => cases regard <;> cases same
  | _ => cases same

end

/-! ### Every comparison has a verdict -/

theorem isSome_equal?_mono {room' : Nat} (more : room ≤ room')
    (known : (equal? regard room a b).isSome) : (equal? regard room' a b).isSome := by
  obtain ⟨answer, known⟩ := Option.isSome_iff_exists.mp known
  rw [equal?_mono a b more known]
  rfl

theorem isSome_equalItems? {items others : List Value}
    (each : ∀ pair ∈ items.zip others, (equal? regard room pair.1 pair.2).isSome) :
    (equalItems? regard room items others).isSome := by
  induction items generalizing others with
  | nil => cases others <;> simp [equalItems?]
  | cons a items ih =>
    cases others with
    | nil => simp [equalItems?]
    | cons b others =>
      rw [List.zip_cons_cons, List.forall_mem_cons] at each
      obtain ⟨answer, known⟩ := Option.isSome_iff_exists.mp each.1
      rw [equalItems?, known]
      cases answer with
      | true => exact ih each.2
      | false => rfl

theorem isSome_equalEntries? {entries others : List (Value × Value)}
    (each : ∀ entry ∈ entries, ∀ other ∈ others,
      (equal? .asNumber room entry.1 other.1).isSome ∧
        (equal? .asNumber room entry.2 other.2).isSome) :
    (equalEntries? room entries others).isSome := by
  induction entries with
  | nil => simp [equalEntries?]
  | cons entry entries ih =>
    obtain ⟨key, a⟩ := entry
    rw [List.forall_mem_cons] at each
    obtain ⟨under, found⟩ := Option.isSome_iff_exists.mp
      (isSome_underKey? fun other member => (each.1 other member).1)
    rw [equalEntries?, found]
    cases under with
    | none => rfl
    | some b =>
      obtain ⟨other, member, _, rfl⟩ := mem_of_underKey? found
      obtain ⟨answer, known⟩ := Option.isSome_iff_exists.mp (each.1 other member).2
      dsimp only
      rw [known]
      cases answer with
      | true => exact ih each.2
      | false => rfl

theorem exists_isSome_equalItems? {items : List Value}
    (each : ∀ a ∈ items, ∀ b, ∃ room, (equal? regard room a b).isSome) (others : List Value) :
    ∃ room, (equalItems? regard room items others).isSome := by
  obtain ⟨room, enough⟩ := exists_common_room
    (P := fun pair room => (equal? regard room pair.1 pair.2).isSome)
    (fun _ _ _ => isSome_equal?_mono) (items.zip others)
    fun pair member => each pair.1 (List.of_mem_zip member).1 pair.2
  exact ⟨room, isSome_equalItems? enough⟩

theorem exists_isSome_equalEntries? {entries : List (Value × Value)}
    (each : ∀ part ∈ parts entries, ∀ b, ∃ room, (equal? .asNumber room part b).isSome)
    (others : List (Value × Value)) : ∃ room, (equalEntries? room entries others).isSome := by
  have forPair : ∀ entry ∈ entries, ∀ other : Value × Value, ∃ room,
      (equal? .asNumber room entry.1 other.1).isSome ∧
        (equal? .asNumber room entry.2 other.2).isSome := by
    intro entry member other
    obtain ⟨forKey, forItem⟩ := forall_mem_parts.mp each entry member
    obtain ⟨room, known⟩ := forKey other.1
    obtain ⟨room', known'⟩ := forItem other.2
    exact ⟨max room room', isSome_equal?_mono (Nat.le_max_left ..) known,
      isSome_equal?_mono (Nat.le_max_right ..) known'⟩
  have forEntry : ∀ entry ∈ entries, ∃ room, ∀ other ∈ others,
      (equal? .asNumber room entry.1 other.1).isSome ∧
        (equal? .asNumber room entry.2 other.2).isSome := by
    intro entry member
    refine exists_common_room ?_ others fun other _ => forPair entry member other
    intro other room room' more known
    exact known.imp (isSome_equal?_mono more) (isSome_equal?_mono more)
  obtain ⟨room, enough⟩ := exists_common_room (fun _ _ _ more known other member =>
    (known other member).imp (isSome_equal?_mono more) (isSome_equal?_mono more)) entries forEntry
  exact ⟨room, isSome_equalEntries? enough⟩

private theorem exists_room_of_inside {s t : Stamp} {inside : Nat → Option Bool}
    (enough : ∃ room, (inside room).isSome) :
    ∃ room, (if s = t then some true else answerWithin room inside).isSome := by
  obtain ⟨rest, known⟩ := enough
  refine ⟨rest + 1, ?_⟩
  split
  · rfl
  · exact known

/-- Some room is enough for a comparison to come to an answer. -/
theorem exists_isSome_equal? (regard : Regard) (a b : Value) :
    ∃ room, (equal? regard room a b).isSome := by
  induction a using inside_induction generalizing regard b with
  | list s items ih =>
    cases b with
    | list t others =>
      simp only [equal?]
      refine exists_room_of_inside ?_
      split
      · exact exists_isSome_equalItems? (fun a member => ih a member regard) others
      · exact ⟨0, rfl⟩
    | _ => exact ⟨0, by simp [equal?]⟩
  | tuple s items ih =>
    cases b with
    | tuple t others =>
      simp only [equal?]
      exact exists_room_of_inside
        (exists_isSome_equalItems? (fun a member => ih a member .asNumber) others)
    | _ => exact ⟨0, by simp [equal?]⟩
  | dict s entries ih =>
    cases b with
    | dict t others =>
      simp only [equal?]
      refine exists_room_of_inside ?_
      split
      · exact exists_isSome_equalEntries? (fun part member => ih part member .asNumber) others
      · exact ⟨0, rfl⟩
    | _ => exact ⟨0, by simp [equal?]⟩
  | atom a atom =>
    refine ⟨0, ?_⟩
    rw [equal?_eq_decide (.inl atom)]
    rfl

theorem exists_verdict (regard : Regard) (a b : Value) : ∃ answer, Verdict regard a b answer := by
  obtain ⟨room, known⟩ := exists_isSome_equal? regard a b
  obtain ⟨answer, known⟩ := Option.isSome_iff_exists.mp known
  exact ⟨answer, verdict_iff.mpr ⟨room, known⟩⟩

end Value

end FrameLisp
