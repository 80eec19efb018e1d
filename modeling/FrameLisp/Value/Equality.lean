import FrameLisp.Value.Basic

/-!
Equality of values. Programs compare numbers numerically, lists item by item, and keep values of
different types apart; inside tuples and dictionaries a boolean counts as the number 0 or 1. What
carries a stamp is equal to itself without a look inside, and closures and primitives are equal to
nothing else.

A comparison has room for so many levels of nesting only. Where it would have to go deeper there is
no answer, but a difference that it meets before is an answer: lists of different lengths differ
whatever their items are, and so do dictionaries of different sizes, while tuples are compared item
by item as far as they go. A key of a dictionary is sought among those of the other one by
comparison, so that `1` finds what stands under `true`.
-/
namespace FrameLisp

/-- How a comparison takes a boolean. -/
inductive Regard where
  /-- It is equal to no number. -/
  | apart
  /-- It counts as the number 0 or 1. -/
  | asNumber
deriving DecidableEq, Repr

/-- Whether a boolean and a number are equal. -/
def Regard.equates : Regard → Bool → Number → Bool
  | .apart, _, _ => false
  | .asNumber, b, x => x.same (.int (if b then 1 else 0))

namespace Value

/-- The answer of a comparison one level further in, if there is room for it. -/
def answerWithin (room : Nat) (inside : Nat → Option Bool) : Option Bool :=
  match room with
  | 0 => none
  | rest + 1 => inside rest

/-- What stands under the first key that a comparison finds to be the same, if there is room to
    tell. -/
def underKey? (same : Value → Option Bool) : List (Value × Value) → Option (Option Value)
  | [] => some none
  | (key, item) :: entries =>
    match same key with
    | some true => some (some item)
    | some false => underKey? same entries
    | none => none

mutual

/-- Whether two values are equal, if there is room to tell. -/
def equal? (regard : Regard) (room : Nat) : Value → Value → Option Bool
  | .number a, .number b => some (a.same b)
  | .number a, .bool b => some (regard.equates b a)
  | .bool a, .number b => some (regard.equates a b)
  | .bool a, .bool b => some (a == b)
  | .symbol a, .symbol b => some (a == b)
  | .list s items, .list t others =>
    if s = t then some true
    else answerWithin room fun rest =>
      if items.length = others.length then equalItems? regard rest items others else some false
  | .tuple s items, .tuple t others =>
    if s = t then some true
    else answerWithin room fun rest => equalItems? .asNumber rest items others
  | .dict s entries, .dict t others =>
    if s = t then some true
    else answerWithin room fun rest =>
      if entries.length = others.length then equalEntries? rest entries others else some false
  | .str a, .str b => some (a == b)
  | .nothing, .nothing => some true
  | .unit, .unit => some true
  | .unassigned, .unassigned => some true
  | .closure s _ _ _, .closure t _ _ _ => some (s == t)
  | .primitive s _, .primitive t _ => some (s == t)
  | _, _ => some false

/-- Whether sequences are equal, item by item up to the first difference. -/
def equalItems? (regard : Regard) (room : Nat) : List Value → List Value → Option Bool
  | [], [] => some true
  | a :: items, b :: others =>
    match equal? regard room a b with
    | some true => equalItems? regard room items others
    | answer => answer
  | _, _ => some false

/-- Whether every entry has an equal one under its key in another dictionary. -/
def equalEntries? (room : Nat) : List (Value × Value) → List (Value × Value) → Option Bool
  | [], _ => some true
  | (key, a) :: entries, others =>
    match underKey? (equal? .asNumber room key) others with
    | some (some b) =>
      match equal? .asNumber room a b with
      | some true => equalEntries? room entries others
      | answer => answer
    | some none => some false
    | none => none

end

end Value

end FrameLisp
