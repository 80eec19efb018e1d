import FrameLisp.Value.Printer
import Mathlib

/-!
Reading what has been displayed. A text is taken apart at blanks and parentheses, and a word is read
as a boolean or an integer if it is the written form of one, and otherwise as a symbol. From what
legible values display, values of integers, booleans, lists and symbols whose names are none of
these, the reader recovers all but the stamps of lists, wherever the text stands
(`Value.Legible.exists_reads`). So values that are made differently are displayed differently
(`display_is_unambiguous`).
-/
namespace FrameLisp

/-! ## The reader -/

/-- What a text is made of. -/
inductive Lexeme where
  | opening
  | closing
  | word (text : List Char)
deriving DecidableEq, Repr

namespace Lexeme

/-- Whether words end before a character. -/
def isDivider (c : Char) : Bool := c == ' ' || c == '(' || c == ')'

/-- Ends a word, if there is one, of which the characters are given last first. -/
def endWord (word : List Char) (rest : List Lexeme) : List Lexeme :=
  if word = [] then rest else .word word.reverse :: rest

/-- The lexemes of a text, after the characters of a word that has been begun. -/
def ofChars (word : List Char) : List Char → List Lexeme
  | [] => endWord word []
  | c :: rest =>
    if c = '(' then endWord word (.opening :: ofChars [] rest)
    else if c = ')' then endWord word (.closing :: ofChars [] rest)
    else if c = ' ' then endWord word (ofChars [] rest)
    else ofChars (c :: word) rest

end Lexeme

namespace Value

/-- The value that a word stands for. -/
def ofWord (text : String) : Value :=
  if text = "true" then .bool true
  else if text = "false" then .bool false
  else
    match text.toInt? with
    | some n => if toString n = text then .int n else .symbol ⟨text⟩
    | none => .symbol ⟨text⟩

/-- The values that lexemes stand for, after the items of a list that has been begun, and of the
    lists around it, all of them last first. -/
def ofLexemes (outer : List (List Value)) (items : List Value) : List Lexeme → Option (List Value)
  | [] => if outer = [] then some items.reverse else none
  | .opening :: rest => ofLexemes (items :: outer) [] rest
  | .closing :: rest =>
    match outer with
    | [] => none
    | before :: outer => ofLexemes outer (.list .transient items.reverse :: before) rest
  | .word text :: rest => ofLexemes outer (ofWord (.ofList text) :: items) rest

/-- The value that a text displays, if it displays one. -/
def read? (text : String) : Option Value :=
  match ofLexemes [] [] (Lexeme.ofChars [] text.toList) with
  | some [v] => some v
  | _ => none

mutual

/-- A value without the stamps of its lists. -/
def unstamped : Value → Value
  | .list _ items => .list .transient (unstampedItems items)
  | v => v

/-- Items without the stamps of their lists. -/
def unstampedItems : List Value → List Value
  | [] => []
  | item :: items => item.unstamped :: unstampedItems items

end

end Value

/-! ## Legible values -/

/-- A symbol's name is a word, and not one that displays a boolean or an integer. -/
structure Symbol.Legible (x : Symbol) : Prop where
  nonEmpty : x.name ≠ ""
  undivided : ∀ c ∈ x.name.toList, Lexeme.isDivider c = false
  notBool : x.name ≠ "true" ∧ x.name ≠ "false"
  notInt : ∀ n : Int, x.name ≠ toString n

/-- Values of which the displayed form tells what they are. -/
inductive Value.Legible : Value → Prop
  | int {n : Int} (printable : (Number.int n).isPrintable = true) : Legible (.int n)
  | bool (b : Bool) : Legible (.bool b)
  | symbol {x : Symbol} (legible : x.Legible) : Legible (.symbol x)
  | list {stamp : Stamp} {items : List Value} (each : ∀ item ∈ items, Legible item) :
      Legible (.list stamp items)

/-! ## Words -/

namespace Lexeme

variable {word chars rest : List Char}

/-- A text is empty or begins with a divider. -/
def Divided (rest : List Char) : Prop := ∀ c ∈ rest.head?, isDivider c = true

theorem ofChars_append (undivided : ∀ c ∈ chars, isDivider c = false) :
    ofChars word (chars ++ rest) = ofChars (chars.reverse ++ word) rest := by
  induction chars generalizing word with
  | nil => rfl
  | cons c chars ih =>
    obtain ⟨first, later⟩ := List.forall_mem_cons.mp undivided
    simp [isDivider] at first
    simp [ofChars, first, ih later]

theorem ofChars_of_divided (divided : Divided rest) :
    ofChars word rest = endWord word (ofChars [] rest) := by
  cases rest with
  | nil => rfl
  | cons c rest =>
    have here := divided c rfl
    simp [isDivider] at here
    rcases here with (rfl | rfl) | rfl <;> simp [ofChars, endWord]

/-- A word is read as far as the next divider. -/
theorem ofChars_word (nonEmpty : chars ≠ []) (undivided : ∀ c ∈ chars, isDivider c = false)
    (divided : Divided rest) : ofChars [] (chars ++ rest) = .word chars :: ofChars [] rest := by
  rw [ofChars_append undivided, List.append_nil, ofChars_of_divided divided, endWord,
    if_neg (by simpa using nonEmpty), List.reverse_reverse]

end Lexeme

/-! ## Values read back -/

namespace Value

/-- A text is one word, and the word stands for a value. -/
structure IsWord (text : String) (v : Value) : Prop where
  nonEmpty : text ≠ ""
  undivided : ∀ c ∈ text.toList, Lexeme.isDivider c = false
  meaning : ofWord text = v

/-- Wherever a text stands, as far as the next divider, a value is read, with what comes before and
    after it read as without it. -/
def Reads (text : String) (v : Value) : Prop :=
  ∀ outer items rest, Lexeme.Divided rest →
    ofLexemes outer items (Lexeme.ofChars [] (text.toList ++ rest)) =
      ofLexemes outer (v.unstamped :: items) (Lexeme.ofChars [] rest)

/-- Texts between blanks are read as the items of a list. -/
def ReadsItems (texts : List String) (values : List Value) : Prop :=
  ∀ outer items rest, Lexeme.Divided rest →
    ofLexemes outer items (Lexeme.ofChars [] ((" ".intercalate texts).toList ++ rest)) =
      ofLexemes outer ((unstampedItems values).reverse ++ items) (Lexeme.ofChars [] rest)

theorem IsWord.reads {text : String} {v : Value} (word : IsWord text v) (plain : v.unstamped = v) :
    Reads text v := by
  intro outer items rest divided
  have nonEmpty : text.toList ≠ [] := by simpa using word.nonEmpty
  rw [Lexeme.ofChars_word nonEmpty word.undivided divided, ofLexemes, String.ofList_toList,
    word.meaning, plain]

/-- The written form of an integer has a sign and digits. -/
theorem sign_or_digit_of_mem_toString {n : Int} {c : Char} (inside : c ∈ (toString n).toList) :
    c = '-' ∨ c.isDigit = true := by
  rw [Int.toString_eq_repr, Int.repr_eq_if] at inside
  have digit {m : Nat} (inside : c ∈ m.repr.toList) : c.isDigit = true := by
    rw [Nat.toList_repr] at inside
    exact Nat.isDigit_of_mem_toDigits (by decide) (by decide) inside
  split at inside
  · exact .inr (digit inside)
  · rw [String.toList_append, List.mem_append] at inside
    exact inside.imp (by simp) digit

theorem isWord_int (n : Int) : IsWord (toString n) (.int n) where
  nonEmpty := by
    rw [Int.toString_eq_repr, Int.repr_eq_if]
    split <;> simp
  undivided := by
    intro c inside
    by_contra divider
    simp only [Lexeme.isDivider, Bool.not_eq_false, Bool.or_eq_true, beq_iff_eq] at divider
    have written := sign_or_digit_of_mem_toString inside
    rcases divider with (rfl | rfl) | rfl <;> exact absurd written (by decide)
  meaning := by
    -- Both booleans are written with an `e`.
    have letter : 'e' ∉ (toString n).toList := fun inside =>
      absurd (sign_or_digit_of_mem_toString inside) (by decide)
    have notBool : toString n ≠ "true" ∧ toString n ≠ "false" :=
      ⟨fun same => letter (by simp [same]), fun same => letter (by simp [same])⟩
    have read : (toString n).toInt? = some n := by rw [Int.toString_eq_repr, Int.toInt?_repr]
    simp only [ofWord, notBool, read, if_true, if_false]

theorem isWord_bool (b : Bool) : IsWord (Style.display.bool b) (.bool b) := by
  cases b <;> exact ⟨by simp [Style.bool], by simp [Style.bool, Lexeme.isDivider], by
    simp [Style.bool, ofWord]⟩

theorem isWord_symbol {x : Symbol} (legible : x.Legible) : IsWord x.name (.symbol x) where
  nonEmpty := legible.nonEmpty
  undivided := legible.undivided
  meaning := by
    simp only [ofWord, legible.notBool, if_false]
    split
    · rw [if_neg (legible.notInt _).symm]
    · rfl

theorem readsItems_nil : ReadsItems [] [] := by
  intro outer items rest _
  simp [unstampedItems]

theorem ReadsItems.cons {text : String} {texts : List String} {v : Value} {values : List Value}
    (later : ReadsItems texts values) (first : Reads text v)
    (together : texts = [] ↔ values = []) : ReadsItems (text :: texts) (v :: values) := by
  intro outer items rest divided
  by_cases last : texts = []
  · obtain rfl := together.mp last
    subst last
    simpa [unstampedItems] using first outer items rest divided
  · rw [String.intercalate_cons_of_ne_nil last]
    have blank : Lexeme.Divided (' ' :: ((" ".intercalate texts).toList ++ rest)) := by
      simp [Lexeme.Divided, Lexeme.isDivider]
    calc
      _ = ofLexemes outer items (Lexeme.ofChars []
            (text.toList ++ ' ' :: ((" ".intercalate texts).toList ++ rest))) := by simp
      _ = ofLexemes outer (v.unstamped :: items) (Lexeme.ofChars []
            ((" ".intercalate texts).toList ++ rest)) := by
        rw [first outer items _ blank]
        simp [Lexeme.ofChars, Lexeme.endWord]
      _ = _ := by
        rw [later outer _ rest divided]
        simp [unstampedItems]

/-- A list is read from its parentheses and what its items are read from. -/
theorem ReadsItems.list {texts : List String} {values : List Value} {stamp : Stamp}
    (inside : ReadsItems texts values) :
    Reads (Style.display.list texts) (.list stamp values) := by
  intro outer items rest _
  have closed : Lexeme.Divided (')' :: rest) := by simp [Lexeme.Divided, Lexeme.isDivider]
  calc
    _ = ofLexemes (items :: outer) [] (Lexeme.ofChars []
          ((" ".intercalate texts).toList ++ ')' :: rest)) := by
      simp [Style.list, Lexeme.ofChars, Lexeme.endWord, ofLexemes]
    _ = _ := by
      rw [inside _ _ _ closed]
      simp [Lexeme.ofChars, Lexeme.endWord, ofLexemes, unstamped]

/-- If each of a list's items is displayed as it is read, so are all of them together. -/
theorem exists_readsItems {values : List Value}
    (each : ∀ v ∈ values, ∃ text, v.display = some text ∧ Reads text v) :
    ∃ texts, renderItems .display values = some texts ∧ (texts = [] ↔ values = []) ∧
      ReadsItems texts values := by
  induction values with
  | nil => exact ⟨[], rfl, by simp, readsItems_nil⟩
  | cons v values ih =>
    obtain ⟨first, later⟩ := List.forall_mem_cons.mp each
    obtain ⟨text, shown, reads⟩ := first
    obtain ⟨texts, shownLater, together, readsLater⟩ := ih later
    rw [display] at shown
    exact ⟨text :: texts, by simp [renderItems, shown, shownLater], by simp,
      readsLater.cons reads together⟩

/-- A legible value is displayed, and read from where it is displayed. -/
theorem Legible.exists_reads {v : Value} (legible : v.Legible) :
    ∃ text, v.display = some text ∧ Reads text v := by
  induction legible with
  | int printable =>
    refine ⟨_, ?_, (isWord_int _).reads rfl⟩
    rw [display, Value.int, render, Number.text?, if_pos printable, Number.text]
  | bool b => exact ⟨_, rfl, (isWord_bool b).reads rfl⟩
  | symbol legible => exact ⟨_, rfl, (isWord_symbol legible).reads rfl⟩
  | list each ih =>
    obtain ⟨texts, shown, -, reads⟩ := exists_readsItems ih
    exact ⟨_, by simp [display, render, shown], reads.list⟩

theorem Reads.read?_eq {text : String} {v : Value} (reads : Reads text v) :
    read? text = some v.unstamped := by
  have whole := reads [] [] [] (by simp [Lexeme.Divided])
  rw [List.append_nil] at whole
  simp [read?, whole, Lexeme.ofChars, Lexeme.endWord, ofLexemes]

mutual

/-- A displayed value does not show its stamps. -/
theorem render_unstamped : (v : Value) → v.unstamped.render .display = v.render .display
  | .list _ items => by simp [unstamped, render, renderItems_unstamped items]
  | .number _ | .bool _ | .symbol _ | .tuple _ _ | .dict _ _ | .str _ | .nothing | .unit
  | .unassigned | .closure _ _ _ _ | .primitive _ _ => rfl

theorem renderItems_unstamped :
    (items : List Value) → renderItems .display (unstampedItems items) = renderItems .display items
  | [] => rfl
  | item :: items => by
    simp [unstampedItems, renderItems, render_unstamped item, renderItems_unstamped items]

end

end Value

/-- The displayed form of a legible value tells what the value is: there is one, the reader recovers
    the value from it, and two legible values have the same displayed form exactly if they are made
    in the same way, of the same integers, booleans and symbols. -/
theorem display_is_unambiguous {v w : Value} (legible : v.Legible) (legible' : w.Legible) :
    (∃ text, v.display = some text ∧ Value.read? text = some v.unstamped) ∧
      (v.display = w.display ↔ v.unstamped = w.unstamped) := by
  obtain ⟨text, shown, reads⟩ := legible.exists_reads
  obtain ⟨text', shown', reads'⟩ := legible'.exists_reads
  refine ⟨⟨text, shown, reads.read?_eq⟩, ?_, ?_⟩
  · intro same
    obtain rfl : text = text' := by simpa [shown, shown'] using same
    exact Option.some.inj (reads.read?_eq.symm.trans reads'.read?_eq)
  · intro same
    rw [Value.display, ← v.render_unstamped, same, w.render_unstamped, Value.display]

/-- A word with a character that no integer is written with is legible if it is not a boolean. -/
theorem Symbol.legible_of_mem {x : Symbol} {c : Char} (inside : c ∈ x.name.toList)
    (other : ¬ (c = '-' ∨ c.isDigit = true))
    (undivided : ∀ c ∈ x.name.toList, Lexeme.isDivider c = false)
    (notBool : x.name ≠ "true" ∧ x.name ≠ "false") : x.Legible where
  nonEmpty := by
    intro empty
    simp [empty] at inside
  undivided := undivided
  notBool := notBool
  notInt := by
    intro n same
    exact other (Value.sign_or_digit_of_mem_toString (same ▸ inside))

/-- It is read back where the parentheses are, and which words only resemble a boolean and an
    integer. -/
theorem display_is_unambiguous_lookalikes :
    let inner : List Value := [.int (-1), .list ⟨1⟩ [], .bool true]
    let last : List Value := [.list ⟨2⟩ [.list ⟨3⟩ [.symbol ⟨"True"⟩]], .symbol ⟨"+1"⟩]
    let v : Value := .list ⟨4⟩ (.list ⟨5⟩ inner :: last)
    let w : Value := .list ⟨4⟩ (inner ++ last)
    v.Legible ∧ w.Legible ∧ v.display = some "((-1 () true) ((True)) +1)" ∧
      Value.read? "((-1 () true) ((True)) +1)" = some v.unstamped ∧ v.display ≠ w.display := by
  intro inner last v w
  have word : Symbol.Legible ⟨"True"⟩ :=
    Symbol.legible_of_mem (c := 'T') (by simp) (by decide) (by simp [Lexeme.isDivider]) (by simp)
  have sum : Symbol.Legible ⟨"+1"⟩ :=
    Symbol.legible_of_mem (c := '+') (by simp) (by decide) (by simp [Lexeme.isDivider]) (by simp)
  have legibleInner : ∀ item ∈ inner, item.Legible := by
    have one : (Number.int (-1)).isPrintable = true := by decide +kernel
    simp only [inner, List.forall_mem_cons]
    exact ⟨.int one, .list nofun, .bool true, nofun⟩
  have legibleLast : ∀ item ∈ last, item.Legible := by
    simp only [last, List.forall_mem_cons]
    exact ⟨.list (by simpa using .list (by simpa using .symbol word)), .symbol sum, nofun⟩
  have legible : v.Legible := .list (List.forall_mem_cons.mpr ⟨.list legibleInner, legibleLast⟩)
  have legible' : w.Legible := .list (List.forall_mem_append.mpr ⟨legibleInner, legibleLast⟩)
  obtain ⟨⟨text, shown, read⟩, same⟩ := display_is_unambiguous legible legible'
  have written : v.display = some "((-1 () true) ((True)) +1)" := by decide +kernel
  obtain rfl := Option.some.inj (shown.symm.trans written)
  refine ⟨legible, legible', written, read, ?_⟩
  rw [ne_eq, same]
  simp [v, w, inner, last, Value.unstamped, Value.unstampedItems]

end FrameLisp
