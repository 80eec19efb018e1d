import FrameLisp.Text.Quoted
import FrameLisp.Value.Basic

/-!
The written form of values. There are two styles: programs are displayed the way they are read,
with bare symbols and lists in parentheses, and other data is inspected, with every symbol and text
quoted. A value that holds an integer of more than 4300 digits has no written form.

Where there is room for so many levels of nesting only, `obstacle?` says what stands in the way of
writing a value: of an integer that is too long and a part that is nested too deeply, the one that
comes first. A value with nothing in the way has a written form (`isSome_render`), and so have
values that are written one after the other (`isSome_renderItems`).
-/
namespace FrameLisp

/-- How a value is written. -/
inductive Style where
  | display
  | inspect
deriving DecidableEq, Repr

namespace Style

/-- A written boolean. -/
def bool : Style → Bool → String
  | .display, b => if b then "true" else "false"
  | .inspect, b => if b then "True" else "False"

/-- A written symbol. -/
def symbol : Style → Symbol → String
  | .display, x => x.name
  | .inspect, x => "Symbol(" ++ Text.quoted x.name ++ ")"

/-- A written list. -/
def list : Style → List String → String
  | .display, items => "(" ++ " ".intercalate items ++ ")"
  | .inspect, items => "[" ++ ", ".intercalate items ++ "]"

end Style

/-- A written tuple; a single item keeps its comma. -/
def tupleText : List String → String
  | [item] => "(" ++ item ++ ",)"
  | items => "(" ++ ", ".intercalate items ++ ")"

/-- Written entries in braces. -/
def entriesText (entries : List String) : String :=
  "\x7b" ++ ", ".intercalate entries ++ "\x7d"

/-- A written parameter list. -/
def symbolsText (symbols : List Symbol) : String :=
  "(" ++ " ".intercalate (symbols.map Symbol.name) ++ ")"

namespace Value

mutual

/-- The written form of a value. -/
def render : Style → Value → Option String
  | _, .number x => x.text?
  | style, .bool b => some (style.bool b)
  | style, .symbol x => some (style.symbol x)
  | style, .list _ items => (renderItems style items).map style.list
  | _, .tuple _ items => (renderItems .inspect items).map tupleText
  | _, .dict _ entries => (renderEntries entries).map entriesText
  | _, .str text => some (Text.quoted text)
  | _, .nothing => some "None"
  | _, .unit => some "#<unit>"
  | _, .unassigned => some "#<unassigned>"
  | _, .closure _ params body _ =>
    (render .display body).map fun text => "#<closure " ++ symbolsText params ++ " " ++ text ++ ">"
  | _, .primitive _ op => some ("#<primitive " ++ op.tag.name ++ ">")

/-- The written forms of a sequence's items. -/
def renderItems : Style → List Value → Option (List String)
  | _, [] => some []
  | style, item :: items =>
    match render style item, renderItems style items with
    | some text, some texts => some (text :: texts)
    | _, _ => none

/-- The written forms of a dictionary's entries. -/
def renderEntries : List (Value × Value) → Option (List String)
  | [] => some []
  | (key, item) :: entries =>
    match render .inspect key, render .inspect item, renderEntries entries with
    | some name, some text, some texts => some ((name ++ ": " ++ text) :: texts)
    | _, _, _ => none

end

/-- What stands in the way of writing a value. -/
inductive Obstacle where
  | digits
  | depth
deriving DecidableEq, Repr

/-- What comes first when a value is written with room for so many levels of nesting. -/
def obstacleWithin (levels : Nat) (inside : Nat → Option Obstacle) : Option Obstacle :=
  match levels with
  | 0 => some .depth
  | rest + 1 => inside rest

mutual

/-- The first obstacle to writing a value. -/
def obstacle? (levels : Nat) : Value → Option Obstacle
  | .number x => if x.isPrintable then none else some .digits
  | .list _ items => obstacleWithin levels fun rest => obstacleInItems rest items
  | .tuple _ items => obstacleWithin levels fun rest => obstacleInItems rest items
  | .dict _ entries => obstacleWithin levels fun rest => obstacleInEntries rest entries
  | .closure _ _ body _ => obstacleWithin levels fun rest => obstacle? rest body
  | _ => none

/-- The first obstacle to writing a sequence's items. -/
def obstacleInItems (levels : Nat) : List Value → Option Obstacle
  | [] => none
  | item :: items => (obstacle? levels item).or (obstacleInItems levels items)

/-- The first obstacle to writing a dictionary's entries. -/
def obstacleInEntries (levels : Nat) : List (Value × Value) → Option Obstacle
  | [] => none
  | (key, item) :: entries =>
    (obstacle? levels key).or ((obstacle? levels item).or (obstacleInEntries levels entries))

end

theorem obstacleWithin_eq_none {levels : Nat} {inside : Nat → Option Obstacle}
    (clear : obstacleWithin levels inside = none) : ∃ rest, inside rest = none := by
  cases levels with
  | zero => simp [obstacleWithin] at clear
  | succ rest => exact ⟨rest, clear⟩

mutual

/-- A value without an obstacle has a written form in either style. -/
theorem isSome_render {levels : Nat} (style : Style) :
    (v : Value) → obstacle? levels v = none → (render style v).isSome
  | .number x, clear => by
    by_cases printable : x.isPrintable <;> simp_all [obstacle?, render, Number.text?]
  | .bool _, _ => by simp [render]
  | .symbol _, _ => by simp [render]
  | .list _ items, clear => by
    obtain ⟨rest, clear⟩ := obstacleWithin_eq_none (by simpa only [obstacle?] using clear)
    simpa [render] using isSome_renderItems style items clear
  | .tuple _ items, clear => by
    obtain ⟨rest, clear⟩ := obstacleWithin_eq_none (by simpa only [obstacle?] using clear)
    simpa [render] using isSome_renderItems .inspect items clear
  | .dict _ entries, clear => by
    obtain ⟨rest, clear⟩ := obstacleWithin_eq_none (by simpa only [obstacle?] using clear)
    simpa [render] using isSome_renderEntries entries clear
  | .str _, _ => by simp [render]
  | .nothing, _ => by simp [render]
  | .unit, _ => by simp [render]
  | .unassigned, _ => by simp [render]
  | .closure _ _ body _, clear => by
    obtain ⟨rest, clear⟩ := obstacleWithin_eq_none (by simpa only [obstacle?] using clear)
    simpa [render] using isSome_render .display body clear
  | .primitive _ _, _ => by simp [render]

theorem isSome_renderItems {levels : Nat} (style : Style) :
    (items : List Value) → obstacleInItems levels items = none → (renderItems style items).isSome
  | [], _ => by simp [renderItems]
  | item :: items, clear => by
    simp only [obstacleInItems, Option.or_eq_none_iff] at clear
    obtain ⟨text, shown⟩ := Option.isSome_iff_exists.1 (isSome_render style item clear.1)
    obtain ⟨texts, shownRest⟩ := Option.isSome_iff_exists.1 (isSome_renderItems style items clear.2)
    simp [renderItems, shown, shownRest]

theorem isSome_renderEntries {levels : Nat} :
    (entries : List (Value × Value)) → obstacleInEntries levels entries = none →
      (renderEntries entries).isSome
  | [], _ => by simp [renderEntries]
  | (key, item) :: entries, clear => by
    simp only [obstacleInEntries, Option.or_eq_none_iff] at clear
    obtain ⟨clearKey, clearItem, clearRest⟩ := clear
    obtain ⟨name, shownKey⟩ := Option.isSome_iff_exists.1 (isSome_render .inspect key clearKey)
    obtain ⟨text, shown⟩ := Option.isSome_iff_exists.1 (isSome_render .inspect item clearItem)
    obtain ⟨texts, shownRest⟩ := Option.isSome_iff_exists.1 (isSome_renderEntries entries clearRest)
    simp [renderEntries, shownKey, shown, shownRest]

end

/-- The form in which programs are read. -/
def display (v : Value) : Option String := v.render .display

/-- The form that shows what a value is made of. -/
def inspect (v : Value) : Option String := v.render .inspect

/-- The form in which a value stands in running text: names and texts are bare. -/
def plain : Value → Option String
  | .symbol x => some x.name
  | .str text => some text
  | v => v.inspect

end Value

end FrameLisp
