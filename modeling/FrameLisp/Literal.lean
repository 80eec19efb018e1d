import FrameLisp.Assoc
import FrameLisp.Setting

/-!
Literals: how a caller writes the values it hands over. A literal may name a value that the caller
has kept, and may repeat a template around a core. Every nan, sequence and dictionary that a literal
writes is a new one, also when a template is repeated; a kept value is the one that was kept. A
numeral is read like that of a setting and may have no more digits than an integer that is written.
-/
namespace FrameLisp

/-- A written value. -/
inductive Literal where
  | int (n : Int)
  /-- An integer written in digits. -/
  | numeral (negative : Bool) (digits : List Nat)
  | float (x : Binary64)
  | nan
  | bool (b : Bool)
  | symbol (x : Symbol)
  | list (items : List Literal)
  | tuple (items : List Literal)
  | dict (entries : List (String × Literal))
  | str (text : String)
  | nothing
  | unit
  | unassigned
  /-- A value kept under a name. -/
  | kept (name : String)
  /-- A core wrapped in a template so many times; in the template, `inner` is what is wrapped. -/
  | nest (count : Nat) (template core : Literal)

/-- Values kept under names. -/
abbrev Kept := List (String × Value)

namespace Literal

/-- Why a literal writes no value. -/
inductive Failure where
  /-- Nothing is kept under this name. -/
  | unknown (name : String)
  | tooManyDigits (count : Nat)

end Literal

/-- Makes values, drawing on a supply of stamps. -/
abbrev MakeM := EStateM Literal.Failure Nat

namespace Literal

/-- The name under which a template finds what it wraps. -/
def inner : String := "_"

/-- A stamp that nothing else has. -/
def freshStamp : MakeM Stamp := modifyGet fun serial => (⟨serial⟩, serial + 1)

/-- The integer with the given sign and digits, if they are not too many. -/
def ofNumeral (negative : Bool) (digits : List Nat) : MakeM Value :=
  if digits.length ≤ Number.digitLimit then
    pure (.int (if negative then -(Setting.ofDigits digits : Int) else Setting.ofDigits digits))
  else throw (.tooManyDigits digits.length)

/-- The entries of a dictionary whose keys are texts: a key that is written twice keeps its place
    and has the later value. -/
def textEntries (pairs : List (String × Value)) : List (Value × Value) :=
  (Assoc.insertAll [] pairs).map fun (key, v) => (.str key, v)

mutual

/-- The value that a literal writes. -/
def make (kept : Kept) : Literal → MakeM Value
  | .int n => pure (.int n)
  | .numeral negative digits => ofNumeral negative digits
  | .float x => pure (.number (.float x))
  | .nan => return .number (.nan (← freshStamp))
  | .bool b => pure (.bool b)
  | .symbol x => pure (.symbol x)
  | .list items => return .list (← freshStamp) (← makeItems kept items)
  | .tuple items => return .tuple (← freshStamp) (← makeItems kept items)
  | .dict entries =>
    return .dict (← freshStamp) (textEntries (← makeEntries kept entries))
  | .str text => pure (.str text)
  | .nothing => pure .nothing
  | .unit => pure .unit
  | .unassigned => pure .unassigned
  | .kept name =>
    match Assoc.get? name kept with
    | some v => pure v
    | none => throw (.unknown name)
  | .nest count template core => do
    let start ← make kept core
    (List.range count).foldlM (fun v _ => make ((inner, v) :: kept) template) start

/-- The values that literals write. -/
def makeItems (kept : Kept) : List Literal → MakeM (List Value)
  | [] => pure []
  | item :: items => do
    let v ← make kept item
    let vs ← makeItems kept items
    pure (v :: vs)

/-- The entries that literals write. -/
def makeEntries (kept : Kept) : List (String × Literal) → MakeM (List (String × Value))
  | [] => pure []
  | (key, item) :: entries => do
    let v ← make kept item
    let vs ← makeEntries kept entries
    pure ((key, v) :: vs)

end

end Literal

end FrameLisp
