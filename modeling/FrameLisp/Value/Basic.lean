import FrameLisp.Number
import FrameLisp.Symbol

/-!
Values. Programs and data share one type: a program is a value made of numbers, symbols and
sequences. Closures refer to their environment in the store. Whatever is made anew carries the
stamp it was made with: a closure or a primitive is equal to nothing else, and a sequence or a
dictionary is known to be equal to itself without a look inside.
-/
namespace FrameLisp

/-- A reference to a frame of the store. -/
structure FrameRef where
  index : Nat
deriving DecidableEq, Repr

/-- A reference to an environment of the store. -/
structure EnvRef where
  index : Nat
deriving DecidableEq, Repr

/-- Built-in operations on one argument. -/
inductive Unary where
  | isNull
  | car
  | cdr
deriving DecidableEq, Repr

/-- Built-in operations on two arguments. -/
inductive Binary where
  | cons
  | add
  | sub
  | mul
  | gt
  | ge
  | lt
  | le
  | equal
deriving DecidableEq, Repr

/-- What a primitive does. -/
inductive Op where
  | unary (f : Unary)
  | binary (f : Binary)
  /-- Makes a list of its arguments, however many. -/
  | list
  /-- Notes its arguments for the host, under a name of the host's choice. -/
  | note (tag : Symbol) (arity : Option Int)
deriving DecidableEq, Repr

/-- A value, which may also be read as an expression. -/
inductive Value where
  | number (x : Number)
  | bool (b : Bool)
  | symbol (x : Symbol)
  | list (stamp : Stamp) (items : List Value)
  | tuple (stamp : Stamp) (items : List Value)
  /-- What stands under keys, which are values too, in the order in which the keys were added. -/
  | dict (stamp : Stamp) (entries : List (Value × Value))
  | str (text : String)
  | nothing
  /-- The value of a form that is evaluated for its effect. -/
  | unit
  /-- What a recursive binding holds until its initializer has been evaluated. -/
  | unassigned
  | closure (stamp : Stamp) (params : List Symbol) (body : Value) (env : EnvRef)
  | primitive (stamp : Stamp) (op : Op)

namespace Unary

/-- The name of an operation. -/
def name : Unary → String
  | .isNull => "null?"
  | .car => "car"
  | .cdr => "cdr"

end Unary

namespace Binary

/-- The name of an operation. -/
def name : Binary → String
  | .cons => "cons"
  | .add => "+"
  | .sub => "-"
  | .mul => "*"
  | .gt => ">"
  | .ge => ">="
  | .lt => "<"
  | .le => "<="
  | .equal => "=="

end Binary

namespace Op

/-- The name that a primitive goes by. -/
def tag : Op → Symbol
  | .unary f => ⟨f.name⟩
  | .binary f => ⟨f.name⟩
  | .list => ⟨"list"⟩
  | .note tag _ => tag

/-- How many arguments a primitive takes, unless it takes any number. -/
def arity : Op → Option Int
  | .unary _ => some 1
  | .binary _ => some 2
  | .list => none
  | .note _ arity => arity

end Op

namespace Value

/-- An integer value. -/
def int (n : Int) : Value := .number (.int n)

/-- The symbol that a value is, if it is one. -/
def symbol? : Value → Option Symbol
  | .symbol x => some x
  | _ => none

/-- The number that a value is, if it is one; booleans are not numbers. -/
def number? : Value → Option Number
  | .number x => some x
  | _ => none

/-- The keys of a dictionary's entries and what stands under them, in order. -/
def parts (entries : List (Value × Value)) : List Value :=
  entries.flatMap fun (key, item) => [key, item]

theorem mem_parts {v : Value} {entries : List (Value × Value)} :
    v ∈ parts entries ↔ ∃ entry ∈ entries, v = entry.1 ∨ v = entry.2 := by
  simp [parts]

theorem forall_mem_parts {P : Value → Prop} {entries : List (Value × Value)} :
    (∀ part ∈ parts entries, P part) ↔ ∀ entry ∈ entries, P entry.1 ∧ P entry.2 := by
  constructor
  · intro each entry member
    exact ⟨each _ (mem_parts.mpr ⟨entry, member, .inl rfl⟩),
      each _ (mem_parts.mpr ⟨entry, member, .inr rfl⟩)⟩
  · intro each part member
    obtain ⟨entry, there, rfl | rfl⟩ := mem_parts.mp member
    · exact (each entry there).1
    · exact (each entry there).2

/-- Whether a value counts as true: all do but false and unit. -/
def isTrue : Value → Bool
  | .bool b => b
  | .unit => false
  | _ => true

/-- Whether a value is the empty list. -/
def isNull : Value → Bool
  | .list _ [] => true
  | _ => false

/-- The name of a value's type. -/
def typeName : Value → String
  | .number (.int _) => "int"
  | .number _ => "float"
  | .bool _ => "bool"
  | .symbol _ => "symbol"
  | .list .. => "list"
  | .tuple .. => "tuple"
  | .dict .. => "dict"
  | .str _ => "str"
  | .nothing => "none"
  | .unit => "unit"
  | .unassigned => "unassigned"
  | .closure .. => "closure"
  | .primitive .. => "primitive"

end Value

end FrameLisp
