import FrameLisp.Assoc
import FrameLisp.Fault.Basic

/-!
Frames: what one function call or definition binds. Entries keep the order in which their names
were first bound, and binding a name again replaces its value in place.
-/
namespace FrameLisp

/-- Names with their values, in the order in which the names were first bound. -/
structure Frame where
  entries : List (Symbol × Value)

namespace Frame

/-- The frame that binds nothing. -/
def empty : Frame := ⟨[]⟩

/-- The names that a frame binds. -/
def names (f : Frame) : List Symbol := Assoc.keys f.entries

/-- The value of a name. -/
def get? (f : Frame) (x : Symbol) : Option Value := Assoc.get? x f.entries

/-- Whether a frame binds a name. -/
def binds (f : Frame) (x : Symbol) : Bool := (f.get? x).isSome

/-- Binds a name. -/
def insert (f : Frame) (x : Symbol) (v : Value) : Frame := ⟨Assoc.insert x v f.entries⟩

/-- Binds names one after the other. -/
def insertAll (f : Frame) (pairs : List (Symbol × Value)) : Frame :=
  ⟨Assoc.insertAll f.entries pairs⟩

/-- The frame of some pairs: a repeated name keeps its first place and takes its last value. -/
def ofPairs (pairs : List (Symbol × Value)) : Frame := empty.insertAll pairs

/-- The frame that binds parameters to arguments, which must be as many. -/
def bind (params : List Symbol) (args : List Value) : Except Fault Frame :=
  if params.length = args.length then .ok (ofPairs (params.zip args))
  else .error (.frameArity params args.length)

/-- The written forms of some entries. -/
def entryTexts : List (Symbol × Value) → Option (List String)
  | [] => some []
  | (x, v) :: rest =>
    match v.inspect, entryTexts rest with
    | some text, some texts => some ((x.name ++ ": " ++ text) :: texts)
    | _, _ => none

/-- The written form of a frame. -/
def text? (f : Frame) : Option String := (entryTexts f.entries).map entriesText

end Frame

end FrameLisp
