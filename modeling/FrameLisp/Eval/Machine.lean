import FrameLisp.Eval.Record
import FrameLisp.Store

/-!
The state that evaluation changes: the store, the supply of stamps, and what it tells the host. An
evaluation that stops early keeps the changes it has made.
-/
namespace FrameLisp

/-- The state of evaluation. -/
structure Machine where
  store : Store
  /-- The serial of the next stamp. -/
  stamps : Nat
  /-- How often the host's primitives have been called. -/
  calls : Nat
  /-- The arguments of the host's primitives, in writing. -/
  notes : Array (List String)
  records : Array Record

/-- Why evaluation stops: for a cause, or because it may nest no more calls. -/
inductive Halt where
  | fault (cause : Fault)
  | exhausted

/-- A computation that changes the state and may stop. -/
abbrev EvalM := EStateM Halt Machine

namespace Machine

/-- The state before anything has happened. -/
def empty : Machine := ⟨.empty, Stamp.transient.serial + 1, 0, #[], #[]⟩

/-- Changes the store. -/
def mapStore (m : Machine) (change : Store → Store) : Machine :=
  { m with store := change m.store }

/-- Changes the store and yields something. -/
def withStore {α : Type} (m : Machine) (change : Store → α × Store) : α × Machine :=
  let (a, store) := change m.store
  (a, { m with store })

/-- Takes the next stamp. -/
def nextStamp (m : Machine) : Stamp × Machine := (⟨m.stamps⟩, { m with stamps := m.stamps + 1 })

/-- Adds a report. -/
def addRecord (m : Machine) (r : Record) : Machine := { m with records := m.records.push r }

/-- Adds a note. -/
def addNote (m : Machine) (texts : List String) : Machine := { m with notes := m.notes.push texts }

/-- Counts a call of a host's primitive and yields the count. -/
def countCall (m : Machine) : Nat × Machine := (m.calls + 1, { m with calls := m.calls + 1 })

end Machine

namespace Eval

/-- Stops for a cause. -/
def fail {α : Type} (cause : Fault) : EvalM α := throw (.fault cause)

/-- Continues with a result, or stops for its cause. -/
def ofExcept {α : Type} : Except Fault α → EvalM α
  | .ok a => pure a
  | .error cause => fail cause

/-- A stamp that nothing else has. -/
def freshStamp : EvalM Stamp := modifyGet Machine.nextStamp

/-- A new list. -/
def newList (items : List Value) : EvalM Value := return .list (← freshStamp) items

/-- Reports something. -/
def report (r : Record) : EvalM Unit := modify (·.addRecord r)

end Eval

end FrameLisp
