import FrameLisp.Value.Printer

/-!
What an evaluation reports about its progress.
-/
namespace FrameLisp

/-- How important a report is. -/
inductive Level where
  | debug
  | info
  | warning
deriving DecidableEq, Repr

/-- The part of the evaluator that a report comes from. -/
inductive Channel where
  | evaluator
  | define
  | letForms
deriving DecidableEq, Repr

/-- A report. -/
inductive Record where
  | rebound (name : Symbol)
  | defined (name : Symbol)
  | letrecBound (params : List Symbol)
  | failed (shown message : String)
  | exhausted (limit : Nat) (shown : String)
deriving DecidableEq, Repr

namespace Level

/-- The place of a level among the others. -/
def rank : Level → Nat
  | .debug => 0
  | .info => 1
  | .warning => 2

/-- Whether reports of one level are kept when reports from another on are wanted. -/
def isKept (wanted level : Level) : Bool := wanted.rank ≤ level.rank

end Level

namespace Record

/-- How important a report is. -/
def level : Record → Level
  | .exhausted .. => .warning
  | _ => .debug

/-- Where a report comes from. -/
def channel : Record → Channel
  | .rebound _ => .define
  | .defined _ => .define
  | .letrecBound _ => .letForms
  | .failed .. => .evaluator
  | .exhausted .. => .evaluator

/-- The wording of a report. -/
def message : Record → String
  | .rebound x => "define " ++ x.name ++ ": rebinding in place"
  | .defined x => "define " ++ x.name ++ ": new frame"
  | .letrecBound params => "letrec bound " ++ symbolsText params
  | .failed shown message => "Evaluation of " ++ shown ++ " failed: " ++ message
  | .exhausted limit shown =>
    "Recursion limit " ++ toString limit ++ " exhausted while evaluating " ++ shown

end Record

end FrameLisp
