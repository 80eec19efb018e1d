/-!
Symbols, and the keywords among them that introduce special forms.
-/
namespace FrameLisp

/-- A name in a program; two symbols are the same when their names are. -/
structure Symbol where
  name : String
deriving DecidableEq, Repr

/-- The special forms. -/
inductive Keyword where
  | lambda
  | letPlain
  | letRec
  | branch
  | define
deriving DecidableEq, Repr

namespace Keyword

/-- How a keyword is written. -/
def name : Keyword → String
  | .lambda => "lambda"
  | .letPlain => "let"
  | .letRec => "letrec"
  | .branch => "if"
  | .define => "define"

/-- Every keyword. -/
def all : List Keyword := [.lambda, .letPlain, .letRec, .branch, .define]

/-- The keyword's symbol. -/
def symbol (k : Keyword) : Symbol := ⟨k.name⟩

/-- The keyword that a symbol writes, if it writes one. -/
def ofSymbol? (x : Symbol) : Option Keyword := all.find? fun k => k.name == x.name

theorem ofSymbol?_symbol (k : Keyword) : ofSymbol? k.symbol = some k := by
  cases k <;> decide

end Keyword

end FrameLisp
