/-!
The kinds of parameters, in the order in which a signature declares them.
-/
namespace HintCheck

inductive ParamKind where
  | positionalOnly
  | positionalOrKeyword
  | varPositional
  | keywordOnly
  | varKeyword
deriving DecidableEq, Repr

namespace ParamKind

/-- The place of a kind in the order of declaration. -/
def rank : ParamKind → Nat
  | positionalOnly => 0
  | positionalOrKeyword => 1
  | varPositional => 2
  | keywordOnly => 3
  | varKeyword => 4

/-- The kind takes any number of arguments. -/
def isVariadic : ParamKind → Bool
  | varPositional | varKeyword => true
  | _ => false

/-- The kind takes one positional argument. -/
def acceptsPosition : ParamKind → Bool
  | positionalOnly | positionalOrKeyword => true
  | _ => false

/-- The kind takes one keyword argument. -/
def acceptsKeyword : ParamKind → Bool
  | positionalOrKeyword | keywordOnly => true
  | _ => false

/-- The kind in words. -/
def text : ParamKind → String
  | positionalOnly => "positional-only"
  | positionalOrKeyword => "positional or keyword"
  | varPositional => "variadic positional"
  | keywordOnly => "keyword-only"
  | varKeyword => "variadic keyword"

end ParamKind
end HintCheck
