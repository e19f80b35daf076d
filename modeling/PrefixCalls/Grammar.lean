/-!
The two grammars of the call language. `basic` has letters, digits, parentheses and blanks.
`extended` adds operator names and decimal numbers.
-/
namespace PrefixCalls

inductive Grammar where
  | basic
  | extended
  deriving DecidableEq, Repr

structure UnknownGrammar where
  name : String
  deriving DecidableEq, Repr

def UnknownGrammar.message (e : UnknownGrammar) : String :=
  "unknown grammar \"" ++ e.name ++ "\" (expected \"basic\" or \"extended\")"

namespace Grammar

instance : Inhabited Grammar := ⟨extended⟩

def allowsOperators : Grammar → Bool
  | basic => false
  | extended => true

def allowsDecimals : Grammar → Bool
  | basic => false
  | extended => true

def name : Grammar → String
  | basic => "basic"
  | extended => "extended"

def ofName (s : String) : Except UnknownGrammar Grammar :=
  if s = "basic" then .ok basic
  else if s = "extended" then .ok extended
  else .error ⟨s⟩

end Grammar

end PrefixCalls
