import Headfirst.Expansion
import Headfirst.Fragment.Read
import Headfirst.Tree.Print

namespace Headfirst.Fragment

/-! From source text to source text.  A failure is shown with the source line on which it
lies. -/

def failureIn (source : String) (failure : Failure) : Diagnostic :=
  failure.diagnostic.withSource source

def warningIn (source : String) (failure : Failure) : Diagnostic :=
  (failure.diagnostic .warning).withSource source

/-- The source with every construct in front of its operand. -/
def frontSource (settings : Settings) (source file : String) : Except Diagnostic String :=
  match read source file with
  | .error failure => .error (failureIn source failure)
  | .ok fragment =>
      match (fragment.front settings).result with
      | .error failure => .error (failureIn source failure)
      | .ok result => .ok result.tree.render

/-- The source with the invocations of a macro expanded and the rest as it was. -/
def expandSource (settings : Settings) (macroName source file : String) :
    Except (Halt Diagnostic) String :=
  match read source file with
  | .error failure => .error (.refused (failureIn source failure))
  | .ok fragment =>
      match fragment.expand settings macroName with
      | (_, some (.refused failure), _) => .error (.refused (failureIn source failure))
      | (_, some .overflow, _) => .error .overflow
      | (result, none, _) => .ok result.tree.render

end Headfirst.Fragment
