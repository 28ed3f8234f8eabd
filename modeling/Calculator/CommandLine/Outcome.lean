/-!
What a run of the command leaves behind.
-/

namespace Calculator

/-- The exit code and the text written to standard output and to standard error. -/
structure Outcome where
  code : Nat
  output : String
  errors : String
deriving DecidableEq

namespace Outcome

def success (output : String) : Outcome :=
  ⟨0, output, ""⟩

def failure (message : String) : Outcome :=
  ⟨1, "", message ++ "\n"⟩

def after (output : String) (later : Outcome) : Outcome :=
  { later with output := output ++ later.output }

def reporting (message : String) (later : Outcome) : Outcome :=
  { later with errors := message ++ "\n" ++ later.errors }

end Outcome

end Calculator
