import Calculator.Calculate
import Calculator.Binary64.Text
import Calculator.CommandLine.Outcome
import Calculator.Unicode.WhiteSpace

/-!
The interactive prompt. Each line is answered on its own, and a line in error does not end the
session.
-/

namespace Calculator.Prompt

inductive Answer where
  | nothing
  | value (value : Binary64)
  | problem (problem : Diagnostic)
  | farewell

def isFarewell (line : String) : Bool :=
  line = "exit" || line = "quit"

def trimmed (line : String) : String :=
  String.ofList (Unicode.trim line.toList)

def answer (line : String) : Answer :=
  let text := trimmed line
  if text = "" then .nothing
  else if isFarewell text then .farewell
  else
    match calculate text with
    | .ok value => .value value
    | .error problem => .problem problem

def sign : String := "> "

def session : List String → Outcome
  | [] => .success (sign ++ "\n")
  | line :: rest =>
      match answer line with
      | .farewell => .success sign
      | .nothing => (session rest).after sign
      | .value value => (session rest).after (sign ++ value.text ++ "\n")
      | .problem problem => ((session rest).after sign).reporting problem.message

end Calculator.Prompt
