import Calculator.CommandLine.Run

/-!
The command. It reads what a run needs, hands it over and writes what comes back; at a terminal it
answers each line as it is typed.
-/

namespace Calculator.Command

/-- The number of a system error, which is reported with either sign. -/
def errorNumber (code : UInt32) : Nat :=
  min code.toNat (0 - code).toNat

def failure : IO.Error → ReadFailure
  | .noFileOrDirectory .. => .notFound
  | .inappropriateType _ code _ => if errorNumber code = 20 then .notADirectory else .isADirectory
  | .invalidArgument _ code details =>
      if errorNumber code = 36 then .nameTooLong else .other details
  | .permissionDenied .. => .other "Permission denied (os error 13)"
  | error => .other (toString error)

def readFile (path : String) : IO (Except ReadFailure ByteArray) := do
  try
    return .ok (← IO.FS.readBinFile path)
  catch error =>
    return .error (failure error)

/-- Answers typed lines until one of them says farewell or the input ends. -/
partial def converse (input : IO.FS.Stream) : IO Unit := do
  IO.print Prompt.sign
  (← IO.getStdout).flush
  let line ← input.getLine
  if line.isEmpty then
    IO.println ""
  else
    match Prompt.answer line with
    | .farewell => return
    | .nothing => converse input
    | .value value =>
        IO.println value.text
        converse input
    | .problem problem =>
        IO.eprintln problem.message
        converse input

def deliver (outcome : Outcome) : IO UInt32 := do
  IO.print outcome.output
  IO.eprint outcome.errors
  return UInt32.ofNat outcome.code

def announce (notice : Notice) : IO UInt32 := do
  let usage := "usage: [-s] [-p] [-v] [-i FILE | EXPRESSION]"
  match notice with
  | .misuse => IO.eprintln usage
  | .help => IO.println usage
  | .version => IO.println "reckon 0.1.0"
  return UInt32.ofNat notice.code

end Calculator.Command

open Calculator in
def main (arguments : List String) : IO UInt32 := do
  match Options.ofArguments arguments with
  | .error notice => Command.announce notice
  | .ok options =>
      let input ← IO.getStdin
      match options.input, options.expression with
      | some path, _ =>
          let content ← Command.readFile path
          Command.deliver (options.run ⟨fun _ => content, .terminal []⟩)
      | none, some _ => Command.deliver (options.run ⟨fun _ => .error .notFound, .terminal []⟩)
      | none, none =>
          if ← input.isTty then
            Command.converse input
            return 0
          else
            let bytes ← input.readBinToEnd
            Command.deliver (options.run ⟨fun _ => .error .notFound, .pipe bytes⟩)
