import Calculator.CommandLine.Options
import Calculator.CommandLine.Prompt
import Calculator.CommandLine.Text
import Calculator.Expr.Outline

/-!
A run of the command. The source text is the expression among the arguments, the input file, or
what standard input holds; without any of them the prompt is started. A text is scanned, or checked
and shown as an outline, or calculated. The log that `--verbose` asks for is left out.
-/

namespace Calculator

/-- Standard input: lines typed at a terminal, or bytes from a pipe. -/
inductive StandardInput where
  | terminal (lines : List String)
  | pipe (bytes : ByteArray)

/-- What a run can read. -/
structure Surroundings where
  readFile : String → Except ReadFailure ByteArray
  standardInput : StandardInput

/-- What the command works on: a source text, or lines typed at the prompt. -/
inductive Subject where
  | text (source : String)
  | lines (typed : List String)

inductive SubjectError where
  | tooManyArguments
  | file (name : String) (failure : ReadFailure)
  | standardInput (failure : ReadFailure)
deriving DecidableEq

def SubjectError.message : SubjectError → String
  | .tooManyArguments => "too many arguments"
  | .file name failure => "Failed to read the input file '" ++ name ++ "': " ++ failure.reason
  | .standardInput failure => failure.reason

inductive Mode where
  | scan
  | parse
  | calculate
deriving DecidableEq

namespace Options

/-- The mode that the switches ask for; scanning comes first. -/
def mode (o : Options) : Mode :=
  if o.scan then .scan else if o.parse then .parse else .calculate

/-- What the options say to work on. A file and an expression cannot both be given; without either
the source is standard input. -/
def subject (o : Options) (surroundings : Surroundings) : Except SubjectError Subject :=
  match o.input, o.expression with
  | some _, some _ => .error .tooManyArguments
  | some file, none =>
      match (surroundings.readFile file).bind decodeText with
      | .ok text => .ok (.text text)
      | .error failure => .error (.file file failure)
  | none, some expression => .ok (.text expression)
  | none, none =>
      match surroundings.standardInput with
      | .terminal lines => .ok (.lines lines)
      | .pipe bytes =>
          match decodeText bytes with
          | .ok text => .ok (.text text)
          | .error failure => .error (.standardInput failure)

end Options

def tokenColumn : Nat := 12

def Token.tableLine (t : Token) : String :=
  let name := t.kind.name
  name ++ String.ofList (List.replicate (tokenColumn - name.length) ' ') ++ ": " ++ t.text ++ "\n"

/-- The token table of the items before the first unknown character, which is reported. -/
def tokenTable : List Item → Outcome
  | [] => .success ""
  | .ok t :: rest => (tokenTable rest).after t.tableLine
  | .error found :: _ => .failure (SyntaxError.unknownCharacter found).message

/-- What the command does with a source text. It takes the steps of a calculation by itself, and
shows the expression or its value once the analysis is passed. -/
def Mode.run (mode : Mode) (source : String) : Outcome :=
  if mode = .scan then tokenTable (Scanner.ofString source).itemList.items
  else
    match Expr.parse source with
    | .error e => .failure e.message
    | .ok expr =>
        match expr.analyze with
        | .error e => .failure e.message
        | .ok _ =>
            if mode = .parse then .success expr.outlineText
            else .success (expr.evaluate.text ++ "\n")

def Options.run (o : Options) (surroundings : Surroundings) : Outcome :=
  match o.subject surroundings with
  | .error problem => .failure problem.message
  | .ok (.text source) => o.mode.run source
  | .ok (.lines typed) => Prompt.session typed

/-- What the command does with its arguments, unless it shows a notice instead. -/
def runCommand (arguments : List String) (surroundings : Surroundings) : Except Notice Outcome :=
  (Options.ofArguments arguments).map (·.run surroundings)

end Calculator
