/-!
The arguments of the command: `-i FILE` or `--input FILE`, the switches `-s`/`--scan`,
`-p`/`--parse` and `-v`/`--verbose`, and at most one expression, in any order. Short options can be
written together, a value can be attached to its option, and `--` ends the options. Nothing may be
given twice. Arguments are taken one by one: the first of them that breaks these rules, or that asks
for help or for the version, settles that there is no run.
-/

namespace Calculator

structure Options where
  input : Option String
  scan : Bool
  parse : Bool
  verbose : Bool
  expression : Option String
deriving DecidableEq

/-- What is shown in place of a run: how the command is used, after arguments that break the rules or
where they ask for it, or its version. -/
inductive Notice where
  | misuse
  | help
  | version
deriving DecidableEq

/-- The exit code. Only arguments that break the rules count as a failure. -/
def Notice.code : Notice → Nat
  | .misuse => 2
  | .help => 0
  | .version => 0

inductive Switch where
  | scan
  | parse
  | verbose
deriving DecidableEq

namespace Switch

def ofLetter? : Char → Option Switch
  | 's' => some .scan
  | 'p' => some .parse
  | 'v' => some .verbose
  | _ => none

def ofName? : String → Option Switch
  | "scan" => some .scan
  | "parse" => some .parse
  | "verbose" => some .verbose
  | _ => none

end Switch

namespace Options

def empty : Options :=
  ⟨none, false, false, false, none⟩

def turnOn (o : Options) : Switch → Except Notice Options
  | .scan => if o.scan then .error .misuse else .ok { o with scan := true }
  | .parse => if o.parse then .error .misuse else .ok { o with parse := true }
  | .verbose => if o.verbose then .error .misuse else .ok { o with verbose := true }

def withInput (o : Options) (file : String) : Except Notice Options :=
  if file = "" || o.input.isSome then .error .misuse else .ok { o with input := some file }

def withExpression (o : Options) (expression : String) : Except Notice Options :=
  if o.expression.isSome then .error .misuse else .ok { o with expression := some expression }

/-- Takes letters written together. All text behind the letter of the input file is the name of it,
less one equals sign at the front. The second result tells whether that name is still to come. -/
def letters (o : Options) : List Char → Except Notice (Options × Bool)
  | [] => .ok (o, false)
  | ['i'] => .ok (o, true)
  | 'i' :: '=' :: name => (o.withInput (String.ofList name)).map (·, false)
  | 'i' :: name => (o.withInput (String.ofList name)).map (·, false)
  | 'h' :: _ => .error .help
  | 'V' :: _ => .error .version
  | c :: rest =>
      match Switch.ofLetter? c with
      | none => .error .misuse
      | some switch => (o.turnOn switch).bind (letters · rest)

/-- Takes an option written by name, with the value behind the first equals sign if there is one.
The second result tells whether a value is still to come. -/
def long (o : Options) (text : List Char) : Except Notice (Options × Bool) :=
  let name := String.ofList (text.takeWhile (· != '='))
  match text.dropWhile (· != '=') with
  | [] =>
      if name = "input" then .ok (o, true)
      else if name = "help" then .error .help
      else if name = "version" then .error .version
      else
        match Switch.ofName? name with
        | none => .error .misuse
        | some switch => (o.turnOn switch).map (·, false)
  | _ :: value =>
      if name = "input" then (o.withInput (String.ofList value)).map (·, false) else .error .misuse

def expressions (o : Options) : List String → Except Notice Options
  | [] => .ok o
  | arg :: rest => (o.withExpression arg).bind (expressions · rest)

/-- Takes all arguments, the first of which may be `awaited` as the name of the input file. A lone
hyphen is no option. -/
def takeAll (o : Options) (awaited : Bool) : List String → Except Notice Options
  | [] => if awaited then .error .misuse else .ok o
  | arg :: rest =>
      match arg.toList with
      | ['-'] =>
          (if awaited then o.withInput arg else o.withExpression arg).bind (takeAll · false rest)
      | '-' :: text =>
          if awaited then .error .misuse
          else if text = ['-'] then o.expressions rest
          else
            let taken :=
              match text with
              | '-' :: name => o.long name
              | _ => o.letters text
            match taken with
            | .error notice => .error notice
            | .ok (o, awaited) => takeAll o awaited rest
      | _ => (if awaited then o.withInput arg else o.withExpression arg).bind (takeAll · false rest)

/-- The options that an argument list gives, if it keeps the rules and asks for nothing else. -/
def ofArguments (arguments : List String) : Except Notice Options :=
  empty.takeAll false arguments

end Options

end Calculator
