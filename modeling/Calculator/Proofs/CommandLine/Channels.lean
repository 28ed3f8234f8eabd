import Calculator.Proofs.CommandLine.Table
import Calculator.Proofs.Grammar.Acceptance

/-!
The command and the library. Whichever way a source text is handed to the command, it does the same
with it; it shows the value or the outline of what is calculated, or the one error; and it can scan
what it can calculate.
-/

namespace Calculator

/-- What is encoded can be decoded. -/
theorem decodeText_toByteArray (source : String) : decodeText source.toByteArray = .ok source := by
  rw [decodeText, String.fromUTF8?, dif_pos source.isValidUTF8]
  rfl

/-- The name of a file that can be an argument of its own: it is no option. -/
structure FileName where
  name : String
  nonempty : name ≠ ""
  no_option : ∀ rest, name.toList = '-' :: rest → rest = []

/-- The ways of handing a source text to the command. -/
inductive Channel where
  | argument
  | file (input : FileName)
  | pipe

namespace Channel

def arguments (channel : Channel) (source : String) : List String :=
  match channel with
  | .argument => ["--", source]
  | .file input => ["--input", input.name]
  | .pipe => []

/-- The surroundings in which the source text is where the arguments say. -/
def supply (channel : Channel) (source : String) (surroundings : Surroundings) : Surroundings :=
  match channel with
  | .argument => surroundings
  | .file input =>
      { surroundings with
        readFile := fun path =>
          if path = input.name then .ok source.toUTF8 else surroundings.readFile path }
  | .pipe => { surroundings with standardInput := .pipe source.toUTF8 }

end Channel

def Mode.switches : Mode → List String
  | .scan => ["--scan"]
  | .parse => ["--parse"]
  | .calculate => []

namespace Options

def ofMode (mode : Mode) : Options :=
  { empty with scan := mode = .scan, parse := mode = .parse }

theorem run_eq_mode_run {o : Options} {mode : Mode} {surroundings : Surroundings} {source : String}
    (hmode : o.mode = mode) (h : o.subject surroundings = .ok (.text source)) :
    o.run surroundings = mode.run source := by
  rw [run, h, hmode]

theorem ofArguments_argument (mode : Mode) (source : String) :
    ofArguments (mode.switches ++ ["--", source]) =
      .ok { ofMode mode with expression := some source } := by
  cases mode <;> rfl

theorem ofArguments_pipe (mode : Mode) : ofArguments mode.switches = .ok (ofMode mode) := by
  cases mode <;> rfl

/-- The argument behind `--input` is the name of the input file. -/
theorem takeAll_awaited (o : Options) (h : o.input = none) (file : FileName) :
    o.takeAll true [file.name] = .ok { o with input := some file.name } := by
  have hinput : o.withInput file.name = .ok { o with input := some file.name } := by
    simp [withInput, file.nonempty, h]
  have hplain := file.no_option
  rw [takeAll]
  split
  · simp [hinput, takeAll, Except.bind]
  · rename_i rest hhyphen hname
    exact absurd (hplain rest hname) hhyphen
  · simp [hinput, takeAll, Except.bind]

theorem ofArguments_file (mode : Mode) (file : FileName) :
    ofArguments (mode.switches ++ ["--input", file.name]) =
      .ok { ofMode mode with input := some file.name } := by
  have hname := takeAll_awaited (ofMode mode) (by cases mode <;> rfl) file
  rw [← hname]
  cases mode <;> rfl

end Options

/-- The command does the same with a source text whichever way it is given. -/
theorem runCommand_channel (mode : Mode) (channel : Channel) (source : String)
    (surroundings : Surroundings) :
    runCommand (mode.switches ++ channel.arguments source) (channel.supply source surroundings) =
      .ok (mode.run source) := by
  cases channel with
  | argument =>
      rw [Channel.arguments, runCommand, Options.ofArguments_argument]
      exact congrArg Except.ok (Options.run_eq_mode_run (by cases mode <;> rfl) rfl)
  | file input =>
      rw [Channel.arguments, runCommand, Options.ofArguments_file]
      apply congrArg Except.ok (Options.run_eq_mode_run (by cases mode <;> rfl) _)
      simp [Options.subject, Options.ofMode, Options.empty, Channel.supply, Except.bind,
        decodeText_toByteArray]
  | pipe =>
      rw [Channel.arguments, runCommand, List.append_nil, Options.ofArguments_pipe]
      apply congrArg Except.ok (Options.run_eq_mode_run (by cases mode <;> rfl) _)
      simp [Options.subject, Options.ofMode, Options.empty, Channel.supply, decodeText_toByteArray]

/-- Where the library calculates a value, the command shows that value, or the outline of the
expression that it is the value of. -/
theorem Mode.run_of_calculate_ok {mode : Mode} {source : String} {value : Binary64}
    (hmode : mode ≠ .scan) (h : Calculator.calculate source = .ok value) :
    ∃ e, Expr.parse source = .ok e ∧
      mode.run source = .success (if mode = .parse then e.outlineText else value.text ++ "\n") := by
  obtain ⟨e, type, hparse, hanalysis, rfl⟩ := exists_of_calculate_eq_ok h
  refine ⟨e, hparse, ?_⟩
  rw [run, if_neg hmode, hparse]
  simp only [hanalysis]
  split <;> rfl

/-- Where the library finds an error, the command reports the same one. -/
theorem Mode.run_of_calculate_error {mode : Mode} {source : String} {problem : Diagnostic}
    (hmode : mode ≠ .scan) (h : Calculator.calculate source = .error problem) :
    mode.run source = .failure problem.message := by
  rw [run, if_neg hmode]
  rcases parse_or_analyze_of_calculate h with ⟨e, rfl, hparse⟩ | ⟨e, tree, rfl, hparse, hanalysis⟩
  · rw [hparse]
    rfl
  · rw [hparse]
    simp only [hanalysis]
    rfl

theorem Mode.run_scan (source : String) :
    Mode.scan.run source = tokenTable (Scanner.ofString source).itemList.items :=
  if_pos rfl

/-- A text that is read as an expression is scanned without an error. -/
theorem scan_of_parse {source : String} {e : Expr} (h : Expr.parse source = .ok e) :
    (Mode.scan.run source).code = 0 := by
  obtain ⟨tokens, hitems, _⟩ := Grammar.derivation_of_whole h
  rw [Mode.run_scan, hitems, tokenTable_of_tokens]
  rfl

/-- The command is faithful to the library. Every way of handing a text to it leads to the same
outcome in the same mode. If the text is calculated, the command shows the value or, asked for it,
the outline of the expression, and it can also scan the text; and if not, it reports the one error
in either mode. Scanning shows a line for each token before the first unknown character, from which
its category and its text can be read back, and then reports the unknown character if there is
one. -/
theorem runCommand_faithful (source : String) :
    (∀ (mode : Mode) (channel : Channel) (surroundings : Surroundings),
      runCommand (mode.switches ++ channel.arguments source) (channel.supply source surroundings) =
        .ok (mode.run source)) ∧
    (∀ value, calculate source = .ok value →
      Mode.calculate.run source = ⟨0, value.text ++ "\n", ""⟩ ∧
        (∃ e, Expr.parse source = .ok e ∧ Mode.parse.run source = ⟨0, e.outlineText, ""⟩) ∧
        (Mode.scan.run source).code = 0) ∧
    (∀ problem, calculate source = .error problem →
      Mode.calculate.run source = ⟨1, "", problem.message ++ "\n"⟩ ∧
        Mode.parse.run source = ⟨1, "", problem.message ++ "\n"⟩) ∧
    ∃ (tokens : List Token) (lines : List (List Char)),
      (Mode.scan.run source).output.toList.splitOn '\n' = lines ++ [[]] ∧
      lines.map readTableLine = tokens.map (fun t => some (t.kind, t.text)) ∧
      ((Scanner.ofString source).itemList.items = tokens.map .ok ∧
          (Mode.scan.run source).code = 0 ∧ (Mode.scan.run source).errors = "" ∨
        ∃ found behind,
          (Scanner.ofString source).itemList.items = tokens.map .ok ++ .error found :: behind ∧
            (Mode.scan.run source).code = 1 ∧
            (Mode.scan.run source).errors =
              (SyntaxError.unknownCharacter found).message ++ "\n") := by
  have hcalculateMode : Mode.calculate ≠ .scan := by decide
  have hparseMode : Mode.parse ≠ .scan := by decide
  refine ⟨fun mode channel => runCommand_channel mode channel source, ?_, ?_, ?_⟩
  · intro value h
    obtain ⟨e, hparse, hvalue⟩ := Mode.run_of_calculate_ok hcalculateMode h
    obtain ⟨e', hparse', houtline⟩ := Mode.run_of_calculate_ok hparseMode h
    exact ⟨hvalue, ⟨e', hparse', houtline⟩, scan_of_parse hparse⟩
  · intro problem h
    exact ⟨Mode.run_of_calculate_error hcalculateMode h, Mode.run_of_calculate_error hparseMode h⟩
  · obtain ⟨tokens, hitems⟩ :=
      exists_tokens_before_unknown (Scanner.ofString source).itemList.items
    have htokens : ∀ t ∈ tokens, t.lexeme.IsToken := by
      intro t ht
      apply @Scanner.isToken_of_mem_itemList source
      rcases hitems with hitems | ⟨found, behind, hitems⟩
      · rw [hitems]
        exact List.mem_map_of_mem ht
      · rw [hitems]
        exact List.mem_append_left _ (List.mem_map_of_mem ht)
    refine ⟨tokens, tokens.map Token.tableRow, ?_, ?_, ?_⟩
    · rw [← splitOn_tableText htokens, Mode.run_scan]
      rcases hitems with hitems | ⟨found, behind, hitems⟩
      · rw [hitems, tokenTable_of_tokens]
        rfl
      · rw [hitems, tokenTable_of_unknown]
    · rw [List.map_map]
      exact List.map_congr_left fun t _ => t.readTableLine_tableRow
    · rw [Mode.run_scan]
      rcases hitems with hitems | ⟨found, behind, hitems⟩
      · rw [hitems, tokenTable_of_tokens]
        exact .inl ⟨rfl, rfl, rfl⟩
      · rw [hitems, tokenTable_of_unknown]
        exact .inr ⟨found, behind, rfl, rfl, rfl⟩

end Calculator
