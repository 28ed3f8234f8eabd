import Calculator.Calculate
import Calculator.Proofs.Diagnostics.Cause
import Calculator.Proofs.Lines.Order
import Calculator.Proofs.Lookahead.Hopeless

/-!
The text that reports an error. It is one line, it begins with the line of the source that the error
is about, and what it quotes of the source stands there on that line.
-/

namespace Calculator

/-- What the message of an error quotes of the source. -/
def SyntaxError.quoted? : SyntaxError → Option String
  | .unknownCharacter found => some (String.singleton found.character)
  | .invalidNumber literal _ => some literal
  | .unknownIdentifier name _ => some name
  | .unexpectedToken token _ => some token
  | .unexpectedTrailingTokens token _ => some token
  | .unexpectedEndOfInput _ | .expectedClosingParen _ | .nestingTooDeep _ => none

def AnalysisError.quoted : AnalysisError → String
  | .illegalOperands op _ => op.symbol
  | .arityMismatch f _ _ => f.name

def Diagnostic.quoted? : Diagnostic → Option String
  | .malformed e => e.quoted?
  | .illTyped e => some e.quoted

def OneLine (words : String) : Prop :=
  '\n' ∉ words.toList

namespace OneLine

variable {words more : String}

theorem append (h : OneLine words) (h' : OneLine more) : OneLine (words ++ more) := by
  rw [OneLine, String.toList_append, List.mem_append]
  exact not_or.mpr ⟨h, h'⟩

theorem empty : OneLine "" := by
  simp [OneLine]

theorem repr (n : Nat) : OneLine (Nat.repr n) := by
  intro hmem
  rw [Nat.toList_repr] at hmem
  have hdigit := Nat.isDigit_of_mem_toDigits (by decide) (by decide) hmem
  exact absurd hdigit (by decide)

end OneLine

/-- The words quote the lexeme: they are that within words without a newline. -/
def Quotes (words lexeme : String) : Prop :=
  ∃ front behind, words = front ++ lexeme ++ behind ∧ OneLine front ∧ OneLine behind

namespace Quotes

variable {words lexeme : String}

theorem oneLine (h : Quotes words lexeme) (hlexeme : OneLine lexeme) : OneLine words := by
  obtain ⟨front, behind, rfl, hfront, hbehind⟩ := h
  exact (hfront.append hlexeme).append hbehind

theorem nothing (h : OneLine words) : Quotes words "" :=
  ⟨words, "", by simp, h, .empty⟩

theorem append_left {front : String} (hfront : OneLine front) (h : Quotes words lexeme) :
    Quotes (front ++ words) lexeme := by
  obtain ⟨front', behind, rfl, hfront', hbehind⟩ := h
  refine ⟨front ++ front', behind, ?_, hfront.append hfront', hbehind⟩
  simp only [String.append_assoc]

end Quotes

/-- An error is described by what it quotes, if it quotes anything. -/
theorem SyntaxError.quotes_description (e : SyntaxError) :
    Quotes e.description (e.quoted?.getD "") := by
  cases e with
  | unknownCharacter found =>
      have hcolumn : OneLine ("' at column " ++ Nat.repr found.position.column ++ ".") :=
        (OneLine.append (by simp [OneLine]) (.repr _)).append (by simp [OneLine])
      refine ⟨"Unknown character '", _, ?_, by simp [OneLine], hcolumn⟩
      rw [← String.append_assoc, ← String.append_assoc]
      rfl
  | invalidNumber literal _ => exact ⟨_, _, rfl, by simp [OneLine], by simp [OneLine]⟩
  | unknownIdentifier name _ => exact ⟨_, _, rfl, by simp [OneLine], by simp [OneLine]⟩
  | unexpectedToken token _ => exact ⟨_, _, rfl, by simp [OneLine], by simp [OneLine]⟩
  | unexpectedTrailingTokens token _ =>
      exact ⟨_, "", String.append_empty.symm, by simp [OneLine], .empty⟩
  | unexpectedEndOfInput _ =>
      have hwords : OneLine "Unexpected end of input." := by simp [OneLine]
      exact .nothing hwords
  | expectedClosingParen _ =>
      have hwords : OneLine "Expected closing parenthesis ')' but none found." := by simp [OneLine]
      exact .nothing hwords
  | nestingTooDeep _ =>
      have hwords : OneLine "Expression is nested too deeply." := by simp [OneLine]
      exact .nothing hwords

theorem AnalysisError.quotes_description (e : AnalysisError) :
    Quotes e.description e.quoted := by
  cases e with
  | illegalOperands op _ => exact ⟨_, _, rfl, by simp [OneLine], by simp [OneLine]⟩
  | arityMismatch f found _ =>
      have hfront : OneLine ("Expected " ++ Nat.repr f.arity ++ " arguments in ") :=
        (OneLine.append (by simp [OneLine]) (.repr _)).append (by simp [OneLine])
      have hbehind : OneLine (", got " ++ Nat.repr found ++ ".") :=
        (OneLine.append (by simp [OneLine]) (.repr _)).append (by simp [OneLine])
      refine ⟨_, _, ?_, hfront, hbehind⟩
      rw [← String.append_assoc, ← String.append_assoc]
      rfl

def Diagnostic.description : Diagnostic → String
  | .malformed e => e.description
  | .illTyped e => e.description

/-- Every message names the line of its error, and describes the error behind that. -/
theorem Diagnostic.message_eq (problem : Diagnostic) :
    problem.message =
      "Error on line " ++ Nat.repr problem.line ++ ": " ++ problem.description := by
  cases problem <;> rfl

theorem Diagnostic.quotes_message (problem : Diagnostic) :
    Quotes problem.message (problem.quoted?.getD "") := by
  have hfront : OneLine ("Error on line " ++ Nat.repr problem.line ++ ": ") :=
    (OneLine.append (by simp [OneLine]) (.repr _)).append (by simp [OneLine])
  rw [message_eq]
  refine .append_left hfront ?_
  cases problem with
  | malformed e => exact e.quotes_description
  | illTyped e => exact e.quotes_description

/-- Every item but the end of input has a text. -/
theorem Scanner.text_ne_nil_of_mem {source : String} {item : Item}
    (h : item ∈ (ofString source).itemList.toList) (hend : item.isEnd = false) :
    item.text ≠ [] := by
  cases item with
  | error found => exact List.cons_ne_nil _ _
  | ok t =>
      rcases List.mem_append.mp h with h | h
      · exact (isToken_of_mem_itemList h).text_ne_nil
      · rw [List.mem_singleton] at h
        rw [h] at hend
        cases hend

/-- What an error of the parser quotes is the text of the item that it is about, and that is not the
end of input. -/
theorem SyntaxError.About.quoted {e : SyntaxError} {item : Item} (h : e.About item)
    {lexeme : String} (hquoted : e.quoted? = some lexeme) :
    lexeme.toList = item.text ∧ item.isEnd = false := by
  cases h with
  | unknownCharacter found =>
      cases hquoted
      exact ⟨String.toList_singleton _, rfl⟩
  | unknownIdentifier name identifier =>
      cases hquoted
      exact ⟨rfl, by simp [Item.isEnd, identifier]⟩
  | nestingTooDeep t => cases hquoted
  | grammatical t raised =>
      cases raised with
      | invalidNumber numeral _ =>
          cases hquoted
          have hend : t.kind ≠ .endOfInput := by
            intro hend
            simp [hend] at numeral
          exact ⟨rfl, by simp [Item.isEnd, hend]⟩
      | unexpectedToken before_end | unexpectedTrailingTokens before_end =>
          cases hquoted
          exact ⟨rfl, by simp [Item.isEnd, before_end]⟩
      | unexpectedEndOfInput _ | expectedClosingParen _ => cases hquoted

/-- A token that writes a symbol is that symbol. -/
theorem Matches.eq_singleton {kind : Token.Kind} {text : List Char} {c : Char}
    (h : Matches (.token kind) text) (hsymbol : kind.symbol? = some c) : text = [c] := by
  cases h with
  | symbol writes =>
      rw [writes] at hsymbol
      rw [Option.some.inj hsymbol]
  | identifier _ _ | decimal _ _ | fractional _ _ _ _ | hex _ | bin _ => cases hsymbol

theorem Operator.exists_symbol?_of_ofKind? {kind : Token.Kind} {op : Operator}
    (h : ofKind? kind = some op) : ∃ c, kind.symbol? = some c ∧ op.symbol.toList = [c] := by
  cases kind <;> cases h <;> exact ⟨_, rfl, rfl⟩

/-- What an error of the analysis quotes is the text of the token that writes what is wrong. -/
theorem Token.toList_quoted {t : Token} {problem : AnalysisError} (htoken : t.lexeme.IsToken)
    (h : t.Offends problem) : problem.quoted.toList = t.text.toList := by
  cases problem with
  | illegalOperands op _ =>
      obtain ⟨kind, hkind, hmatches⟩ := htoken
      obtain ⟨c, hsymbol, hop⟩ := Operator.exists_symbol?_of_ofKind? h
      exact hop.trans (hmatches.eq_singleton hsymbol).symm
  | arityMismatch f _ _ =>
      have hname : f.name = t.text := by
        simpa using List.find?_some h.2
      exact congrArg String.toList hname

/-- The error is about words that stand on its line of the source, and it quotes nothing else. -/
theorem Diagnostic.exists_onLine {source : String} {problem : Diagnostic}
    (h : calculate source = .error problem) :
    ∃ words, OnLine words problem.line source.toList ∧
      ∀ lexeme, problem.quoted? = some lexeme → lexeme.toList = words ∧ words ≠ [] := by
  rcases parse_or_analyze_of_calculate h with ⟨e, rfl, hparse⟩ | ⟨e, tree, rfl, hparse, hanalysis⟩
  · obtain ⟨item, hmem, habout⟩ := Expr.exists_about_of_parse hparse
    have honline := (Scanner.standsIn_of_mem hmem).onLine
    rw [← habout.line_eq] at honline
    refine ⟨item.text, honline, fun lexeme hquoted => ?_⟩
    obtain ⟨htext, hend⟩ := habout.quoted hquoted
    exact ⟨htext, Scanner.text_ne_nil_of_mem hmem hend⟩
  · obtain ⟨tokens, hitems, hread, _, hstanding⟩ := Expr.exists_readFrom hparse
    obtain ⟨node, _, _, t, ht, _, hoffends, hline⟩ := Expr.exists_offender hread hanalysis
    have htoken : t.lexeme.IsToken := by
      apply Scanner.isToken_of_mem_itemList
      rw [hitems]
      exact List.mem_map_of_mem ht
    have honline : OnLine t.text.toList e.line source.toList := hline ▸ hstanding t ht
    refine ⟨t.text.toList, honline, fun lexeme hquoted => ?_⟩
    cases hquoted
    exact ⟨Token.toList_quoted htoken hoffends, htoken.text_ne_nil⟩

theorem Diagnostic.oneLine_message {source : String} {problem : Diagnostic}
    (h : calculate source = .error problem) : OneLine problem.message := by
  obtain ⟨words, honline, hwords⟩ := exists_onLine h
  apply problem.quotes_message.oneLine
  cases hquoted : problem.quoted? with
  | none => exact .empty
  | some lexeme =>
      rw [Option.getD_some, OneLine, (hwords lexeme hquoted).1]
      exact honline.1

/-- An unknown character stands in its column of its line. -/
theorem UnknownCharacter.exists_lineOf? {found : UnknownCharacter} {source : List Char}
    (h : Item.StandsIn (.error found) source) :
    ∃ text, lineOf? source found.position.line = some text ∧ 1 ≤ found.position.column ∧
      text[found.position.column - 1]? = some found.character := by
  obtain ⟨hline, before, rest, rfl, hposition⟩ := h
  obtain ⟨behind, hbehind⟩ := Calculator.exists_lineOf? before hline rest
  rw [Item.position, Position.advance_start] at hposition
  rw [hposition]
  refine ⟨_, hbehind, Nat.le_add_right 1 _, ?_⟩
  rw [Nat.add_sub_cancel_left, List.append_assoc, List.getElem?_append_right (Nat.le_refl _),
    Nat.sub_self]
  rfl

theorem Diagnostic.exists_lineOf?_of_unknownCharacter {source : String} {found : UnknownCharacter}
    (h : calculate source = .error (.malformed (.unknownCharacter found))) :
    ∃ text, lineOf? source.toList found.position.line = some text ∧ 1 ≤ found.position.column ∧
      text[found.position.column - 1]? = some found.character := by
  rcases parse_or_analyze_of_calculate h with ⟨e, heq, hparse⟩ | ⟨e, tree, heq, _⟩
  · cases heq
    obtain ⟨item, hmem, habout⟩ := Expr.exists_about_of_parse hparse
    cases habout with
    | unknownCharacter => exact UnknownCharacter.exists_lineOf? (Scanner.standsIn_of_mem hmem)
    | grammatical t raised => cases raised
  · cases heq

namespace Diagnostic

/-- Every error is reported by one line that points into the source. The message begins with the
number of a line of the source. An unknown character is the one that stands in the reported column
of that line, and whatever a message quotes is a part of that line. -/
theorem message_points_into_source {source : String} {problem : Diagnostic}
    (h : calculate source = .error problem) :
    '\n' ∉ problem.message.toList ∧
    problem.message =
      "Error on line " ++ Nat.repr problem.line ++ ": " ++ problem.description ∧
    1 ≤ problem.line ∧ problem.line ≤ 1 + source.toList.count '\n' ∧
    (∀ found, problem = .malformed (.unknownCharacter found) →
      ∃ text, lineOf? source.toList found.position.line = some text ∧
        1 ≤ found.position.column ∧
        text[found.position.column - 1]? = some found.character) ∧
    ∀ lexeme, problem.quoted? = some lexeme →
      lexeme ≠ "" ∧
      (∃ front behind, problem.message = front ++ lexeme ++ behind) ∧
      ∃ text, lineOf? source.toList problem.line = some text ∧ lexeme.toList <:+: text := by
  obtain ⟨words, honline, hwords⟩ := exists_onLine h
  refine ⟨oneLine_message h, problem.message_eq, honline.line_bounds.1, honline.line_bounds.2, ?_,
    ?_⟩
  · rintro found rfl
    exact exists_lineOf?_of_unknownCharacter h
  · intro lexeme hquoted
    obtain ⟨hlexeme, hne⟩ := hwords lexeme hquoted
    have hquotes := problem.quotes_message
    rw [hquoted, Option.getD_some] at hquotes
    obtain ⟨front, behind, hmessage, _, _⟩ := hquotes
    refine ⟨?_, ⟨front, behind, hmessage⟩, ?_⟩
    · rintro rfl
      exact hne hlexeme.symm
    · rw [hlexeme]
      exact honline.exists_lineOf?

/-- An unknown character in the fourth column of the second line. -/
theorem message_points_into_source_of_two_lines :
    calculate "1 +\n 2 @ 3" = .error (.malformed (.unknownCharacter ⟨'@', ⟨2, 4⟩⟩)) ∧
      '\n' ∉ (message (.malformed (.unknownCharacter ⟨'@', ⟨2, 4⟩⟩))).toList ∧
      (∃ text, lineOf? "1 +\n 2 @ 3".toList 2 = some text ∧ 1 ≤ 4 ∧ text[4 - 1]? = some '@') ∧
      ∃ text, lineOf? "1 +\n 2 @ 3".toList 2 = some text ∧ "@".toList <:+: text := by
  have h : calculate "1 +\n 2 @ 3" = .error (.malformed (.unknownCharacter ⟨'@', ⟨2, 4⟩⟩)) := by
    decide +kernel
  obtain ⟨hline, _, _, _, hfound, hquoted⟩ := message_points_into_source h
  exact ⟨h, hline, hfound _ rfl, (hquoted _ rfl).2.2⟩

end Diagnostic

end Calculator
