import Calculator.CommandLine.Run
import Calculator.Proofs.Scanning.Spacing

/-!
Reading a token table back. Every token has a line of its own, since no token goes over the end of a
line, and the line starts with the name of the category, which is made of letters, in a column of
fixed width.
-/

namespace Calculator

def readTableLine (line : List Char) : Option (Token.Kind × String) :=
  (Token.Kind.ofName? (String.ofList (line.takeWhile Char.isAlpha))).map
    (·, String.ofList (line.drop (tokenColumn + 2)))

namespace Token

theorem Kind.ofName?_name (kind : Kind) : Kind.ofName? kind.name = some kind := by
  cases kind <;> decide

theorem Kind.isAlpha_of_mem_name (kind : Kind) : ∀ c ∈ kind.name.toList, c.isAlpha := by
  have hall : kind.name.toList.all Char.isAlpha = true := by
    cases kind <;> rfl
  exact List.all_eq_true.mp hall

theorem Kind.length_name_le (kind : Kind) : kind.name.length ≤ tokenColumn := by
  cases kind <;> decide

def tableRow (t : Token) : List Char :=
  t.kind.name.toList ++
    (List.replicate (tokenColumn - t.kind.name.length) ' ' ++ ':' :: ' ' :: t.text.toList)

theorem toList_tableLine (t : Token) : t.tableLine.toList = t.tableRow ++ ['\n'] := by
  simp [tableLine, tableRow]

theorem readTableLine_tableRow (t : Token) : readTableLine t.tableRow = some (t.kind, t.text) := by
  have hname : t.tableRow.takeWhile Char.isAlpha = t.kind.name.toList := by
    rw [tableRow, List.takeWhile_append_of_pos t.kind.isAlpha_of_mem_name]
    cases tokenColumn - t.kind.name.length <;> simp [List.replicate_succ]
  have htext : t.tableRow.drop (tokenColumn + 2) = t.text.toList := by
    have hwidth := t.kind.length_name_le
    have hsplit : t.tableRow = t.kind.name.toList ++
        List.replicate (tokenColumn - t.kind.name.length) ' ' ++ [':', ' '] ++ t.text.toList := by
      simp [tableRow]
    rw [hsplit]
    apply List.drop_left'
    simp only [List.length_append, List.length_replicate, String.length_toList, List.length_cons,
      List.length_nil]
    omega
  rw [readTableLine, hname, htext, String.ofList_toList, String.ofList_toList, Kind.ofName?_name]
  rfl

/-- A line of the table holds no newline of its own. -/
theorem newline_not_mem_tableRow {t : Token} (h : t.lexeme.IsToken) : '\n' ∉ t.tableRow := by
  simp only [tableRow, List.mem_append, List.mem_cons, List.mem_replicate]
  rintro (hname | ⟨_, hblank⟩ | hcolon | hblank | htext)
  · exact absurd (t.kind.isAlpha_of_mem_name _ hname) (by decide)
  · exact absurd hblank (by decide)
  · exact absurd hcolon (by decide)
  · exact absurd hblank (by decide)
  · exact absurd (h.lt_toNat _ htext) (by decide)

end Token

def tableText (tokens : List Token) : String :=
  String.join (tokens.map Token.tableLine)

/-- A token table has one line for each of the tokens and nothing else, and the lines tell which
tokens they are. -/
theorem splitOn_tableText {tokens : List Token} (h : ∀ t ∈ tokens, t.lexeme.IsToken) :
    (tableText tokens).toList.splitOn '\n' = tokens.map Token.tableRow ++ [[]] := by
  induction tokens with
  | nil => rfl
  | cons t tokens ih =>
      have hrow := Token.newline_not_mem_tableRow (h t List.mem_cons_self)
      have htext : (tableText (t :: tokens)).toList =
          t.tableRow ++ '\n' :: (tableText tokens).toList := by
        simp [tableText, String.join_cons, Token.toList_tableLine]
      rw [htext, List.splitOn_append_cons_self_of_not_mem hrow,
        ih fun u hu => h u (List.mem_cons_of_mem t hu)]
      rfl

theorem Outcome.after_after (first second : String) (later : Outcome) :
    (later.after second).after first = later.after (first ++ second) := by
  simp [after, String.append_assoc]

/-- The tokens before the first unknown character make up the table, and the unknown character is
reported. -/
theorem tokenTable_append (tokens : List Token) (items : List Item) :
    tokenTable (tokens.map .ok ++ items) = (tokenTable items).after (tableText tokens) := by
  induction tokens with
  | nil => simp [tableText, Outcome.after]
  | cons t tokens ih =>
      rw [List.map_cons, List.cons_append, tokenTable, ih, Outcome.after_after]
      simp [tableText, String.join_cons]

theorem tokenTable_of_tokens (tokens : List Token) :
    tokenTable (tokens.map .ok) = .success (tableText tokens) := by
  have happend := tokenTable_append tokens []
  rw [List.append_nil] at happend
  simp [happend, tokenTable, Outcome.after, Outcome.success]

theorem tokenTable_of_unknown (tokens : List Token) (found : UnknownCharacter)
    (behind : List Item) :
    tokenTable (tokens.map .ok ++ .error found :: behind) =
      ⟨1, tableText tokens, (SyntaxError.unknownCharacter found).message ++ "\n"⟩ := by
  simp [tokenTable_append, tokenTable, Outcome.after, Outcome.failure]

theorem exists_tokens_before_unknown (items : List Item) :
    ∃ tokens : List Token, items = tokens.map .ok ∨
      ∃ found behind, items = tokens.map .ok ++ .error found :: behind := by
  induction items with
  | nil => exact ⟨[], .inl rfl⟩
  | cons item items ih =>
      cases item with
      | error found => exact ⟨[], .inr ⟨found, items, rfl⟩⟩
      | ok t =>
          obtain ⟨tokens, rfl | ⟨found, behind, rfl⟩⟩ := ih
          · exact ⟨t :: tokens, .inl rfl⟩
          · exact ⟨t :: tokens, .inr ⟨found, behind, rfl⟩⟩

end Calculator
