import Calculator.Token.Basic
import Calculator.Unicode.Letter
import Calculator.Unicode.Numeric

/-!
Cutting a source text into pieces: tokens, blanks, newlines, comments and single unknown
characters. Each piece is as long as its pattern allows, and a piece with the text behind it gives
back the text it was cut from.
-/

namespace Calculator

/-- What a piece of source text is. -/
inductive Piece.Kind where
  | token (kind : Token.Kind)
  | blanks
  | newline
  | comment
  | unknown
deriving DecidableEq

/-- A piece cut from the front of a text, and the text behind it. -/
structure Piece where
  kind : Piece.Kind
  text : List Char
  rest : List Char

def isBlank (c : Char) : Bool :=
  c == ' ' || c == '\t' || c == '\r' || c == '\x0c'

/-- The characters that may follow the first letter of an identifier. -/
def isIdentifierPart (c : Char) : Bool :=
  Unicode.isLetter c || Unicode.isNumeric c

def isHexDigit (c : Char) : Bool :=
  c.isDigit || ('a' ≤ c && c ≤ 'f') || ('A' ≤ c && c ≤ 'F')

def isBinDigit (c : Char) : Bool :=
  c == '0' || c == '1'

/-- The category of a token that is one character other than a slash. -/
def Token.Kind.ofSymbol? : Char → Option Token.Kind
  | '+' => some .plus
  | '-' => some .minus
  | '*' => some .star
  | '^' => some .caret
  | '%' => some .percent
  | '&' => some .ampersand
  | '|' => some .pipe
  | '(' => some .leftParen
  | ')' => some .rightParen
  | ',' => some .comma
  | _ => none

namespace Piece

/-- The piece that consists of `lead` and all characters after it that satisfy `more`. -/
def run (kind : Kind) (lead : List Char) (more : Char → Bool) (rest : List Char) : Piece :=
  ⟨kind, lead ++ rest.takeWhile more, rest.dropWhile more⟩

/-- The digits at the front, with a point and the digits behind it where digits follow the point. -/
def decimal (source : List Char) : Piece :=
  let whole := source.takeWhile Char.isDigit
  match source.dropWhile Char.isDigit with
  | '.' :: d :: rest =>
      if d.isDigit then run (.token .floatLiteral) (whole ++ ['.']) Char.isDigit (d :: rest)
      else ⟨.token .intLiteral, whole, '.' :: d :: rest⟩
  | rest => ⟨.token .intLiteral, whole, rest⟩

def number (c : Char) (cs : List Char) : Piece :=
  match c, cs with
  | '0', 'x' :: rest => run (.token .hexLiteral) ['0', 'x'] isHexDigit rest
  | '0', 'b' :: rest => run (.token .binLiteral) ['0', 'b'] isBinDigit rest
  | _, _ => decimal (c :: cs)

/-- A comment, from two slashes up to but not including the next newline, or else one slash. -/
def slash (cs : List Char) : Piece :=
  match cs with
  | '/' :: rest => run .comment ['/', '/'] (· != '\n') rest
  | _ => ⟨.token .slash, ['/'], cs⟩

def first (c : Char) (cs : List Char) : Piece :=
  if Unicode.isLetter c then run (.token .identifier) [c] isIdentifierPart cs
  else if c.isDigit then number c cs
  else if isBlank c then run .blanks [c] isBlank cs
  else if c = '\n' then ⟨.newline, [c], cs⟩
  else if c = '/' then slash cs
  else
    match Token.Kind.ofSymbol? c with
    | some kind => ⟨.token kind, [c], cs⟩
    | none => ⟨.unknown, [c], cs⟩

@[simp] theorem run_text_append_rest (kind : Kind) (lead : List Char) (more : Char → Bool)
    (rest : List Char) : (run kind lead more rest).text ++ (run kind lead more rest).rest =
      lead ++ rest := by
  simp [run]

private theorem decimal_text_append_rest (source : List Char) :
    (decimal source).text ++ (decimal source).rest = source := by
  have hsplit := List.takeWhile_append_dropWhile (p := Char.isDigit) (l := source)
  unfold decimal
  dsimp only
  split
  · rename_i d rest heq
    rw [heq] at hsplit
    split
    · rw [run_text_append_rest]
      simpa using hsplit
    · exact hsplit
  · exact hsplit

private theorem number_text_append_rest (c : Char) (cs : List Char) :
    (number c cs).text ++ (number c cs).rest = c :: cs := by
  unfold number
  split
  · simp
  · simp
  · exact decimal_text_append_rest (c :: cs)

private theorem slash_text_append_rest (cs : List Char) :
    (slash cs).text ++ (slash cs).rest = '/' :: cs := by
  unfold slash
  split
  · simp
  · rfl

/-- Nothing is lost: a piece and the text behind it are the text it was cut from. -/
theorem first_text_append_rest (c : Char) (cs : List Char) :
    (first c cs).text ++ (first c cs).rest = c :: cs := by
  unfold first
  split
  · simp
  · split
    · exact number_text_append_rest c cs
    · split
      · simp
      · split
        · rfl
        · split
          · rename_i h
            subst h
            exact slash_text_append_rest cs
          · split <;> rfl

private theorem decimal_text_ne_nil (c : Char) (cs : List Char) (h : c.isDigit) :
    (decimal (c :: cs)).text ≠ [] := by
  have hwhole : (c :: cs).takeWhile Char.isDigit ≠ [] := by
    simp [h]
  unfold decimal
  dsimp only
  split
  · split
    · simp [run]
    · exact hwhole
  · exact hwhole

private theorem number_text_ne_nil (c : Char) (cs : List Char) (h : c.isDigit) :
    (number c cs).text ≠ [] := by
  unfold number
  split
  · simp [run]
  · simp [run]
  · exact decimal_text_ne_nil c cs h

/-- Every piece holds at least one character. -/
theorem first_text_ne_nil (c : Char) (cs : List Char) : (first c cs).text ≠ [] := by
  unfold first
  split
  · simp [run]
  · split
    · rename_i h
      exact number_text_ne_nil c cs h
    · split
      · simp [run]
      · split
        · simp
        · split
          · unfold slash
            split <;> simp [run]
          · split <;> simp

/-- No piece is the end of input. -/
theorem first_kind_ne_endOfInput (c : Char) (cs : List Char) :
    (first c cs).kind ≠ .token .endOfInput := by
  unfold first number decimal slash run
  dsimp only
  split
  · simp
  · split
    · split
      · simp
      · simp
      · split
        · split <;> simp
        · simp
    · split
      · simp
      · split
        · simp
        · split
          · split <;> simp
          · split
            · rename_i kind hsymbol
              unfold Token.Kind.ofSymbol? at hsymbol
              split at hsymbol <;> cases hsymbol <;> simp
            · simp

/-- What is left behind a piece is shorter than the text it was cut from. -/
theorem length_rest_first (c : Char) (cs : List Char) :
    (first c cs).rest.length < (c :: cs).length := by
  have happend := congrArg List.length (first_text_append_rest c cs)
  have hpos := List.length_pos_iff.mpr (first_text_ne_nil c cs)
  rw [List.length_append] at happend
  omega

end Piece

end Calculator
