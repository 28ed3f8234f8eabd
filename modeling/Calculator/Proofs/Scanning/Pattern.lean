import Calculator.Token.Piece

/-!
The patterns of the tokens, stated without a scanner, and what it means to cut a text by longest
match: the piece at the front is the longest prefix that some pattern matches, a comment goes on
to the end of its line, and a character that starts no match stands alone.
-/

namespace Calculator

def Blank (c : Char) : Prop :=
  c = ' ' ∨ c = '\t' ∨ c = '\r' ∨ c = '\x0c'

def HexDigit (c : Char) : Prop :=
  c.isDigit ∨ ('a' ≤ c ∧ c ≤ 'f') ∨ ('A' ≤ c ∧ c ≤ 'F')

def BinDigit (c : Char) : Prop :=
  c = '0' ∨ c = '1'

def Token.Kind.symbol? : Token.Kind → Option Char
  | .plus => some '+'
  | .minus => some '-'
  | .star => some '*'
  | .slash => some '/'
  | .caret => some '^'
  | .percent => some '%'
  | .ampersand => some '&'
  | .pipe => some '|'
  | .leftParen => some '('
  | .rightParen => some ')'
  | .comma => some ','
  | _ => none

/-- The texts that the pattern of each kind of piece matches. The pattern of comments matches only
the two slashes that open one, and nothing is a match for the kind `unknown`. -/
inductive Matches : Piece.Kind → List Char → Prop where
  | identifier {c : Char} {cs : List Char} (first : Unicode.isLetter c)
      (others : ∀ d ∈ cs, Unicode.isLetter d ∨ Unicode.isNumeric d) :
      Matches (.token .identifier) (c :: cs)
  | decimal {digits : List Char} (nonempty : digits ≠ []) (all : ∀ d ∈ digits, d.isDigit) :
      Matches (.token .intLiteral) digits
  | fractional {whole fraction : List Char} (left : whole ≠ []) (right : fraction ≠ [])
      (allLeft : ∀ d ∈ whole, d.isDigit) (allRight : ∀ d ∈ fraction, d.isDigit) :
      Matches (.token .floatLiteral) (whole ++ '.' :: fraction)
  | hex {digits : List Char} (all : ∀ d ∈ digits, HexDigit d) :
      Matches (.token .hexLiteral) ('0' :: 'x' :: digits)
  | bin {digits : List Char} (all : ∀ d ∈ digits, BinDigit d) :
      Matches (.token .binLiteral) ('0' :: 'b' :: digits)
  | symbol {kind : Token.Kind} {c : Char} (writes : kind.symbol? = some c) :
      Matches (.token kind) [c]
  | slashes : Matches .comment ['/', '/']
  | newline : Matches .newline ['\n']
  | blanks {cs : List Char} (nonempty : cs ≠ []) (all : ∀ c ∈ cs, Blank c) : Matches .blanks cs

/-- The longest prefix of the source that some pattern matches, and the kind of the pattern. -/
structure LongestMatch (kind : Piece.Kind) (text source : List Char) : Prop where
  isMatch : Matches kind text
  isPrefix : text <+: source
  longest : ∀ other match', Matches other match' → match' <+: source →
    match'.length ≤ text.length

inductive Cuts : Piece.Kind → (text rest : List Char) → Prop where
  | pattern {kind : Piece.Kind} {text rest : List Char} (ne_comment : kind ≠ .comment)
      (longest : LongestMatch kind text (text ++ rest)) : Cuts kind text rest
  | comment {line rest : List Char}
      (longest : LongestMatch .comment ['/', '/'] ('/' :: '/' :: line ++ rest))
      (within : '\n' ∉ line) (stops : ∀ c ∈ rest.head?, c = '\n') :
      Cuts .comment ('/' :: '/' :: line) rest
  | unknown {c : Char} {rest : List Char}
      (no_match : ∀ kind text, Matches kind text → ¬text <+: c :: rest) : Cuts .unknown [c] rest

theorem isBlank_iff (c : Char) : isBlank c = true ↔ Blank c := by
  simp [isBlank, Blank, or_assoc]

theorem isHexDigit_iff (c : Char) : isHexDigit c = true ↔ HexDigit c := by
  simp [isHexDigit, HexDigit, or_assoc]

theorem isBinDigit_iff (c : Char) : isBinDigit c = true ↔ BinDigit c := by
  simp [isBinDigit, BinDigit]

theorem isIdentifierPart_iff (c : Char) :
    isIdentifierPart c = true ↔ Unicode.isLetter c ∨ Unicode.isNumeric c := by
  simp [isIdentifierPart]

theorem toNat_of_isDigit {c : Char} (h : c.isDigit) : 48 ≤ c.toNat ∧ c.toNat ≤ 57 := by
  simpa [Char.isDigit, UInt32.le_iff_toNat_le] using h

/-- The first letter of all is the capital A. -/
theorem Unicode.isLetter_of_lt {c : Char} (h : c.toNat < 0x41) : isLetter c = false := by
  have hne : ¬0x41 ≤ c.toNat := Nat.not_le_of_lt h
  change (decide (0x41 ≤ c.toNat) && _) = false
  rw [decide_eq_false hne, Bool.false_and]

/-- The first number of all is the digit zero. -/
theorem Unicode.isNumeric_of_lt {c : Char} (h : c.toNat < 0x30) : isNumeric c = false := by
  have hne : ¬0x30 ≤ c.toNat := Nat.not_le_of_lt h
  change (decide (0x30 ≤ c.toNat) && _) = false
  rw [decide_eq_false hne, Bool.false_and]

theorem isLetter_of_isDigit {c : Char} (h : c.isDigit) : Unicode.isLetter c = false :=
  Unicode.isLetter_of_lt (Nat.lt_of_le_of_lt (toNat_of_isDigit h).2 (by decide))

theorem isLetter_of_blank {c : Char} (h : Blank c) : Unicode.isLetter c = false := by
  rcases h with rfl | rfl | rfl | rfl <;> exact Unicode.isLetter_of_lt (by decide)

theorem isDigit_of_blank {c : Char} (h : Blank c) : c.isDigit = false := by
  rcases h with rfl | rfl | rfl | rfl <;> rfl

namespace Matches

theorem ne_nil {kind : Piece.Kind} {text : List Char} (h : Matches kind text) : text ≠ [] := by
  cases h with
  | decimal nonempty _ => exact nonempty
  | blanks nonempty _ => exact nonempty
  | fractional => simp
  | _ => exact List.cons_ne_nil _ _

theorem kind_ne_unknown {kind : Piece.Kind} {text : List Char} (h : Matches kind text) :
    kind ≠ .unknown := by
  cases h <;> exact Piece.Kind.noConfusion

end Matches

theorem Cuts.text_ne_nil {kind : Piece.Kind} {text rest : List Char} (h : Cuts kind text rest) :
    text ≠ [] := by
  cases h with
  | pattern _ longest => exact longest.isMatch.ne_nil
  | comment _ _ _ => exact List.cons_ne_nil _ _
  | unknown _ => exact List.cons_ne_nil _ _

end Calculator
