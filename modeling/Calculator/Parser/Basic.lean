import Calculator.Diagnostic
import Calculator.Token.Source

/-!
Reading a supply of tokens with one token in view. A cursor has a size that falls with every token
it passes, and the results of reading carry the proof of that, so that every loop of a reader ends.
-/

namespace Calculator

/-- The token in view and the supply behind it. -/
structure Cursor (σ : Type) where
  token : Token
  source : σ

variable {σ : Type} [TokenSource σ]

namespace Cursor

/-- A bound on the number of tokens from the one in view to the end of input. -/
def size (c : Cursor σ) : Nat :=
  if c.token.kind = .endOfInput then 0 else TokenSource.remaining c.source + 1

private theorem size_le_remaining {source : σ} {token : Token} {behind : σ}
    (h : TokenSource.next source = (.ok token, behind)) :
    size ⟨token, behind⟩ ≤ TokenSource.remaining source := by
  have hnext := TokenSource.remaining_next source
  rw [h] at hnext
  unfold size
  split
  · exact Nat.zero_le _
  · rename_i hend
    exact hnext (by simpa [Item.isEnd] using hend)

def ofSource (source : σ) :
    Except SyntaxError { c : Cursor σ // c.size ≤ TokenSource.remaining source } :=
  match h : TokenSource.next source with
  | (.ok token, behind) => .ok ⟨⟨token, behind⟩, size_le_remaining h⟩
  | (.error found, _) => .error (.unknownCharacter found)

theorem ofSource_of_next_ok {source : σ} {token : Token} {behind : σ}
    (h : TokenSource.next source = (.ok token, behind)) :
    ofSource source = .ok ⟨⟨token, behind⟩, size_le_remaining h⟩ := by
  unfold ofSource
  split
  · rename_i h'
    cases h.symm.trans h'
    rfl
  · rename_i h'
    cases h.symm.trans h'

theorem ofSource_of_next_error {source : σ} {found : UnknownCharacter} {behind : σ}
    (h : TokenSource.next source = (.error found, behind)) :
    ofSource source = .error (.unknownCharacter found) := by
  unfold ofSource
  split
  · rename_i h'
    cases h.symm.trans h'
  · rename_i h'
    cases h.symm.trans h'
    rfl

end Cursor

/-- A result of reading: a value, and the cursor behind what it was read from, whose size is below
a bound. -/
structure Parsed (σ : Type) [TokenSource σ] (α : Type) (bound : Nat) where
  value : α
  rest : Cursor σ
  size_lt : rest.size < bound

/-- Reads a value from the front of a cursor and passes at least one token. -/
abbrev Parser (σ : Type) [TokenSource σ] (α : Type) : Type :=
  (c : Cursor σ) → Except SyntaxError (Parsed σ α c.size)

namespace Parser

private theorem size_lt_of_le_remaining {c rest : Cursor σ} (hend : c.token.kind ≠ .endOfInput)
    (h : rest.size ≤ TokenSource.remaining c.source) : rest.size < c.size := by
  rw [show c.size = TokenSource.remaining c.source + 1 from if_neg hend]
  exact Nat.lt_succ_of_le h

/-- Passes the token in view. At the end of input there is none to pass. -/
def token : Parser σ Token := fun c =>
  if hend : c.token.kind = .endOfInput then .error (.unexpectedEndOfInput c.token.line)
  else do
    let rest ← Cursor.ofSource c.source
    return ⟨c.token, rest.val, size_lt_of_le_remaining hend rest.property⟩

end Parser

end Calculator
