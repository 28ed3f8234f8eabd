import Calculator.Parser.Expression
import Calculator.Proofs.Grammar.Derivation

/-!
A reader that looks ahead through a buffer and keeps count. Tokens are requested from the supply only
when there are not as many in the buffer as are to be looked at, and wait there in a queue until they
are passed. The atoms that are open are counted, and with a limit the reader refuses to open an atom
where as many are open already; without one it is the same reader without that check. It keeps a
record of its run, which it never reads.
-/

namespace Calculator

/-- A token at which an atom was to be opened, and the number of atoms that were open then. -/
structure Attempt where
  token : Token
  depth : Nat

/-- What is on record of a run: the greatest number of atoms that were ever open and the attempts to
open one, the items that were requested, and the greatest number of tokens that were ever pending. -/
structure Reader.Record where
  peak : Nat
  attempts : List Attempt
  requests : List Item
  longest : Nat

/-- The state of a reader: the supply, the tokens that were requested and not passed yet, the number
of atoms that are open, and the record. -/
structure Reader (σ : Type) extends Reader.Record where
  source : σ
  pending : List Token
  depth : Nat

/-- What can be read: the phrases of a level, or an atom; what stands behind an operand of a level;
the rest of an atom from its first token on; a group; a name; the call of a name; the arguments
behind an opening parenthesis, from the first one or behind others; and a number. -/
inductive Procedure where
  | phrase (level : Option Level)
  | tail (level : Level) (left : Expr)
  | atomFrom (first : Token)
  | group
  | named
  | call (name : Token)
  | argumentList
  | arguments (items : List Expr)
  | number

abbrev Procedure.Result : Procedure → Type
  | .argumentList | .arguments _ => List Expr
  | _ => Expr

/-- A program of the reader. It may fail, or have no result at all, and keeps its state where it
fails. -/
abbrev Machine (σ : Type) (α : Type) : Type :=
  ExceptT SyntaxError (StateT (Reader σ) Option) α

namespace Reader

variable {σ : Type}

def attempted (r : Reader σ) (t : Token) : Reader σ :=
  { r with attempts := r.attempts ++ [⟨t, r.depth⟩] }

def opened (r : Reader σ) : Reader σ :=
  { r with depth := r.depth + 1, peak := max r.peak (r.depth + 1) }

def closed (r : Reader σ) : Reader σ :=
  { r with depth := r.depth - 1 }

def requested (r : Reader σ) (item : Item) (behind : σ) : Reader σ :=
  { r with source := behind, requests := r.requests ++ [item] }

def stored (r : Reader σ) (t : Token) : Reader σ :=
  { r with pending := r.pending ++ [t], longest := max r.longest (r.pending.length + 1) }

def dropped (r : Reader σ) : Reader σ :=
  { r with pending := r.pending.tail }

/-- Records an attempt to open an atom, and refuses it where the limit is reached. -/
def attempt (limit : Option Nat) (t : Token) : Machine σ PUnit := fun r =>
  if limit.any (· ≤ r.depth) then some (.error (.nestingTooDeep t.line), r.attempted t)
  else some (.ok ⟨⟩, r.attempted t)

variable [TokenSource σ]

def request : Machine σ Token := fun r =>
  match TokenSource.next r.source with
  | (.ok t, behind) => some (.ok t, r.requested (.ok t) behind)
  | (.error found, behind) =>
      some (.error (.unknownCharacter found), r.requested (.error found) behind)

def store : (count : Nat) → Machine σ PUnit
  | 0 => return
  | count + 1 => do
      let t ← request
      modify (stored · t)
      store count

def fill (count : Nat) : Machine σ PUnit := do
  let r ← get
  store (count - r.pending.length)

/-- The token with the given number of tokens before it, none of them passed. There is no result
where the queue is too short. -/
def peekNth (offset : Nat) : Machine σ Token := do
  fill (offset + 1)
  fun r => r.pending[offset]?.map fun t => (.ok t, r)

def current : Machine σ Token :=
  peekNth 0

def advance : Machine σ Token := do
  let t ← current
  modify dropped
  return t

def see (kind : Token.Kind) : Machine σ Bool := do
  let t ← current
  return t.kind = kind

def accept (kind : Token.Kind) : Machine σ (Option Token) := do
  if ← see kind then
    let t ← advance
    return some t
  else
    return none

end Reader

open Reader in
/-- The procedures of the reader. An atom is closed again whether or not it could be read. -/
def Procedure.run {σ : Type} [TokenSource σ] (limit : Option Nat) (p : Procedure) :
    Machine σ p.Result :=
  match p with
  | .phrase (some level) => do
      let left ← phrase (Grammar.stronger? level) |>.run limit
      tail level left |>.run limit
  | .phrase none => do
      let t ← current
      attempt limit t
      fun r => do
        let (result, r') ← atomFrom t |>.run limit r.opened
        return (result, r'.closed)
  | .tail level left => do
      let t ← current
      match level.joint t.kind with
      | .none => return left
      | .operator op => do
          let _ ← advance
          let right ← phrase (Grammar.stronger? level) |>.run limit
          tail level (.binary op left right t.line) |>.run limit
      | .adjacency => do
          let right ← phrase none |>.run limit
          tail level (.binary .mul left right t.line) |>.run limit
  | .atomFrom t =>
      match t.kind with
      | .minus => do
          let _ ← advance
          let operand ← phrase none |>.run limit
          return .negation operand t.line
      | .leftParen => group |>.run limit
      | .identifier => named |>.run limit
      | .intLiteral | .floatLiteral | .hexLiteral | .binLiteral => number |>.run limit
      | .endOfInput => throw (.unexpectedEndOfInput t.line)
      | _ => throw (.unexpectedToken t.text t.line)
  | .group => do
      let _ ← advance
      let content ← phrase (some .disjunction) |>.run limit
      match ← accept .rightParen with
      | some _ => return content
      | none => do
          let t ← current
          throw (.expectedClosingParen t.line)
  | .named => do
      let name ← advance
      if ← see .leftParen then call name |>.run limit
      else
        match Constant.ofName? name.text with
        | none => throw (.unknownIdentifier name.text name.line)
        | some constant => return .constant constant name.line
  | .call name =>
      match NamedFunction.ofName? name.text with
      | none => throw (.unknownIdentifier name.text name.line)
      | some function => do
          let _ ← advance
          let arguments ← argumentList |>.run limit
          return .call function arguments name.line
  | .argumentList => do
      match ← accept .rightParen with
      | some _ => return []
      | none => arguments [] |>.run limit
  | .arguments items => do
      let argument ← phrase (some .disjunction) |>.run limit
      let t ← advance
      match t.kind with
      | .comma => arguments (items ++ [argument]) |>.run limit
      | .rightParen => return items ++ [argument]
      | .endOfInput => throw (.expectedClosingParen t.line)
      | _ => throw (.unexpectedToken t.text t.line)
  | .number => do
      let t ← advance
      if t.kind ∈ Token.Kind.numerals then
        match Numeral.read? t.kind t.text.toList with
        | none => throw (.invalidNumber t.text t.line)
        | some (value, numericType) => return .literal value numericType t.line
      else throw (.unexpectedToken t.text t.line)
partial_fixpoint

namespace Reader

variable {σ : Type} [TokenSource σ]

def whole (limit : Option Nat) : Machine σ Expr := do
  let e ← Procedure.run limit (.phrase (some .disjunction))
  let t ← current
  if t.kind = .endOfInput then return e
  else throw (.unexpectedTrailingTokens t.text t.line)

def ofSource (source : σ) : Reader σ :=
  { source, pending := [], depth := 0, peak := 0, attempts := [], requests := [], longest := 0 }

end Reader

end Calculator
