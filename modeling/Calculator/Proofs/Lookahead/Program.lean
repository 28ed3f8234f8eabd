import Calculator.Proofs.Lookahead.Reading

/-!
The parser as a program. What each parser does is written out as a sequence of looking at the token
in view, passing it, reading what another parser reads, returning and failing.
-/

namespace Calculator.Reading

open Calculator.Parser

variable {σ : Type} [TokenSource σ] {α β : Type}

private def forget {n : Nat} (r : Parsed σ α n) : α × Cursor σ :=
  (r.value, r.rest)

private theorem map_bind {ε A B C : Type} (x : Except ε A) (k : A → Except ε B) (g : B → C) :
    (x >>= k).map g = x >>= fun a => (k a).map g := by
  cases x <;> rfl

private theorem of_bind_apply (p : Parser σ α) (g : α → Reading σ β) (c : Cursor σ) :
    (of p >>= g) c = p c >>= fun r => g r.value r.rest := by
  change (Except.map forget (p c) >>= fun r => g r.1 r.2) = _
  cases p c <;> rfl

omit [TokenSource σ] in
theorem peek_bind_apply (g : Token → Reading σ β) (c : Cursor σ) :
    (peek >>= g) c = g c.token c :=
  rfl

/-- What stands behind an operand of a level, as far as it goes on with it. -/
def tail (level : Level) (atom operand : Parser σ Expr) (left : Expr) : Reading σ Expr := fun c =>
  (chainFrom level atom operand left c (Nat.lt_succ_self c.size)).map fun r => (r.value, r.rest)

/-- The bound on the size of what is left does not matter for the loop. -/
private theorem map_chainFrom_congr (level : Level) (atom operand : Parser σ Expr) (left : Expr)
    (c : Cursor σ) {bound bound' : Nat} (hc : c.size < bound) (hc' : c.size < bound') :
    (chainFrom level atom operand left c hc).map forget =
      (chainFrom level atom operand left c hc').map forget := by
  induction hn : c.size using Nat.strongRecOn generalizing c left bound bound' with
  | ind k ih =>
      rw [chainFrom, chainFrom]
      cases level.joint c.token.kind with
      | none => rfl
      | operator op =>
          dsimp only
          rw [map_bind, map_bind]
          refine congrArg _ (funext fun sign => ?_)
          rw [map_bind, map_bind]
          refine congrArg _ (funext fun right => ?_)
          exact ih _ (hn ▸ Nat.lt_trans right.size_lt sign.size_lt) _ _ _ _ rfl
      | adjacency =>
          dsimp only
          rw [map_bind, map_bind]
          refine congrArg _ (funext fun right => ?_)
          exact ih _ (hn ▸ right.size_lt) _ _ _ _ rfl

private theorem map_chainFrom (level : Level) (atom operand : Parser σ Expr) (left : Expr)
    (c : Cursor σ) {bound : Nat} (hc : c.size < bound) :
    (chainFrom level atom operand left c hc).map forget = tail level atom operand left c :=
  map_chainFrom_congr level atom operand left c hc _

theorem tail_eq (level : Level) (atom operand : Parser σ Expr) (left : Expr) :
    tail level atom operand left = (do
      let t ← peek
      match level.joint t.kind with
      | .none => return left
      | .operator op => do
          let _ ← of token
          let right ← of operand
          tail level atom operand (.binary op left right t.line)
      | .adjacency => do
          let right ← of atom
          tail level atom operand (.binary .mul left right t.line)) := by
  funext c
  rw [peek_bind_apply, tail, chainFrom]
  cases level.joint c.token.kind with
  | none => rfl
  | operator op =>
      dsimp only
      rw [map_bind, of_bind_apply]
      refine congrArg _ (funext fun sign => ?_)
      rw [map_bind, of_bind_apply]
      exact congrArg _ (funext fun right => map_chainFrom ..)
  | adjacency =>
      dsimp only
      rw [map_bind, of_bind_apply]
      exact congrArg _ (funext fun right => map_chainFrom ..)

theorem of_chain (level : Level) (atom operand : Parser σ Expr) :
    of (chain level atom operand) = (do
      let left ← of operand
      tail level atom operand left) := by
  funext c
  rw [of_bind_apply, of, chain, map_bind]
  exact congrArg _ (funext fun first => map_chainFrom ..)

theorem of_number :
    of (number : Parser σ Expr) = (do
      let t ← peek
      if t.kind ∈ Token.Kind.numerals then
        match Numeral.read? t.kind t.text.toList with
        | none => throw (.invalidNumber t.text t.line)
        | some (value, numericType) => do
            let _ ← of token
            return .literal value numericType t.line
      else throw (.unexpectedToken t.text t.line)) := by
  funext c
  rw [peek_bind_apply, of, number]
  split
  · cases Numeral.read? c.token.kind c.token.text.toList with
    | none => rfl
    | some literal =>
        dsimp only
        rw [map_bind, of_bind_apply]
        rfl
  · rfl

theorem of_negation (atom : Parser σ Expr) :
    of (negation atom) = (do
      let t ← peek
      let _ ← of token
      let operand ← of atom
      return .negation operand t.line) := by
  funext c
  rw [peek_bind_apply, of, negation, map_bind, of_bind_apply]
  refine congrArg _ (funext fun sign => ?_)
  rw [map_bind, of_bind_apply]
  rfl

theorem of_group (inner : Parser σ Expr) :
    of (group inner) = (do
      let _ ← of token
      let content ← of inner
      let t ← peek
      if t.kind = .rightParen then do
        let _ ← of token
        return content
      else throw (.expectedClosingParen t.line)) := by
  funext c
  rw [of, group, map_bind, of_bind_apply]
  refine congrArg _ (funext fun opening => ?_)
  rw [map_bind, of_bind_apply]
  refine congrArg _ (funext fun content => ?_)
  rw [peek_bind_apply]
  split
  · rw [map_bind, of_bind_apply]
    rfl
  · rfl

theorem of_arguments (inner : Parser σ Expr) :
    of (arguments inner) = (do
      let argument ← of inner
      let t ← peek
      match t.kind with
      | .rightParen => do
          let _ ← of token
          return [argument]
      | .comma => do
          let _ ← of token
          let others ← of (arguments inner)
          return argument :: others
      | .endOfInput => throw (.expectedClosingParen t.line)
      | _ => throw (.unexpectedToken t.text t.line)) := by
  funext c
  rw [of_bind_apply, of, arguments, map_bind]
  refine congrArg _ (funext fun argument => ?_)
  rw [peek_bind_apply]
  cases argument.rest.token.kind <;> try rfl
  case rightParen =>
    dsimp only
    rw [map_bind, of_bind_apply]
    rfl
  case comma =>
    dsimp only
    rw [map_bind, of_bind_apply]
    refine congrArg _ (funext fun comma => ?_)
    rw [map_bind, of_bind_apply]
    rfl

theorem of_argumentList (inner : Parser σ Expr) :
    of (argumentList inner) = (do
      let _ ← of token
      let t ← peek
      if t.kind = .rightParen then do
        let _ ← of token
        return []
      else of (arguments inner)) := by
  funext c
  rw [of_bind_apply, of, argumentList, map_bind]
  refine congrArg _ (funext fun opening => ?_)
  rw [peek_bind_apply]
  split
  · rw [map_bind, of_bind_apply]
    rfl
  · rw [map_bind]
    change _ = Except.map forget _
    cases arguments inner opening.rest <;> rfl

theorem of_named (inner : Parser σ Expr) :
    of (named inner) = (do
      let name ← peek
      let _ ← of token
      let t ← peek
      if t.kind = .leftParen then
        match NamedFunction.ofName? name.text with
        | none => throw (.unknownIdentifier name.text name.line)
        | some function => do
            let list ← of (argumentList inner)
            return .call function list name.line
      else
        match Constant.ofName? name.text with
        | none => throw (.unknownIdentifier name.text name.line)
        | some constant => return .constant constant name.line) := by
  funext c
  rw [peek_bind_apply, of_bind_apply, of, named, map_bind]
  refine congrArg _ (funext fun name => ?_)
  rw [peek_bind_apply]
  split
  · cases NamedFunction.ofName? c.token.text with
    | none => rfl
    | some function =>
        dsimp only
        rw [map_bind, of_bind_apply]
        rfl
  · cases Constant.ofName? c.token.text <;> rfl

theorem of_atomOver (atom : Parser σ Expr) :
    of (atomOver atom) = (do
      let t ← peek
      match t.kind with
      | .minus => of (negation atom)
      | .leftParen => of (group (expression atom))
      | .identifier => of (named (expression atom))
      | .intLiteral | .floatLiteral | .hexLiteral | .binLiteral => of number
      | .endOfInput => throw (.unexpectedEndOfInput t.line)
      | _ => throw (.unexpectedToken t.text t.line)) := by
  funext c
  rw [peek_bind_apply]
  unfold of atomOver
  cases c.token.kind <;> rfl

theorem of_atom_zero :
    of (atom 0 : Parser σ Expr) = (do
      let t ← peek
      throw (.nestingTooDeep t.line)) :=
  rfl

def everything (room : Nat) : Reading σ Expr := do
  let result ← of (expression (atom room))
  let t ← peek
  if t.kind = .endOfInput then return result
  else throw (.unexpectedTrailingTokens t.text t.line)

theorem whole_eq (room : Nat) (source : σ) :
    whole room source =
      ((Cursor.ofSource source).map Subtype.val >>= everything room).map Prod.fst := by
  unfold whole
  cases Cursor.ofSource source with
  | error e => rfl
  | ok c =>
      change (expression (atom room) c.val >>= _) = Except.map Prod.fst (everything room c.val)
      rw [everything, of_bind_apply]
      cases expression (atom room) c.val with
      | error e => rfl
      | ok r =>
          change ite _ _ _ = Except.map Prod.fst ((ite _ _ _ : Reading σ Expr) r.rest)
          by_cases hend : r.rest.token.kind = .endOfInput
          · rw [if_pos hend, if_pos hend]
            rfl
          · rw [if_neg hend, if_neg hend]
            rfl

end Calculator.Reading
