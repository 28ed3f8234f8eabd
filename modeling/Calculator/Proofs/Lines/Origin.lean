import Calculator.Proofs.Analysis.Violations

/-!
Where the nodes of an expression come from. An expression is read from tokens that follow one
another, each of its nodes from some of them, and the line of a node is that of its own token.
-/

namespace Calculator

/-- The token writes the topmost node of an expression. A product can also be written by the first
token of its right operand. -/
def Token.Writes (t : Token) : Expr → Prop
  | .literal value numericType _ =>
      Numeral.read? t.kind t.text.toList = some (value, numericType)
  | .constant c _ => t.kind = .identifier ∧ Constant.ofName? t.text = some c
  | .negation _ _ => t.kind = .minus
  | .binary op _ _ _ =>
      Operator.ofKind? t.kind = some op ∨
        op = .mul ∧ (t.kind = .identifier ∨ t.kind = .leftParen)
  | .call f _ _ => t.kind = .identifier ∧ NamedFunction.ofName? t.text = some f

namespace Expr

mutual

/-- The expression is read from the tokens, and every node of it has the line of its own token: of
the number or the name, of the minus sign before the operand, of the operator between the operands,
or, where none is written between them, of the first token of the right one. -/
inductive ReadFrom : Expr → List Token → Prop where
  | literal {value : Binary64} {numericType : NumericType} (t : Token)
      (convertible : Numeral.read? t.kind t.text.toList = some (value, numericType)) :
      ReadFrom (.literal value numericType t.line) [t]
  | constant {c : Constant} (name : Token) (identifier : name.kind = .identifier)
      (known : Constant.ofName? name.text = some c) :
      ReadFrom (.constant c name.line) [name]
  | negation {operand : Expr} {tokens : List Token} (sign : Token) (minus : sign.kind = .minus)
      (inner : ReadFrom operand tokens) :
      ReadFrom (.negation operand sign.line) (sign :: tokens)
  | operator {op : Operator} {lhs rhs : Expr} {left right : List Token} (sign : Token)
      (written : Operator.ofKind? sign.kind = some op) (first : ReadFrom lhs left)
      (second : ReadFrom rhs right) :
      ReadFrom (.binary op lhs rhs sign.line) (left ++ sign :: right)
  | adjacency {lhs rhs : Expr} {left right : List Token} (start : Token)
      (starts : start.kind = .identifier ∨ start.kind = .leftParen) (first : ReadFrom lhs left)
      (second : ReadFrom rhs (start :: right)) :
      ReadFrom (.binary .mul lhs rhs start.line) (left ++ start :: right)
  | call {f : NamedFunction} {arguments : List Expr} {tokens : List Token} (name opening : Token)
      (identifier : name.kind = .identifier) (known : NamedFunction.ofName? name.text = some f)
      (opens : opening.kind = .leftParen) (list : AllReadFrom arguments tokens) :
      ReadFrom (.call f arguments name.line) (name :: opening :: tokens)
  | group {e : Expr} {tokens : List Token} (opening closing : Token)
      (opens : opening.kind = .leftParen) (closes : closing.kind = .rightParen)
      (content : ReadFrom e tokens) : ReadFrom e (opening :: (tokens ++ [closing]))

inductive AllReadFrom : List Expr → List Token → Prop where
  | none (closing : Token) (closes : closing.kind = .rightParen) : AllReadFrom [] [closing]
  | last {e : Expr} {tokens : List Token} (closing : Token) (closes : closing.kind = .rightParen)
      (argument : ReadFrom e tokens) : AllReadFrom [e] (tokens ++ [closing])
  | next {e : Expr} {es : List Expr} {tokens others : List Token} (comma : Token)
      (separates : comma.kind = .comma) (argument : ReadFrom e tokens)
      (list : AllReadFrom es others) : AllReadFrom (e :: es) (tokens ++ comma :: others)

end

mutual

/-- The nodes in the order of reading: an operator between its operands, a sign and a function
before what they are applied to, and arguments from left to right. -/
def inOrder : Expr → List Expr
  | .literal value numericType line => [.literal value numericType line]
  | .constant c line => [.constant c line]
  | .negation operand line => .negation operand line :: operand.inOrder
  | .binary op lhs rhs line => lhs.inOrder ++ .binary op lhs rhs line :: rhs.inOrder
  | .call f arguments line => .call f arguments line :: inOrderAll arguments

def inOrderAll : List Expr → List Expr
  | [] => []
  | e :: rest => e.inOrder ++ inOrderAll rest

end

mutual

/-- All nodes are listed. -/
theorem mem_inOrder_iff {node : Expr} (e : Expr) : node ∈ e.inOrder ↔ Occurs node e := by
  match e with
  | .literal _ _ _ => simp [inOrder]
  | .constant _ _ => simp [inOrder]
  | .negation operand _ => simp [inOrder, mem_inOrder_iff operand]
  | .binary _ lhs rhs _ =>
      simp only [inOrder, List.mem_append, List.mem_cons, mem_inOrder_iff lhs, mem_inOrder_iff rhs,
        occurs_binary_iff]
      exact or_left_comm
  | .call _ arguments _ =>
      simp only [inOrder, List.mem_cons, mem_inOrderAll_iff arguments, occurs_call_iff]

theorem mem_inOrderAll_iff {node : Expr} (es : List Expr) :
    node ∈ inOrderAll es ↔ ∃ e ∈ es, Occurs node e := by
  match es with
  | [] => simp [inOrderAll]
  | e :: rest => simp [inOrderAll, mem_inOrder_iff e, mem_inOrderAll_iff rest]

end

/-- An expression is named by a token that it is read from, and that token is on its line. -/
theorem ReadFrom.exists_own {e : Expr} {tokens : List Token} (h : e.ReadFrom tokens) :
    ∃ t ∈ tokens, t.line = e.line ∧ t.Writes e := by
  match h with
  | .literal t convertible => exact ⟨t, by simp, rfl, convertible⟩
  | .constant name identifier known => exact ⟨name, by simp, rfl, identifier, known⟩
  | .negation sign minus _ => exact ⟨sign, by simp, rfl, minus⟩
  | .operator sign written _ _ => exact ⟨sign, by simp, rfl, .inl written⟩
  | .adjacency start starts _ _ => exact ⟨start, by simp, rfl, .inr ⟨rfl, starts⟩⟩
  | .call name _ identifier known _ _ => exact ⟨name, by simp, rfl, identifier, known⟩
  | .group _ _ _ _ content =>
      obtain ⟨t, ht, hline, hwrites⟩ := content.exists_own
      exact ⟨t, by simp [ht], hline, hwrites⟩

mutual

/-- Every node is read from tokens that follow one another. -/
theorem ReadFrom.exists_part {e : Expr} {tokens : List Token} (h : e.ReadFrom tokens) {node : Expr}
    (hnode : node ∈ e.inOrder) : ∃ part, part <:+: tokens ∧ node.ReadFrom part := by
  match h with
  | .literal t convertible =>
      rw [inOrder, List.mem_singleton] at hnode
      exact ⟨_, List.infix_refl _, hnode ▸ .literal t convertible⟩
  | .constant name identifier known =>
      rw [inOrder, List.mem_singleton] at hnode
      exact ⟨_, List.infix_refl _, hnode ▸ .constant name identifier known⟩
  | .negation sign minus inner =>
      rcases List.mem_cons.mp hnode with rfl | hnode
      · exact ⟨_, List.infix_refl _, .negation sign minus inner⟩
      · obtain ⟨part, hpart, hread⟩ := inner.exists_part hnode
        exact ⟨part, hpart.trans (List.suffix_cons _ _).isInfix, hread⟩
  | .operator sign written first second =>
      rcases List.mem_append.mp hnode with hnode | hnode
      · obtain ⟨part, hpart, hread⟩ := first.exists_part hnode
        exact ⟨part, hpart.trans (List.prefix_append _ _).isInfix, hread⟩
      rcases List.mem_cons.mp hnode with rfl | hnode
      · exact ⟨_, List.infix_refl _, .operator sign written first second⟩
      · obtain ⟨part, hpart, hread⟩ := second.exists_part hnode
        exact ⟨part, (hpart.trans (List.suffix_cons _ _).isInfix).trans
          (List.suffix_append _ _).isInfix, hread⟩
  | .adjacency start starts first second =>
      rcases List.mem_append.mp hnode with hnode | hnode
      · obtain ⟨part, hpart, hread⟩ := first.exists_part hnode
        exact ⟨part, hpart.trans (List.prefix_append _ _).isInfix, hread⟩
      rcases List.mem_cons.mp hnode with rfl | hnode
      · exact ⟨_, List.infix_refl _, .adjacency start starts first second⟩
      · obtain ⟨part, hpart, hread⟩ := second.exists_part hnode
        exact ⟨part, hpart.trans (List.suffix_append _ _).isInfix, hread⟩
  | .call name opening identifier known opens list =>
      rcases List.mem_cons.mp hnode with rfl | hnode
      · exact ⟨_, List.infix_refl _, .call name opening identifier known opens list⟩
      · obtain ⟨part, hpart, hread⟩ := list.exists_part hnode
        exact ⟨part, (hpart.trans (List.suffix_cons _ _).isInfix).trans
          (List.suffix_cons _ _).isInfix, hread⟩
  | .group opening closing _ _ content =>
      obtain ⟨part, hpart, hread⟩ := content.exists_part hnode
      exact ⟨part, hpart.trans ⟨[opening], [closing], by simp⟩, hread⟩

theorem AllReadFrom.exists_part {es : List Expr} {tokens : List Token} (h : AllReadFrom es tokens)
    {node : Expr} (hnode : node ∈ inOrderAll es) :
    ∃ part, part <:+: tokens ∧ node.ReadFrom part := by
  match h with
  | .none _ _ => cases hnode
  | .last _ _ argument =>
      rw [inOrderAll, inOrderAll, List.append_nil] at hnode
      obtain ⟨part, hpart, hread⟩ := argument.exists_part hnode
      exact ⟨part, hpart.trans (List.prefix_append _ _).isInfix, hread⟩
  | .next comma _ argument list =>
      rcases List.mem_append.mp hnode with hnode | hnode
      · obtain ⟨part, hpart, hread⟩ := argument.exists_part hnode
        exact ⟨part, hpart.trans (List.prefix_append _ _).isInfix, hread⟩
      · obtain ⟨part, hpart, hread⟩ := list.exists_part hnode
        exact ⟨part, (hpart.trans (List.suffix_cons _ _).isInfix).trans
          (List.suffix_append _ _).isInfix, hread⟩

end

theorem ReadFrom.ne_nil {e : Expr} {tokens : List Token} (h : e.ReadFrom tokens) : tokens ≠ [] := by
  obtain ⟨t, ht, _⟩ := h.exists_own
  exact List.ne_nil_of_mem ht

end Expr

namespace Grammar

/-- What a symbol builds is read from the tokens. A tail is read from those behind the tokens of the
tree to its left. -/
def Symbol.ReadFrom : (s : Symbol) → s.Value → List Token → Prop
  | .phrase _, e, tokens => e.ReadFrom tokens
  | .tail _, extend, tokens =>
      ∀ left front, Expr.ReadFrom left front → Expr.ReadFrom (extend left) (front ++ tokens)
  | .argumentList, es, tokens => Expr.AllReadFrom es tokens
  | .arguments, es, tokens => Expr.AllReadFrom es tokens

/-- What is derived is read from the tokens that the derivation uses up. -/
theorem Derivation.readFrom {s : Symbol} {before after : List Token}
    (d : Derivation s before after) : ∃ read, before = read ++ after ∧ s.ReadFrom d.value read := by
  induction d with
  | phrase _ _ ihf iho =>
      obtain ⟨first, rfl, hfirst⟩ := ihf
      obtain ⟨others, rfl, hothers⟩ := iho
      exact ⟨first ++ others, (List.append_assoc _ _ _).symm, hothers _ _ hfirst⟩
  | done => exact ⟨[], rfl, fun left front hleft => (List.append_nil front).symm ▸ hleft⟩
  | operator op sign joins _ _ ihp iho =>
      obtain ⟨operand, rfl, hoperand⟩ := ihp
      obtain ⟨others, rfl, hothers⟩ := iho
      refine ⟨sign :: (operand ++ others), by simp, fun left front hleft => ?_⟩
      have hwritten := Level.ofKind?_of_joint (joins_iff.mp joins)
      have hjoined := hothers _ _ (.operator sign hwritten hleft hoperand)
      rw [List.append_assoc, List.cons_append] at hjoined
      exact hjoined
  | adjacency first starts _ _ ihp iho =>
      obtain ⟨operand, hbefore, hoperand⟩ := ihp
      obtain ⟨others, rfl, hothers⟩ := iho
      obtain ⟨start, operand, rfl⟩ := List.exists_cons_of_ne_nil hoperand.ne_nil
      obtain ⟨rfl, rfl⟩ := List.cons.inj hbefore
      refine ⟨first :: (operand ++ others), by simp, fun left front hleft => ?_⟩
      have hjoined := hothers _ _ (.adjacency first starts hleft hoperand)
      rw [List.append_assoc, List.cons_append] at hjoined
      exact hjoined
  | negation sign minus _ ih =>
      obtain ⟨operand, rfl, hoperand⟩ := ih
      exact ⟨sign :: operand, rfl, .negation sign minus hoperand⟩
  | group opens _ closes ih =>
      obtain ⟨content, rfl, hcontent⟩ := ih
      exact ⟨_, by simp, .group _ _ opens closes hcontent⟩
  | constant name c identifier _ known => exact ⟨[name], rfl, .constant name identifier known⟩
  | call name f identifier opens known _ ih =>
      obtain ⟨list, rfl, hlist⟩ := ih
      exact ⟨_, rfl, .call name _ identifier known opens hlist⟩
  | number literal value numericType _ convertible =>
      exact ⟨[literal], rfl, .literal literal convertible⟩
  | noArgument closes => exact ⟨_, rfl, .none _ closes⟩
  | someArguments _ ih => exact ih
  | lastArgument _ closes ih =>
      obtain ⟨argument, rfl, hargument⟩ := ih
      exact ⟨_, by simp, .last _ closes hargument⟩
  | nextArgument _ separates _ iha ihl =>
      obtain ⟨argument, rfl, hargument⟩ := iha
      obtain ⟨list, rfl, hlist⟩ := ihl
      exact ⟨_, by simp, .next _ separates hargument hlist⟩

end Grammar

end Calculator
