import Calculator.Proofs.Grammar.Unambiguous

/-!
How high the trees are that derive. Every level that joins from left to right puts a node above all
that stands to its left without opening an atom, so nesting says nothing about left operands. Past
them it bounds every path: no more than five nodes, one for each level, lie between an atom and the
one around it. The whole tree is no higher than there are tokens.
-/

namespace Calculator

namespace Expr

mutual

def height : Expr → Nat
  | .literal _ _ _ => 1
  | .constant _ _ => 1
  | .negation operand _ => operand.height + 1
  | .binary _ lhs rhs _ => max lhs.height rhs.height + 1
  | .call _ arguments _ => maxHeight arguments + 1

def maxHeight : List Expr → Nat
  | [] => 0
  | e :: rest => max e.height (maxHeight rest)

end

mutual

/-- The greatest number of nodes on a path from the top to a leaf that are not left operands of the
node above them. -/
def rightHeight : Expr → Nat
  | .literal _ _ _ => 1
  | .constant _ _ => 1
  | .negation operand _ => operand.rightHeight + 1
  | .binary _ lhs rhs _ => max lhs.rightHeight (rhs.rightHeight + 1)
  | .call _ arguments _ => maxRightHeight arguments + 1

def maxRightHeight : List Expr → Nat
  | [] => 0
  | e :: rest => max e.rightHeight (maxRightHeight rest)

end

theorem height_pos (e : Expr) : 0 < e.height := by
  cases e <;> simp [height]

end Expr

namespace Grammar

/-- A bound on what a symbol builds, past left operands, by the nesting of its derivation. The more
strongly a level holds together, the fewer levels are left for nodes between its phrases and the
atoms within them. -/
def Symbol.RightHeightLe (nesting : Nat) : (s : Symbol) → s.Value → Prop
  | .phrase level, e => e.rightHeight + strength level ≤ 6 * nesting
  | .tail level, extend => ∀ left bound, 6 * nesting ≤ bound →
      left.rightHeight + strength (some level) ≤ bound →
      (extend left).rightHeight + strength (some level) ≤ bound
  | .argumentList, es => Expr.maxRightHeight es ≤ 6 * nesting
  | .arguments, es => Expr.maxRightHeight es ≤ 6 * nesting

namespace Derivation

/-- A node with a right operand that holds together more strongly than its level keeps to the
bounds of the level. -/
private theorem rightHeight_join {op : Operator} {left right : Expr} {line nesting bound : Nat}
    {level : Level} {stronger : Option Level}
    (hstrength : strength (some level) < strength stronger)
    (hright : right.rightHeight + strength stronger ≤ 6 * nesting) (hbound : 6 * nesting ≤ bound)
    (hleft : left.rightHeight + strength (some level) ≤ bound) :
    (Expr.binary op left right line).rightHeight + strength (some level) ≤ bound := by
  rw [Expr.rightHeight]
  omega

/-- Past left operands, no path goes through more than six nodes for each atom that lies within
another: the node of the atom itself, and one of every level around it. -/
theorem rightHeight_le {s : Symbol} {before after : List Token} (d : Derivation s before after) :
    s.RightHeightLe d.nesting d.value := by
  induction d with
  | @phrase level _ _ _ first others ihf iho =>
      have hstrength := strength_stronger? level
      simp only [Symbol.RightHeightLe] at ihf
      exact iho _ _ (by rw [nesting]; omega) (by rw [nesting]; omega)
  | done => exact fun _ _ _ hleft => hleft
  | @operator level _ _ _ op sign joins operand others ihp iho =>
      intro left bound hbound hleft
      rw [nesting] at hbound
      have hstrength := strength_stronger? level
      exact iho _ _ (by omega) (rightHeight_join (by omega) ihp (by omega) hleft)
  | adjacency first starts operand others ihp iho =>
      intro left bound hbound hleft
      rw [nesting] at hbound
      exact iho _ _ (by omega) (rightHeight_join (by decide) ihp (by omega) hleft)
  | negation sign minus operand ih =>
      simp only [Symbol.RightHeightLe, strength, value, nesting, Expr.rightHeight] at ih ⊢
      omega
  | group opens content closes ih =>
      simp only [Symbol.RightHeightLe, strength, value, nesting] at ih ⊢
      omega
  | constant | number => simp [Symbol.RightHeightLe, strength, value, nesting, Expr.rightHeight]
  | call name f identifier opens known list ih =>
      simp only [Symbol.RightHeightLe, strength, value, nesting, Expr.rightHeight] at ih ⊢
      omega
  | noArgument closes => exact Nat.zero_le _
  | someArguments list ih => exact ih
  | lastArgument argument closes ih =>
      simpa [Symbol.RightHeightLe, strength, value, nesting, Expr.maxRightHeight] using ih
  | nextArgument argument separates list iha ihl =>
      simp only [Symbol.RightHeightLe, strength, value, nesting, Expr.maxRightHeight] at iha ihl ⊢
      omega

end Derivation

/-- A bound on what a symbol builds by the tokens it is derived from. A tail takes one token at
least for every node that it puts above what stands to its left. -/
def Symbol.HeightLe (before after : List Token) : (s : Symbol) → s.Value → Prop
  | .phrase _, e => e.height + after.length ≤ before.length
  | .tail _, extend =>
      ∀ left, (extend left).height + after.length ≤ left.height + before.length
  | .argumentList, es => Expr.maxHeight es + after.length ≤ before.length
  | .arguments, es => Expr.maxHeight es + after.length ≤ before.length

namespace Derivation

/-- A tree is no higher than the number of tokens that it is derived from. -/
theorem height_le {s : Symbol} {before after : List Token} (d : Derivation s before after) :
    s.HeightLe before after d.value := by
  induction d with
  | phrase first others ihf iho =>
      have hothers := iho first.value
      simp only [Symbol.HeightLe, value] at ihf ⊢
      omega
  | done => exact fun _ => Nat.le_refl _
  | operator op sign joins operand others ihp iho =>
      intro left
      have hothers := iho (.binary op left operand.value sign.line)
      have hleft := left.height_pos
      simp only [Symbol.HeightLe, value, Expr.height, List.length_cons] at *
      omega
  | adjacency first starts operand others ihp iho =>
      intro left
      have hothers := iho (.binary .mul left operand.value first.line)
      have hleft := left.height_pos
      -- no operator is written, and the operand itself takes the token for the node
      have hoperand := operand.value.height_pos
      simp only [Symbol.HeightLe, value, Expr.height, List.length_cons] at *
      omega
  | negation | group | call | lastArgument | nextArgument =>
      simp only [Symbol.HeightLe, value, Expr.height, Expr.maxHeight, List.length_cons] at *
      omega
  | constant | number => simp [Symbol.HeightLe, value, Expr.height, Nat.add_comm]
  | noArgument closes => simp [Symbol.HeightLe, value, Expr.maxHeight]
  | someArguments list ih => exact ih

end Derivation

end Grammar

end Calculator
