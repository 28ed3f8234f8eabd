import Calculator.Parser.Expression
import Calculator.Parser.Relocation

/-!
A parser sees nothing of a supply but its items, and nothing of their places but to hand them on.
Where one supply is mapped to another that hands out the same items at other places, reading from
both gives the same values and the same errors, apart from their lines, and cursors that are mapped
to each other. Where the places are the same as well, so are the results, and a scanner can be
exchanged for the list of its items.
-/

namespace Calculator

variable {σ τ : Type} [TokenSource σ] [TokenSource τ]

structure SupplyMap (σ τ : Type) [TokenSource σ] [TokenSource τ] where
  toFun : σ → τ
  next_toFun : ∀ s, TokenSource.next (toFun s) =
    ((TokenSource.next s).1, toFun (TokenSource.next s).2)

/-- Maps a supply to one that hands out the same items at their new places, now and later. -/
structure Transport (r : Relocation) (σ τ : Type) [TokenSource σ] [TokenSource τ] where
  toFun : σ → τ
  next_toFun : ∀ s, TokenSource.next (toFun s) =
    ((TokenSource.next s).1.relocate r, toFun (TokenSource.next s).2)

def SupplyMap.toTransport (f : SupplyMap σ τ) : Transport .stay σ τ where
  toFun := f.toFun
  next_toFun s := by
    rw [Item.relocate_stay]
    exact f.next_toFun s

def Transport.ofItemList (r : Relocation) : Transport r ItemList ItemList where
  toFun := .relocate r
  next_toFun := ItemList.next_relocate r

variable {r : Relocation}

def Cursor.map (f : Transport r σ τ) (c : Cursor σ) : Cursor τ :=
  ⟨c.token.relocate r, f.toFun c.source⟩

theorem Cursor.kind_map (f : Transport r σ τ) (c : Cursor σ) :
    (c.map f).token.kind = c.token.kind := rfl

theorem Cursor.text_map (f : Transport r σ τ) (c : Cursor σ) :
    (c.map f).token.text = c.token.text := rfl

/-- Two results of reading that differ only in places and in the supply. What is read is moved by
`move`. -/
inductive Alike (f : Transport r σ τ) {α : Type} (move : α → α) {m n : Nat} :
    Except SyntaxError (Parsed σ α m) → Except SyntaxError (Parsed τ α n) → Prop
  | error (e : SyntaxError) : Alike f move (.error e) (.error (e.relocate r))
  | ok (value : α) (rest : Cursor σ) (h : rest.size < m) (h' : (rest.map f).size < n) :
      Alike f move (.ok ⟨value, rest, h⟩) (.ok ⟨move value, rest.map f, h'⟩)

namespace Alike

variable {f : Transport r σ τ}

/-- Reading on from results that are alike. -/
theorem bind {α β : Type} {move : α → α} {move' : β → β} {m n k l : Nat}
    {x : Except SyntaxError (Parsed σ α m)} {y : Except SyntaxError (Parsed τ α n)}
    {p : Parsed σ α m → Except SyntaxError (Parsed σ β k)}
    {q : Parsed τ α n → Except SyntaxError (Parsed τ β l)} (hxy : Alike f move x y)
    (hpq : ∀ value rest h h',
      Alike f move' (p ⟨value, rest, h⟩) (q ⟨move value, rest.map f, h'⟩)) :
    Alike f move' (x >>= p) (y >>= q) := by
  cases hxy with
  | error e => exact .error e
  | ok value rest h h' => exact hpq value rest h h'

end Alike

namespace Parser

variable {f : Transport r σ τ}

def Corresponds (f : Transport r σ τ) {α : Type} (move : α → α) (p : Parser σ α)
    (q : Parser τ α) : Prop :=
  ∀ c, Alike f move (p c) (q (c.map f))

theorem token_alike : Corresponds f (Token.relocate r) token token := by
  intro c
  unfold token
  by_cases hend : c.token.kind = .endOfInput
  · rw [dif_pos hend, dif_pos (show (c.map f).token.kind = .endOfInput from hend)]
    exact .error _
  · rw [dif_neg hend, dif_neg (show ¬(c.map f).token.kind = .endOfInput from hend)]
    have hmap := f.next_toFun c.source
    cases hnext : TokenSource.next c.source with
    | mk item behind =>
        rw [hnext] at hmap
        cases item with
        | error found =>
            rw [Cursor.ofSource_of_next_error hnext,
              Cursor.ofSource_of_next_error (show TokenSource.next (c.map f).source = _ from hmap)]
            exact .error (.unknownCharacter found)
        | ok t =>
            rw [Cursor.ofSource_of_next_ok hnext,
              Cursor.ofSource_of_next_ok (show TokenSource.next (c.map f).source = _ from hmap)]
            exact .ok _ ⟨t, behind⟩ _ _

theorem chainFrom_alike (level : Level) {atom operand : Parser σ Expr}
    {atom' operand' : Parser τ Expr} (hatom : Corresponds f (Expr.relocate r) atom atom')
    (hoperand : Corresponds f (Expr.relocate r) operand operand') {m n : Nat} (left : Expr)
    (c : Cursor σ) (hc : c.size < m) (hc' : (c.map f).size < n) :
    Alike f (Expr.relocate r) (chainFrom level atom operand left c hc)
      (chainFrom level atom' operand' (left.relocate r) (c.map f) hc') := by
  induction hn : c.size using Nat.strongRecOn generalizing c left m n with
  | ind k ih =>
      rw [chainFrom, chainFrom]
      rw [Cursor.kind_map]
      cases level.joint c.token.kind with
      | none => exact .ok _ _ _ _
      | operator op =>
          refine .bind (token_alike c) fun _ rest h _ => ?_
          refine .bind (hoperand rest) fun _ behind g _ => ?_
          exact ih _ (hn ▸ Nat.lt_trans g h) _ _ _ _ rfl
      | adjacency =>
          refine .bind (hatom c) fun _ behind g _ => ?_
          exact ih _ (hn ▸ g) _ _ _ _ rfl

theorem chain_alike (level : Level) {atom operand : Parser σ Expr}
    {atom' operand' : Parser τ Expr} (hatom : Corresponds f (Expr.relocate r) atom atom')
    (hoperand : Corresponds f (Expr.relocate r) operand operand') :
    Corresponds f (Expr.relocate r) (chain level atom operand) (chain level atom' operand') :=
  fun c => .bind (hoperand c) fun _ _ _ _ => chainFrom_alike level hatom hoperand _ _ _ _

theorem expression_alike {atom : Parser σ Expr} {atom' : Parser τ Expr}
    (hatom : Corresponds f (Expr.relocate r) atom atom') :
    Corresponds f (Expr.relocate r) (expression atom) (expression atom') :=
  chain_alike _ hatom <| chain_alike _ hatom <| chain_alike _ hatom <| chain_alike _ hatom <|
    chain_alike _ hatom hatom

theorem number_alike : Corresponds f (Expr.relocate r) number number := by
  intro c
  unfold number
  rw [Cursor.kind_map, Cursor.text_map]
  by_cases hkind : c.token.kind ∈ Token.Kind.numerals
  · rw [if_pos hkind, if_pos hkind]
    cases Numeral.read? c.token.kind c.token.text.toList with
    | none => exact .error (.invalidNumber _ _)
    | some numeral =>
        exact .bind (token_alike c) fun _ rest h h' =>
          .ok (Expr.literal numeral.1 numeral.2 c.token.line) rest h h'
  · rw [if_neg hkind, if_neg hkind]
    exact .error (.unexpectedToken _ _)

theorem negation_alike {atom : Parser σ Expr} {atom' : Parser τ Expr}
    (hatom : Corresponds f (Expr.relocate r) atom atom') :
    Corresponds f (Expr.relocate r) (negation atom) (negation atom') := fun c =>
  .bind (token_alike c) fun _ rest _ _ => .bind (hatom rest) fun operand _ _ _ =>
    .ok (Expr.negation operand c.token.line) _ _ _

theorem group_alike {inner : Parser σ Expr} {inner' : Parser τ Expr}
    (hinner : Corresponds f (Expr.relocate r) inner inner') :
    Corresponds f (Expr.relocate r) (group inner) (group inner') := by
  intro c
  refine .bind (token_alike c) fun _ rest _ _ => .bind (hinner rest) fun _ behind _ _ => ?_
  by_cases hclose : behind.token.kind = .rightParen
  · simp only [Cursor.kind_map, hclose, if_true]
    exact .bind (token_alike behind) fun _ _ _ _ => .ok _ _ _ _
  · simp only [Cursor.kind_map, hclose, if_false]
    exact .error (.expectedClosingParen _)

theorem arguments_alike {inner : Parser σ Expr} {inner' : Parser τ Expr}
    (hinner : Corresponds f (Expr.relocate r) inner inner') :
    Corresponds f (Expr.relocateAll r) (arguments inner) (arguments inner') := by
  suffices h : ∀ n, ∀ c : Cursor σ, c.size = n →
      Alike f (Expr.relocateAll r) (arguments inner c) (arguments inner' (c.map f)) from
    fun c => h c.size c rfl
  intro n
  induction n using Nat.strongRecOn with
  | ind k ih =>
      intro c hn
      rw [arguments, arguments]
      refine .bind (hinner c) fun argument rest h _ => ?_
      rw [Cursor.kind_map]
      cases rest.token.kind <;> try exact .error (.unexpectedToken _ _)
      case endOfInput => exact .error (.expectedClosingParen _)
      case rightParen => exact .bind (token_alike rest) fun _ _ _ _ => .ok [argument] _ _ _
      case comma =>
        refine .bind (token_alike rest) fun _ behind g _ => ?_
        exact .bind (ih _ (hn ▸ Nat.lt_trans g h) behind rfl) fun others _ _ _ =>
          .ok (argument :: others) _ _ _

theorem argumentList_alike {inner : Parser σ Expr} {inner' : Parser τ Expr}
    (hinner : Corresponds f (Expr.relocate r) inner inner') :
    Corresponds f (Expr.relocateAll r) (argumentList inner) (argumentList inner') := by
  intro c
  refine .bind (token_alike c) fun _ rest _ _ => ?_
  by_cases hclose : rest.token.kind = .rightParen
  · simp only [Cursor.kind_map, hclose, if_true]
    exact .bind (token_alike rest) fun _ _ _ _ => .ok [] _ _ _
  · simp only [Cursor.kind_map, hclose, if_false]
    exact .bind (arguments_alike hinner rest) fun _ _ _ _ => .ok _ _ _ _

theorem named_alike {inner : Parser σ Expr} {inner' : Parser τ Expr}
    (hinner : Corresponds f (Expr.relocate r) inner inner') :
    Corresponds f (Expr.relocate r) (named inner) (named inner') := by
  intro c
  refine .bind (token_alike c) fun _ rest _ _ => ?_
  by_cases hopen : rest.token.kind = .leftParen
  · simp only [Cursor.kind_map, Cursor.text_map, hopen, if_true]
    cases NamedFunction.ofName? c.token.text with
    | none => exact .error (.unknownIdentifier _ _)
    | some function =>
        exact .bind (argumentList_alike hinner rest) fun list _ _ _ =>
          .ok (Expr.call function list c.token.line) _ _ _
  · simp only [Cursor.kind_map, Cursor.text_map, hopen, if_false]
    cases Constant.ofName? c.token.text with
    | none => exact .error (.unknownIdentifier _ _)
    | some constant => exact .ok (Expr.constant constant c.token.line) _ _ _

theorem atom_alike (room : Nat) : Corresponds f (Expr.relocate r) (atom room) (atom room) := by
  induction room with
  | zero => exact fun c => .error (.nestingTooDeep c.token.line)
  | succ room ih =>
      intro c
      simp only [atom, atomOver, Cursor.kind_map]
      cases c.token.kind <;> try exact .error (.unexpectedToken _ _)
      case endOfInput => exact .error (.unexpectedEndOfInput _)
      case minus => exact negation_alike ih c
      case leftParen => exact group_alike (expression_alike ih) c
      case identifier => exact named_alike (expression_alike ih) c
      all_goals exact number_alike c

/-- What a supply at its new places holds is the expression at its new places, or the error. -/
theorem whole_transport (f : Transport r σ τ) (room : Nat) (s : σ) :
    whole room (f.toFun s) = r.result (whole room s) := by
  have hmap := f.next_toFun s
  unfold whole
  cases hnext : TokenSource.next s with
  | mk item behind =>
      rw [hnext] at hmap
      cases item with
      | error found =>
          rw [Cursor.ofSource_of_next_error hnext, Cursor.ofSource_of_next_error hmap]
          rfl
      | ok t =>
          rw [Cursor.ofSource_of_next_ok hnext, Cursor.ofSource_of_next_ok hmap]
          have halike := expression_alike (atom_alike (f := f) room) ⟨t, behind⟩
          simp only [bind, Except.bind]
          simp only [Cursor.map] at halike
          generalize expression (atom room) (⟨t, behind⟩ : Cursor σ) = x at halike ⊢
          generalize expression (atom room) (⟨t.relocate r, f.toFun behind⟩ : Cursor τ) = y
            at halike ⊢
          cases halike with
          | error e => rfl
          | ok value rest h h' =>
              by_cases hend : rest.token.kind = .endOfInput
              · simp only [Cursor.kind_map, hend, if_true]
                rfl
              · simp only [Cursor.kind_map, hend, if_false]
                rfl

/-- Supplies mapped to each other hold the same expression. -/
theorem whole_toFun (f : SupplyMap σ τ) (room : Nat) (s : σ) :
    whole room (f.toFun s) = whole room s := by
  have hstay := whole_transport f.toTransport room s
  rw [Relocation.result_stay] at hstay
  exact hstay

end Parser

def Scanner.toItemList : SupplyMap Scanner ItemList where
  toFun := itemList
  next_toFun := next_itemList

/-- Scanning ahead to the end of the text changes nothing for the reader. -/
theorem Expr.ofTokens_itemList (s : Scanner) :
    Expr.ofTokens s.itemList = Expr.ofTokens s :=
  Parser.whole_toFun Scanner.toItemList nestingLimit s

end Calculator
