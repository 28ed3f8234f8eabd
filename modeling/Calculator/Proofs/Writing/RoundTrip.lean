import Calculator.Proofs.Grammar.Acceptance
import Calculator.Proofs.Writing.Written

/-!
Writing a tree and reading it again. The lexemes of a tree derive from the grammar as one atom whose
nesting is the height of the tree, so the tree comes back if its height is within the limit, and
otherwise the text is nested too deeply.
-/

namespace Calculator

open Grammar

namespace Grammar

theorem strength_injective {level level' : Option Level} (h : strength level = strength level') :
    level = level' := by
  rcases level with _ | level <;> rcases level' with _ | level'
  · rfl
  · cases level' <;> exact absurd h (by decide)
  · cases level <;> exact absurd h (by decide)
  · cases level <;> cases level' <;> first | rfl | exact absurd h (by decide)

theorem strength_le_none (level : Option Level) : strength level ≤ strength none := by
  rcases level with _ | level
  · exact Nat.le_refl _
  · cases level <;> decide

/-- A phrase is also a phrase of every weaker level, as its only operand. -/
theorem Derivation.exists_weaker {level : Option Level} {before after : List Token}
    (d : Derivation (.phrase level) before after) (weaker : Option Level)
    (h : strength weaker ≤ strength level) :
    ∃ d' : Derivation (.phrase weaker) before after,
      d'.value = d.value ∧ d'.nesting = d.nesting := by
  induction hn : strength level - strength weaker generalizing weaker with
  | zero =>
      obtain rfl := strength_injective (Nat.le_antisymm h (Nat.sub_eq_zero_iff_le.mp hn))
      exact ⟨d, rfl, rfl⟩
  | succ n ih =>
      cases weaker with
      | none =>
          have hle := strength_le_none level
          omega
      | some l =>
          have hstep := strength_stronger? l
          obtain ⟨d', hvalue, hnesting⟩ := ih (stronger? l) (by omega) (by omega)
          refine ⟨.phrase d' .done, hvalue, ?_⟩
          rw [← hnesting]
          exact Nat.max_zero _

end Grammar

def Operator.level : Operator → Level
  | .bitOr => .disjunction
  | .bitAnd => .conjunction
  | .add | .sub => .sum
  | .mul | .div | .mod => .product
  | .pow => .power

theorem Operator.joins (op : Operator) : Joins op.level op.kind op := by
  cases op <;> constructor

theorem Operator.kind_ne_leftParen (op : Operator) : op.kind ≠ .leftParen := by
  cases op <;> exact Token.Kind.noConfusion

/-- Two atoms with an operator between them derive as an expression. -/
theorem Grammar.Derivation.exists_joined {sign : Token} {before rest after : List Token}
    (left : Derivation .atom before (sign :: rest)) (op : Operator) (hkind : sign.kind = op.kind)
    (right : Derivation .atom rest after) :
    ∃ d : Derivation .expression before after,
      d.value = .binary op left.value right.value sign.line ∧
        d.nesting = max left.nesting right.nesting := by
  have hjoins : Joins op.level sign.kind op := hkind ▸ op.joins
  obtain ⟨left', hvaluel, hnestingl⟩ :=
    left.exists_weaker (stronger? op.level) (strength_le_none _)
  obtain ⟨right', hvaluer, hnestingr⟩ :=
    right.exists_weaker (stronger? op.level) (strength_le_none _)
  obtain ⟨d, hvalue, hnesting⟩ :=
    (Derivation.phrase left' (.operator op sign hjoins right' .done)).exists_weaker
      (some .disjunction) (Nat.zero_le _)
  refine ⟨d, ?_, ?_⟩
  · rw [hvalue, ← hvaluel, ← hvaluer]
    rfl
  · rw [hnesting, Derivation.nesting, Derivation.nesting, Derivation.nesting, hnestingl, hnestingr,
      Nat.max_zero]

theorem Token.kind_of_lexeme {t : Token} {kind : Token.Kind} {text : List Char}
    (h : t.lexeme = ⟨.token kind, text⟩) : t.kind = kind :=
  Piece.Kind.token.inj (congrArg Lexeme.kind h)

theorem Token.toList_text_of_lexeme {t : Token} {kind : Piece.Kind} {text : List Char}
    (h : t.lexeme = ⟨kind, text⟩) : t.text.toList = text :=
  congrArg Lexeme.text h

theorem Token.text_of_lexeme {t : Token} {name : String} (h : t.lexeme = .name name) :
    t.text = name :=
  String.toList_injective (Token.toList_text_of_lexeme h)

/-- The token of a number literal derives as an atom with the value of the literal. -/
theorem Grammar.Derivation.exists_literal {l : Literal} {t : Token} (rest : List Token)
    (h : t.lexeme = .literal l) :
    ∃ d : Derivation .atom (t :: rest) rest,
      d.value = .literal l.value l.numericType t.line ∧ d.nesting = 1 := by
  have hkind := Token.kind_of_lexeme h
  have hread := l.read?_text
  rw [← hkind, ← Token.toList_text_of_lexeme h] at hread
  exact ⟨.number t _ _ (hkind ▸ l.kind_mem) hread, rfl, rfl⟩

namespace Written

mutual

/-- The tokens of a tree derive as one atom, which has the tree as its value and the height of the
tree as its nesting. -/
theorem exists_atom (w : Written) {tokens : List Token} (after : List Token) {line : Nat}
    (htokens : tokens.map Token.lexeme = w.lexemes) (hline : ∀ t ∈ tokens, t.line = line)
    (hafter : ∀ t ∈ after.head?, t.kind ≠ .leftParen) :
    ∃ d : Derivation .atom (tokens ++ after) after,
      d.value = w.toExpr line ∧ d.nesting = w.height := by
  match w with
  | .number literal =>
      obtain ⟨t, rfl, ht⟩ := List.map_eq_singleton_iff.mp htokens
      obtain ⟨d, hvalue, hnesting⟩ := Derivation.exists_literal after ht
      refine ⟨d, ?_, hnesting⟩
      rw [hvalue, hline t List.mem_cons_self, toExpr]
  | .constant name value known =>
      obtain ⟨t, rfl, ht⟩ := List.map_eq_singleton_iff.mp htokens
      rw [← Token.text_of_lexeme ht] at known
      refine ⟨.constant t value (Token.kind_of_lexeme ht) hafter known, ?_, rfl⟩
      rw [Derivation.value, hline t List.mem_cons_self, toExpr]
  | .negation operand =>
      obtain ⟨sign, rest, rfl, hsign, hrest⟩ := List.map_eq_cons_iff.mp htokens
      have hlines : ∀ t ∈ rest, t.line = line := fun t ht => hline t (List.mem_cons_of_mem _ ht)
      obtain ⟨d, hvalue, hnesting⟩ := operand.exists_atom after hrest hlines hafter
      refine ⟨.negation sign (Token.kind_of_lexeme hsign) d, ?_, ?_⟩
      · rw [Derivation.value, hvalue, hline sign List.mem_cons_self, toExpr]
      · rw [Derivation.nesting, hnesting, height]
  | .binary op lhs rhs =>
      obtain ⟨opening, rest, rfl, hopening, hrest⟩ := List.map_eq_cons_iff.mp htokens
      obtain ⟨left, rest, rfl, hleft, hrest⟩ := List.map_eq_append_iff.mp hrest
      obtain ⟨sign, rest, rfl, hsign, hrest⟩ := List.map_eq_cons_iff.mp hrest
      obtain ⟨right, rest, rfl, hright, hrest⟩ := List.map_eq_append_iff.mp hrest
      obtain ⟨closing, rfl, hclosing⟩ := List.map_eq_singleton_iff.mp hrest
      have hkind := Token.kind_of_lexeme hsign
      have hcloses := Token.kind_of_lexeme hclosing
      have hnext : sign.kind ≠ .leftParen := hkind ▸ op.kind_ne_leftParen
      obtain ⟨dl, hvaluel, hnestingl⟩ := lhs.exists_atom
        (sign :: (right ++ closing :: after)) hleft (fun t ht => hline t (by simp [ht]))
        (by simpa using hnext)
      obtain ⟨dr, hvaluer, hnestingr⟩ := rhs.exists_atom (closing :: after) hright
        (fun t ht => hline t (by simp [ht])) (by simp [hcloses])
      obtain ⟨d, hvalue, hnesting⟩ := dl.exists_joined op hkind dr
      have hsplit : opening :: (left ++ sign :: (right ++ [closing])) ++ after =
          opening :: (left ++ sign :: (right ++ closing :: after)) := by simp
      rw [hsplit]
      refine ⟨.group (Token.kind_of_lexeme hopening) d hcloses, ?_, ?_⟩
      · rw [Derivation.value, hvalue, hvaluel, hvaluer, hline sign (by simp), toExpr]
      · rw [Derivation.nesting, hnesting, hnestingl, hnestingr, height]
  | .call function arguments =>
      obtain ⟨name, rest, rfl, hname, hrest⟩ := List.map_eq_cons_iff.mp htokens
      obtain ⟨opening, rest, rfl, hopening, hrest⟩ := List.map_eq_cons_iff.mp hrest
      obtain ⟨list, rest, rfl, hlist, hrest⟩ := List.map_eq_append_iff.mp hrest
      obtain ⟨closing, rfl, hclosing⟩ := List.map_eq_singleton_iff.mp hrest
      have hknown := function.ofName?_name
      rw [← Token.text_of_lexeme hname] at hknown
      obtain ⟨d, hvalue, hnesting⟩ := exists_argumentList arguments after hlist
        (fun t ht => hline t (by simp [ht])) (Token.kind_of_lexeme hclosing)
      have hsplit : name :: opening :: (list ++ [closing]) ++ after =
          name :: opening :: (list ++ closing :: after) := by simp
      rw [hsplit]
      refine ⟨.call name function (Token.kind_of_lexeme hname) (Token.kind_of_lexeme hopening)
        hknown d, ?_, ?_⟩
      · rw [Derivation.value, hvalue, hline name (by simp), toExpr]
      · rw [Derivation.nesting, hnesting, height]

theorem exists_argumentList (ws : List Written) {tokens : List Token} (after : List Token)
    {closing : Token} {line : Nat} (htokens : tokens.map Token.lexeme = argumentLexemes ws)
    (hline : ∀ t ∈ tokens, t.line = line) (hcloses : closing.kind = .rightParen) :
    ∃ d : Derivation .argumentList (tokens ++ closing :: after) after,
      d.value = toExprs line ws ∧ d.nesting = maxHeight ws := by
  match ws with
  | [] =>
      obtain rfl := List.map_eq_nil_iff.mp htokens
      exact ⟨.noArgument hcloses, rfl, rfl⟩
  | w :: rest =>
      obtain ⟨d, hvalue, hnesting⟩ :=
        exists_arguments (w :: rest) (List.cons_ne_nil _ _) after htokens hline hcloses
      exact ⟨.someArguments d, hvalue, hnesting⟩

theorem exists_arguments (ws : List Written) (hne : ws ≠ []) {tokens : List Token}
    (after : List Token) {closing : Token} {line : Nat} (htokens : tokens.map Token.lexeme = argumentLexemes ws)
    (hline : ∀ t ∈ tokens, t.line = line) (hcloses : closing.kind = .rightParen) :
    ∃ d : Derivation .arguments (tokens ++ closing :: after) after,
      d.value = toExprs line ws ∧ d.nesting = maxHeight ws := by
  match ws with
  | [] => exact absurd rfl hne
  | [w] =>
      rw [argumentLexemes, furtherLexemes, List.append_nil] at htokens
      obtain ⟨d, hvalue, hnesting⟩ := w.exists_atom (closing :: after) htokens hline
        (by simp [hcloses])
      obtain ⟨d', hvalue', hnesting'⟩ :=
        d.exists_weaker (some .disjunction) (strength_le_none _)
      refine ⟨.lastArgument d' hcloses, ?_, ?_⟩
      · rw [Derivation.value, hvalue', hvalue, toExprs, toExprs]
      · rw [Derivation.nesting, hnesting', hnesting, maxHeight, maxHeight, Nat.max_zero]
  | w :: w' :: rest =>
      obtain ⟨first, others, rfl, hfirst, hothers⟩ := List.map_eq_append_iff.mp htokens
      obtain ⟨comma, others, rfl, hcomma, hothers⟩ := List.map_eq_cons_iff.mp hothers
      have hseparates := Token.kind_of_lexeme hcomma
      obtain ⟨d, hvalue, hnesting⟩ := w.exists_atom
        (comma :: (others ++ closing :: after)) hfirst (fun t ht => hline t (by simp [ht])) (by simp [hseparates])
      obtain ⟨d', hvalue', hnesting'⟩ :=
        d.exists_weaker (some .disjunction) (strength_le_none _)
      obtain ⟨list, hvalues, hnestings⟩ := exists_arguments (w' :: rest) (List.cons_ne_nil _ _)
        after hothers (fun t ht => hline t (by simp [ht])) hcloses
      rw [List.append_assoc, List.cons_append]
      refine ⟨.nextArgument d' hseparates list, ?_, ?_⟩
      · rw [Derivation.value, hvalue', hvalue, hvalues]
        rfl
      · rw [Derivation.nesting, hnesting', hnesting, hnestings]
        rfl

end

theorem lexemes_ne_nil (w : Written) : w.lexemes ≠ [] := by
  cases w <;> simp [lexemes]

end Written

/-- A tree that is written on one line, with blanks between its lexemes, is read again as the same
tree if its height is at most 128, and is nested too deeply if its height is greater. -/
theorem parse_written (w : Written) (source : String) (h : Spaced w.lexemes source.toList) :
    (w.height ≤ 128 → Expr.parse source = .ok (w.toExpr 1)) ∧
      (128 < w.height → Expr.parse source = .error (.nestingTooDeep 1)) := by
  obtain ⟨pieces, hpieces, hitems⟩ := h.tokenization w.isToken_lexemes
  obtain ⟨tokens, hitems, htokens, hlines⟩ := hitems .start
  have hscan : (Scanner.ofString source).itemList.items = tokens.map .ok := by
    rw [Scanner.ofString, Scanner.itemList_of_tokenization hpieces, hitems]
  have hatom := w.exists_atom [] htokens hlines (by simp)
  rw [List.append_nil] at hatom
  obtain ⟨atom, hvalue, hnesting⟩ := hatom
  obtain ⟨d, hvalue', hnesting'⟩ := atom.exists_weaker (some .disjunction) (strength_le_none _)
  have hwhole := whole_of_derivation hscan d 128
  rw [hnesting', hnesting, hvalue', hvalue] at hwhole
  refine ⟨hwhole.1, fun hdeep => ?_⟩
  obtain ⟨t, ht, herror⟩ := hwhole.2 hdeep
  rw [hlines t ht] at herror
  exact herror

def Lexeme.spaced : List Lexeme → List Char
  | [] => []
  | [l] => l.text
  | l :: l' :: rest => l.text ++ ([' '] ++ spaced (l' :: rest))

theorem Lexeme.spaced_spaced {lexemes : List Lexeme} (h : lexemes ≠ []) :
    Spaced lexemes (spaced lexemes) := by
  induction lexemes with
  | nil => exact absurd rfl h
  | cons l rest ih =>
      cases rest with
      | nil => exact .single l
      | cons l' rest => exact .cons (List.cons_ne_nil _ _) (by simp [Blank]) (ih (by simp))

/-- Written with one space between them, lexemes are scanned as they are. -/
theorem Lexeme.exists_tokens_spaced {lexemes : List Lexeme} (hne : lexemes ≠ [])
    (htokens : ∀ l ∈ lexemes, l.IsToken) :
    ∃ tokens : List Token,
      (Scanner.ofString (String.ofList (spaced lexemes))).itemList.items = tokens.map .ok ∧
        tokens.map Token.lexeme = lexemes := by
  have hspaced := spaced_spaced hne
  rw [← String.toList_ofList (l := spaced lexemes)] at hspaced
  obtain ⟨tokens, hitems, hlexemes, _⟩ := hspaced.exists_tokens htokens
  exact ⟨tokens, hitems, hlexemes⟩

private theorem hexDigit_of_mem : ∀ c ∈ ['1', 'F'], HexDigit c := by
  simp [HexDigit]

private theorem isDigit_of_mem {d : Char} (h : d.isDigit) : ∀ c ∈ [d], c.isDigit := by
  simpa using h

private theorem small_1F : Numeral.positional 16 ['1', 'F'] 0 < 0x10000000000000000 := by
  decide

private theorem isFinite_2_5 : ((Decimal.ofDigits ['2'] ['5']).toBinary64 false).isFinite := by
  decide +kernel

private def differenceOfCall : Written :=
  .binary .sub
    (.negation (.number (.hex ['1', 'F'] (List.cons_ne_nil _ _) hexDigit_of_mem small_1F)))
    (.call .pow [.constant "π" .pi rfl, .number (.fractional ['2'] ['5'] (List.cons_ne_nil _ _)
      (List.cons_ne_nil _ _) (isDigit_of_mem rfl) (isDigit_of_mem rfl) isFinite_2_5)])

private def signsBeforeE : Nat → Written
  | 0 => .constant "e" .e rfl
  | n + 1 => .negation (signsBeforeE n)

private theorem height_signsBeforeE (n : Nat) : (signsBeforeE n).height = n + 1 := by
  induction n with
  | zero => rfl
  | succ n ih => rw [signsBeforeE, Written.height, ih]

private theorem lexemes_signsBeforeE (n : Nat) :
    (signsBeforeE n).lexemes = List.replicate n .minus ++ [.name "e"] := by
  induction n with
  | zero => rfl
  | succ n ih => rw [signsBeforeE, Written.lexemes, ih, List.replicate_succ, List.cons_append]

/-- The difference of a negated number and a call is read again, and a constant behind 128 signs is
nested too deeply. -/
theorem parse_written_difference_and_signs :
    Expr.parse "( - 0x1F - pow ( π , 2.5 ) )" =
        .ok (.binary .sub (.negation (.literal (.ofNat 31) .integer 1) 1)
          (.call .pow [.constant .pi 1,
            .literal ((Decimal.ofDigits ['2'] ['5']).toBinary64 false) .float 1] 1) 1) ∧
      Expr.parse (String.ofList (Lexeme.spaced (List.replicate 128 .minus ++ [.name "e"]))) =
        .error (.nestingTooDeep 1) := by
  constructor
  · have hspaced : Spaced differenceOfCall.lexemes "( - 0x1F - pow ( π , 2.5 ) )".toList :=
      Lexeme.spaced_spaced differenceOfCall.lexemes_ne_nil
    exact (parse_written differenceOfCall _ hspaced).1 (by decide)
  · have hspaced := Lexeme.spaced_spaced (signsBeforeE 128).lexemes_ne_nil
    rw [← String.toList_ofList (l := Lexeme.spaced _), lexemes_signsBeforeE] at hspaced
    refine (parse_written (signsBeforeE 128) _ ?_).2 ?_
    · rw [lexemes_signsBeforeE]
      exact hspaced
    · rw [height_signsBeforeE]
      decide

end Calculator
