import Calculator.Calculate
import Calculator.Proofs.Operators.Saturation
import Calculator.Proofs.Writing.RoundTrip

/-!
Calculating with two whole number literals and one of the operators that work on 64-bit integers.
-/

namespace Calculator

open Grammar Binary64

/-- The natural number that a literal writes in one of the three notations for whole numbers. -/
def Literal.natural? : Literal → Option Nat
  | .decimal digits .. => some (Numeral.positional 10 digits 0)
  | .hex digits .. => some (Numeral.positional 16 digits 0)
  | .bin digits .. => some (Numeral.positional 2 digits 0)
  | .fractional .. => none

theorem Literal.of_natural? {l : Literal} {n : Nat} (h : l.natural? = some n) :
    l.value = .ofNat n ∧ l.numericType = .integer ∧ n < 0x10000000000000000 := by
  cases l with
  | decimal _ _ _ small | hex _ _ _ small | bin _ _ _ small =>
      cases h
      exact ⟨rfl, rfl, small⟩
  | fractional => cases h

/-- The text is made up of these lexemes, with any blanks, newlines and comments between them. -/
def Writes (source : String) (lexemes : List Lexeme) : Prop :=
  ∃ tokens : List Token, (Scanner.ofString source).itemList.items = tokens.map .ok ∧
    tokens.map Token.lexeme = lexemes

/-- Two literals and an operator between them, with one space on each side of it. -/
theorem writes_operation (l r : Literal) (op : Operator) :
    Writes (String.ofList (Lexeme.spaced [.literal l, .operator op, .literal r]))
      [.literal l, .operator op, .literal r] :=
  Lexeme.exists_tokens_spaced (List.cons_ne_nil _ _)
    (by simp [Lexeme.isToken_literal, Lexeme.isToken_operator])

section Operation

variable {source : String} {l r : Literal} {op : Operator}

theorem exists_parse_operation
    (h : Writes source [.literal l, .operator op, .literal r]) :
    ∃ i j k, Expr.parse source = .ok (.binary op (.literal l.value l.numericType i)
      (.literal r.value r.numericType j) k) := by
  obtain ⟨tokens, hitems, hlexemes⟩ := h
  obtain ⟨first, rest, rfl, hfirst, hrest⟩ := List.map_eq_cons_iff.mp hlexemes
  obtain ⟨sign, rest, rfl, hsign, hrest⟩ := List.map_eq_cons_iff.mp hrest
  obtain ⟨second, rest, rfl, hsecond, hrest⟩ := List.map_eq_cons_iff.mp hrest
  obtain rfl := List.map_eq_nil_iff.mp hrest
  obtain ⟨left, hleft, hnestingl⟩ := Derivation.exists_literal [sign, second] hfirst
  obtain ⟨right, hright, hnestingr⟩ := Derivation.exists_literal [] hsecond
  obtain ⟨d, hvalue, hnesting⟩ := left.exists_joined op (Token.kind_of_lexeme hsign) right
  refine ⟨first.line, second.line, sign.line, ?_⟩
  rw [← hleft, ← hright, ← hvalue]
  refine (whole_of_derivation hitems d Expr.nestingLimit).1 ?_
  rw [hnesting, hnestingl, hnestingr]
  decide

/-- An operation on two literals that the operator accepts is calculated by applying it to their
values. -/
theorem calculate_operation (h : Writes source [.literal l, .operator op, .literal r])
    (haccepts : op.accepts l.numericType r.numericType) :
    calculate source = .ok (op.apply l.value r.value) := by
  obtain ⟨i, j, k, hparse⟩ := exists_parse_operation h
  have hcheck : op.check l.numericType r.numericType k = .ok () := if_pos haccepts
  have hanalyze : ∃ type, (Expr.binary op (.literal l.value l.numericType i)
      (.literal r.value r.numericType j) k).analyze = .ok type := by
    simp only [Expr.analyze, bind, Except.bind, hcheck]
    exact ⟨_, rfl⟩
  obtain ⟨type, hanalyze⟩ := hanalyze
  simp [calculate, hparse, hanalyze, Expr.evaluate]

end Operation

/-- The operators that work on 64-bit integers, between two whole number literals that are numbers
of 64 bits. With both sides cut off to the greatest 64-bit integer, `&` and `|` give the number
nearest to their bitwise conjunction and disjunction, and `%` the one nearest to their remainder.
The conjunction is exact where one side is below 2 ^ 63, the remainder where the dividend is. -/
theorem calculate_operation_of_natural {l r : Literal} {m n : Nat} (hl : l.natural? = some m)
    (hr : r.natural? = some n) (hm : Representable m) (hn : Representable n) :
    (∀ source, Writes source [.literal l, .operator .bitAnd, .literal r] →
      ∃ x, calculate source = .ok x ∧ x.IsNearest (saturate m &&& saturate n) ∧
        (m < 0x8000000000000000 ∨ n < 0x8000000000000000 →
          x.IsInteger (saturate m &&& saturate n : Nat))) ∧
    (∀ source, Writes source [.literal l, .operator .bitOr, .literal r] →
      ∃ x, calculate source = .ok x ∧ x.IsNearest (saturate m ||| saturate n)) ∧
    (0 < n → ∀ source, Writes source [.literal l, .operator .mod, .literal r] →
      ∃ x, calculate source = .ok x ∧ x.IsNearest (saturate m % saturate n) ∧
        (m < 0x8000000000000000 → x.IsInteger (saturate m % saturate n : Nat))) := by
  obtain ⟨hlvalue, hltype, _⟩ := Literal.of_natural? hl
  obtain ⟨hrvalue, hrtype, _⟩ := Literal.of_natural? hr
  have hltm := saturate_lt m
  have hltn := saturate_lt n
  have haccepts : ∀ op : Operator, op.accepts l.numericType r.numericType := by
    intro op
    rw [hltype, hrtype]
    cases op <;> rfl
  refine ⟨fun source h => ?_, fun source h => ?_, fun hpos source h => ?_⟩
  · refine ⟨_, calculate_operation h (haccepts _), ?_⟩
    rw [hlvalue, hrvalue, Operator.apply_bitAnd hm.isInteger_ofNat hn.isInteger_ofNat]
    have hle : saturate m &&& saturate n ≤ saturate m := Nat.and_le_left
    exact ⟨isNearest_ofNat (by omega),
      fun h => (representable_land_saturate hm hn h).isInteger_ofNat⟩
  · refine ⟨_, calculate_operation h (haccepts _), ?_⟩
    rw [hlvalue, hrvalue, Operator.apply_bitOr hm.isInteger_ofNat hn.isInteger_ofNat]
    have hlt := or_lt_of_lt hltm hltn
    exact isNearest_ofNat (by omega)
  · refine ⟨_, calculate_operation h (haccepts _), ?_⟩
    rw [hlvalue, hrvalue, Operator.apply_mod hm.isInteger_ofNat hn.isInteger_ofNat hpos]
    have hle : saturate m % saturate n ≤ saturate m := Nat.mod_le _ _
    exact ⟨isNearest_ofNat (by omega),
      fun h => (representable_mod_saturate hm hn h).isInteger_ofNat⟩

private def twoTo63 : Literal :=
  .hex ('8' :: List.replicate 15 '0') (List.cons_ne_nil _ _) (by simp [HexDigit]) (by decide)

private def ten : Literal :=
  .decimal ['1', '0'] (List.cons_ne_nil _ _) (by simp) (by decide)

/-- Between 2 ^ 63 and 10 the operators compute on 2 ^ 63 - 1 and 10. -/
theorem calculate_operation_of_natural_between_two_pow_63_and_10 :
    (∃ x, calculate "0x8000000000000000 & 10" = .ok x ∧ x.IsNearest 10 ∧ x.IsInteger 10) ∧
    (∃ x, calculate "0x8000000000000000 | 10" = .ok x ∧ x.IsNearest 0x7FFFFFFFFFFFFFFF) ∧
    ∃ x, calculate "0x8000000000000000 % 10" = .ok x ∧ x.IsNearest 7 := by
  have hm : Representable 0x8000000000000000 :=
    (representable_iff (by decide)).mpr ⟨63, by decide, by decide⟩
  have hn : Representable 10 := (representable_iff (by decide)).mpr ⟨0, by decide, by decide⟩
  have hl : twoTo63.natural? = some 0x8000000000000000 := by decide
  have hr : ten.natural? = some 10 := by decide
  obtain ⟨hand, hor, hmod⟩ := calculate_operation_of_natural hl hr hm hn
  obtain ⟨x, hx, hxnearest, hxinteger⟩ := hand _ (writes_operation _ _ _)
  obtain ⟨y, hy, hynearest⟩ := hor _ (writes_operation _ _ _)
  obtain ⟨z, hz, hznearest, _⟩ := hmod (by decide) _ (writes_operation _ _ _)
  exact ⟨⟨x, hx, hxnearest, hxinteger (.inr (by decide))⟩, ⟨y, hy, hynearest⟩, z, hz, hznearest⟩

/-- Whether something succeeds with a given value can be decided. -/
instance decidableEqOk {ε α : Type} [DecidableEq α] (x : Except ε α) (a : α) :
    Decidable (x = .ok a) :=
  match x with
  | .error _ => isFalse nofun
  | .ok b =>
      if h : b = a then isTrue (congrArg Except.ok h)
      else isFalse fun heq => h (Except.ok.inj heq)

/-- The operators take no account of what an operand has beyond the greatest 64-bit integer. -/
theorem calculate_beyond_int64 :
    (Representable 0x8000000000000000 ∧ Representable 1 ∧
      calculate "0x8000000000000000 & 1" = .ok (.ofNat 1) ∧
      ¬(ofNat 1).IsInteger (0x8000000000000000 &&& 1 : Nat)) ∧
    (Representable 0x8000000000000800 ∧ Representable 0 ∧
      calculate "0x8000000000000800 | 0" = .ok (.ofNat 0x8000000000000000) ∧
      ¬(ofNat 0x8000000000000000).IsNearest (0x8000000000000800 ||| 0)) ∧
    (Representable 0x8000000000000000 ∧ Representable 2 ∧
      calculate "0x8000000000000000 % 2" = .ok (.ofNat 1) ∧
      ¬(ofNat 1).IsInteger (0x8000000000000000 % 2 : Nat)) := by
  have hone : Representable 1 := (representable_iff (by decide)).mpr ⟨0, by decide, by decide⟩
  have htwo : Representable 2 := (representable_iff (by decide)).mpr ⟨0, by decide, by decide⟩
  have hbig : Representable 0x8000000000000000 :=
    (representable_iff (by decide)).mpr ⟨63, by decide, by decide⟩
  have hnext : Representable 0x8000000000000800 :=
    (representable_iff (by decide)).mpr ⟨11, by decide, by decide⟩
  have hodd : ¬(ofNat 1).IsInteger (0 : Nat) :=
    fun h => absurd (hone.isInteger_ofNat.unique h) (by decide)
  refine ⟨⟨hbig, hone, by decide +kernel, hodd⟩, ⟨hnext, representable_zero, by decide +kernel, ?_⟩,
    ⟨hbig, htwo, by decide +kernel, hodd⟩⟩
  exact fun h => absurd (hbig.isInteger_ofNat.unique (h.isInteger hnext)) (by decide)

end Calculator
