import Calculator.Proofs.Scanning.Layout
import Calculator.Proofs.Writing.RoundTrip

/-!
Sources that hold one number and nothing else, or one number behind a minus sign. What they are read
as depends on what the number is read as alone: a value makes the tree of one literal, and without a
value the number is reported as it is written.
-/

namespace Calculator

open Grammar

/-- The source holds a lexeme on the given line, and nothing else but gaps. -/
inductive StandsAlone (l : Lexeme) : (line : Nat) → (source : String) → Prop where
  | between {lead gap : List Char} (before : Gap lead) (behind : FinalGap gap) :
      StandsAlone l (1 + lead.count '\n') (String.ofList (lead ++ (l.text ++ gap)))

theorem StandsAlone.of_text (l : Lexeme) : StandsAlone l 1 (String.ofList l.text) := by
  have h := @StandsAlone.between l [] [] .nil (.closed .nil)
  rwa [List.nil_append, List.append_nil] at h

theorem StandsAlone.exists_items {l : Lexeme} {line : Nat} {source : String}
    (h : StandsAlone l line source) (token : l.IsToken) (slash : l.text ≠ ['/']) :
    ∃ t : Token, (Scanner.ofString source).itemList.items = [.ok t] ∧ t.lexeme = l ∧
      t.line = line := by
  cases h with
  | @between lead gap before behind =>
      have hcut := token.cuts_gap behind (fun h => absurd h slash) (fun _ => rfl)
      obtain ⟨t, hlexeme, hline, hitems⟩ :=
        Layout.exists_itemList_word token hcut (Position.start.advance lead)
      rw [List.append_nil, behind.itemList_eq] at hitems
      refine ⟨t, ?_, hlexeme, ?_⟩
      · rw [Scanner.ofString, String.toList_ofList, before.itemList_append, hitems]
        rfl
      · rw [hline, Position.line_advance]
        rfl

/-- A minus sign is cut off from what follows it. -/
theorem Scanner.exists_items_of_minus {l : Lexeme} (token : l.IsToken) (slash : l.text ≠ ['/']) :
    ∃ sign t : Token, sign.kind = .minus ∧ sign.line = 1 ∧ t.lexeme = l ∧ t.line = 1 ∧
      (Scanner.ofString (String.ofList ('-' :: l.text))).itemList.items = [sign, t].map .ok := by
  have hminus : Lexeme.IsToken ⟨.token .minus, ['-']⟩ := ⟨_, rfl, .symbol rfl⟩
  have hsign : Cuts (.token .minus) ['-'] ([] ++ l.text) := by
    have hfirst := Piece.first_cuts '-' l.text
    rwa [Piece.first_of_symbol (show Token.Kind.minus.symbol? = some '-' from rfl) (by decide)]
      at hfirst
  have hnumber : Cuts l.kind l.text ([] ++ []) :=
    token.cuts_gap (.closed .nil) (fun h => absurd h slash) fun _ => rfl
  obtain ⟨sign, hkind, hsignLine, hfirst⟩ := Layout.exists_itemList_word hminus hsign .start
  obtain ⟨t, hlexeme, hline, hsecond⟩ :=
    Layout.exists_itemList_word token hnumber (Position.start.advance ['-'])
  rw [List.append_nil, (FinalGap.closed .nil).itemList_eq, List.append_nil] at hsecond
  refine ⟨sign, t, Token.kind_of_lexeme hkind, hsignLine, hlexeme, hline, ?_⟩
  rw [Scanner.ofString, String.toList_ofList]
  exact congrArg ItemList.items (hfirst.trans (congrArg (ItemList.cons _) hsecond))

theorem Matches.ne_slash_of_mem_numerals {kind : Token.Kind} {text : List Char}
    (h : Matches (.token kind) text) (hkind : kind ∈ Token.Kind.numerals) : text ≠ ['/'] := by
  intro htext
  cases h with
  | identifier => exact absurd hkind (by decide)
  | decimal _ all => exact absurd (all '/' (by simp [htext])) (by decide)
  | fractional =>
      have hpoint : '.' ∈ ['/'] := by simp [← htext]
      exact absurd hpoint (by decide)
  | hex => cases htext
  | bin => cases htext
  | symbol writes =>
      cases htext
      simp only [Token.Kind.numerals, List.mem_cons, List.not_mem_nil, or_false] at hkind
      rcases hkind with rfl | rfl | rfl | rfl <;> cases writes

namespace Parser

variable {σ : Type} [TokenSource σ] {c : Cursor σ} {e : SyntaxError}

/-- What stops the reader at the first atom stops it for good. -/
theorem whole_of_atom_error {source : σ} {room : Nat}
    (hnext : TokenSource.next source = (.ok c.token, c.source))
    (hatom : atom room c = .error e) : whole room source = .error e := by
  unfold whole
  rw [Cursor.ofSource_of_next_ok hnext]
  simp only [bind, Except.bind, expression, chain, hatom]

/-- A number that has no value is reported. -/
theorem atom_of_unreadable (room : Nat) (hkind : c.token.kind ∈ Token.Kind.numerals)
    (hread : Numeral.read? c.token.kind c.token.text.toList = none) :
    atom (room + 1) c = .error (.invalidNumber c.token.text c.token.line) := by
  have hnumber : number c = .error (.invalidNumber c.token.text c.token.line) := by
    rw [number, if_pos hkind, hread]
  simp only [Token.Kind.numerals, List.mem_cons, List.not_mem_nil, or_false] at hkind
  rw [atom, atomOver]
  rcases hkind with hkind | hkind | hkind | hkind <;> simp only [hkind, hnumber]

/-- What stops the reader behind a minus sign stops it at the sign. -/
theorem atom_of_minus {rest : List Token} {sign : Token} {room : Nat} (hminus : sign.kind = .minus)
    (hahead : c.Ahead (sign :: rest))
    (h : ∀ behind : Cursor σ, behind.Ahead rest → atom room behind = .error e) :
    atom (room + 1) c = .error e := by
  obtain ⟨behind, hsize, htoken, hbehind⟩ := hahead.read
  have hkind : c.token.kind = .minus := hahead.token_eq ▸ hminus
  rw [atom, atomOver]
  simp only [hkind, negation, htoken, bind, Except.bind, h behind hbehind]

end Parser

namespace Expr

/-- The tree of a number that is read as the given value, or the report of one without a value. -/
def ofNumber (text : String) (line : Nat) :
    Option (Binary64 × NumericType) → Except SyntaxError Expr
  | some (value, numericType) => .ok (.literal value numericType line)
  | none => .error (.invalidNumber text line)

section

variable {source : String} {t sign : Token}

/-- A source whose tokens derive as one atom is read as that atom. -/
theorem parse_of_atom {tokens : List Token}
    (hitems : (Scanner.ofString source).itemList.items = tokens.map .ok)
    (d : Derivation .atom tokens []) (hnesting : d.nesting ≤ nestingLimit) :
    parse source = .ok d.value := by
  obtain ⟨whole, hvalue, hsame⟩ := d.exists_weaker (some .disjunction) (strength_le_none _)
  rw [← hvalue]
  exact (whole_of_derivation hitems whole nestingLimit).1 (hsame ▸ hnesting)

/-- A source with one number, with or without a value. -/
theorem parse_of_number (hitems : (Scanner.ofString source).itemList.items = [t].map .ok)
    (hkind : t.kind ∈ Token.Kind.numerals) :
    parse source = ofNumber t.text t.line (Numeral.read? t.kind t.text.toList) := by
  cases hread : Numeral.read? t.kind t.text.toList with
  | some result =>
      obtain ⟨value, numericType⟩ := result
      exact parse_of_atom hitems (.number t value numericType hkind hread)
        (show 1 ≤ nestingLimit by decide)
  | none =>
      obtain ⟨u, behind, hnext, hahead⟩ := Scanner.ahead_of_items hitems
      obtain rfl : u = t := hahead.token_eq
      exact Parser.whole_of_atom_error (c := ⟨u, behind⟩) hnext
        (Parser.atom_of_unreadable 127 hkind hread)

/-- A source with a minus sign and one number, with or without a value. -/
theorem parse_of_negated_number
    (hitems : (Scanner.ofString source).itemList.items = [sign, t].map .ok)
    (hminus : sign.kind = .minus) (hkind : t.kind ∈ Token.Kind.numerals) :
    parse source = (ofNumber t.text t.line (Numeral.read? t.kind t.text.toList)).map
      (.negation · sign.line) := by
  cases hread : Numeral.read? t.kind t.text.toList with
  | some result =>
      obtain ⟨value, numericType⟩ := result
      exact parse_of_atom hitems
        (.negation sign hminus (.number t value numericType hkind hread))
        (show 2 ≤ nestingLimit by decide)
  | none =>
      obtain ⟨u, behind, hnext, hahead⟩ := Scanner.ahead_of_items hitems
      refine Parser.whole_of_atom_error (c := ⟨u, behind⟩) hnext ?_
      refine Parser.atom_of_minus hminus hahead fun rest hrest => ?_
      obtain rfl : rest.token = t := hrest.token_eq
      exact Parser.atom_of_unreadable 126 hkind hread

end

end Expr

section Numeral

variable {kind : Token.Kind} {l : Lexeme} (hkind : l.kind = .token kind)
  (hmatch : Matches (.token kind) l.text) (hmem : kind ∈ Token.Kind.numerals)

include hkind hmatch hmem

theorem StandsAlone.parse_eq {line : Nat} {source : String} (alone : StandsAlone l line source) :
    Expr.parse source = Expr.ofNumber (String.ofList l.text) line (Numeral.read? kind l.text) := by
  have hslash := hmatch.ne_slash_of_mem_numerals hmem
  obtain ⟨t, hitems, rfl, hline⟩ := alone.exists_items ⟨kind, hkind, hkind ▸ hmatch⟩ hslash
  obtain rfl : t.kind = kind := Piece.Kind.token.inj hkind
  have htext : t.text = String.ofList t.lexeme.text := String.ofList_toList.symm
  rw [Expr.parse_of_number hitems hmem, ← htext, hline]
  rfl

/-- What a number right behind a minus sign is read as. -/
theorem Expr.parse_minus :
    parse (String.ofList ('-' :: l.text)) =
      (ofNumber (String.ofList l.text) 1 (Numeral.read? kind l.text)).map (.negation · 1) := by
  have hslash := hmatch.ne_slash_of_mem_numerals hmem
  obtain ⟨sign, t, hminus, hsign, rfl, hline, hitems⟩ :=
    Scanner.exists_items_of_minus ⟨kind, hkind, hkind ▸ hmatch⟩ hslash
  obtain rfl : t.kind = kind := Piece.Kind.token.inj hkind
  have htext : t.text = String.ofList t.lexeme.text := String.ofList_toList.symm
  rw [parse_of_negated_number hitems hminus hmem, ← htext, hline, hsign]
  rfl

end Numeral

end Calculator
