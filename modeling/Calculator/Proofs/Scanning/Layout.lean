import Calculator.Proofs.Scanning.Spacing

/-!
Laying out lexemes over lines and scanning them again. A gap between lexemes holds blanks, newlines
and comments in any order; a gap is passed over character by character, and no lexeme reaches into
the gap behind it, except that a slash opens a comment together with another one.
-/

namespace Calculator

/-- What may stand between two lexemes: blanks, newlines, and comments with the newline that ends
them. -/
inductive Gap : List Char → Prop where
  | nil : Gap []
  | blank {c : Char} {rest : List Char} (isBlank : Blank c) (others : Gap rest) : Gap (c :: rest)
  | newline {rest : List Char} (others : Gap rest) : Gap ('\n' :: rest)
  | comment {line rest : List Char} (within : '\n' ∉ line) (others : Gap rest) :
      Gap ('/' :: '/' :: line ++ '\n' :: rest)

/-- What may stand at the end of a source: a gap, and behind it a comment that no newline ends. -/
inductive FinalGap : List Char → Prop where
  | closed {gap : List Char} (isGap : Gap gap) : FinalGap gap
  | comment {gap line : List Char} (isGap : Gap gap) (within : '\n' ∉ line) :
      FinalGap (gap ++ '/' :: '/' :: line)

/-- Lexemes in their order, each with the gap behind it, and the gap before the first of them. -/
structure Layout where
  lead : List Char
  words : List (Lexeme × List Char)

namespace Layout

def wordsText (words : List (Lexeme × List Char)) : List Char :=
  words.flatMap fun word => word.1.text ++ word.2

def text (l : Layout) : List Char :=
  l.lead ++ wordsText l.words

/-- Lexemes of tokens that are kept apart: there is something between any two of them, and a slash
is not followed by a comment. -/
inductive Apart : List (Lexeme × List Char) → Prop where
  | nil : Apart []
  | last {l : Lexeme} {gap : List Char} (token : l.IsToken) (isGap : FinalGap gap)
      (slash : l.text = ['/'] → ¬['/', '/'] <+: gap) : Apart [(l, gap)]
  | cons {l : Lexeme} {gap : List Char} {words : List (Lexeme × List Char)} (token : l.IsToken)
      (isGap : Gap gap) (nonempty : gap ≠ []) (slash : l.text = ['/'] → ¬['/', '/'] <+: gap)
      (others : Apart words) : Apart ((l, gap) :: words)

/-- A layout that keeps its lexemes apart. A comment may be left open at the end of the source
only. -/
structure IsApart (l : Layout) : Prop where
  lead : FinalGap l.lead
  closed : l.words ≠ [] → Gap l.lead
  words : Apart l.words

end Layout

namespace Matches

/-- The character of a symbol is in no token but the symbol itself. -/
theorem eq_of_symbol_mem {sign kind : Token.Kind} {c : Char} {text : List Char}
    (hsign : sign.symbol? = some c) (h : Matches (.token kind) text) (hmem : c ∈ text) :
    text = [c] := by
  have hpart : isIdentifierPart c = false := by cases sign <;> cases hsign <;> decide +kernel
  have hdigit : c.isDigit = false := by cases sign <;> cases hsign <;> rfl
  have hhex : isHexDigit c = false := by cases sign <;> cases hsign <;> rfl
  have hbin : isBinDigit c = false := by cases sign <;> cases hsign <;> rfl
  have hother : c ≠ '.' ∧ c ≠ '0' ∧ c ≠ 'x' ∧ c ≠ 'b' := by
    cases sign <;> cases hsign <;> decide
  obtain ⟨hpoint, hzero, hx, hb⟩ := hother
  cases h with
  | identifier first others =>
      rcases List.mem_cons.mp hmem with rfl | hmem
      · simp [isIdentifierPart, first] at hpart
      · simp [(isIdentifierPart_iff c).mpr (others c hmem)] at hpart
  | decimal _ all => simp [all c hmem] at hdigit
  | fractional _ _ allLeft allRight =>
      simp only [List.mem_append, List.mem_cons] at hmem
      rcases hmem with hmem | hmem | hmem
      · simp [allLeft c hmem] at hdigit
      · exact absurd hmem hpoint
      · simp [allRight c hmem] at hdigit
  | hex all =>
      simp only [List.mem_cons, hzero, hx, false_or] at hmem
      simp [(isHexDigit_iff c).mpr (all c hmem)] at hhex
  | bin all =>
      simp only [List.mem_cons, hzero, hb, false_or] at hmem
      simp [(isBinDigit_iff c).mpr (all c hmem)] at hbin
  | symbol writes =>
      rw [List.mem_singleton] at hmem
      rw [hmem]

/-- No match goes on behind a token over a slash, unless the token is a slash itself. -/
theorem eq_slash_of_past {kind : Token.Kind} {other : Piece.Kind} {text tail : List Char}
    (h : Matches (.token kind) text) (h' : Matches other (text ++ '/' :: tail)) :
    text = ['/'] := by
  obtain ⟨c, cs, rfl⟩ := List.exists_cons_of_ne_nil h.ne_nil
  generalize hsource : c :: cs ++ '/' :: tail = source at h'
  have hmem : '/' ∈ source := by simp [← hsource]
  cases other with
  | token kind =>
      have hslash := h'.eq_of_symbol_mem (show Token.Kind.slash.symbol? = some '/' from rfl) hmem
      rw [← hsource] at hslash
      simp at hslash
  | unknown => exact absurd rfl h'.kind_ne_unknown
  | comment =>
      cases h'
      cases cs <;> simp_all
  | newline =>
      cases h'
      simp at hmem
  | blanks =>
      cases h' with
      | blanks _ all =>
          have hblank := all '/' hmem
          simp [Blank] at hblank

end Matches

/-- A token is cut off before the end of the source, before blanks and newlines and, unless it is a
slash, before a slash. -/
theorem Lexeme.IsToken.cuts_of_head {l : Lexeme} (h : l.IsToken) (rest : List Char)
    (hrest : ∀ c ∈ rest.head?, c.toNat ≤ 32 ∨ c = '/' ∧ l.text ≠ ['/']) :
    Cuts l.kind l.text rest := by
  obtain ⟨kind, hkind, hmatch⟩ := h
  rw [hkind] at hmatch ⊢
  apply Cuts.pattern Piece.Kind.noConfusion
  apply LongestMatch.of_not_past hmatch
  intro other c tail tail' heq hlonger
  subst heq
  rcases hrest c rfl with hlow | ⟨rfl, hslash⟩
  · exact absurd hlow (Nat.not_le_of_lt (hmatch.not_past_token hlonger))
  · exact hslash (hmatch.eq_slash_of_past hlonger)

/-- Nothing matches beyond two slashes. -/
theorem LongestMatch.slashes (rest : List Char) :
    LongestMatch .comment ['/', '/'] ('/' :: '/' :: rest) := by
  refine ⟨.slashes, ⟨rest, rfl⟩, ?_⟩
  intro kind text hmatch hprefix
  cases text with
  | nil => exact Nat.zero_le 2
  | cons c text =>
      obtain rfl : c = '/' := (List.cons_prefix_cons.mp hprefix).1
      exact hmatch.length_of_slash

namespace Scanner

/-- The items behind the blanks at the front are those from the first of the blanks on. -/
private theorem itemList_dropWhile_blank (cs : List Char) (p : Position) :
    itemList ⟨cs.dropWhile isBlank, p.advance (cs.takeWhile isBlank)⟩ = itemList ⟨cs, p⟩ := by
  cases cs with
  | nil => rfl
  | cons c cs =>
      by_cases hc : isBlank c = true
      · have hcut := Piece.first_cuts c cs
        rw [Piece.first_of_blank ((isBlank_iff c).mp hc)] at hcut
        have hitems := itemList_of_cuts hcut p
        simp only [Piece.run_text_append_rest] at hitems
        simpa [Piece.run, Lexeme.items, hc] using hitems.symm
      · simp [hc]

/-- A blank at the front of a text belongs to no item. -/
theorem itemList_blank {c : Char} (h : Blank c) (rest : List Char) (p : Position) :
    itemList ⟨c :: rest, p⟩ = itemList ⟨rest, p.advance [c]⟩ := by
  have hc := (isBlank_iff c).mpr h
  rw [← itemList_dropWhile_blank (c :: rest) p, ← itemList_dropWhile_blank rest (p.advance [c])]
  simp [hc, ← Position.advance_append]

theorem itemList_newline (rest : List Char) (p : Position) :
    itemList ⟨'\n' :: rest, p⟩ = itemList ⟨rest, p.advance ['\n']⟩ := by
  have hcut := Piece.first_cuts '\n' rest
  rw [Piece.first_newline] at hcut
  exact itemList_of_cuts hcut p

/-- A comment belongs to no item, up to the newline that ends it or to the end of the text. -/
theorem itemList_comment {line rest : List Char} (within : '\n' ∉ line)
    (stops : ∀ c ∈ rest.head?, c = '\n') (p : Position) :
    itemList ⟨'/' :: '/' :: line ++ rest, p⟩ = itemList ⟨rest, p.advance ('/' :: '/' :: line)⟩ :=
  itemList_of_cuts (.comment (LongestMatch.slashes _) within stops) p

end Scanner

theorem Gap.itemList_append {gap : List Char} (h : Gap gap) (rest : List Char) (p : Position) :
    Scanner.itemList ⟨gap ++ rest, p⟩ = Scanner.itemList ⟨rest, p.advance gap⟩ := by
  induction h generalizing p with
  | nil => rfl
  | blank hblank _ ih =>
      rw [List.cons_append, Scanner.itemList_blank hblank, ih, ← Position.advance_append]
      rfl
  | newline _ ih =>
      rw [List.cons_append, Scanner.itemList_newline, ih, ← Position.advance_append]
      rfl
  | @comment line gap within _ ih =>
      rw [List.append_assoc, Scanner.itemList_comment within (by simp), List.cons_append,
        Scanner.itemList_newline, ih, ← Position.advance_append, ← Position.advance_append]
      simp

theorem FinalGap.itemList_eq {gap : List Char} (h : FinalGap gap) (p : Position) :
    Scanner.itemList ⟨gap, p⟩ = ⟨[], p.advance gap⟩ := by
  have hend (q : Position) : Scanner.itemList ⟨[], q⟩ = ⟨[], q⟩ :=
    Scanner.itemList_of_tokenization .nil q
  cases h with
  | closed hgap => simpa [hend] using hgap.itemList_append [] p
  | @comment gap line hgap within =>
      have hcomment := @Scanner.itemList_comment line [] within (by simp) (p.advance gap)
      rw [List.append_nil, hend] at hcomment
      rw [hgap.itemList_append, hcomment, ← Position.advance_append]

/-- A gap is empty, or it starts with a character below those of tokens or with a comment. -/
theorem Gap.head?_cases {gap : List Char} (h : Gap gap) :
    ∀ c ∈ gap.head?, c.toNat ≤ 32 ∨ c = '/' ∧ ['/', '/'] <+: gap := by
  intro c hc
  cases h with
  | nil => cases hc
  | blank hblank _ =>
      cases hc
      exact .inl hblank.toNat_le
  | newline _ =>
      cases hc
      exact .inl (by decide)
  | comment _ _ =>
      cases hc
      exact .inr ⟨rfl, by simp⟩

theorem FinalGap.head?_cases {gap : List Char} (h : FinalGap gap) :
    ∀ c ∈ gap.head?, c.toNat ≤ 32 ∨ c = '/' ∧ ['/', '/'] <+: gap := by
  intro c hc
  cases h with
  | closed h => exact h.head?_cases c hc
  | @comment gap line h _ =>
      cases gap with
      | nil =>
          cases hc
          exact .inr ⟨rfl, by simp⟩
      | cons d gap =>
          apply (h.head?_cases c hc).imp_right
          rintro ⟨rfl, hprefix⟩
          exact ⟨rfl, hprefix.trans (List.prefix_append _ _)⟩

/-- A token is cut off before the gap behind it. -/
theorem Lexeme.IsToken.cuts_gap {l : Lexeme} (h : l.IsToken) {gap : List Char}
    (hgap : FinalGap gap) (hslash : l.text = ['/'] → ¬['/', '/'] <+: gap) {rest : List Char}
    (hrest : gap = [] → rest = []) : Cuts l.kind l.text (gap ++ rest) := by
  apply h.cuts_of_head
  intro c hc
  cases gap with
  | nil => simp [hrest rfl] at hc
  | cons d gap =>
      apply (hgap.head?_cases c hc).imp_right
      rintro ⟨rfl, hprefix⟩
      exact ⟨rfl, fun htext => hslash htext hprefix⟩

namespace Layout

/-- The items from a word on: its token, and what the scanner finds behind its gap. -/
theorem exists_itemList_word {l : Lexeme} (token : l.IsToken) {gap rest : List Char}
    (hcut : Cuts l.kind l.text (gap ++ rest)) (p : Position) :
    ∃ t : Token, t.lexeme = l ∧ t.line = p.line ∧ Scanner.itemList ⟨l.text ++ (gap ++ rest), p⟩ =
      (Scanner.itemList ⟨gap ++ rest, p.advance l.text⟩).cons (.ok t) := by
  obtain ⟨t, hitems, hlexeme, hline⟩ := token.items_eq p
  refine ⟨t, hlexeme, hline, ?_⟩
  rw [Scanner.itemList_of_cuts hcut, hitems]
  rfl

/-- Scanning words gives the token of each of them and nothing else. -/
theorem Apart.exists_itemList {words : List (Lexeme × List Char)} (h : Apart words)
    (p : Position) :
    ∃ tokens : List Token, tokens.map Token.lexeme = words.map Prod.fst ∧
      Scanner.itemList ⟨wordsText words, p⟩ =
        ⟨tokens.map .ok, p.advance (wordsText words)⟩ := by
  induction h generalizing p with
  | nil => exact ⟨[], rfl, (FinalGap.closed .nil).itemList_eq p⟩
  | @last l gap token isGap slash =>
      have hcut := token.cuts_gap isGap slash fun _ => rfl
      obtain ⟨t, hlexeme, _, hitems⟩ := exists_itemList_word token hcut p
      refine ⟨[t], by simp [hlexeme], ?_⟩
      rw [List.append_nil, isGap.itemList_eq] at hitems
      simp [wordsText, hitems, ItemList.cons]
  | @cons l gap words token isGap nonempty slash _ ih =>
      have hcut : Cuts l.kind l.text (gap ++ wordsText words) :=
        token.cuts_gap (.closed isGap) slash fun hgap => absurd hgap nonempty
      obtain ⟨t, hlexeme, _, hitems⟩ := exists_itemList_word token hcut p
      obtain ⟨tokens, hlexemes, hothers⟩ := ih ((p.advance l.text).advance gap)
      refine ⟨t :: tokens, by simp [hlexeme, hlexemes], ?_⟩
      have htext : wordsText ((l, gap) :: words) = l.text ++ (gap ++ wordsText words) := by
        simp [wordsText]
      rw [htext, hitems, isGap.itemList_append, hothers]
      simp [ItemList.cons]

/-- Scanning undoes laying out. Whatever blanks, newlines and comments stand between lexemes that
are kept apart, the calls of the scanner return their tokens one after another, each with the text
and the kind of its lexeme, and then the end of input every time. -/
theorem call_text_eq_tokens {l : Layout} (h : l.IsApart) :
    ∃ tokens : List Token, tokens.map Token.lexeme = l.words.map Prod.fst ∧
      ∀ n, (Scanner.ofString (String.ofList l.text)).call n =
        (tokens.map .ok)[n]?.getD (.ok ⟨.endOfInput, "", Position.start.advance l.text⟩) := by
  have hitems : ∃ tokens : List Token, tokens.map Token.lexeme = l.words.map Prod.fst ∧
      (Scanner.ofString (String.ofList l.text)).itemList =
        ⟨tokens.map .ok, Position.start.advance l.text⟩ := by
    rw [Scanner.ofString, String.toList_ofList, text]
    by_cases hwords : l.words = []
    · refine ⟨[], by simp [hwords], ?_⟩
      simpa [hwords, wordsText] using h.lead.itemList_eq .start
    · obtain ⟨tokens, hlexemes, hothers⟩ := h.words.exists_itemList (Position.start.advance l.lead)
      refine ⟨tokens, hlexemes, ?_⟩
      rw [(h.closed hwords).itemList_append, hothers, Position.advance_append]
  obtain ⟨tokens, hlexemes, hitems⟩ := hitems
  refine ⟨tokens, hlexemes, fun n => ?_⟩
  rw [Scanner.call_eq_itemList, hitems]
  rfl

def quotient : Layout where
  lead := ['\t']
  words :=
    [(⟨.token .hexLiteral, ['0', 'x', 'F']⟩, ['/', '/', '/', '0', '\n']),
      (⟨.token .slash, ['/']⟩, [' ', '/', '/', '\n']),
      (⟨.token .identifier, ['e', '0']⟩, ['\n', '/', '/', '^'])]

theorem quotient_isApart : quotient.IsApart where
  lead := .closed (.blank (.inr (.inl rfl)) .nil)
  closed _ := .blank (.inr (.inl rfl)) .nil
  words := by
    have hhex : HexDigit 'F' := (isHexDigit_iff 'F').mp rfl
    have hletter : Unicode.isLetter 'e' = true := by decide +kernel
    have hnumeric : Unicode.isNumeric '0' = true := by decide +kernel
    apply Apart.cons
    · exact ⟨_, rfl, .hex (by simpa using hhex)⟩
    · exact .comment (show '\n' ∉ ['/', '0'] by decide) .nil
    · simp
    · simp
    apply Apart.cons
    · exact ⟨_, rfl, .symbol rfl⟩
    · exact .blank (.inl rfl) (.comment (show '\n' ∉ [] by decide) .nil)
    · simp
    · simp
    apply Apart.last
    · exact ⟨_, rfl, .identifier hletter (by simp [hnumeric])⟩
    · exact .comment (.newline .nil) (show '\n' ∉ ['^'] by decide)
    · simp

theorem call_text_eq_tokens_of_quotient :
    quotient.IsApart ∧
      ∃ tokens : List Token,
        tokens.map Token.lexeme = [⟨.token .hexLiteral, ['0', 'x', 'F']⟩, ⟨.token .slash, ['/']⟩,
          ⟨.token .identifier, ['e', '0']⟩] ∧
        ∀ n, (Scanner.ofString (String.ofList quotient.text)).call n =
          (tokens.map .ok)[n]?.getD
            (.ok ⟨.endOfInput, "", Position.start.advance quotient.text⟩) :=
  ⟨quotient_isApart, call_text_eq_tokens quotient_isApart⟩

end Layout

end Calculator
