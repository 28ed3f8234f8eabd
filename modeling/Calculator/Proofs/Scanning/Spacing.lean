import Mathlib.Data.List.Basic
import Calculator.Proofs.Scanning.Tokenization

/-!
Spacing out lexemes and scanning them again. A character that can separate tokens has a lower code
than any that can belong to one, so a lexeme in front of a separator is the longest match there.
-/

namespace Calculator

/-- Lexemes written on one line, each parted from the next one by one or more blanks. -/
inductive Spaced : List Lexeme → List Char → Prop where
  | single (l : Lexeme) : Spaced [l] l.text
  | cons {l : Lexeme} {lexemes : List Lexeme} {gap source : List Char} (nonempty : gap ≠ [])
      (blank : ∀ c ∈ gap, Blank c) (others : Spaced lexemes source) :
      Spaced (l :: lexemes) (l.text ++ (gap ++ source))

def Lexeme.IsToken (l : Lexeme) : Prop :=
  ∃ kind, l.kind = .token kind ∧ Matches l.kind l.text

def Token.lexeme (t : Token) : Lexeme :=
  ⟨.token t.kind, t.text.toList⟩

theorem Blank.toNat_le {c : Char} (h : Blank c) : c.toNat ≤ 32 := by
  rcases h with rfl | rfl | rfl | rfl <;> decide

private theorem lt_toNat_of_isDigit {c : Char} (h : c.isDigit) : 32 < c.toNat :=
  Nat.lt_of_lt_of_le (by decide) (toNat_of_isDigit h).1

private theorem lt_toNat_of_isLetter {c : Char} (h : Unicode.isLetter c) : 32 < c.toNat := by
  refine Nat.lt_of_not_le fun hle => ?_
  rw [Unicode.isLetter_of_lt (Nat.lt_of_le_of_lt hle (by decide))] at h
  cases h

private theorem lt_toNat_of_isNumeric {c : Char} (h : Unicode.isNumeric c) : 32 < c.toNat := by
  refine Nat.lt_of_not_le fun hle => ?_
  rw [Unicode.isNumeric_of_lt (Nat.lt_of_le_of_lt hle (by decide))] at h
  cases h

private theorem lt_toNat_of_hexDigit {c : Char} (h : HexDigit c) : 32 < c.toNat := by
  rcases h with h | ⟨h, _⟩ | ⟨h, _⟩
  · exact lt_toNat_of_isDigit h
  · exact Nat.lt_of_lt_of_le (by decide) (show 'a'.toNat ≤ c.toNat from h)
  · exact Nat.lt_of_lt_of_le (by decide) (show 'A'.toNat ≤ c.toNat from h)

namespace Matches

/-- No token holds a blank, a newline or a control character. -/
theorem lt_toNat {kind : Token.Kind} {text : List Char} (h : Matches (.token kind) text) :
    ∀ c ∈ text, 32 < c.toNat := by
  intro c hc
  cases h with
  | identifier first others =>
      rcases List.mem_cons.mp hc with rfl | hc
      · exact lt_toNat_of_isLetter first
      · exact (others c hc).elim lt_toNat_of_isLetter lt_toNat_of_isNumeric
  | decimal _ all => exact lt_toNat_of_isDigit (all c hc)
  | fractional _ _ allLeft allRight =>
      rcases List.mem_append.mp hc with hc | hc
      · exact lt_toNat_of_isDigit (allLeft c hc)
      · rcases List.mem_cons.mp hc with rfl | hc
        · decide
        · exact lt_toNat_of_isDigit (allRight c hc)
  | hex all =>
      simp only [List.mem_cons] at hc
      rcases hc with rfl | rfl | hc
      · decide
      · decide
      · exact lt_toNat_of_hexDigit (all c hc)
  | bin all =>
      simp only [List.mem_cons] at hc
      rcases hc with rfl | rfl | hc
      · decide
      · decide
      · rcases all c hc with rfl | rfl <;> decide
  | symbol writes =>
      rw [List.mem_singleton] at hc
      subst hc
      cases kind <;> cases writes <;> decide

/-- No match goes on behind a token over a lower character than tokens hold. -/
theorem not_past_token {kind : Token.Kind} {other : Piece.Kind} {text rest : List Char}
    {c : Char} (h : Matches (.token kind) text) (h' : Matches other (text ++ c :: rest)) :
    32 < c.toNat := by
  obtain ⟨d, tail, rfl⟩ := List.exists_cons_of_ne_nil h.ne_nil
  generalize hsource : d :: tail ++ c :: rest = source at h'
  have hc : c ∈ source := by simp [← hsource]
  cases other with
  | token kind => exact h'.lt_toNat c hc
  | unknown => exact absurd rfl h'.kind_ne_unknown
  | comment =>
      cases h'
      have hslash : c = '/' := by simpa using hc
      rw [hslash]
      decide
  | newline =>
      cases h'
      simp at hsource
  | blanks =>
      have hd := h.lt_toNat d List.mem_cons_self
      cases h' with
      | blanks _ all =>
          subst hsource
          exact absurd (all d List.mem_cons_self).toNat_le (Nat.not_le_of_lt hd)

/-- No match that starts with a blank holds anything but blanks. -/
private theorem blank_of_blank {kind : Piece.Kind} {c : Char} {rest : List Char} (hc : Blank c)
    (h : Matches kind (c :: rest)) : ∀ d ∈ rest, Blank d := by
  have hkind : kind = .blanks := by
    rw [← h.kind_first, Piece.first_of_blank hc]
    rfl
  subst hkind
  cases h with
  | blanks _ all => exact fun d hd => all d (List.mem_cons_of_mem c hd)

end Matches

/-- A match is the longest one unless another one goes on over the character behind it. -/
theorem LongestMatch.of_not_past {kind : Piece.Kind} {text rest : List Char}
    (h : Matches kind text)
    (hpast : ∀ other c tail tail', rest = c :: tail' → ¬Matches other (text ++ c :: tail)) :
    LongestMatch kind text (text ++ rest) := by
  refine ⟨h, List.prefix_append _ _, ?_⟩
  intro other longer hlonger hprefix
  refine Nat.le_of_not_lt fun hlt => ?_
  obtain ⟨tail, rfl⟩ :=
    List.prefix_of_prefix_length_le (List.prefix_append text rest) hprefix (Nat.le_of_lt hlt)
  obtain ⟨tail', rfl⟩ := (List.prefix_append_right_inj text).mp hprefix
  cases tail with
  | nil => simp at hlt
  | cons c tail => exact hpast other c tail _ rfl hlonger

/-- A lexeme is cut off before the end of the source and before a blank. -/
theorem Lexeme.IsToken.cuts {l : Lexeme} (h : l.IsToken) (rest : List Char)
    (hrest : ∀ c ∈ rest.head?, Blank c) : Cuts l.kind l.text rest := by
  obtain ⟨kind, hkind, hmatch⟩ := h
  rw [hkind] at hmatch ⊢
  refine .pattern Piece.Kind.noConfusion (.of_not_past hmatch ?_)
  intro other c tail tail' heq hlonger
  subst heq
  exact absurd (hrest c rfl).toNat_le (Nat.not_le_of_lt (hmatch.not_past_token hlonger))

/-- A gap reaches from one lexeme to the next. -/
theorem cuts_of_blanks {gap rest : List Char} (nonempty : gap ≠ []) (blank : ∀ c ∈ gap, Blank c)
    (hrest : ∀ c ∈ rest.head?, 32 < c.toNat) : Cuts .blanks gap rest := by
  refine .pattern Piece.Kind.noConfusion (.of_not_past (.blanks nonempty blank) ?_)
  intro other c tail tail' heq hlonger
  subst heq
  obtain ⟨d, gap, rfl⟩ := List.exists_cons_of_ne_nil nonempty
  have hc := hlonger.blank_of_blank (blank d List.mem_cons_self) c (by simp)
  exact absurd hc.toNat_le (Nat.not_le_of_lt (hrest c rfl))

namespace Lexeme.IsToken

variable {l : Lexeme}

theorem lt_toNat (h : l.IsToken) : ∀ c ∈ l.text, 32 < c.toNat := by
  obtain ⟨kind, hkind, hmatch⟩ := h
  rw [hkind] at hmatch
  exact hmatch.lt_toNat

theorem text_ne_nil (h : l.IsToken) : l.text ≠ [] := by
  obtain ⟨_, _, hmatch⟩ := h
  exact hmatch.ne_nil

/-- A token is reported as it stands there. -/
theorem items_eq (h : l.IsToken) (p : Position) :
    ∃ t : Token, l.items p = [.ok t] ∧ t.lexeme = l ∧ t.line = p.line := by
  obtain ⟨kind, hkind, _⟩ := h
  refine ⟨⟨kind, String.ofList l.text, p⟩, ?_, ?_, rfl⟩
  · simp [Lexeme.items, hkind]
  · simp [Token.lexeme, ← hkind]

end Lexeme.IsToken

theorem Cuts.isToken {kind : Token.Kind} {text rest : List Char}
    (h : Cuts (.token kind) text rest) : Lexeme.IsToken ⟨.token kind, text⟩ := by
  cases h with
  | pattern _ longest => exact ⟨kind, rfl, longest.isMatch⟩

/-- Every token that is scanned is one that its pattern matches. -/
theorem Tokenization.isToken {source : List Char} {lexemes : List Lexeme}
    (h : Tokenization source lexemes) {p : Position} {t : Token}
    (ht : .ok t ∈ itemsFrom p lexemes) : t.lexeme.IsToken := by
  induction h generalizing p with
  | nil => cases ht
  | @cons kind text rest lexemes first others ih =>
      rcases List.mem_append.mp ht with ht | ht
      · cases kind with
        | token kind =>
            rw [Lexeme.items, List.mem_singleton] at ht
            cases ht
            rw [Token.lexeme, String.toList_ofList]
            exact first.isToken
        | unknown =>
            obtain ⟨c, _, hc⟩ := List.mem_map.mp ht
            cases hc
        | blanks | newline | comment => cases ht
      · exact ih ht

theorem Scanner.isToken_of_mem_itemList {source : String} {t : Token}
    (h : .ok t ∈ (Scanner.ofString source).itemList.items) : t.lexeme.IsToken := by
  obtain ⟨lexemes, hlexemes⟩ := Tokenization.exists_of_source source.toList
  rw [Scanner.ofString, Scanner.itemList_of_tokenization hlexemes] at h
  exact hlexemes.isToken h

theorem Lexeme.IsToken.kind_ne_endOfInput {t : Token} (h : t.lexeme.IsToken) :
    t.kind ≠ .endOfInput := by
  obtain ⟨kind, _, hmatches⟩ := h
  intro hend
  rw [show t.lexeme.kind = .token .endOfInput from congrArg _ hend] at hmatches
  generalize t.lexeme.text = text at hmatches
  cases hmatches with
  | symbol writes => cases writes

/-- A text without a newline does not leave its line. -/
theorem line_advance_of_not_mem (p : Position) {text : List Char} (h : '\n' ∉ text) :
    (p.advance text).line = p.line := by
  rw [Position.line_advance, List.count_eq_zero_of_not_mem h, Nat.add_zero]

namespace Spaced

variable {lexemes : List Lexeme} {source : List Char}

private theorem lt_toNat_head (h : Spaced lexemes source) (htokens : ∀ l ∈ lexemes, l.IsToken) :
    ∀ c ∈ source.head?, 32 < c.toNat := by
  have hhead : ∃ l ∈ lexemes, ∃ rest, source = l.text ++ rest := by
    cases h with
    | single l => exact ⟨l, List.mem_cons_self, [], (List.append_nil _).symm⟩
    | cons _ _ _ => exact ⟨_, List.mem_cons_self, _, rfl⟩
  obtain ⟨l, hl, rest, rfl⟩ := hhead
  have htoken := htokens l hl
  intro c hc
  rw [List.head?_append_of_ne_nil _ htoken.text_ne_nil] at hc
  exact htoken.lt_toNat c (List.mem_of_mem_head? hc)

/-- Spaced lexemes are scanned as they were written, all on the line on which they start. -/
theorem tokenization (h : Spaced lexemes source) (htokens : ∀ l ∈ lexemes, l.IsToken) :
    ∃ pieces, Tokenization source pieces ∧ ∀ p : Position, ∃ tokens : List Token,
      itemsFrom p pieces = tokens.map .ok ∧ tokens.map Token.lexeme = lexemes ∧
        ∀ t ∈ tokens, t.line = p.line := by
  induction h with
  | single l =>
      have htoken := htokens l List.mem_cons_self
      have hcut := Tokenization.cons (htoken.cuts [] (by simp)) .nil
      rw [List.append_nil] at hcut
      refine ⟨_, hcut, fun p => ?_⟩
      obtain ⟨t, hitems, hlexeme, hline⟩ := htoken.items_eq p
      refine ⟨[t], ?_, ?_, ?_⟩
      · simp [itemsFrom, hitems]
      · simp [hlexeme]
      · simpa using hline
  | @cons l lexemes gap source nonempty blank others ih =>
      have htoken := htokens l List.mem_cons_self
      have hothers : ∀ l ∈ lexemes, l.IsToken :=
        fun l hl => htokens l (List.mem_cons_of_mem _ hl)
      obtain ⟨pieces, hpieces, hitems⟩ := ih hothers
      have hgap := cuts_of_blanks nonempty blank (others.lt_toNat_head hothers)
      have hfirst : Cuts l.kind l.text (gap ++ source) := by
        refine htoken.cuts _ fun c hc => ?_
        rw [List.head?_append_of_ne_nil _ nonempty] at hc
        exact blank c (List.mem_of_mem_head? hc)
      refine ⟨_, .cons hfirst (.cons hgap hpieces), fun p => ?_⟩
      have hline : ((p.advance l.text).advance gap).line = p.line := by
        rw [line_advance_of_not_mem, line_advance_of_not_mem]
        · intro hmem
          exact absurd (htoken.lt_toNat _ hmem) (by decide)
        · intro hmem
          have hblank := blank _ hmem
          simp [Blank] at hblank
      obtain ⟨t, ht, hlexeme, htline⟩ := htoken.items_eq p
      obtain ⟨tokens, htokens, hlexemes, hlines⟩ := hitems ((p.advance l.text).advance gap)
      refine ⟨t :: tokens, ?_, ?_, ?_⟩
      · change l.items p ++ ([] ++ itemsFrom _ pieces) = _
        rw [ht, htokens]
        rfl
      · rw [List.map_cons, hlexeme, hlexemes]
      · intro u hu
        rcases List.mem_cons.mp hu with rfl | hu
        · exact htline
        · rw [hlines u hu, hline]

/-- A text of spaced lexemes holds their tokens, and all of them are on its first line. -/
theorem exists_tokens {text : String} (h : Spaced lexemes text.toList)
    (hlexemes : ∀ l ∈ lexemes, l.IsToken) :
    ∃ tokens : List Token, (Scanner.ofString text).itemList.items = tokens.map .ok ∧
      tokens.map Token.lexeme = lexemes ∧ ∀ t ∈ tokens, t.line = 1 := by
  obtain ⟨pieces, hpieces, hitems⟩ := h.tokenization hlexemes
  obtain ⟨tokens, hitems, htokens, hlines⟩ := hitems .start
  refine ⟨tokens, ?_, htokens, hlines⟩
  rw [Scanner.ofString, Scanner.itemList_of_tokenization hpieces, hitems]

end Spaced

end Calculator
