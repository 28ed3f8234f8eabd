import Calculator.Proofs.Grammar.Derivation
import Calculator.Proofs.Scanning.Spacing

/-!
Derivations and places. The grammar looks at the kinds and the texts of tokens only, so the same
tokens at other places derive as well, with the same nesting.
-/

namespace Calculator

theorem Token.kind_eq_of_lexeme {t u : Token} (h : t.lexeme = u.lexeme) : t.kind = u.kind :=
  Piece.Kind.token.inj (congrArg Lexeme.kind h)

theorem Token.text_eq_of_lexeme {t u : Token} (h : t.lexeme = u.lexeme) : t.text = u.text :=
  String.toList_injective (congrArg Lexeme.text h)

theorem Token.eq_of_lexeme {t u : Token} (h : t.lexeme = u.lexeme)
    (hposition : t.position = u.position) : t = u := by
  have hkind := kind_eq_of_lexeme h
  have htext := text_eq_of_lexeme h
  cases t
  cases u
  congr

namespace Grammar

/-- What starts with a token starts with the same token at the other place. -/
private theorem exists_cons_of_lexemes {t : Token} {before tokens : List Token}
    (h : before.map Token.lexeme = (t :: tokens).map Token.lexeme) :
    ∃ t' tokens', before = t' :: tokens' ∧ t'.kind = t.kind ∧ t'.text = t.text ∧
      tokens'.map Token.lexeme = tokens.map Token.lexeme := by
  obtain ⟨t', tokens', rfl, ht, htokens⟩ := List.map_eq_cons_iff.mp h
  exact ⟨t', tokens', rfl, Token.kind_eq_of_lexeme ht, Token.text_eq_of_lexeme ht, htokens⟩

/-- The same tokens at other places derive from the same symbol. -/
theorem Derivation.relocate {s : Symbol} {before after : List Token}
    (d : Derivation s before after) {before' : List Token}
    (h : before'.map Token.lexeme = before.map Token.lexeme) :
    ∃ after', after'.map Token.lexeme = after.map Token.lexeme ∧
      ∃ d' : Derivation s before' after', d'.nesting = d.nesting := by
  induction d generalizing before' with
  | phrase first others ihf iho =>
      obtain ⟨middle, hmiddle, first', hfirst⟩ := ihf h
      obtain ⟨after', hafter, others', hothers⟩ := iho hmiddle
      exact ⟨after', hafter, .phrase first' others', congrArg₂ max hfirst hothers⟩
  | done => exact ⟨before', h, .done, rfl⟩
  | operator op sign joins operand others ihp iho =>
      obtain ⟨sign', rest, rfl, hkind, _, hrest⟩ := exists_cons_of_lexemes h
      obtain ⟨middle, hmiddle, operand', hoperand⟩ := ihp hrest
      obtain ⟨after', hafter, others', hothers⟩ := iho hmiddle
      exact ⟨after', hafter, .operator op sign' (hkind ▸ joins) operand' others',
        congrArg₂ max hoperand hothers⟩
  | adjacency first starts operand others ihp iho =>
      obtain ⟨first', rest, rfl, hkind, _, _⟩ := exists_cons_of_lexemes h
      obtain ⟨middle, hmiddle, operand', hoperand⟩ := ihp h
      obtain ⟨after', hafter, others', hothers⟩ := iho hmiddle
      exact ⟨after', hafter, .adjacency first' (hkind ▸ starts) operand' others',
        congrArg₂ max hoperand hothers⟩
  | negation sign minus operand ih =>
      obtain ⟨sign', rest, rfl, hkind, _, hrest⟩ := exists_cons_of_lexemes h
      obtain ⟨after', hafter, operand', hoperand⟩ := ih hrest
      exact ⟨after', hafter, .negation sign' (hkind ▸ minus) operand',
        congrArg Nat.succ hoperand⟩
  | group opens content closes ih =>
      obtain ⟨opening', rest, rfl, hkind, _, hrest⟩ := exists_cons_of_lexemes h
      obtain ⟨behind, hbehind, content', hcontent⟩ := ih hrest
      obtain ⟨closing', after', rfl, hkind', _, hafter⟩ := exists_cons_of_lexemes hbehind
      exact ⟨after', hafter, .group (hkind.trans opens) content' (hkind'.trans closes),
        congrArg Nat.succ hcontent⟩
  | constant name c identifier bare known =>
      obtain ⟨name', rest, rfl, hkind, htext, hrest⟩ := exists_cons_of_lexemes h
      have bare' : ∀ t ∈ rest.head?, t.kind ≠ .leftParen := by
        intro t ht
        obtain ⟨others, rfl⟩ := List.head?_eq_some_iff.mp ht
        obtain ⟨t', others', rfl, hkind', _, _⟩ := exists_cons_of_lexemes hrest.symm
        exact hkind' ▸ bare t' rfl
      exact ⟨rest, hrest,
        .constant name' c (hkind.trans identifier) bare' (htext ▸ known), rfl⟩
  | call name f identifier opens known list ih =>
      obtain ⟨name', rest, rfl, hkind, htext, hrest⟩ := exists_cons_of_lexemes h
      obtain ⟨opening', rest, rfl, hkind', _, hrest⟩ := exists_cons_of_lexemes hrest
      obtain ⟨after', hafter, list', hlist⟩ := ih hrest
      exact ⟨after', hafter, .call name' f (hkind.trans identifier) (hkind'.trans opens)
        (htext ▸ known) list', congrArg Nat.succ hlist⟩
  | number literal value numericType numeral convertible =>
      obtain ⟨literal', rest, rfl, hkind, htext, hrest⟩ := exists_cons_of_lexemes h
      exact ⟨rest, hrest, .number literal' value numericType (hkind ▸ numeral)
        (hkind ▸ htext ▸ convertible), rfl⟩
  | noArgument closes =>
      obtain ⟨closing', rest, rfl, hkind, _, hrest⟩ := exists_cons_of_lexemes h
      exact ⟨rest, hrest, .noArgument (hkind.trans closes), rfl⟩
  | someArguments list ih =>
      obtain ⟨after', hafter, list', hlist⟩ := ih h
      exact ⟨after', hafter, .someArguments list', hlist⟩
  | lastArgument argument closes ih =>
      obtain ⟨behind, hbehind, argument', hargument⟩ := ih h
      obtain ⟨closing', after', rfl, hkind, _, hafter⟩ := exists_cons_of_lexemes hbehind
      exact ⟨after', hafter, .lastArgument argument' (hkind.trans closes), hargument⟩
  | nextArgument argument separates list iha ihl =>
      obtain ⟨behind, hbehind, argument', hargument⟩ := iha h
      obtain ⟨comma', rest, rfl, hkind, _, hrest⟩ := exists_cons_of_lexemes hbehind
      obtain ⟨after', hafter, list', hlist⟩ := ihl hrest
      exact ⟨after', hafter, .nextArgument argument' (hkind.trans separates) list',
        congrArg₂ max hargument hlist⟩

end Grammar

end Calculator
