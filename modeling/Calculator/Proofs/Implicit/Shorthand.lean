import Mathlib.Data.List.Nodup
import Calculator.Proofs.Grammar.Acceptance
import Calculator.Proofs.Implicit.Insertion
import Calculator.Proofs.Implicit.Operands
import Calculator.Proofs.Positions.Independence

/-!
Implicit multiplication is shorthand. The places at which the implicit operands of a source start
tell its tokens apart, so stars can be put there and nowhere else, and the source with the stars is
read as the same tree.
-/

namespace Calculator

/-- The items at hand in a list are ahead of a cursor at its front. -/
theorem ItemList.exists_ahead {tokens : List Token} (h : ∀ t ∈ tokens, t.kind ≠ .endOfInput)
    (finish : Position) :
    ∃ t behind, TokenSource.next (ItemList.mk (tokens.map .ok) finish) = (.ok t, behind) ∧
      Cursor.Ahead ⟨t, behind⟩ tokens := by
  induction tokens with
  | nil => exact ⟨.endOfInput finish, _, rfl, .finish rfl⟩
  | cons t tokens ih =>
      obtain ⟨u, behind, hnext, hahead⟩ := ih fun u hu => h u (List.mem_cons_of_mem t hu)
      exact ⟨t, _, rfl, .token (h t List.mem_cons_self) hnext hahead⟩

/-- Tokens that build an expression within the limit are read as that expression. -/
theorem Grammar.Builds.ofTokens_eq {tokens : List Token} {e : Expr}
    (h : Builds Expr.nestingLimit .expression tokens [] e)
    (hkinds : ∀ t ∈ tokens, t.kind ≠ .endOfInput) (finish : Position) :
    Expr.ofTokens (ItemList.mk (tokens.map .ok) finish) = .ok e := by
  obtain ⟨d, rfl, hnesting⟩ := h
  obtain ⟨t, behind, hnext, hahead⟩ := ItemList.exists_ahead hkinds finish
  exact (whole_of_ahead hnext hahead d Expr.nestingLimit).1 hnesting

/-- Where no two tokens are at one place, the marked ones are those at the places of marked ones. -/
theorem position_mem_iff {marks : List (Token × Bool)}
    (hnodup : (marks.map fun mark => mark.1.position).Nodup) :
    ∀ mark ∈ marks,
      mark.1.position ∈ ((marks.filter Prod.snd).map Prod.fst).map Token.position ↔
        mark.2 = true := by
  intro mark hmark
  simp only [List.mem_map, List.mem_filter]
  constructor
  · rintro ⟨t, ⟨other, ⟨hother, hmarked⟩, rfl⟩, hposition⟩
    have hsame := List.inj_on_of_nodup_map hnodup hother hmark hposition
    rw [← hsame]
    exact hmarked
  · intro hmarked
    exact ⟨mark.1, ⟨mark, ⟨hmark, hmarked⟩, rfl⟩, rfl⟩

/-- Stars at the places of the marked tokens are stars in front of the marked tokens. -/
theorem starItems_of_marks {places : List Position} {marks : List (Token × Bool)}
    (h : ∀ mark ∈ marks, mark.1.position ∈ places ↔ mark.2 = true) :
    starItems places ((marks.map Prod.fst).map .ok) = (starred marks).map .ok := by
  rw [starItems, starred, List.map_map, List.flatMap_map, List.map_flatMap]
  apply List.flatMap_congr
  rintro ⟨t, isMarked⟩ hmark
  have hplace := h _ hmark
  cases isMarked <;> simp_all [Item.position, Token.star]

/-- No two tokens of a source are at one place. -/
theorem Tokenization.nodup_positions {source : List Char} {pieces : List Lexeme} {p : Position}
    {tokens : List Token} (h : Tokenization source pieces)
    (hitems : itemsFrom p pieces = tokens.map .ok) : (tokens.map Token.position).Nodup := by
  have hbefore := h.pairwise_before (p := p)
  rw [hitems, List.pairwise_map] at hbefore
  exact List.pairwise_map.mpr (hbefore.imp Position.Before.ne)

/-- The places of marked tokens are aligned with the pieces that they come from. -/
theorem aligned_of_marks {pieces : List Lexeme} {p : Position} {marks : List (Token × Bool)}
    (hitems : itemsFrom p pieces = (marks.map Prod.fst).map .ok) :
    Aligned (((marks.filter Prod.snd).map Prod.fst).map Token.position) p pieces := by
  intro q hq
  obtain ⟨t, ht, rfl⟩ := List.mem_map.mp hq
  obtain ⟨mark, hmark, rfl⟩ := List.mem_map.mp ht
  refine .inr ⟨mark.1, ?_, rfl⟩
  rw [hitems]
  exact List.mem_map_of_mem (List.mem_map_of_mem (List.mem_of_mem_filter hmark))

/-- Stars can be put into a source in front of any of its tokens. What the tokens and the stars
build is what the new source is read as. -/
theorem parse_starAt {source : String} {marks : List (Token × Bool)}
    (hitems : (Scanner.ofString source).itemList.items = (marks.map Prod.fst).map .ok) {e : Expr}
    (h : Grammar.Builds Expr.nestingLimit .expression (starred marks) [] e) :
    Expr.parse (String.ofList (starAt
      (((marks.filter Prod.snd).map Prod.fst).map Token.position) .start source.toList)) =
        .ok e := by
  obtain ⟨pieces, hpieces⟩ := Tokenization.exists_of_source source.toList
  rw [Scanner.ofString, Scanner.itemList_of_tokenization hpieces] at hitems
  change itemsFrom .start pieces = _ at hitems
  have hknown : ∀ l ∈ pieces, l.kind ≠ .unknown := by
    apply hpieces.kind_ne_unknown (p := .start)
    rw [hitems]
    exact List.forall_mem_map.mpr fun t _ => ⟨t, rfl⟩
  have hkinds : ∀ t ∈ starred marks, t.kind ≠ .endOfInput := by
    intro t ht
    rcases mem_starred ht with ht | hstar
    · have htoken : t.lexeme.IsToken := hpieces.isToken (hitems ▸ List.mem_map_of_mem ht)
      exact htoken.kind_ne_endOfInput
    · rw [hstar]
      exact Token.Kind.noConfusion
  have hnodup : (marks.map fun mark => mark.1.position).Nodup := by
    have hpositions := hpieces.nodup_positions hitems
    rwa [List.map_map] at hpositions
  have haligned := aligned_of_marks hitems
  have hstarred := hpieces.starAt hknown haligned
  have hnew := hpieces.itemsFrom_starPieces haligned rfl
  rw [hitems, starItems_of_marks (position_mem_iff hnodup)] at hnew
  rw [Expr.parse, ← Expr.ofTokens_itemList, Scanner.ofString, String.toList_ofList,
    Scanner.itemList_of_tokenization hstarred]
  generalize Position.advance .start _ = finish
  apply Expr.ofTokens_of_toMargin _ (h.ofTokens_eq hkinds finish)
  exact congrArg (ItemList.mk · (Relocation.toMargin.place finish)) hnew.symm

open Grammar in
/-- Implicit multiplication is pure shorthand. A source that is read as an expression has one
derivation. With a star directly in front of every operand that no operator stands in front of, the
source is read as the same expression, lines included; and none of these operands is followed by a
caret, which would have bound it more closely than the star. -/
theorem parse_starAt_implicitOperands {source : String} {e : Expr}
    (h : Expr.parse source = .ok e) :
    ∃ tokens, (Scanner.ofString source).itemList.items = tokens.map .ok ∧
      ∃ d : Derivation .expression tokens [], d.value = e ∧ (∀ d', d' = d) ∧
        Expr.parse (String.ofList (starAt (d.implicitOperands.map fun operand => operand.1.position)
          .start source.toList)) = .ok e ∧
        ∀ operand ∈ d.implicitOperands, ∀ t ∈ operand.2.head?, t.kind ≠ .caret := by
  obtain ⟨tokens, hitems, d, hnesting, rfl⟩ := derivation_of_whole h
  refine ⟨tokens, hitems, d, rfl, fun d' => ?_, ?_, d.kind_ne_caret (closed_nil _)⟩
  · cases d'.unique d (closed_nil _) (closed_nil _)
    rfl
  · have hconsumed := d.marked_append_after
    have hplaces : d.implicitOperands.map (fun operand => operand.1.position) =
        ((d.marked.filter Prod.snd).map Prod.fst).map Token.position := by
      rw [d.marked_filter, List.map_map]
      rfl
    have hbuilds := (d.builds_starred fun hopens => hopens).mono hnesting
    rw [List.append_nil] at hconsumed hbuilds
    rw [hplaces]
    apply parse_starAt _ hbuilds
    rw [hconsumed, hitems]

/-- Two implicit products in a row, with a group and with a constant. -/
theorem parse_starAt_implicitOperands_of_group :
    ∃ e, Expr.parse "2(3)pi" = .ok e ∧
      ∃ tokens, (Scanner.ofString "2(3)pi").itemList.items = tokens.map .ok ∧
        ∃ d : Grammar.Derivation .expression tokens [], d.value = e ∧ (∀ d', d' = d) ∧
          Expr.parse (String.ofList
            (starAt (d.implicitOperands.map fun operand => operand.1.position) .start
              "2(3)pi".toList)) = .ok e ∧
          ∀ operand ∈ d.implicitOperands, ∀ t ∈ operand.2.head?, t.kind ≠ .caret := by
  have hok : (Expr.parse "2(3)pi").isOk = true := by decide +kernel
  cases h : Expr.parse "2(3)pi" with
  | error problem =>
      rw [h] at hok
      cases hok
  | ok e => exact ⟨e, rfl, parse_starAt_implicitOperands h⟩

end Calculator
