import Calculator.Proofs.Scanning.LongestMatch
import Calculator.Token.Scanner

/-!
Cutting a whole source by longest match. There is one way to do it, nothing of the source is lost,
and the calls of a scanner hand out the tokens and the unknown characters among the pieces one after
another, then the end of input for ever.
-/

namespace Calculator

structure Lexeme where
  kind : Piece.Kind
  text : List Char

/-- The pieces into which longest match cuts a source, in their order. -/
inductive Tokenization : (source : List Char) → List Lexeme → Prop where
  | nil : Tokenization [] []
  | cons {kind : Piece.Kind} {text rest : List Char} {lexemes : List Lexeme}
      (first : Cuts kind text rest) (others : Tokenization rest lexemes) :
      Tokenization (text ++ rest) (⟨kind, text⟩ :: lexemes)

/-- What is reported of a piece that starts at the given place. -/
def Lexeme.items (l : Lexeme) (p : Position) : List Item :=
  match l.kind with
  | .token kind => [.ok ⟨kind, String.ofList l.text, p⟩]
  | .unknown => l.text.map fun c => .error ⟨c, p⟩
  | _ => []

def itemsFrom (p : Position) : List Lexeme → List Item
  | [] => []
  | l :: rest => l.items p ++ itemsFrom (p.advance l.text) rest

namespace Scanner

def afterCalls (s : Scanner) : Nat → Scanner
  | 0 => s
  | n + 1 => s.next.2.afterCalls n

/-- What the call with the given number returns, counted from zero. -/
def call (s : Scanner) (n : Nat) : Item :=
  (s.afterCalls n).next.1

/-- The calls go through the list of items and do not go on behind the end of input. -/
theorem call_eq_itemList (s : Scanner) (n : Nat) :
    s.call n = s.itemList.items[n]?.getD (.ok (.endOfInput s.itemList.finish)) := by
  induction n generalizing s with
  | zero =>
      have hnext : s.itemList.next.1 = s.next.1 := congrArg Prod.fst s.next_itemList
      change s.next.1 = _
      rw [← hnext]
      cases hitems : s.itemList.items with
      | nil => simp [ItemList.next, hitems]
      | cons item rest => simp [ItemList.next, hitems]
  | succ n ih =>
      have hnext : s.itemList.next.2 = s.next.2.itemList := congrArg Prod.snd s.next_itemList
      change s.next.2.call n = _
      rw [ih s.next.2, ← hnext]
      cases hitems : s.itemList.items with
      | nil => simp [ItemList.next, hitems]
      | cons item rest => simp [ItemList.next, hitems]

/-- A scanner depends on its next item and the scanner behind it only. -/
private theorem itemList_congr {s s' : Scanner} (h : s.next = s'.next) :
    s.itemList = s'.itemList := by
  cases hnext : s'.next with
  | mk item behind =>
      cases hend : item.isEnd with
      | false =>
          rw [itemList_of_next_item (h.trans hnext) hend, itemList_of_next_item hnext hend]
      | true =>
          cases item with
          | error found => cases hend
          | ok t =>
              have hkind : t.kind = .endOfInput := by simpa [Item.isEnd] using hend
              rw [itemList_of_next_end (h.trans hnext) hkind, itemList_of_next_end hnext hkind]

/-- The items from a piece on. -/
theorem itemList_of_cuts {kind : Piece.Kind} {text rest : List Char} (h : Cuts kind text rest)
    (p : Position) :
    itemList ⟨text ++ rest, p⟩ =
      ⟨Lexeme.items ⟨kind, text⟩ p ++ (itemList ⟨rest, p.advance text⟩).items,
        (itemList ⟨rest, p.advance text⟩).finish⟩ := by
  cases hsource : text ++ rest with
  | nil => exact absurd (List.append_eq_nil_iff.mp hsource).1 h.text_ne_nil
  | cons c cs =>
      have hsplit := Piece.first_text_append_rest c cs
      obtain ⟨hkind, htext, hrest⟩ :=
        h.unique (Piece.first_cuts c cs) (hsource.trans hsplit.symm)
      have hnext := next.eq_def ⟨c :: cs, p⟩
      simp only [after, ← hkind, ← htext, ← hrest] at hnext
      cases kind with
      | token kind =>
          have hend : Item.isEnd (.ok ⟨kind, String.ofList text, p⟩) = false := by
            have hne := Piece.first_kind_ne_endOfInput c cs
            rw [← hkind] at hne
            simpa [Item.isEnd] using hne
          rw [itemList_of_next_item hnext hend]
          rfl
      | unknown =>
          rw [itemList_of_next_item hnext rfl]
          cases h with
          | pattern _ longest => exact absurd rfl longest.isMatch.kind_ne_unknown
          | unknown _ =>
              cases hsource
              rfl
      | blanks =>
          rw [itemList_congr hnext]
          rfl
      | newline =>
          rw [itemList_congr hnext]
          rfl
      | comment =>
          rw [itemList_congr hnext]
          rfl

/-- The items of a text are those of its pieces. -/
theorem itemList_of_tokenization {source : List Char} {lexemes : List Lexeme}
    (h : Tokenization source lexemes) (p : Position) :
    itemList ⟨source, p⟩ = ⟨itemsFrom p lexemes, p.advance source⟩ := by
  induction h generalizing p with
  | nil =>
      have hnext : next ⟨[], p⟩ = (.ok (.endOfInput p), ⟨[], p⟩) := by rw [next]
      rw [itemList_of_next_end hnext rfl]
      rfl
  | cons first _ ih =>
      rw [itemList_of_cuts first, ih, Position.advance_append]
      rfl

end Scanner

namespace Tokenization

variable {source : List Char} {lexemes other : List Lexeme}

/-- The pieces put together are the source. -/
theorem flatMap_text (h : Tokenization source lexemes) :
    lexemes.flatMap Lexeme.text = source := by
  induction h with
  | nil => rfl
  | cons _ _ ih => rw [List.flatMap_cons, ih]

theorem text_ne_nil (h : Tokenization source lexemes) : ∀ l ∈ lexemes, l.text ≠ [] := by
  induction h with
  | nil => simp
  | cons first _ ih =>
      intro l hl
      rcases List.mem_cons.mp hl with rfl | hl
      · exact first.text_ne_nil
      · exact ih l hl

theorem unique (h : Tokenization source lexemes) (h' : Tokenization source other) :
    other = lexemes := by
  induction h generalizing other with
  | nil =>
      generalize hsource : ([] : List Char) = source at h'
      cases h' with
      | nil => rfl
      | cons first _ =>
          exact absurd (List.append_eq_nil_iff.mp hsource.symm).1 first.text_ne_nil
  | @cons _ text rest _ first _ ih =>
      generalize hsource : text ++ rest = source at h'
      cases h' with
      | nil => exact absurd (List.append_eq_nil_iff.mp hsource).1 first.text_ne_nil
      | cons first' others' =>
          obtain ⟨rfl, rfl, rfl⟩ := first.unique first' hsource
          rw [ih others']

theorem exists_of_source (source : List Char) : ∃ lexemes, Tokenization source lexemes := by
  induction hn : source.length using Nat.strongRecOn generalizing source with
  | ind n ih =>
      cases source with
      | nil => exact ⟨[], .nil⟩
      | cons c cs =>
          have hlt := Piece.length_rest_first c cs
          obtain ⟨lexemes, hothers⟩ := ih _ (hn ▸ hlt) _ rfl
          have hcut := Tokenization.cons (Piece.first_cuts c cs) hothers
          rw [Piece.first_text_append_rest] at hcut
          exact ⟨_, hcut⟩

end Tokenization

/-- Repeated calls cut the source by longest match. The pieces are the only ones that longest match
gives, none of them is empty, together they are the source, and no text has two kinds. What the
calls return is what is to be reported of the pieces, and then the same end of input every time. -/
theorem call_eq_longest_match (source : String) :
    ∃ lexemes : List Lexeme,
      (Tokenization source.toList lexemes ∧
        ∀ other, Tokenization source.toList other → other = lexemes) ∧
      (lexemes.flatMap Lexeme.text = source.toList ∧ ∀ l ∈ lexemes, l.text ≠ []) ∧
      (∀ n, (Scanner.ofString source).call n =
        (itemsFrom .start lexemes)[n]?.getD
          (.ok ⟨.endOfInput, "", Position.start.advance source.toList⟩)) ∧
      ∀ kind other text, Matches kind text → Matches other text → kind = other := by
  obtain ⟨lexemes, h⟩ := Tokenization.exists_of_source source.toList
  refine ⟨lexemes, ⟨h, fun other h' => h.unique h'⟩, ⟨h.flatMap_text, h.text_ne_nil⟩, ?_, ?_⟩
  · intro n
    rw [Scanner.call_eq_itemList, Scanner.ofString, Scanner.itemList_of_tokenization h]
    rfl
  · intro kind other text hmatch hother
    exact hmatch.kind_unique hother

end Calculator
