import Calculator.Parser.Relocation
import Calculator.Proofs.Positions.Place
import Calculator.Proofs.Scanning.Layout

/-!
Putting stars into a source text, each directly in front of a token. A star belongs to no other
token, and the pieces around it are cut off where they were before. The scanner then hands out the
stars besides the items that it handed out before, all of them on the lines where they were.
-/

namespace Calculator

namespace Matches

/-- The front of a number with a point is a number with or without one. -/
theorem exists_upto_of_point {whole fraction others : List Char} {first c : Char}
    (hwhole : whole ≠ []) (allLeft : ∀ d ∈ whole, d.isDigit) (allRight : ∀ d ∈ fraction, d.isDigit)
    (hfront : first :: others ++ [c] <+: whole ++ '.' :: fraction) (hpoint : c ≠ '.') :
    ∃ kind, Matches kind (first :: others ++ [c]) := by
  obtain ⟨tail, hsource⟩ := hfront
  rcases List.append_eq_append_iff.mp hsource with ⟨more, hmore, _⟩ | ⟨more, hupto, hrest⟩
  · rw [hmore] at allLeft
    exact ⟨_, .decimal (by simp) fun d hd => allLeft d (List.mem_append_left more hd)⟩
  · rw [hupto]
    cases more with
    | nil => exact ⟨_, .decimal (by simpa using hwhole) fun d hd => allLeft d (by simpa using hd)⟩
    | cons point digits =>
        obtain ⟨rfl, hfraction⟩ := List.cons.inj hrest
        rw [hfraction] at allRight
        have hdigits : digits ≠ [] := by
          rintro rfl
          exact hpoint (List.cons.inj (List.append_inj' hupto rfl).2).1
        exact ⟨_, .fractional hwhole hdigits allLeft fun d hd =>
          allRight d (List.mem_append_left tail hd)⟩

/-- The front of a number with a letter that tells its base has the letter, too. -/
theorem exists_digits_of_letter {letter first c : Char} {digits others : List Char}
    (hfront : first :: others ++ [c] <+: '0' :: letter :: digits) :
    ∃ upto, first :: others ++ [c] = '0' :: letter :: upto ∧ upto ⊆ digits := by
  obtain ⟨rfl, hothers⟩ := List.cons_prefix_cons.mp hfront
  cases others with
  | nil =>
      obtain ⟨rfl, _⟩ := List.cons_prefix_cons.mp hothers
      exact ⟨[], rfl, List.nil_subset digits⟩
  | cons x more =>
      obtain ⟨rfl, hdigits⟩ := List.cons_prefix_cons.mp hothers
      exact ⟨more ++ [c], rfl, hdigits.subset⟩

/-- What is matched is matched up to any character behind the first one as well, unless it is a
point, behind which digits have to follow. -/
theorem exists_upto {kind : Piece.Kind} {source others : List Char} {first c : Char}
    (h : Matches kind source) (hfront : first :: others ++ [c] <+: source) (hpoint : c ≠ '.') :
    ∃ kind', Matches kind' (first :: others ++ [c]) := by
  cases h with
  | identifier letter parts =>
      obtain ⟨rfl, hothers⟩ := List.cons_prefix_cons.mp hfront
      exact ⟨_, .identifier letter fun d hd => parts d (hothers.subset hd)⟩
  | decimal _ all => exact ⟨_, .decimal (by simp) fun d hd => all d (hfront.subset hd)⟩
  | fractional left _ allLeft allRight =>
      exact exists_upto_of_point left allLeft allRight hfront hpoint
  | hex all =>
      obtain ⟨upto, hupto, hdigits⟩ := exists_digits_of_letter hfront
      rw [hupto]
      exact ⟨_, .hex fun d hd => all d (hdigits hd)⟩
  | bin all =>
      obtain ⟨upto, hupto, hdigits⟩ := exists_digits_of_letter hfront
      rw [hupto]
      exact ⟨_, .bin fun d hd => all d (hdigits hd)⟩
  | symbol _ => simpa using hfront.length_le
  | slashes =>
      have hothers : others = [] := by simpa using hfront.length_le
      subst hothers
      rw [hfront.eq_of_length rfl]
      exact ⟨_, .slashes⟩
  | newline => simpa using hfront.length_le
  | blanks _ all => exact ⟨_, .blanks (by simp) fun d hd => all d (hfront.subset hd)⟩

/-- A star is in no match but the star itself. -/
theorem eq_star_of_mem {kind : Piece.Kind} {text : List Char} (h : Matches kind text)
    (hmem : '*' ∈ text) : text = ['*'] := by
  cases kind with
  | token kind => exact h.eq_of_symbol_mem (show Token.Kind.star.symbol? = some '*' from rfl) hmem
  | unknown => exact absurd rfl h.kind_ne_unknown
  | comment | newline =>
      cases h
      simp at hmem
  | blanks =>
      cases h with
      | blanks _ all => exact absurd (all '*' hmem) (by simp [Blank])

end Matches

namespace Cuts

variable {kind : Piece.Kind} {text rest rest' : List Char}

/-- Where a piece is cut off depends on no more than the character behind it, unless a point stands
there. -/
theorem of_head (h : Cuts kind text rest) (hkind : kind ≠ .unknown)
    (hhead : rest'.head? = rest.head?) (hpoint : rest.head? ≠ some '.') : Cuts kind text rest' := by
  cases h with
  | pattern ne_comment longest =>
      apply Cuts.pattern ne_comment
      apply LongestMatch.of_not_past longest.isMatch
      intro other c tail tail' heq hlonger
      rw [heq, List.head?_cons] at hhead
      obtain ⟨behind, rfl⟩ := List.head?_eq_some_iff.mp hhead.symm
      obtain ⟨first, others, rfl⟩ := List.exists_cons_of_ne_nil longest.isMatch.ne_nil
      have hfront : first :: others ++ [c] <+: first :: others ++ c :: tail := by simp
      obtain ⟨kind', hupto⟩ := hlonger.exists_upto hfront (by simpa using hpoint)
      have hlength := longest.longest _ _ hupto (by simp)
      exact absurd hlength (by simp)
  | comment longest within stops =>
      exact .comment (LongestMatch.slashes _) within (hhead ▸ stops)
  | unknown _ => exact absurd rfl hkind

/-- A star cuts off what stands in front of it. -/
theorem before_star (h : Cuts kind text rest) (hkind : kind ≠ .unknown) (hcomment : kind ≠ .comment)
    (rest' : List Char) : Cuts kind text ('*' :: rest') := by
  cases h with
  | pattern _ longest =>
      apply Cuts.pattern hcomment
      apply LongestMatch.of_not_past longest.isMatch
      intro other c tail tail' heq hlonger
      obtain ⟨rfl, _⟩ := List.cons.inj heq
      have hlength := congrArg List.length (hlonger.eq_star_of_mem (by simp))
      have hpos := List.length_pos_iff.mpr longest.isMatch.ne_nil
      simp only [List.length_append, List.length_cons, List.length_nil] at hlength
      omega
  | comment _ _ _ => exact absurd rfl hcomment
  | unknown _ => exact absurd rfl hkind

/-- A star is cut off from what stands behind it. -/
theorem star (rest : List Char) : Cuts (.token .star) ['*'] rest := by
  apply Cuts.pattern Piece.Kind.noConfusion
  apply LongestMatch.of_not_past (.symbol rfl)
  intro other c tail tail' _ hlonger
  have hstar := hlonger.eq_star_of_mem (by simp)
  simp at hstar

end Cuts

/-- A text from the place `p` on, with a star in front of every character that stands at one of the
given places. -/
def starAt (places : List Position) (p : Position) : List Char → List Char
  | [] => []
  | c :: rest => (if p ∈ places then ['*', c] else [c]) ++ starAt places (p.step c) rest

example : starAt [⟨1, 2⟩, ⟨2, 1⟩] .start "2pi\n(3)".toList = "2*pi\n*(3)".toList := by decide

def starPieces (places : List Position) (p : Position) : List Lexeme → List Lexeme
  | [] => []
  | l :: rest =>
      (if p ∈ places then [⟨.token .star, ['*']⟩, l] else [l]) ++
        starPieces places (p.advance l.text) rest

def starItems (places : List Position) (items : List Item) : List Item :=
  items.flatMap fun item =>
    if item.position ∈ places then [.ok ⟨.star, "*", item.position⟩, item] else [item]

/-- Each of the places that are not yet passed at `p` is that of a token among the pieces from there
on. -/
def Aligned (places : List Position) (p : Position) (pieces : List Lexeme) : Prop :=
  ∀ q ∈ places, q.Before p ∨ ∃ t : Token, .ok t ∈ itemsFrom p pieces ∧ t.position = q

theorem Position.Before.asymm {p q : Position} (h : p.Before q) : ¬q.Before p :=
  fun h' => (h.trans h').ne rfl

theorem Lexeme.position_of_mem_items {l : Lexeme} {p : Position} {item : Item}
    (h : item ∈ l.items p) : item.position = p := by
  unfold items at h
  split at h
  · rw [List.mem_singleton.mp h]
    rfl
  · obtain ⟨c, _, rfl⟩ := List.mem_map.mp h
    rfl
  · cases h

theorem Lexeme.exists_token_of_mem_items {l : Lexeme} {p : Position} {t : Token}
    (h : .ok t ∈ l.items p) : ∃ token, l.kind = .token token := by
  unfold items at h
  split at h
  · exact ⟨_, by assumption⟩
  · obtain ⟨c, _, hc⟩ := List.mem_map.mp h
    cases hc
  · cases h

namespace Tokenization

variable {source : List Char} {pieces : List Lexeme} {p : Position}

/-- Items are reported where their piece starts, and so in the order of their places. -/
theorem position_of_mem (h : Tokenization source pieces) {item : Item}
    (hitem : item ∈ itemsFrom p pieces) : item.position = p ∨ p.Before item.position := by
  induction h generalizing p with
  | nil => cases hitem
  | @cons kind text rest lexemes first others ih =>
      rcases List.mem_append.mp hitem with hitem | hitem
      · exact .inl (Lexeme.position_of_mem_items hitem)
      · have hstep := p.before_advance first.text_ne_nil
        rcases ih hitem with hposition | hbefore
        · exact .inr (hposition ▸ hstep)
        · exact .inr (hstep.trans hbefore)

/-- Where all items are tokens, no piece is an unknown character. -/
theorem kind_ne_unknown (h : Tokenization source pieces)
    (htokens : ∀ item ∈ itemsFrom p pieces, ∃ t : Token, item = .ok t) :
    ∀ l ∈ pieces, l.kind ≠ .unknown := by
  induction h generalizing p with
  | nil => exact List.forall_mem_nil _
  | @cons kind text rest lexemes first others ih =>
      have hothers := ih fun item hitem => htokens item (List.mem_append_right _ hitem)
      have hkind : kind ≠ .unknown := by
        rintro rfl
        obtain ⟨c, cs, rfl⟩ := List.exists_cons_of_ne_nil first.text_ne_nil
        obtain ⟨t, ht⟩ := htokens (.error ⟨c, p⟩) (List.mem_append_left _ List.mem_cons_self)
        cases ht
      exact List.forall_mem_cons.mpr ⟨hkind, hothers⟩

/-- The items of a source are reported in the order of their places. -/
theorem pairwise_before (h : Tokenization source pieces) :
    (itemsFrom p pieces).Pairwise fun item other => item.position.Before other.position := by
  induction h generalizing p with
  | nil => exact .nil
  | @cons kind text rest lexemes first others ih =>
      have hstep := p.before_advance first.text_ne_nil
      apply List.pairwise_append.mpr
      refine ⟨?_, ih, ?_⟩
      · cases first with
        | pattern _ longest =>
            cases kind with
            | token kind => exact List.pairwise_singleton _ _
            | unknown => exact absurd rfl longest.isMatch.kind_ne_unknown
            | blanks | newline | comment => exact .nil
        | comment => exact .nil
        | unknown => exact List.pairwise_singleton _ _
      · intro item hitem other hother
        rw [Lexeme.position_of_mem_items hitem]
        rcases others.position_of_mem hother with hposition | hbefore
        · exact hposition ▸ hstep
        · exact hstep.trans hbefore

end Tokenization

namespace Aligned

variable {places : List Position} {p : Position} {kind : Piece.Kind} {text rest : List Char}
  {lexemes : List Lexeme}

/-- Behind a piece the places are aligned with the pieces that are left. -/
theorem behind (h : Aligned places p (⟨kind, text⟩ :: lexemes)) (hne : text ≠ []) :
    Aligned places (p.advance text) lexemes := by
  have hstep := p.before_advance hne
  intro q hq
  rcases h q hq with hbefore | ⟨t, ht, rfl⟩
  · exact .inl (hbefore.trans hstep)
  · rcases List.mem_append.mp ht with ht | ht
    · have hposition : t.position = p := Lexeme.position_of_mem_items ht
      exact .inl (hposition ▸ hstep)
    · exact .inr ⟨t, ht, rfl⟩

/-- A place that is passed with a piece is where the piece starts, and the piece is a token. -/
theorem start_of_mem (h : Aligned places p (⟨kind, text⟩ :: lexemes))
    (hothers : Tokenization rest lexemes) {q : Position} (hq : q ∈ places) (hstart : ¬q.Before p)
    (hend : q.Before (p.advance text)) : q = p ∧ ∃ token, kind = .token token := by
  rcases h q hq with hbefore | ⟨t, ht, rfl⟩
  · exact absurd hbefore hstart
  · rcases List.mem_append.mp ht with ht | ht
    · exact ⟨Lexeme.position_of_mem_items ht, Lexeme.exists_token_of_mem_items ht⟩
    · rcases hothers.position_of_mem ht with hlater | hlater
      · exact absurd hlater hend.ne
      · exact absurd hlater hend.asymm

/-- No place lies within a piece. -/
theorem not_mem_within (h : Aligned places p (⟨kind, text⟩ :: lexemes))
    (hothers : Tokenization rest lexemes) {front back : List Char} (htext : text = front ++ back)
    (hfront : front ≠ []) (hback : back ≠ []) : p.advance front ∉ places := by
  have hstep := p.before_advance hfront
  have hend : (p.advance front).Before (p.advance text) := by
    rw [htext, Position.advance_append]
    exact (p.advance front).before_advance hback
  intro hq
  exact hstep.ne (h.start_of_mem hothers hq hstep.asymm hend).1.symm

/-- A piece at one of the places is a token. -/
theorem exists_token (h : Aligned places p (⟨kind, text⟩ :: lexemes)) (hne : text ≠ [])
    (hothers : Tokenization rest lexemes) (hp : p ∈ places) : ∃ token, kind = .token token :=
  (h.start_of_mem hothers hp (fun hbefore => hbefore.ne rfl) (p.before_advance hne)).2

end Aligned

section Stars

variable {places : List Position} {p : Position} {kind : Piece.Kind} {text rest : List Char}
  {lexemes : List Lexeme}

/-- Where no place is met nothing is put into a text. -/
theorem starAt_append_of_not_mem
    (h : ∀ front c back, text = front ++ c :: back → p.advance front ∉ places) :
    starAt places p (text ++ rest) = text ++ starAt places (p.advance text) rest := by
  induction text generalizing p with
  | nil => rfl
  | cons c text ih =>
      have hc : p ∉ places := h [] c text rfl
      have htext := @ih (p.step c) fun front d back heq => h (c :: front) d back (by rw [heq]; rfl)
      rw [List.cons_append, starAt, if_neg hc, htext]
      rfl

/-- A star can only stand in front of a piece. -/
theorem starAt_append (h : Aligned places p (⟨kind, text⟩ :: lexemes))
    (hothers : Tokenization rest lexemes) (hne : text ≠ []) :
    starAt places p (text ++ rest) =
      (if p ∈ places then ['*'] else []) ++ (text ++ starAt places (p.advance text) rest) := by
  obtain ⟨c, text, rfl⟩ := List.exists_cons_of_ne_nil hne
  have hwithin : ∀ front d back, text = front ++ d :: back → (p.step c).advance front ∉ places := by
    intro front d back heq
    have htext : c :: text = (c :: front) ++ (d :: back) := by rw [heq]; rfl
    exact h.not_mem_within hothers htext (List.cons_ne_nil c front) (List.cons_ne_nil d back)
  rw [List.cons_append, starAt, starAt_append_of_not_mem hwithin]
  split <;> rfl

end Stars

namespace Tokenization

variable {source : List Char} {pieces : List Lexeme} {places : List Position} {p : Position}

/-- No piece but an unknown character starts with a point. -/
theorem head?_ne_point (h : Tokenization source pieces) (hknown : ∀ l ∈ pieces, l.kind ≠ .unknown) :
    source.head? ≠ some '.' := by
  intro hpoint
  obtain ⟨cs, hsource⟩ := List.head?_eq_some_iff.mp hpoint
  cases h with
  | nil => cases hsource
  | cons first others =>
      have hunknown : (Piece.first '.' cs).kind = .unknown := by
        rw [Piece.first, Unicode.isLetter_of_lt (by decide)]
        rfl
      have hsplit := hsource.trans (Piece.first_text_append_rest '.' cs).symm
      obtain ⟨rfl, _, _⟩ := first.unique (Piece.first_cuts '.' cs) hsplit
      exact hknown _ List.mem_cons_self hunknown

/-- Stars leave a piece cut off where it was. None is put behind a comment, which ends with its
line. -/
theorem cuts_starAt {kind : Piece.Kind} {text rest : List Char} {lexemes : List Lexeme}
    (first : Cuts kind text rest) (others : Tokenization rest lexemes) (hkind : kind ≠ .unknown)
    (hknown : ∀ l ∈ lexemes, l.kind ≠ .unknown) (haligned : Aligned places p lexemes) :
    Cuts kind text (Calculator.starAt places p rest) := by
  by_cases hp : p ∈ places
  · cases others with
    | nil =>
        rcases haligned p hp with hbefore | ⟨t, ht, _⟩
        · exact absurd rfl hbefore.ne
        · cases ht
    | @cons _ text' _ _ next others =>
        obtain ⟨token, rfl⟩ := haligned.exists_token next.text_ne_nil others hp
        rw [starAt_append haligned others next.text_ne_nil, if_pos hp]
        apply first.before_star hkind
        rintro rfl
        cases first with
        | pattern ne_comment _ => exact ne_comment rfl
        | comment _ _ stops =>
            obtain ⟨c, cs, rfl⟩ := List.exists_cons_of_ne_nil next.text_ne_nil
            obtain rfl : c = '\n' := stops c rfl
            exact absurd (next.isToken.lt_toNat '\n' List.mem_cons_self) (by decide)
  · apply first.of_head hkind _ (others.head?_ne_point hknown)
    cases rest with
    | nil => rfl
    | cons c cs => rw [Calculator.starAt, if_neg hp, List.singleton_append, List.head?_cons]; rfl

/-- The pieces of a text with stars are those that it has without, and the stars. -/
theorem starAt (h : Tokenization source pieces) (hknown : ∀ l ∈ pieces, l.kind ≠ .unknown)
    (haligned : Aligned places p pieces) :
    Tokenization (starAt places p source) (starPieces places p pieces) := by
  induction h generalizing p with
  | nil => exact .nil
  | @cons kind text rest lexemes first others ih =>
      have hne := first.text_ne_nil
      have hkind : kind ≠ .unknown := hknown _ List.mem_cons_self
      have hknown' : ∀ l ∈ lexemes, l.kind ≠ .unknown :=
        fun l hl => hknown l (List.mem_cons_of_mem _ hl)
      have haligned' := haligned.behind hne
      have hfirst := cuts_starAt first others hkind hknown' haligned'
      have hothers := ih hknown' haligned'
      rw [starAt_append haligned others hne, starPieces]
      by_cases hp : p ∈ places
      · simp only [if_pos hp]
        exact .cons (.star _) (.cons hfirst hothers)
      · simp only [if_neg hp]
        exact .cons hfirst hothers

end Tokenization

theorem starItems_append (places : List Position) (items others : List Item) :
    starItems places (items ++ others) = starItems places items ++ starItems places others :=
  List.flatMap_append

theorem starItems_of_not_mem {places : List Position} {items : List Item}
    (h : ∀ item ∈ items, item.position ∉ places) : starItems places items = items := by
  induction items with
  | nil => rfl
  | cons item items ih =>
      have hitems := ih fun other hother => h other (List.mem_cons_of_mem _ hother)
      rw [starItems, List.flatMap_cons, if_neg (h item List.mem_cons_self)]
      exact congrArg (item :: ·) hitems

/-- What is reported of a piece does not depend on its column, apart from the column. -/
theorem Lexeme.map_items_toMargin (l : Lexeme) {p q : Position} (h : p.line = q.line) :
    (l.items p).map (Item.relocate .toMargin) = (l.items q).map (Item.relocate .toMargin) := by
  have hplace : Relocation.toMargin.place p = Relocation.toMargin.place q :=
    congrArg (Position.mk · 1) h
  unfold items
  split
  · simp [Item.relocate, Token.relocate, hplace]
  · simp [Item.relocate, UnknownCharacter.relocate, hplace]
  · rfl

/-- The items of a text with stars are those that it has without, and the stars, each of them on the
line of the item behind it. -/
theorem Tokenization.itemsFrom_starPieces {source : List Char} {pieces : List Lexeme}
    {places : List Position} {p p' : Position} (h : Tokenization source pieces)
    (haligned : Aligned places p pieces) (hline : p'.line = p.line) :
    (itemsFrom p' (starPieces places p pieces)).map (Item.relocate .toMargin) =
      (starItems places (itemsFrom p pieces)).map (Item.relocate .toMargin) := by
  induction h generalizing p p' with
  | nil => rfl
  | @cons kind text rest lexemes first others ih =>
      have haligned' := haligned.behind first.text_ne_nil
      have hadvance {q : Position} (hq : q.line = p.line) :
          (q.advance text).line = (p.advance text).line := by
        rw [Position.line_advance, Position.line_advance, hq]
      rw [itemsFrom, starItems_append, List.map_append, starPieces]
      by_cases hp : p ∈ places
      · obtain ⟨token, rfl⟩ := haligned.exists_token first.text_ne_nil others hp
        have hstar : (p'.advance ['*']).line = p.line := by
          rw [Position.line_advance, hline]
          rfl
        have hitems : starItems places (Lexeme.items ⟨.token token, text⟩ p) =
            Lexeme.items ⟨.token .star, ['*']⟩ p ++ Lexeme.items ⟨.token token, text⟩ p := by
          simp [starItems, Lexeme.items, Item.position, hp]
        rw [if_pos hp, hitems, ← ih haligned' (hadvance hstar), List.cons_append,
          List.singleton_append, itemsFrom, itemsFrom, List.map_append, List.map_append, List.map_append,
          Lexeme.map_items_toMargin _ hline, Lexeme.map_items_toMargin _ hstar, List.append_assoc]
      · have hitems : starItems places (Lexeme.items ⟨kind, text⟩ p) =
            Lexeme.items ⟨kind, text⟩ p := by
          apply starItems_of_not_mem
          intro item hitem
          rw [Lexeme.position_of_mem_items hitem]
          exact hp
        rw [if_neg hp, List.singleton_append, itemsFrom, List.map_append, hitems,
          ih haligned' (hadvance hline), Lexeme.map_items_toMargin _ hline]

end Calculator
