import Mathlib.Data.List.TakeWhile
import Calculator.Proofs.Scanning.Pattern

/-!
The piece that is cut from the front of a text is the one that longest match gives, and longest
match gives one piece only.
-/

namespace Calculator

namespace Piece

variable {c : Char} {cs : List Char}

theorem first_of_letter (h : Unicode.isLetter c) :
    first c cs = run (.token .identifier) [c] isIdentifierPart cs :=
  if_pos h

theorem first_of_digit (h : c.isDigit) : first c cs = number c cs := by
  rw [first, isLetter_of_isDigit h]
  simp [h]

theorem first_of_blank (h : Blank c) : first c cs = run .blanks [c] isBlank cs := by
  rw [first, isLetter_of_blank h, isDigit_of_blank h, (isBlank_iff c).mpr h]
  rfl

theorem first_newline : first '\n' cs = ⟨.newline, ['\n'], cs⟩ := by
  rw [first, Unicode.isLetter_of_lt (by decide)]
  rfl

theorem first_slash : first '/' cs = slash cs := by
  rw [first, Unicode.isLetter_of_lt (by decide)]
  rfl

theorem first_of_symbol {kind : Token.Kind} (h : kind.symbol? = some c) (hslash : c ≠ '/') :
    first c cs = ⟨.token kind, [c], cs⟩ := by
  have hletter : Unicode.isLetter c = false := by
    cases kind <;> cases h <;> decide
  rw [first, hletter]
  cases kind <;> cases h <;> first | rfl | exact absurd rfl hslash

theorem kind_of_ofSymbol? {kind : Token.Kind} (h : Token.Kind.ofSymbol? c = some kind) :
    kind.symbol? = some c := by
  unfold Token.Kind.ofSymbol? at h
  split at h <;> cases h <;> rfl

/-- A run takes all that it can take. -/
theorem length_le_run (kind : Kind) (lead : List Char) {more : Char → Bool} {taken : List Char}
    (h : ∀ d ∈ taken, more d) (rest : List Char) :
    (lead ++ taken).length ≤ (run kind lead more (taken ++ rest)).text.length := by
  simp only [run, List.takeWhile_append_of_pos h, List.length_append]
  omega

theorem number_hex : number '0' ('x' :: cs) = run (.token .hexLiteral) ['0', 'x'] isHexDigit cs :=
  rfl

theorem number_bin : number '0' ('b' :: cs) = run (.token .binLiteral) ['0', 'b'] isBinDigit cs :=
  rfl

theorem number_of_ne (hx : cs.head? ≠ some 'x') (hb : cs.head? ≠ some 'b') :
    number c cs = decimal (c :: cs) := by
  unfold number
  split
  · exact absurd rfl hx
  · exact absurd rfl hb
  · rfl

theorem decimal_of_all {source : List Char} (h : ∀ d ∈ source, d.isDigit) :
    decimal source = ⟨.token .intLiteral, source, []⟩ := by
  have htake : source.takeWhile Char.isDigit = source := List.takeWhile_eq_self_iff.mpr h
  have hdrop : source.dropWhile Char.isDigit = [] := List.dropWhile_eq_nil_iff.mpr h
  simp only [decimal, htake, hdrop]

theorem decimal_of_point {whole : List Char} {d : Char} (hwhole : ∀ a ∈ whole, a.isDigit)
    (hd : d.isDigit) (rest : List Char) :
    decimal (whole ++ '.' :: d :: rest) =
      run (.token .floatLiteral) (whole ++ ['.']) Char.isDigit (d :: rest) := by
  have htake : (whole ++ '.' :: d :: rest).takeWhile Char.isDigit = whole := by
    rw [List.takeWhile_append_of_pos hwhole]
    exact List.append_nil whole
  have hdrop : (whole ++ '.' :: d :: rest).dropWhile Char.isDigit = '.' :: d :: rest := by
    rw [List.dropWhile_append_of_pos hwhole]
    rfl
  simp only [decimal, htake, hdrop, hd, if_true]

theorem length_le_decimal {digits : List Char} (h : ∀ d ∈ digits, d.isDigit) (rest : List Char) :
    digits.length ≤ (decimal (digits ++ rest)).text.length := by
  have hlength : ((digits ++ rest).takeWhile Char.isDigit).length =
      digits.length + (rest.takeWhile Char.isDigit).length := by
    rw [List.takeWhile_append_of_pos h, List.length_append]
  unfold decimal
  dsimp only
  split
  · split
    · simp only [run, List.length_append]
      omega
    · dsimp only
      omega
  · dsimp only
    omega

theorem kind_decimal (source : List Char) :
    (decimal source).kind = .token .intLiteral ∨ (decimal source).kind = .token .floatLiteral := by
  unfold decimal
  dsimp only
  split
  · split
    · exact Or.inr rfl
    · exact Or.inl rfl
  · exact Or.inl rfl

/-- A number reaches over all the digits it starts with. -/
theorem length_le_number {digits : List Char} (h : ∀ d ∈ c :: digits, d.isDigit)
    (rest : List Char) :
    (number c (digits ++ rest)).kind ≠ .unknown ∧
      (c :: digits).length ≤ (number c (digits ++ rest)).text.length := by
  generalize heq : digits ++ rest = source
  have hshort : ∀ d tail, source = d :: tail → d.isDigit = false → digits = [] := by
    intro d tail hsource hd
    cases digits with
    | nil => rfl
    | cons e digits =>
        rw [hsource] at heq
        cases heq
        rw [h d (by simp)] at hd
        cases hd
  unfold number
  split
  · rename_i tail
    rw [hshort 'x' tail rfl rfl]
    exact ⟨Kind.noConfusion, by simp [run]⟩
  · rename_i tail
    rw [hshort 'b' tail rfl rfl]
    exact ⟨Kind.noConfusion, by simp [run]⟩
  · subst heq
    refine ⟨?_, length_le_decimal h rest⟩
    rcases kind_decimal (c :: (digits ++ rest)) with hkind | hkind <;> rw [hkind] <;>
      exact Kind.noConfusion

theorem number_of_point {whole fraction : List Char} (hwhole : ∀ d ∈ c :: whole, d.isDigit)
    (hne : fraction ≠ []) (hfraction : ∀ d ∈ fraction, d.isDigit) (rest : List Char) :
    number c (whole ++ '.' :: fraction ++ rest) =
      run (.token .floatLiteral) (c :: whole ++ ['.']) Char.isDigit (fraction ++ rest) := by
  have hhead : ∀ d, d.isDigit = false → d ≠ '.' →
      (whole ++ '.' :: fraction ++ rest).head? ≠ some d := by
    intro d hd hpoint heq
    cases whole with
    | nil => exact hpoint (Option.some.inj heq).symm
    | cons e whole =>
        have hde : e = d := Option.some.inj heq
        rw [← hde, hwhole e (by simp)] at hd
        cases hd
  rw [number_of_ne (hhead 'x' rfl (by decide)) (hhead 'b' rfl (by decide))]
  cases fraction with
  | nil => exact absurd rfl hne
  | cons d fraction =>
      have hdecimal := decimal_of_point hwhole (hfraction d List.mem_cons_self) (fraction ++ rest)
      simpa using hdecimal

end Piece

inductive Fits (c : Char) (cs : List Char) : Piece → Prop where
  | pattern {piece : Piece} (ne_comment : piece.kind ≠ .comment)
      (isMatch : Matches piece.kind piece.text) : Fits c cs piece
  | comment {line rest : List Char} (within : '\n' ∉ line) (stops : ∀ d ∈ rest.head?, d = '\n') :
      Fits c cs ⟨.comment, '/' :: '/' :: line, rest⟩
  | unknown : Fits c cs ⟨.unknown, [c], cs⟩

namespace Fits

variable {c : Char} {cs : List Char}

open Piece

private theorem number_fits (h : c.isDigit) : Fits c cs (number c cs) := by
  unfold number
  split
  · refine .pattern Kind.noConfusion (.hex fun d hd => ?_)
    exact (isHexDigit_iff d).mp (List.mem_takeWhile_imp hd)
  · refine .pattern Kind.noConfusion (.bin fun d hd => ?_)
    exact (isBinDigit_iff d).mp (List.mem_takeWhile_imp hd)
  · have hall : ∀ d ∈ (c :: cs).takeWhile Char.isDigit, d.isDigit :=
      fun d hd => List.mem_takeWhile_imp hd
    have hne : (c :: cs).takeWhile Char.isDigit ≠ [] := by simp [h]
    unfold decimal
    dsimp only
    split
    · split
      · rename_i d rest _ hd
        refine .pattern Kind.noConfusion ?_
        have hright : (d :: rest).takeWhile Char.isDigit ≠ [] := by simp [hd]
        have hfloat := Matches.fractional hne hright hall (fun d hd => List.mem_takeWhile_imp hd)
        simpa [run] using hfloat
      · exact .pattern Kind.noConfusion (.decimal hne hall)
    · exact .pattern Kind.noConfusion (.decimal hne hall)

private theorem slash_fits : Fits '/' cs (slash cs) := by
  unfold slash
  split
  · rename_i rest
    refine .comment ?_ ?_
    · intro hmem
      have := List.mem_takeWhile_imp hmem
      simp at this
    · intro d hd
      have := List.head?_dropWhile_not (· != '\n') rest
      rw [hd] at this
      simpa using this
  · exact .pattern Kind.noConfusion (.symbol rfl)

theorem first (c : Char) (cs : List Char) : Fits c cs (Piece.first c cs) := by
  unfold Piece.first
  split
  · rename_i hletter
    refine .pattern Kind.noConfusion (.identifier hletter fun d hd => ?_)
    exact (isIdentifierPart_iff d).mp (List.mem_takeWhile_imp hd)
  · split
    · rename_i hdigit
      exact number_fits hdigit
    · split
      · rename_i hblank
        refine .pattern Kind.noConfusion (.blanks (List.cons_ne_nil _ _) fun d hd => ?_)
        rcases List.mem_cons.mp hd with rfl | hd
        · exact (isBlank_iff d).mp hblank
        · exact (isBlank_iff d).mp (List.mem_takeWhile_imp hd)
      · split
        · rename_i hnewline
          subst hnewline
          exact .pattern Kind.noConfusion .newline
        · split
          · rename_i hslash
            subst hslash
            exact slash_fits
          · split
            · rename_i kind hsymbol
              exact .pattern Kind.noConfusion (.symbol (kind_of_ofSymbol? hsymbol))
            · exact .unknown

end Fits

namespace Matches

open Piece

variable {kind : Piece.Kind} {text : List Char}

/-- The first piece of a text reaches at least over every match at its front. -/
theorem le_first (h : Matches kind text) {c : Char} {cs rest : List Char}
    (hsource : text ++ rest = c :: cs) :
    (first c cs).kind ≠ .unknown ∧ text.length ≤ (first c cs).text.length := by
  cases h with
  | @identifier d ds hfirst hothers =>
      rw [List.cons_append] at hsource
      cases hsource
      rw [first_of_letter hfirst]
      refine ⟨Kind.noConfusion, length_le_run _ [c] (fun e he => ?_) rest⟩
      exact (isIdentifierPart_iff e).mpr (hothers e he)
  | decimal nonempty all =>
      cases text with
      | nil => exact absurd rfl nonempty
      | cons d digits =>
          simp only [List.cons_append] at hsource
          cases hsource
          rw [first_of_digit (all c List.mem_cons_self)]
          exact length_le_number all rest
  | @fractional whole fraction left right allLeft allRight =>
      cases whole with
      | nil => exact absurd rfl left
      | cons d whole =>
          simp only [List.cons_append] at hsource
          cases hsource
          rw [first_of_digit (allLeft c List.mem_cons_self),
            number_of_point allLeft right allRight]
          refine ⟨Kind.noConfusion, ?_⟩
          have hrun := length_le_run (.token .floatLiteral) (c :: whole ++ ['.']) allRight rest
          simpa using hrun
  | hex all =>
      simp only [List.cons_append] at hsource
      cases hsource
      rw [first_of_digit rfl, number_hex]
      refine ⟨Kind.noConfusion, length_le_run _ ['0', 'x'] (fun e he => ?_) rest⟩
      exact (isHexDigit_iff e).mpr (all e he)
  | bin all =>
      simp only [List.cons_append] at hsource
      cases hsource
      rw [first_of_digit rfl, number_bin]
      refine ⟨Kind.noConfusion, length_le_run _ ['0', 'b'] (fun e he => ?_) rest⟩
      exact (isBinDigit_iff e).mpr (all e he)
  | symbol writes =>
      rw [List.singleton_append] at hsource
      cases hsource
      by_cases hslash : c = '/'
      · subst hslash
        rw [first_slash]
        unfold slash
        split
        · exact ⟨Kind.noConfusion, by simp [run]⟩
        · exact ⟨Kind.noConfusion, Nat.le_refl 1⟩
      · rw [first_of_symbol writes hslash]
        exact ⟨Kind.noConfusion, Nat.le_refl 1⟩
  | slashes =>
      cases hsource
      rw [first_slash]
      exact ⟨Kind.noConfusion, length_le_run .comment ['/', '/'] (by simp) rest⟩
  | newline =>
      cases hsource
      rw [first_newline]
      exact ⟨Kind.noConfusion, Nat.le_refl 1⟩
  | blanks nonempty all =>
      cases text with
      | nil => exact absurd rfl nonempty
      | cons d blanks =>
          simp only [List.cons_append] at hsource
          cases hsource
          rw [first_of_blank (all c List.mem_cons_self)]
          refine ⟨Kind.noConfusion, length_le_run _ [c] (fun e he => ?_) rest⟩
          exact (isBlank_iff e).mpr (all e (List.mem_cons_of_mem c he))

/-- A text that is a match as a whole is a piece of the kind that it matches. -/
theorem kind_first {c : Char} {cs : List Char} (h : Matches kind (c :: cs)) :
    (first c cs).kind = kind := by
  generalize hsource : c :: cs = source at h
  cases h with
  | identifier hfirst _ =>
      cases hsource
      rw [first_of_letter hfirst]
      rfl
  | decimal _ all =>
      subst hsource
      have hhead : ∀ d, d.isDigit = false → cs.head? ≠ some d := by
        intro d hd heq
        rw [all d (List.mem_cons_of_mem c (List.mem_of_mem_head? heq))] at hd
        cases hd
      rw [first_of_digit (all c List.mem_cons_self),
        number_of_ne (hhead 'x' rfl) (hhead 'b' rfl), decimal_of_all all]
  | @fractional whole fraction left right allLeft allRight =>
      cases whole with
      | nil => exact absurd rfl left
      | cons d whole =>
          rw [List.cons_append] at hsource
          cases hsource
          have hnumber := number_of_point allLeft right allRight []
          rw [List.append_nil] at hnumber
          rw [first_of_digit (allLeft c List.mem_cons_self), hnumber]
          rfl
  | hex _ =>
      cases hsource
      rw [first_of_digit rfl, number_hex]
      rfl
  | bin _ =>
      cases hsource
      rw [first_of_digit rfl, number_bin]
      rfl
  | symbol writes =>
      cases hsource
      by_cases hslash : c = '/'
      · subst hslash
        rw [first_slash]
        rename_i kind
        cases kind <;> cases writes
        rfl
      · rw [first_of_symbol writes hslash]
  | slashes =>
      cases hsource
      rw [first_slash]
      rfl
  | newline =>
      cases hsource
      rw [first_newline]
  | blanks _ all =>
      subst hsource
      rw [first_of_blank (all c List.mem_cons_self)]
      rfl

/-- No text matches the patterns of two kinds. -/
theorem kind_unique {other : Piece.Kind} (h : Matches kind text) (h' : Matches other text) :
    kind = other := by
  cases text with
  | nil => exact absurd rfl h.ne_nil
  | cons c cs => rw [← h.kind_first, ← h'.kind_first]

/-- What starts with a slash is one slash, or the two that open a comment. -/
theorem length_of_slash {rest : List Char} (h : Matches kind ('/' :: rest)) :
    ('/' :: rest).length ≤ 2 := by
  generalize hsource : '/' :: rest = source at h
  cases h with
  | identifier hfirst _ =>
      cases hsource
      rw [Unicode.isLetter_of_lt (by decide)] at hfirst
      cases hfirst
  | decimal _ all =>
      subst hsource
      cases all '/' List.mem_cons_self
  | @fractional whole fraction left _ allLeft _ =>
      cases whole with
      | nil => exact absurd rfl left
      | cons d whole =>
          cases hsource
          cases allLeft '/' List.mem_cons_self
  | blanks _ all =>
      subst hsource
      have hblank := all '/' List.mem_cons_self
      simp [Blank] at hblank
  | hex _ => cases hsource
  | bin _ => cases hsource
  | symbol _ => exact Nat.le_succ 1
  | slashes => exact Nat.le_refl 2
  | newline => cases hsource

end Matches

/-- The scanner cuts by longest match. -/
theorem Piece.first_cuts (c : Char) (cs : List Char) :
    Cuts (first c cs).kind (first c cs).text (first c cs).rest := by
  have hsplit := first_text_append_rest c cs
  have hreach : ∀ kind text, Matches kind text → text <+: c :: cs →
      (first c cs).kind ≠ .unknown ∧ text.length ≤ (first c cs).text.length := by
    rintro kind text hmatch ⟨rest, hrest⟩
    exact hmatch.le_first hrest
  have hfits := Fits.first c cs
  generalize first c cs = piece at hsplit hreach hfits
  cases hfits with
  | pattern ne_comment isMatch =>
      refine .pattern ne_comment ⟨isMatch, List.prefix_append _ _, ?_⟩
      rw [hsplit]
      exact fun kind text hmatch hprefix => (hreach kind text hmatch hprefix).2
  | comment within stops =>
      refine .comment ⟨.slashes, ⟨_, rfl⟩, ?_⟩ within stops
      intro kind text hmatch hprefix
      cases text with
      | nil => exact Nat.zero_le 2
      | cons d text =>
          obtain ⟨tail, htail⟩ := hprefix
          obtain rfl : d = '/' := (List.cons.inj htail).1
          exact hmatch.length_of_slash
  | unknown =>
      refine .unknown fun kind text hmatch hprefix => ?_
      exact (hreach kind text hmatch hprefix).1 rfl

private theorem takeWhile_line {line rest : List Char} (within : '\n' ∉ line)
    (stops : ∀ c ∈ rest.head?, c = '\n') : (line ++ rest).takeWhile (· != '\n') = line := by
  have hline : ∀ c ∈ line, (c != '\n') = true := by
    intro c hc
    rw [bne_iff_ne]
    rintro rfl
    exact within hc
  rw [List.takeWhile_append_of_pos hline]
  cases rest with
  | nil => simp
  | cons c rest => simp [stops c rfl]

/-- Longest match gives one match only. -/
theorem LongestMatch.unique {kind kind' : Piece.Kind} {text text' source : List Char}
    (h : LongestMatch kind text source) (h' : LongestMatch kind' text' source) :
    kind = kind' ∧ text = text' := by
  have hlength : text.length = text'.length :=
    Nat.le_antisymm (h'.longest _ _ h.isMatch h.isPrefix) (h.longest _ _ h'.isMatch h'.isPrefix)
  have hprefix : text <+: text' :=
    List.prefix_of_prefix_length_le h.isPrefix h'.isPrefix (Nat.le_of_eq hlength)
  obtain rfl := hprefix.eq_of_length hlength
  exact ⟨h.isMatch.kind_unique h'.isMatch, rfl⟩

/-- A source has one first piece only. -/
theorem Cuts.unique {kind kind' : Piece.Kind} {text text' rest rest' : List Char}
    (h : Cuts kind text rest) (h' : Cuts kind' text' rest')
    (heq : text ++ rest = text' ++ rest') : kind = kind' ∧ text = text' ∧ rest = rest' := by
  cases h with
  | pattern hne hmatch =>
      cases h' with
      | pattern hne' hmatch' =>
          rw [← heq] at hmatch'
          obtain ⟨hkind, rfl⟩ := hmatch.unique hmatch'
          exact ⟨hkind, rfl, List.append_cancel_left heq⟩
      | comment hmatch' _ _ =>
          rw [← heq] at hmatch'
          exact absurd (hmatch.unique hmatch').1 hne
      | unknown hno =>
          rw [List.singleton_append] at heq
          exact absurd (heq ▸ hmatch.isPrefix) (hno kind text hmatch.isMatch)
  | comment hmatch within stops =>
      cases h' with
      | pattern hne' hmatch' =>
          rw [← heq] at hmatch'
          exact absurd (hmatch.unique hmatch').1.symm hne'
      | comment hmatch' within' stops' =>
          simp only [List.cons_append, List.cons.injEq, true_and] at heq
          have hline := takeWhile_line within stops
          rw [heq, takeWhile_line within' stops'] at hline
          subst hline
          exact ⟨rfl, rfl, List.append_cancel_left heq⟩
      | unknown hno =>
          rw [List.singleton_append] at heq
          exact absurd (heq ▸ hmatch.isPrefix) (hno _ _ hmatch.isMatch)
  | unknown hno =>
      rw [List.singleton_append] at heq
      cases h' with
      | pattern _ hmatch' => exact absurd (heq ▸ hmatch'.isPrefix) (hno _ _ hmatch'.isMatch)
      | comment hmatch' _ _ => exact absurd (heq ▸ hmatch'.isPrefix) (hno _ _ hmatch'.isMatch)
      | unknown _ =>
          cases heq
          exact ⟨rfl, rfl, rfl⟩

end Calculator
