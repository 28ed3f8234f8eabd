import Calculator.Proofs.Grammar.Unambiguous

/-!
Completing what was read. What a reading took for a phrase is one, whatever stands behind it, as
long as the first token behind does not turn a constant into a call. What a reading gave up in the
middle of can be completed by ones and closing parentheses, within the same room.
-/

namespace Calculator.Grammar

/-- A value derives from tokens, and its atoms fit into the room. -/
def Builds (room : Nat) (s : Symbol) (before after : List Token) (value : s.Value) : Prop :=
  ∃ d : Derivation s before after, d.value = value ∧ d.nesting ≤ room

namespace Builds

variable {room : Nat} {before middle rest after : List Token} {level : Level}

theorem phrase {first : Expr} {others : Expr → Expr}
    (hfirst : Builds room (.phrase (stronger? level)) before middle first)
    (hothers : Builds room (.tail level) middle after others) :
    Builds room (.phrase (some level)) before after (others first) := by
  obtain ⟨d, rfl, hd⟩ := hfirst
  obtain ⟨d', rfl, hd'⟩ := hothers
  exact ⟨.phrase d d', rfl, Nat.max_le.mpr ⟨hd, hd'⟩⟩

theorem done : Builds room (.tail level) rest rest id :=
  ⟨.done, rfl, Nat.zero_le room⟩

theorem operator {op : Operator} {sign : Token} {right : Expr} {others : Expr → Expr}
    (joins : Joins level sign.kind op)
    (hright : Builds room (.phrase (stronger? level)) rest middle right)
    (hothers : Builds room (.tail level) middle after others) :
    Builds room (.tail level) (sign :: rest) after
      (fun left => others (.binary op left right sign.line)) := by
  obtain ⟨d, rfl, hd⟩ := hright
  obtain ⟨d', rfl, hd'⟩ := hothers
  exact ⟨.operator op sign joins d d', rfl, Nat.max_le.mpr ⟨hd, hd'⟩⟩

theorem adjacency {first : Token} {right : Expr} {others : Expr → Expr}
    (starts : first.kind = .identifier ∨ first.kind = .leftParen)
    (hright : Builds room .atom (first :: rest) middle right)
    (hothers : Builds room (.tail .product) middle after others) :
    Builds room (.tail .product) (first :: rest) after
      (fun left => others (.binary .mul left right first.line)) := by
  obtain ⟨d, rfl, hd⟩ := hright
  obtain ⟨d', rfl, hd'⟩ := hothers
  exact ⟨.adjacency first starts d d', rfl, Nat.max_le.mpr ⟨hd, hd'⟩⟩

theorem negation {sign : Token} {operand : Expr} (minus : sign.kind = .minus)
    (hoperand : Builds room .atom rest after operand) :
    Builds (room + 1) .atom (sign :: rest) after (.negation operand sign.line) := by
  obtain ⟨d, rfl, hd⟩ := hoperand
  exact ⟨.negation sign minus d, rfl, Nat.succ_le_succ hd⟩

theorem group {opening closing : Token} {content : Expr} (opens : opening.kind = .leftParen)
    (hcontent : Builds room .expression rest (closing :: after) content)
    (closes : closing.kind = .rightParen) :
    Builds (room + 1) .atom (opening :: rest) after content := by
  obtain ⟨d, rfl, hd⟩ := hcontent
  exact ⟨.group opens d closes, rfl, Nat.succ_le_succ hd⟩

theorem constant {name : Token} {c : Constant} (identifier : name.kind = .identifier)
    (bare : ∀ t ∈ rest.head?, t.kind ≠ .leftParen)
    (known : Constant.ofName? name.text = some c) :
    Builds (room + 1) .atom (name :: rest) rest (.constant c name.line) :=
  ⟨.constant name c identifier bare known, rfl, Nat.succ_le_succ (Nat.zero_le room)⟩

theorem call {name opening : Token} {f : NamedFunction} {arguments : List Expr}
    (identifier : name.kind = .identifier) (opens : opening.kind = .leftParen)
    (known : NamedFunction.ofName? name.text = some f)
    (hlist : Builds room .argumentList rest after arguments) :
    Builds (room + 1) .atom (name :: opening :: rest) after (.call f arguments name.line) := by
  obtain ⟨d, rfl, hd⟩ := hlist
  exact ⟨.call name f identifier opens known d, rfl, Nat.succ_le_succ hd⟩

theorem number {literal : Token} {value : Binary64} {numericType : NumericType}
    (numeral : literal.kind ∈ [Token.Kind.intLiteral, .floatLiteral, .hexLiteral, .binLiteral])
    (convertible :
      Numeral.read? literal.kind literal.text.toList = some (value, numericType)) :
    Builds (room + 1) .atom (literal :: rest) rest (.literal value numericType literal.line) :=
  ⟨.number literal value numericType numeral convertible, rfl,
    Nat.succ_le_succ (Nat.zero_le room)⟩

theorem noArgument {closing : Token} (closes : closing.kind = .rightParen) :
    Builds room .argumentList (closing :: rest) rest [] :=
  ⟨.noArgument closes, rfl, Nat.zero_le room⟩

theorem someArguments {arguments : List Expr}
    (hlist : Builds room .arguments before after arguments) :
    Builds room .argumentList before after arguments := by
  obtain ⟨d, rfl, hd⟩ := hlist
  exact ⟨.someArguments d, rfl, hd⟩

theorem lastArgument {closing : Token} {argument : Expr}
    (hargument : Builds room .expression before (closing :: after) argument)
    (closes : closing.kind = .rightParen) :
    Builds room .arguments before after [argument] := by
  obtain ⟨d, rfl, hd⟩ := hargument
  exact ⟨.lastArgument d closes, rfl, hd⟩

theorem nextArgument {comma : Token} {argument : Expr} {others : List Expr}
    (hargument : Builds room .expression before (comma :: rest) argument)
    (separates : comma.kind = .comma)
    (hothers : Builds room .arguments rest after others) :
    Builds room .arguments before after (argument :: others) := by
  obtain ⟨d, rfl, hd⟩ := hargument
  obtain ⟨d', rfl, hd'⟩ := hothers
  exact ⟨.nextArgument d separates d', rfl, Nat.max_le.mpr ⟨hd, hd'⟩⟩

end Builds

/-- Tokens that may stand where `next` did without making a call of the constant in front of it. -/
def Fits (next : Token) (after : List Token) : Prop :=
  ∀ t ∈ after.head?, t.kind = .leftParen → next.kind = .leftParen

theorem fits_of_ne {next t : Token} {rest : List Token} (h : t.kind ≠ .leftParen) :
    Fits next (t :: rest) := by
  intro u hu hkind
  cases hu
  exact absurd hkind h

/-- What was passed from a token on, with tokens behind it that fit, fits that token. -/
theorem Fits.append {next last : Token} {read after : List Token}
    (hread : (read ++ [last]).head? = some next) (h : Fits last after) :
    Fits next (read ++ after) := by
  cases read with
  | nil =>
      cases hread
      exact h
  | cons t others =>
      cases hread
      intro u hu hkind
      cases hu
      exact hkind

/-- The value derives from what was read, whatever follows it that fits the token in view. -/
def Settled (room : Nat) (s : Symbol) (read : List Token) (next : Token) (value : s.Value) : Prop :=
  ∀ after, Fits next after → Builds room s (read ++ after) after value

namespace Settled

variable {room : Nat} {read read' : List Token} {next last : Token} {level : Level}

theorem phrase {first : Expr} {others : Expr → Expr}
    (hfirst : Settled room (.phrase (stronger? level)) read next first)
    (hothers : Settled room (.tail level) read' last others)
    (hread' : (read' ++ [last]).head? = some next) :
    Settled room (.phrase (some level)) (read ++ read') last (others first) := by
  intro after hafter
  rw [List.append_assoc]
  exact (hfirst _ (hafter.append hread')).phrase (hothers after hafter)

theorem done : Settled room (.tail level) [] next id :=
  fun _ _ => .done

theorem operator {op : Operator} {sign : Token} {right : Expr} {others : Expr → Expr}
    (joins : Joins level sign.kind op)
    (hright : Settled room (.phrase (stronger? level)) read next right)
    (hothers : Settled room (.tail level) read' last others)
    (hread' : (read' ++ [last]).head? = some next) :
    Settled room (.tail level) (sign :: (read ++ read')) last
      (fun left => others (.binary op left right sign.line)) := by
  intro after hafter
  rw [List.cons_append, List.append_assoc]
  exact .operator joins (hright _ (hafter.append hread')) (hothers after hafter)

theorem adjacency {first : Token} {right : Expr} {others : Expr → Expr}
    (starts : first.kind = .identifier ∨ first.kind = .leftParen)
    (hright : Settled room .atom (first :: read) next right)
    (hothers : Settled room (.tail .product) read' last others)
    (hread' : (read' ++ [last]).head? = some next) :
    Settled room (.tail .product) (first :: (read ++ read')) last
      (fun left => others (.binary .mul left right first.line)) := by
  intro after hafter
  rw [List.cons_append, List.append_assoc]
  exact .adjacency starts (hright _ (hafter.append hread')) (hothers after hafter)

theorem negation {sign : Token} {operand : Expr} (minus : sign.kind = .minus)
    (hoperand : Settled room .atom read next operand) :
    Settled (room + 1) .atom (sign :: read) next (.negation operand sign.line) :=
  fun after hafter => .negation minus (hoperand after hafter)

theorem group {opening : Token} {content : Expr} (opens : opening.kind = .leftParen)
    (hcontent : Settled room .expression read next content) (closes : next.kind = .rightParen) :
    Settled (room + 1) .atom (opening :: (read ++ [next])) last content := by
  intro after _
  rw [List.cons_append, List.append_assoc]
  exact .group opens (hcontent (next :: after) (fits_of_ne (by simp [closes]))) closes

theorem constant {name : Token} {c : Constant} (identifier : name.kind = .identifier)
    (bare : next.kind ≠ .leftParen) (known : Constant.ofName? name.text = some c) :
    Settled (room + 1) .atom [name] next (.constant c name.line) :=
  fun _ hafter => .constant identifier (fun t ht hkind => bare (hafter t ht hkind)) known

theorem call {name opening : Token} {f : NamedFunction} {arguments : List Expr}
    (identifier : name.kind = .identifier) (opens : opening.kind = .leftParen)
    (known : NamedFunction.ofName? name.text = some f)
    (hlist : Settled room .argumentList read next arguments) :
    Settled (room + 1) .atom (name :: opening :: read) next (.call f arguments name.line) :=
  fun after hafter => .call identifier opens known (hlist after hafter)

theorem number {literal : Token} {value : Binary64} {numericType : NumericType}
    (numeral : literal.kind ∈ [Token.Kind.intLiteral, .floatLiteral, .hexLiteral, .binLiteral])
    (convertible :
      Numeral.read? literal.kind literal.text.toList = some (value, numericType)) :
    Settled (room + 1) .atom [literal] next (.literal value numericType literal.line) :=
  fun _ _ => .number numeral convertible

theorem noArgument (closes : next.kind = .rightParen) :
    Settled room .argumentList [next] last [] :=
  fun _ _ => .noArgument closes

theorem someArguments {arguments : List Expr}
    (hlist : Settled room .arguments read next arguments) :
    Settled room .argumentList read next arguments :=
  fun after hafter => .someArguments (hlist after hafter)

theorem lastArgument {argument : Expr}
    (hargument : Settled room .expression read next argument) (closes : next.kind = .rightParen) :
    Settled room .arguments (read ++ [next]) last [argument] := by
  intro after _
  rw [List.append_assoc]
  exact .lastArgument (hargument (next :: after) (fits_of_ne (by simp [closes]))) closes

theorem nextArgument {argument : Expr} {others : List Expr}
    (hargument : Settled room .expression read next argument) (separates : next.kind = .comma)
    (hothers : Settled room .arguments read' last others) :
    Settled room .arguments (read ++ next :: read') last (argument :: others) := by
  intro after hafter
  rw [List.append_assoc]
  have hfits : Fits next (next :: (read' ++ after)) := fits_of_ne (by simp [separates])
  exact .nextArgument (hargument _ hfits) separates (hothers after hafter)

/-- A phrase takes at least one token, the first one that was in view. -/
theorem exists_cons {level : Option Level} {first : Token} {value : Expr}
    (h : Settled room (.phrase level) read next value)
    (hread : (read ++ [next]).head? = some first) : ∃ others, read = first :: others := by
  cases read with
  | nil =>
      obtain ⟨d, _, _⟩ := h [] (by simp [Fits])
      obtain ⟨t, ht, _⟩ := d.starts
      cases ht
  | cons t others =>
      cases hread
      exact ⟨others, rfl⟩

end Settled

def one : Token := ⟨.intLiteral, "1", .start⟩

def closing : Token := ⟨.rightParen, ")", .start⟩

/-- What was read can be completed by ones and closing parentheses, whatever follows them. -/
def Viable (room : Nat) (s : Symbol) (read : List Token) : Prop :=
  ∃ first rest, (∀ t ∈ first :: rest, t = one ∨ t = closing) ∧
    ∀ after, ∃ value, Builds room s (read ++ (first :: rest ++ after)) after value

namespace Viable

variable {room room' : Nat} {s s' : Symbol} {read read' : List Token} {next last : Token}
  {level : Level}

/-- A completion of one thing is one of another, with a few more tokens behind it. -/
theorem extend (extra : List Token) (hextra : ∀ t ∈ extra, t = one ∨ t = closing)
    (h : Viable room s read)
    (hbuilds : ∀ completed after value, (∀ next, Fits next completed) →
      Builds room s (read ++ completed) (extra ++ after) value →
        ∃ value', Builds room' s' (read' ++ completed) after value') :
    Viable room' s' read' := by
  obtain ⟨first, rest, hfill, h⟩ := h
  refine ⟨first, rest ++ extra, ?_, fun after => ?_⟩
  · intro t ht
    rcases List.mem_append.mp (show t ∈ first :: rest ++ extra from ht) with ht | ht
    · exact hfill t ht
    · exact hextra t ht
  · obtain ⟨value, hvalue⟩ := h (extra ++ after)
    rw [← List.cons_append, List.append_assoc]
    refine hbuilds _ after value (fun next => fits_of_ne ?_) hvalue
    rcases hfill first List.mem_cons_self with rfl | rfl <;> exact Token.Kind.noConfusion

/-- A completion of one thing is one of another. -/
theorem mono (h : Viable room s read)
    (hbuilds : ∀ completed after value, (∀ next, Fits next completed) →
      Builds room s (read ++ completed) after value →
        ∃ value', Builds room' s' (read' ++ completed) after value') :
    Viable room' s' read' :=
  h.extend [] (fun _ ht => absurd ht List.not_mem_nil) hbuilds

/-- An unclosed list is completed by closing it behind a completion of its last element. -/
theorem close (h : Viable room s read)
    (hbuilds : ∀ completed after value, (∀ next, Fits next completed) →
      Builds room s (read ++ completed) (closing :: after) value →
        ∃ value', Builds room' s' (read' ++ completed) after value') :
    Viable room' s' read' :=
  h.extend [closing] (fun _ ht => .inr (List.mem_singleton.mp ht)) hbuilds

theorem first (h : Viable room (.phrase (stronger? level)) read) :
    Viable room (.phrase (some level)) read :=
  h.mono fun _ _ _ _ hvalue => ⟨_, hvalue.phrase .done⟩

theorem others {first : Expr} (hfirst : Settled room (.phrase (stronger? level)) read next first)
    (h : Viable room (.tail level) read') (hread' : (read' ++ [last]).head? = some next) :
    Viable room (.phrase (some level)) (read ++ read') := by
  refine h.mono fun completed after value hfits hvalue => ?_
  rw [List.append_assoc]
  exact ⟨_, (hfirst _ ((hfits last).append hread')).phrase hvalue⟩

theorem operand {op : Operator} {sign : Token} (joins : Joins level sign.kind op)
    (h : Viable room (.phrase (stronger? level)) read) :
    Viable room (.tail level) (sign :: read) :=
  h.mono fun _ _ _ _ hvalue => ⟨_, .operator joins hvalue .done⟩

theorem operator {op : Operator} {sign : Token} {right : Expr} (joins : Joins level sign.kind op)
    (hright : Settled room (.phrase (stronger? level)) read next right)
    (h : Viable room (.tail level) read') (hread' : (read' ++ [last]).head? = some next) :
    Viable room (.tail level) (sign :: (read ++ read')) := by
  refine h.mono fun completed after value hfits hvalue => ?_
  rw [List.cons_append, List.append_assoc]
  exact ⟨_, .operator joins (hright _ ((hfits last).append hread')) hvalue⟩

theorem factor {first : Token} (starts : first.kind = .identifier ∨ first.kind = .leftParen)
    (h : Viable room .atom (first :: read)) : Viable room (.tail .product) (first :: read) :=
  h.mono fun _ _ _ _ hvalue => ⟨_, .adjacency starts hvalue .done⟩

theorem adjacency {first : Token} {right : Expr}
    (starts : first.kind = .identifier ∨ first.kind = .leftParen)
    (hright : Settled room .atom (first :: read) next right)
    (h : Viable room (.tail .product) read') (hread' : (read' ++ [last]).head? = some next) :
    Viable room (.tail .product) (first :: (read ++ read')) := by
  refine h.mono fun completed after value hfits hvalue => ?_
  rw [List.cons_append, List.append_assoc]
  exact ⟨_, .adjacency starts (hright _ ((hfits last).append hread')) hvalue⟩

theorem negation {sign : Token} (minus : sign.kind = .minus) (h : Viable room .atom read) :
    Viable (room + 1) .atom (sign :: read) :=
  h.mono fun _ _ _ _ hvalue => ⟨_, .negation minus hvalue⟩

theorem group {opening : Token} (opens : opening.kind = .leftParen)
    (h : Viable room .expression read) : Viable (room + 1) .atom (opening :: read) :=
  h.close fun _ _ _ _ hvalue => ⟨_, .group opens hvalue rfl⟩

theorem call {name opening : Token} {f : NamedFunction} (identifier : name.kind = .identifier)
    (opens : opening.kind = .leftParen) (known : NamedFunction.ofName? name.text = some f)
    (h : Viable room .argumentList read) : Viable (room + 1) .atom (name :: opening :: read) :=
  h.mono fun _ _ _ _ hvalue => ⟨_, .call identifier opens known hvalue⟩

theorem someArguments (h : Viable room .arguments read) : Viable room .argumentList read :=
  h.mono fun _ _ _ _ hvalue => ⟨_, hvalue.someArguments⟩

theorem lastArgument (h : Viable room .expression read) : Viable room .arguments read :=
  h.close fun _ _ _ _ hvalue => ⟨_, .lastArgument hvalue rfl⟩

theorem nextArgument {argument : Expr} (hargument : Settled room .expression read next argument)
    (separates : next.kind = .comma) (h : Viable room .arguments read') :
    Viable room .arguments (read ++ next :: read') := by
  refine h.mono fun completed after value _ hvalue => ?_
  rw [List.append_assoc]
  have hfits : Fits next (next :: (read' ++ completed)) := fits_of_ne (by simp [separates])
  exact ⟨_, .nextArgument (hargument _ hfits) separates hvalue⟩

end Viable

/-- Where an atom is expected, a one completes the text. -/
theorem viable_atom (room : Nat) : Viable (room + 1) .atom [] := by
  refine ⟨one, [], by simp, fun after => ?_⟩
  have hone : Numeral.read? one.kind one.text.toList = some (.ofNat 1, .integer) := rfl
  exact ⟨_, .number (by simp [one]) hone⟩

/-- What is settled inside a group can be completed by closing the group. -/
theorem Settled.viable_group {room : Nat} {read : List Token} {next opening : Token}
    {content : Expr} (h : Settled room .expression read next content)
    (opens : opening.kind = .leftParen) : Viable (room + 1) .atom (opening :: read) :=
  ⟨closing, [], by simp, fun after =>
    ⟨_, .group opens (h (closing :: after) (fits_of_ne Token.Kind.noConfusion)) rfl⟩⟩

/-- What is settled as an argument can be completed by closing the list. -/
theorem Settled.viable_arguments {room : Nat} {read : List Token} {next : Token}
    {argument : Expr} (h : Settled room .expression read next argument) :
    Viable room .arguments read :=
  ⟨closing, [], by simp, fun after =>
    ⟨_, .lastArgument (h (closing :: after) (fits_of_ne Token.Kind.noConfusion)) rfl⟩⟩

end Calculator.Grammar
