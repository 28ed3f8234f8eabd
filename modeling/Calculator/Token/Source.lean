import Calculator.Token.Basic

/-!
Supplies of tokens. A reader of tokens needs no more of its supply than to be handed the next item
and to know that the supply does not go on for ever; whether the items are cut from a text when they
are asked for or are all at hand is left open.
-/

namespace Calculator

/-- One item of a supply: a token, or a character that starts none. -/
abbrev Item := Except UnknownCharacter Token

def Item.isEnd : Item → Bool
  | .ok t => t.kind == .endOfInput
  | .error _ => false

/-- A supply of items that comes to an end: every item before the end of input leaves less behind
than there was before it. -/
class TokenSource (σ : Type) where
  /-- The next item and the supply behind it. -/
  next : σ → Item × σ
  /-- A bound on the number of items still to come. -/
  remaining : σ → Nat
  remaining_next : ∀ s : σ, (next s).1.isEnd = false → remaining (next s).2 < remaining s

/-- Items at hand, none of them the end of input, and the place of the end behind them. -/
structure ItemList where
  items : List Item
  finish : Position

namespace ItemList

def cons (item : Item) (l : ItemList) : ItemList :=
  ⟨item :: l.items, l.finish⟩

def toList (l : ItemList) : List Item :=
  l.items ++ [.ok (.endOfInput l.finish)]

/-- The first item and the list behind it. Behind the last item there is nothing but the end of
input, however often it is asked for. -/
def next (l : ItemList) : Item × ItemList :=
  match l.items with
  | [] => (.ok (.endOfInput l.finish), l)
  | item :: rest => (item, ⟨rest, l.finish⟩)

instance : TokenSource ItemList where
  next := next
  remaining l := l.items.length
  remaining_next l h := by
    obtain ⟨items, finish⟩ := l
    cases items with
    | nil => simp [next, Item.isEnd, Token.endOfInput] at h
    | cons item rest => exact Nat.lt_succ_self rest.length

end ItemList

end Calculator
