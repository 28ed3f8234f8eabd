import Calculator.Proofs.Scanning.Tokenization

/-!
What is handed out of a supply, one item after another. The calls of a scanner, in whichever of the
two ways it is asked, go through the list of its items once and in order, and what is left behind
them is the rest of that list.
-/

namespace Calculator

/-- A token before the end of input. Nothing is asked for behind any other item. -/
def Item.Passable (item : Item) : Prop :=
  ∃ t : Token, item = .ok t ∧ t.kind ≠ .endOfInput

theorem Item.exists_tokens_of_passable {items : List Item} (h : ∀ item ∈ items, item.Passable) :
    ∃ tokens : List Token, items = tokens.map .ok := by
  induction items with
  | nil => exact ⟨[], rfl⟩
  | cons item rest ih =>
      obtain ⟨t, hitem, _⟩ := h item List.mem_cons_self
      obtain ⟨tokens, hrest⟩ := ih fun item hitem => h item (List.mem_cons_of_mem _ hitem)
      exact ⟨t :: tokens, by rw [hitem, hrest, List.map_cons]⟩

/-- Asked for one item after another, a supply hands out the items and becomes the other supply. -/
inductive Supplies {σ : Type} [TokenSource σ] (s : σ) : List Item → σ → Prop where
  | start : Supplies s [] s
  | next {items : List Item} {s' : σ} (h : Supplies s items s') :
      Supplies s (items ++ [(TokenSource.next s').1]) (TokenSource.next s').2

namespace ItemList

def behind (l : ItemList) (n : Nat) : ItemList :=
  ⟨l.items.drop n, l.finish⟩

theorem next_snd (l : ItemList) : l.next.2 = l.behind 1 := by
  obtain ⟨items, finish⟩ := l
  cases items <;> rfl

theorem next_fst_prefix (l : ItemList) : [l.next.1] <+: l.toList := by
  obtain ⟨items, finish⟩ := l
  cases items with
  | nil => exact List.prefix_refl _
  | cons item rest => exact ⟨_, rfl⟩

end ItemList

namespace Scanner

/-- A way to ask a scanner: for its next item, or for its next item before the end of input. -/
inductive Ask where
  | next
  | next?

def ask (s : Scanner) : Ask → Option Item × Scanner
  | .next => (some s.next.1, s.next.2)
  | .next? => s.next?

def askAll (s : Scanner) : List Ask → List (Option Item) × Scanner
  | [] => ([], s)
  | call :: others =>
      let answered := (s.ask call).2.askAll others
      ((s.ask call).1 :: answered.1, answered.2)

/-- The answer that a call gives where so many calls of either kind came before it. Behind the last
item it is the end of input, or there is none. -/
def Ask.answer (l : ItemList) (earlier : Nat) : Ask → Option Item
  | .next => some (l.items[earlier]?.getD (.ok (.endOfInput l.finish)))
  | .next? => l.items[earlier]?

theorem Ask.answer_behind (l : ItemList) (n earlier : Nat) (call : Ask) :
    call.answer (l.behind n) earlier = call.answer l (n + earlier) := by
  cases call <;> simp [answer, ItemList.behind]

/-- Both ways to ask go one item on. -/
theorem ask_snd (s : Scanner) (call : Ask) : (s.ask call).2 = s.next.2 := by
  cases call <;> rfl

theorem itemList_next_snd (s : Scanner) : s.next.2.itemList = s.itemList.behind 1 := by
  rw [← s.itemList.next_snd, next_itemList]

theorem ask_fst (s : Scanner) (call : Ask) : (s.ask call).1 = call.answer s.itemList 0 := by
  cases hnext : s.next with
  | mk item behind =>
      cases hend : item.isEnd with
      | false =>
          rw [itemList_of_next_item hnext hend]
          cases call <;> simp [ask, next?, Ask.answer, ItemList.cons, hnext, hend]
      | true =>
          cases item with
          | error found => cases hend
          | ok t =>
              have hkind : t.kind = .endOfInput := by simpa [Item.isEnd] using hend
              have htext := (next_of_kind_endOfInput hnext hkind).1
              rw [itemList_of_next_end hnext hkind]
              cases call <;> simp [ask, next?, Ask.answer, hnext, hend, ← htext]

/-- The calls answer with the items in their order, and the rest of the items is left. -/
theorem askAll_eq (s : Scanner) (calls : List Ask) :
    (s.askAll calls).1 = calls.mapIdx (fun earlier call => call.answer s.itemList earlier) ∧
      (s.askAll calls).2.itemList = s.itemList.behind calls.length := by
  induction calls generalizing s with
  | nil => exact ⟨rfl, rfl⟩
  | cons call others ih =>
      obtain ⟨hanswers, hleft⟩ := ih (s.ask call).2
      rw [ask_snd, itemList_next_snd] at hanswers hleft
      constructor
      · rw [List.mapIdx_cons, askAll, ask_fst, ask_snd, hanswers]
        simp [Ask.answer_behind, Nat.add_comm]
      · rw [askAll, ask_snd, hleft]
        simp [ItemList.behind]

section Supplied

variable {s s' : Scanner} {items : List Item}

/-- Items that do not end the supply are the first ones of the list. -/
theorem items_of_supplies (h : Supplies s items s') (hpass : ∀ item ∈ items, item.Passable) :
    s.itemList = ⟨items ++ s'.itemList.items, s'.itemList.finish⟩ := by
  induction h with
  | start => rfl
  | @next items s' h ih =>
      rw [ih fun item hitem => hpass item (List.mem_append_left _ hitem)]
      obtain ⟨t, hitem, hkind⟩ := hpass (TokenSource.next s').1 (by simp)
      have hend : (TokenSource.next s').1.isEnd = false := by simpa [hitem, Item.isEnd] using hkind
      rw [itemList_of_next_item rfl hend, List.append_assoc]
      rfl

/-- Items of which only the last may end the supply are the first ones up to the end of input. -/
theorem prefix_of_supplies (h : Supplies s items s')
    (hpass : ∀ item ∈ items.dropLast, item.Passable) : items <+: s.itemList.toList := by
  cases h with
  | start => exact List.nil_prefix
  | @next items s' h =>
      rw [List.dropLast_concat] at hpass
      rw [items_of_supplies h hpass, ItemList.toList, List.append_assoc]
      apply (List.prefix_append_right_inj items).mpr
      have hfirst := s'.itemList.next_fst_prefix
      rw [next_itemList] at hfirst
      exact hfirst

/-- Where the end of input was handed out, the tokens before it are all the items. -/
theorem items_of_supplies_end {t : Token} (h : Supplies s items s')
    (hpass : ∀ item ∈ items.dropLast, item.Passable) (hlast : items.getLast? = some (.ok t))
    (hend : t.kind = .endOfInput) : s.itemList.items = items.dropLast := by
  cases h with
  | start => simp at hlast
  | @next items s' h =>
      rw [List.dropLast_concat] at hpass ⊢
      rw [List.getLast?_concat] at hlast
      have hnext : s'.next = (.ok t, s'.next.2) := Prod.ext (Option.some.inj hlast) rfl
      rw [items_of_supplies h hpass, itemList_of_next_end hnext hend, List.append_nil]

/-- Where an unknown character was handed out, it is the first item that is no token. -/
theorem items_of_supplies_error {found : UnknownCharacter} (h : Supplies s items s')
    (hpass : ∀ item ∈ items.dropLast, item.Passable)
    (hlast : items.getLast? = some (.error found)) :
    ∃ more, s.itemList.items = items.dropLast ++ .error found :: more := by
  cases h with
  | start => simp at hlast
  | @next items s' h =>
      rw [List.dropLast_concat] at hpass ⊢
      rw [List.getLast?_concat] at hlast
      have hnext : s'.next = (.error found, s'.next.2) := Prod.ext (Option.some.inj hlast) rfl
      refine ⟨s'.next.2.itemList.items, ?_⟩
      rw [items_of_supplies h hpass, itemList_of_next_item hnext rfl]
      rfl

end Supplied

end Scanner

end Calculator
