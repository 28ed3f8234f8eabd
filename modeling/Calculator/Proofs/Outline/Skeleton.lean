import Calculator.Proofs.Outline.Labels
import Mathlib.Data.List.Basic

/-!
The outline of an expression determines the expression, up to lines, numeric types and the kind of
`nan`. The lines of the text are read back as depths and labels. In a list of them, what follows a
subexpression is never deeper than it, so where its children end is known without their number, and
a minus sign with one child is a negation.
-/

namespace Calculator.Expr

def children : Expr → List Expr
  | .literal .. => []
  | .constant .. => []
  | .negation operand _ => [operand]
  | .binary _ lhs rhs _ => [lhs, rhs]
  | .call _ arguments _ => arguments

theorem sizeOf_lt_of_mem_children {e child : Expr} (h : child ∈ e.children) :
    sizeOf child < sizeOf e := by
  cases e with
  | literal => cases h
  | constant => cases h
  | negation operand line =>
      obtain rfl := List.mem_singleton.mp h
      simp
      omega
  | binary op lhs rhs line =>
      simp only [children, List.mem_cons, List.not_mem_nil, or_false] at h
      rcases h with rfl | rfl <;> simp <;> omega
  | call f arguments line =>
      have hlt := List.sizeOf_lt_of_mem (show child ∈ arguments from h)
      simp
      omega

/-- What holds of every node whose children it holds of holds of all expressions. -/
@[elab_as_elim]
theorem children_induction {motive : Expr → Prop}
    (node : ∀ e, (∀ child ∈ e.children, motive child) → motive e) (e : Expr) : motive e :=
  node e fun child _ => children_induction node child
termination_by sizeOf e
decreasing_by
  apply sizeOf_lt_of_mem_children
  assumption

mutual

/-- What an expression is apart from the lines and numeric types in it and the kind of `nan`. -/
def skeleton : Expr → Expr
  | .literal value _ _ => .literal value.quieted .integer 0
  | .constant c _ => .constant c 0
  | .negation operand _ => .negation operand.skeleton 0
  | .binary op lhs rhs _ => .binary op lhs.skeleton rhs.skeleton 0
  | .call f arguments _ => .call f (skeletonAll arguments) 0

def skeletonAll : List Expr → List Expr
  | [] => []
  | e :: rest => e.skeleton :: skeletonAll rest

end

theorem skeletonAll_eq_map (es : List Expr) : skeletonAll es = es.map skeleton := by
  induction es with
  | nil => simp [skeletonAll]
  | cons e rest ih => simp [skeletonAll, ih]

/-- The label and the skeletons of the children make up the skeleton: the number of children parts a
negation from a difference. -/
theorem skeleton_eq_skeleton {e f : Expr} (hlabel : e.label = f.label)
    (hchildren : e.children.map skeleton = f.children.map skeleton) : e.skeleton = f.skeleton := by
  rw [label_eq_label_iff] at hlabel
  -- of different constructors only a negation and a difference have one label
  cases e <;> cases f <;> simp_all [skeleton, skeletonAll_eq_map, shown, children]

theorem label_skeleton (e : Expr) : e.skeleton.label = e.label := by
  cases e with
  | literal value => exact value.text_quieted
  | _ => simp [skeleton, label]

theorem children_skeleton (e : Expr) : e.skeleton.children = e.children.map skeleton := by
  cases e <;> simp [skeleton, children, skeletonAll_eq_map]

/-- A node comes before what is below it, and its children come in order. -/
theorem outline_eq (depth : Nat) (e : Expr) :
    e.outline depth = (depth, e) :: e.children.flatMap (outline (depth + 1)) := by
  cases e <;> simp [outline, outlineAll_eq_flatMap, children]

def rows (depth : Nat) (e : Expr) : List (Nat × String) :=
  (e.outline depth).map fun row => (row.1, row.2.label)

theorem rows_eq (depth : Nat) (e : Expr) :
    e.rows depth = (depth, e.label) :: e.children.flatMap (rows (depth + 1)) := by
  rw [rows, outline_eq, List.map_cons, List.map_flatMap]
  rfl

/-- Nothing but the skeleton is in the rows. -/
theorem rows_skeleton (depth : Nat) (e : Expr) : e.skeleton.rows depth = e.rows depth := by
  induction e using children_induction generalizing depth with
  | node e ih =>
      rw [rows_eq, rows_eq, label_skeleton, children_skeleton, List.flatMap_map]
      rw [List.flatMap_congr fun child hchild => ih child hchild (depth + 1)]

/-- Rows that do not start below the given depth, as those behind an expression at that depth. -/
def Ends (depth : Nat) (rest : List (Nat × String)) : Prop :=
  ∀ row ∈ rest.head?, row.1 ≤ depth

theorem Ends.flatMap_rows {depth : Nat} {rest : List (Nat × String)} (h : Ends depth rest)
    (es : List Expr) : Ends (depth + 1) (es.flatMap (rows (depth + 1)) ++ rest) := by
  intro row hrow
  cases es with
  | nil => exact Nat.le_succ_of_le (h row hrow)
  | cons e es =>
      rw [List.flatMap_cons, rows_eq] at hrow
      cases hrow
      exact Nat.le_refl _

theorem Ends.ne_rows {depth : Nat} {rest : List (Nat × String)} (h : Ends depth rest) (e : Expr)
    (tail : List (Nat × String)) : rest ≠ e.rows (depth + 1) ++ tail := by
  rintro rfl
  have hle := h (depth + 1, e.label) (by simp [rows_eq])
  omega

/-- The rows of the expression tell its skeleton, and where it ends among other rows. -/
def SelfDelimiting (e : Expr) : Prop :=
  ∀ {f : Expr} {depth : Nat} {rest rest' : List (Nat × String)}, Ends depth rest →
    Ends depth rest' → e.rows depth ++ rest = f.rows depth ++ rest' →
      e.skeleton = f.skeleton ∧ rest = rest'

/-- Expressions at one depth are told one after another, up to the first row that is not so deep. -/
theorem skeletons_of_rows {depth : Nat} {es fs : List Expr} (hes : ∀ e ∈ es, e.SelfDelimiting)
    {rest rest' : List (Nat × String)} (hrest : Ends depth rest) (hrest' : Ends depth rest')
    (h : es.flatMap (rows (depth + 1)) ++ rest = fs.flatMap (rows (depth + 1)) ++ rest') :
    es.map skeleton = fs.map skeleton ∧ rest = rest' := by
  induction es generalizing fs with
  | nil =>
      cases fs with
      | nil => exact ⟨rfl, h⟩
      | cons f fs =>
          rw [List.flatMap_cons, List.append_assoc] at h
          exact absurd h (hrest.ne_rows f _)
  | cons e es ih =>
      cases fs with
      | nil =>
          rw [List.flatMap_cons, List.append_assoc] at h
          exact absurd h.symm (hrest'.ne_rows e _)
      | cons f fs =>
          rw [List.flatMap_cons, List.flatMap_cons, List.append_assoc, List.append_assoc] at h
          obtain ⟨hfirst, hothers⟩ :=
            hes e List.mem_cons_self (hrest.flatMap_rows es) (hrest'.flatMap_rows fs) h
          obtain ⟨hmap, hends⟩ := ih (fun d hd => hes d (List.mem_cons_of_mem e hd)) hothers
          exact ⟨by rw [List.map_cons, List.map_cons, hfirst, hmap], hends⟩

theorem selfDelimiting (e : Expr) : e.SelfDelimiting := by
  induction e using children_induction with
  | node e ih =>
      intro f depth rest rest' hrest hrest' h
      rw [rows_eq, rows_eq, List.cons_append, List.cons_append, List.cons.injEq, Prod.mk.injEq] at h
      obtain ⟨⟨_, hlabel⟩, hbelow⟩ := h
      obtain ⟨hchildren, hends⟩ := skeletons_of_rows ih hrest hrest' hbelow
      exact ⟨skeleton_eq_skeleton hlabel hchildren, hends⟩

def rowText (row : Nat × String) : List Char :=
  (List.replicate row.1 ['|', ' ']).flatten ++ row.2.toList

/-- The depth and the label that a line shows. Labels hold no blanks, so there is one for each bar,
and the label that is a bar itself is not taken for one of them. -/
def readRow (line : List Char) : Nat × String :=
  (line.count ' ', String.ofList (line.drop (2 * line.count ' ')))

theorem readRow_rowText {row : Nat × String} (h : ' ' ∉ row.2.toList) :
    readRow (rowText row) = row := by
  obtain ⟨depth, label⟩ := row
  have hbars : (List.replicate depth ['|', ' ']).flatten.length = 2 * depth := by
    simp [Nat.mul_comm]
  have hcount : (rowText (depth, label)).count ' ' = depth := by
    simp [rowText, List.count_eq_zero.mpr h, List.count_flatten]
  rw [readRow, hcount, rowText, List.drop_left' hbars, String.ofList_toList]

theorem toList_outlineLine (depth : Nat) (e : Expr) :
    (outlineLine depth e).toList = rowText (depth, e.label) ++ ['\n'] := by
  simp [outlineLine, rowText, List.flatMap_replicate]

theorem lt_toNat_of_mem_rows {e : Expr} {depth : Nat} {row : Nat × String}
    (h : row ∈ e.rows depth) : ∀ c ∈ row.2.toList, 32 < c.toNat := by
  obtain ⟨⟨_, node⟩, _, rfl⟩ := List.mem_map.mp h
  rw [← node.text_shown]
  exact fun c hc => of_decide_eq_true (List.all_eq_true.mp node.shown.all_text c hc)

theorem newline_not_mem_rowText {row : Nat × String} (h : '\n' ∉ row.2.toList) :
    '\n' ∉ rowText row := by
  simp [rowText, h]

theorem splitOn_flatMap_rowText {list : List (Nat × String)}
    (h : ∀ row ∈ list, '\n' ∉ row.2.toList) :
    (list.flatMap fun row => rowText row ++ ['\n']).splitOn '\n' = list.map rowText ++ [[]] := by
  induction list with
  | nil => rfl
  | cons row list ih =>
      have hrow := newline_not_mem_rowText (h row List.mem_cons_self)
      rw [List.flatMap_cons, List.append_assoc, List.singleton_append,
        List.splitOn_append_cons_self_of_not_mem hrow,
        ih fun other hother => h other (List.mem_cons_of_mem row hother)]
      rfl

theorem toList_outlineText (e : Expr) :
    e.outlineText.toList = (e.rows 0).flatMap fun row => rowText row ++ ['\n'] := by
  simp only [outlineText, rows, String.toList_join, List.flatMap_map, toList_outlineLine]

/-- The text of the outline has one line for each row. -/
theorem splitOn_outlineText (e : Expr) :
    e.outlineText.toList.splitOn '\n' = (e.rows 0).map rowText ++ [[]] := by
  rw [toList_outlineText]
  refine splitOn_flatMap_rowText fun row hrow hmem => ?_
  exact absurd (lt_toNat_of_mem_rows hrow _ hmem) (by decide)

/-- The lines of the text can be read back. -/
theorem map_readRow_rowText (e : Expr) : ((e.rows 0).map rowText).map readRow = e.rows 0 := by
  rw [List.map_map]
  refine (List.map_congr_left fun row hrow => ?_).trans (List.map_id _)
  refine readRow_rowText fun hmem => ?_
  exact absurd (lt_toNat_of_mem_rows hrow _ hmem) (by decide)

/-- The text of the outline has one line for each node, each node before what is below it, and two
expressions have the same text exactly if they are the same apart from lines, numeric types and the
kind of any `nan`. -/
theorem outlineText_eq_outlineText_iff (e f : Expr) :
    (e.outlineText = f.outlineText ↔ e.skeleton = f.skeleton) ∧
      e.outlineText.toList.splitOn '\n' = (e.rows 0).map rowText ++ [[]] ∧
      ∀ depth (node : Expr), node.rows depth =
        (depth, node.label) :: node.children.flatMap (rows (depth + 1)) := by
  refine ⟨⟨fun h => ?_, fun h => ?_⟩, e.splitOn_outlineText, rows_eq⟩
  · have hlines := e.splitOn_outlineText
    rw [h, f.splitOn_outlineText] at hlines
    have hrows := congrArg (List.map readRow) (List.append_cancel_right hlines)
    rw [map_readRow_rowText, map_readRow_rowText] at hrows
    have hends : Ends 0 [] := nofun
    exact (e.selfDelimiting hends hends (congrArg (· ++ []) hrows.symm)).1
  · apply String.toList_injective
    rw [toList_outlineText, toList_outlineText, ← rows_skeleton, h, rows_skeleton]

end Calculator.Expr
