import Calculator.Proofs.Lines.Origin
import Calculator.Proofs.Positions.Standing

/-!
The lines of the nodes of an expression. In the order of reading they never decrease, and what is
wrong with an expression is reported on the line of the operator or the function that is wrong.
-/

namespace Calculator

/-- The token writes the operator or the function that the error is about. -/
def Token.Offends (t : Token) : AnalysisError → Prop
  | .illegalOperands op _ => Operator.ofKind? t.kind = some op
  | .arityMismatch f _ _ => t.kind = .identifier ∧ NamedFunction.ofName? t.text = some f

def Token.LineByLine (tokens : List Token) : Prop :=
  tokens.Pairwise fun t u => t.line ≤ u.line

namespace Expr

/-- The nodes stand on lines of the tokens, and none of them above the one before it. -/
def OnLinesOf (nodes : List Expr) (tokens : List Token) : Prop :=
  (nodes.Pairwise fun node other => node.line ≤ other.line) ∧
    ∀ node ∈ nodes, ∃ t ∈ tokens, t.line = node.line

namespace OnLinesOf

variable {nodes others : List Expr} {tokens tokens' : List Token}

theorem nil (tokens : List Token) : OnLinesOf [] tokens :=
  ⟨List.Pairwise.nil, by simp⟩

theorem mono (h : OnLinesOf nodes tokens) (hsub : tokens ⊆ tokens') : OnLinesOf nodes tokens' := by
  refine ⟨h.1, fun node hnode => ?_⟩
  obtain ⟨t, ht, hline⟩ := h.2 node hnode
  exact ⟨t, hsub ht, hline⟩

/-- A node in front that stands on the line of the first token. -/
theorem cons {node : Expr} {t : Token} (own : t.line = node.line)
    (hlines : Token.LineByLine (t :: tokens)) (h : OnLinesOf nodes (t :: tokens)) :
    OnLinesOf (node :: nodes) (t :: tokens) := by
  have hfirst : ∀ u ∈ t :: tokens, t.line ≤ u.line := by
    intro u hu
    rcases List.mem_cons.mp hu with rfl | hu
    · exact Nat.le_refl _
    · exact List.rel_of_pairwise_cons hlines hu
  refine ⟨List.pairwise_cons.mpr ⟨fun other hother => ?_, h.1⟩, fun other hother => ?_⟩
  · obtain ⟨u, hu, hline⟩ := h.2 other hother
    calc
      node.line = t.line := own.symm
      _ ≤ u.line := hfirst u hu
      _ = other.line := hline
  · rcases List.mem_cons.mp hother with rfl | hother
    · exact ⟨t, List.mem_cons_self, own⟩
    · exact h.2 other hother

theorem append (hlines : Token.LineByLine (tokens ++ tokens')) (h : OnLinesOf nodes tokens)
    (h' : OnLinesOf others tokens') : OnLinesOf (nodes ++ others) (tokens ++ tokens') := by
  obtain ⟨_, _, hacross⟩ := List.pairwise_append.mp hlines
  refine ⟨List.pairwise_append.mpr ⟨h.1, h'.1, fun node hnode other hother => ?_⟩,
    fun node hnode => ?_⟩
  · obtain ⟨t, ht, hline⟩ := h.2 node hnode
    obtain ⟨u, hu, hline'⟩ := h'.2 other hother
    rw [← hline, ← hline']
    exact hacross t ht u hu
  · rcases List.mem_append.mp hnode with hnode | hnode
    · exact (h.mono (List.subset_append_left _ _)).2 node hnode
    · exact (h'.mono (List.subset_append_right _ _)).2 node hnode

end OnLinesOf

mutual

/-- In the order of reading, the nodes follow the lines of the tokens. -/
theorem ReadFrom.onLinesOf {e : Expr} {tokens : List Token} (h : e.ReadFrom tokens)
    (hlines : Token.LineByLine tokens) : OnLinesOf e.inOrder tokens := by
  match h with
  | .literal t _ => exact (OnLinesOf.nil _).cons rfl hlines
  | .constant name _ _ => exact (OnLinesOf.nil _).cons rfl hlines
  | .negation sign _ inner =>
      have hinner := inner.onLinesOf (List.Pairwise.of_cons hlines)
      exact (hinner.mono (List.subset_cons_self _ _)).cons rfl hlines
  | .operator sign _ first second =>
      obtain ⟨hleft, hright, _⟩ := List.pairwise_append.mp hlines
      have hsecond := second.onLinesOf (List.Pairwise.of_cons hright)
      refine (first.onLinesOf hleft).append hlines ?_
      exact (hsecond.mono (List.subset_cons_self _ _)).cons rfl hright
  | .adjacency start _ first second =>
      obtain ⟨hleft, hright, _⟩ := List.pairwise_append.mp hlines
      refine (first.onLinesOf hleft).append hlines ?_
      exact (second.onLinesOf hright).cons rfl hright
  | .call name opening _ _ _ list =>
      have hlist := list.onLinesOf (List.Pairwise.of_cons (List.Pairwise.of_cons hlines))
      refine OnLinesOf.cons rfl hlines (hlist.mono ?_)
      exact List.Subset.trans (List.subset_cons_self _ _) (List.subset_cons_self _ _)
  | .group opening closing _ _ content =>
      obtain ⟨hcontent, _, _⟩ := List.pairwise_append.mp (List.Pairwise.of_cons hlines)
      refine (content.onLinesOf hcontent).mono ?_
      exact List.Subset.trans (List.subset_append_left _ _) (List.subset_cons_self _ _)

theorem AllReadFrom.onLinesOf {es : List Expr} {tokens : List Token} (h : AllReadFrom es tokens)
    (hlines : Token.LineByLine tokens) : OnLinesOf (inOrderAll es) tokens := by
  match h with
  | .none closing _ => exact OnLinesOf.nil _
  | .last closing _ argument =>
      rw [inOrderAll, inOrderAll, List.append_nil]
      obtain ⟨hargument, _, _⟩ := List.pairwise_append.mp hlines
      exact (argument.onLinesOf hargument).mono (List.subset_append_left _ _)
  | .next comma _ argument list =>
      obtain ⟨hargument, hrest, _⟩ := List.pairwise_append.mp hlines
      have hlist := list.onLinesOf (List.Pairwise.of_cons hrest)
      exact (argument.onLinesOf hargument).append hlines (hlist.mono (List.subset_cons_self _ _))

end

/-- What is wrong with a node is reported on its line, and the token that writes the node writes
what is wrong. -/
theorem offends_of_ownViolation? {node : Expr} {problem : AnalysisError} {t : Token}
    (h : node.ownViolation? = some problem) (hwrites : t.Writes node) :
    problem.line = node.line ∧ t.Offends problem := by
  cases node with
  | literal _ _ _ | constant _ _ | negation _ _ => cases h
  | binary op lhs rhs line =>
      obtain ⟨⟨hop, _⟩, hproblem⟩ := Option.ite_none_right_eq_some.mp h
      cases hproblem
      refine ⟨rfl, ?_⟩
      rcases hwrites with hwritten | ⟨rfl, _⟩
      · exact hwritten
      · rcases hop with hop | hop <;> cases hop
  | call f arguments line =>
      obtain ⟨_, hproblem⟩ := Option.ite_none_left_eq_some.mp h
      cases hproblem
      exact ⟨rfl, hwrites⟩

theorem exists_own_of_mem_inOrder {e node : Expr} {tokens : List Token} (h : e.ReadFrom tokens)
    (hnode : node ∈ e.inOrder) :
    ∃ part, part <:+: tokens ∧ node.ReadFrom part ∧ ∃ t ∈ part, t.line = node.line ∧
      t.Writes node := by
  obtain ⟨part, hpart, hread⟩ := h.exists_part hnode
  exact ⟨part, hpart, hread, hread.exists_own⟩

/-- An error of the analysis is about a node, and is reported on the line of the token that writes
the operator or the function. -/
theorem exists_offender {e : Expr} {tokens : List Token} {problem : AnalysisError}
    (h : e.ReadFrom tokens) (hproblem : e.analyze = .error problem) :
    ∃ node ∈ e.inOrder, node.ownViolation? = some problem ∧
      ∃ t ∈ tokens, t.Writes node ∧ t.Offends problem ∧ t.line = problem.line := by
  have hmem : problem ∈ e.violations := by
    rw [analyze_eq_unlessViolated] at hproblem
    cases hviolations : e.violations with
    | nil =>
        rw [hviolations] at hproblem
        cases hproblem
    | cons first rest =>
        rw [hviolations] at hproblem
        cases hproblem
        exact List.mem_cons_self
  obtain ⟨node, hoccurs, hown⟩ := e.mem_violations_iff.mp hmem
  have hnode := (mem_inOrder_iff e).mpr hoccurs
  obtain ⟨part, hpart, _, t, ht, hline, hwrites⟩ := exists_own_of_mem_inOrder h hnode
  obtain ⟨hproblem, hoffends⟩ := offends_of_ownViolation? hown hwrites
  exact ⟨node, hnode, hown, t, hpart.subset ht, hwrites, hoffends, hline.trans hproblem.symm⟩

/-- What is parsed is read from the tokens of its source, which stand in it line by line. -/
theorem exists_readFrom {source : String} {e : Expr} (h : parse source = .ok e) :
    ∃ tokens, (Scanner.ofString source).itemList.items = tokens.map .ok ∧ e.ReadFrom tokens ∧
      Token.LineByLine tokens ∧
      ∀ t ∈ tokens, OnLine t.text.toList t.line source.toList := by
  obtain ⟨tokens, hitems, d, _, rfl⟩ := Grammar.derivation_of_whole h
  obtain ⟨read, hread, hfrom⟩ := d.readFrom
  rw [List.append_nil] at hread
  subst hread
  refine ⟨tokens, hitems, hfrom, ?_, fun t ht => ?_⟩
  · have hlines := Scanner.pairwise_line source
    rw [hitems, List.pairwise_map] at hlines
    exact hlines
  · have hitem : Except.ok t ∈ (Scanner.ofString source).itemList.toList := by
      rw [ItemList.toList, hitems]
      exact List.mem_append_left _ (List.mem_map_of_mem ht)
    exact (Scanner.standsIn_of_mem hitem).onLine

/-- The lines of an expression follow its source. It is read from the tokens of the source, which
stand there on their lines. In the order of reading the lines of its nodes never decrease, and all
of them are lines of the source. The line of a node is that of its own token among those that it is
read from, and an error of the analysis is reported on the line of the operator or the function that
is wrong. -/
theorem lines_follow_source {source : String} {e : Expr} (h : parse source = .ok e) :
    ∃ tokens, (Scanner.ofString source).itemList.items = tokens.map .ok ∧
      (∀ t ∈ tokens, OnLine t.text.toList t.line source.toList) ∧
      e.ReadFrom tokens ∧
      (e.inOrder.map line).Pairwise (· ≤ ·) ∧
      (∀ node ∈ e.inOrder, 1 ≤ node.line ∧ node.line ≤ 1 + source.toList.count '\n') ∧
      (∀ node ∈ e.inOrder, ∃ part, part <:+: tokens ∧ node.ReadFrom part ∧
        ∃ t ∈ part, t.line = node.line ∧ t.Writes node) ∧
      ∀ problem, e.analyze = .error problem → ∃ node ∈ e.inOrder,
        node.ownViolation? = some problem ∧
          ∃ t ∈ tokens, t.Writes node ∧ t.Offends problem ∧ t.line = problem.line := by
  obtain ⟨tokens, hitems, hread, hlines, hstanding⟩ := exists_readFrom h
  obtain ⟨hpairwise, hown⟩ := hread.onLinesOf hlines
  refine ⟨tokens, hitems, hstanding, hread, List.pairwise_map.mpr hpairwise, ?_, ?_, ?_⟩
  · intro node hnode
    obtain ⟨t, ht, hline⟩ := hown node hnode
    rw [← hline]
    exact (hstanding t ht).line_bounds
  · intro node hnode
    exact exists_own_of_mem_inOrder hread hnode
  · intro problem hproblem
    exact exists_offender hread hproblem

/-- An expression of four lines whose bitwise operator is wrong on the last one. -/
theorem lines_follow_source_of_four_lines :
    ∃ e, parse "2\n(pi)\n- sqrt(\n3.5 & 1)" = .ok e ∧
      e.inOrder.map line = [1, 2, 2, 3, 3, 4, 4, 4] ∧
      e.analyze = .error (.illegalOperands .bitAnd 4) ∧
      ∃ tokens, (Scanner.ofString "2\n(pi)\n- sqrt(\n3.5 & 1)").itemList.items = tokens.map .ok ∧
        (∀ t ∈ tokens, OnLine t.text.toList t.line "2\n(pi)\n- sqrt(\n3.5 & 1)".toList) ∧
        e.ReadFrom tokens ∧
        (e.inOrder.map line).Pairwise (· ≤ ·) ∧
        (∀ node ∈ e.inOrder, 1 ≤ node.line ∧
          node.line ≤ 1 + "2\n(pi)\n- sqrt(\n3.5 & 1)".toList.count '\n') ∧
        (∀ node ∈ e.inOrder, ∃ part, part <:+: tokens ∧ node.ReadFrom part ∧
          ∃ t ∈ part, t.line = node.line ∧ t.Writes node) ∧
        ∀ problem, e.analyze = .error problem → ∃ node ∈ e.inOrder,
          node.ownViolation? = some problem ∧
            ∃ t ∈ tokens, t.Writes node ∧ t.Offends problem ∧ t.line = problem.line := by
  have hnodes : (parse "2\n(pi)\n- sqrt(\n3.5 & 1)").toOption.map
      (fun e => (e.inOrder.map line, e.analyze)) =
        some ([1, 2, 2, 3, 3, 4, 4, 4], .error (.illegalOperands .bitAnd 4)) := by
    decide +kernel
  cases hparse : parse "2\n(pi)\n- sqrt(\n3.5 & 1)" with
  | error found =>
      rw [hparse] at hnodes
      cases hnodes
  | ok e =>
      rw [hparse] at hnodes
      obtain ⟨hlines, hanalysis⟩ := Prod.mk.inj (Option.some.inj hnodes)
      exact ⟨e, rfl, hlines, hanalysis, lines_follow_source hparse⟩

end Expr

end Calculator
