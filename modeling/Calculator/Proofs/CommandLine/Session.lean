import Calculator.CommandLine.Prompt
import Calculator.Proofs.Diagnostics.Message

/-!
The session at the prompt. Each line in front of the one that ends the session is answered on its
own, and the lines behind that one are not read.
-/

namespace Calculator.Prompt

/-- The lines that are answered: those in front of the first one that ends the session. -/
def served (typed : List String) : List String :=
  typed.takeWhile fun line => !isFarewell (trimmed line)

/-- The line that ends the session, if there is one, and the lines behind it. -/
def unserved (typed : List String) : List String :=
  typed.dropWhile fun line => !isFarewell (trimmed line)

def shown (line : String) : String :=
  if trimmed line = "" then ""
  else
    match calculate (trimmed line) with
    | .ok value => value.text ++ "\n"
    | .error _ => ""

def problem? (line : String) : Option Diagnostic :=
  if trimmed line = "" then none
  else
    match calculate (trimmed line) with
    | .ok _ => none
    | .error problem => some problem

def report (problem : Diagnostic) : String :=
  problem.message ++ "\n"

def conversation : List String → Outcome × List String
  | [] => (.success (sign ++ "\n"), [])
  | line :: rest =>
      let later := conversation rest
      match answer line with
      | .farewell => (.success sign, rest)
      | .nothing => (later.1.after sign, later.2)
      | .value value => (later.1.after (sign ++ value.text ++ "\n"), later.2)
      | .problem problem => ((later.1.after sign).reporting problem.message, later.2)

theorem conversation_fst (typed : List String) : (conversation typed).1 = session typed := by
  induction typed with
  | nil => rfl
  | cons line rest ih =>
      rw [conversation, session, ← ih]
      cases answer line <;> rfl

theorem answer_of_isFarewell {line : String} (h : isFarewell (trimmed line)) :
    answer line = .farewell := by
  unfold answer
  have hne : trimmed line ≠ "" := by
    intro hempty
    rw [hempty] at h
    cases h
  simp [hne, h]

/-- A line that does not end the session puts its value or its problem in front of what the lines
behind it do. -/
theorem conversation_of_not_isFarewell {line : String} (h : ¬isFarewell (trimmed line))
    (rest : List String) :
    conversation (line :: rest) =
      (⟨(session rest).code, sign ++ shown line ++ (session rest).output,
        String.join ((problem? line).toList.map report) ++ (session rest).errors⟩,
        (conversation rest).2) := by
  rw [conversation, conversation_fst]
  unfold answer shown problem?
  by_cases hempty : trimmed line = ""
  · simp [hempty, Outcome.after]
  · cases hvalue : calculate (trimmed line) with
    | ok value => simp [hempty, h, hvalue, Outcome.after, String.append_assoc]
    | error problem => simp [hempty, h, hvalue, Outcome.after, Outcome.reporting, report]

/-- The session in one piece, by induction on what is typed. -/
theorem conversation_eq (typed : List String) :
    conversation typed =
      (⟨0, String.join ((served typed).map fun line => sign ++ shown line) ++ sign ++
          (if unserved typed = [] then "\n" else ""),
        String.join (((served typed).filterMap problem?).map report)⟩,
        (unserved typed).tail) := by
  induction typed with
  | nil => rfl
  | cons line rest ih =>
      by_cases h : isFarewell (trimmed line)
      · have hserved : served (line :: rest) = [] := by simp [served, h]
        have hunserved : unserved (line :: rest) = line :: rest := by simp [unserved, h]
        rw [conversation, answer_of_isFarewell h, hserved, hunserved]
        rfl
      · have hserved : served (line :: rest) = line :: served rest := by simp [served, h]
        have hunserved : unserved (line :: rest) = unserved rest := by simp [unserved, h]
        have hrest := conversation_fst rest
        rw [ih] at hrest
        rw [conversation_of_not_isFarewell h, ← hrest, ih, hserved, hunserved]
        have hreports : String.join (((line :: served rest).filterMap problem?).map report) =
            String.join ((problem? line).toList.map report) ++
              String.join (((served rest).filterMap problem?).map report) := by
          cases hproblem : problem? line <;> simp [hproblem]
        rw [hreports, List.map_cons, String.join_cons]
        simp only [String.append_assoc]

/-- Without the white space around it, a line holds nothing that it did not hold before. -/
theorem trimmed_subset (line : String) : (trimmed line).toList ⊆ line.toList := by
  intro c hmem
  rw [trimmed, String.toList_ofList, Unicode.trim, List.mem_reverse] at hmem
  have hstart := List.mem_reverse.mp ((List.dropWhile_sublist _).subset hmem)
  exact (List.dropWhile_sublist _).subset hstart

theorem calculate_of_problem? {line : String} {problem : Diagnostic}
    (h : problem? line = some problem) : calculate (trimmed line) = .error problem := by
  obtain ⟨_, h⟩ := Option.ite_none_left_eq_some.mp h
  cases hcalculate : calculate (trimmed line) with
  | ok value =>
      rw [hcalculate] at h
      cases h
  | error problem' =>
      rw [hcalculate] at h
      cases h
      rfl

/-- What is wrong with a line is reported as wrong with the first line of a text. -/
theorem line_of_problem? {line : String} {problem : Diagnostic} (h : '\n' ∉ line.toList)
    (hproblem : problem? line = some problem) : problem.line = 1 := by
  obtain ⟨words, honline, _⟩ := Diagnostic.exists_onLine (calculate_of_problem? hproblem)
  have hcount : (trimmed line).toList.count '\n' = 0 :=
    List.count_eq_zero.mpr fun hmem => h (trimmed_subset line hmem)
  have hbounds := honline.line_bounds
  rw [hcount] at hbounds
  exact Nat.le_antisymm hbounds.2 hbounds.1

/-- The prompt answers each line on its own. A session shows, for every line in front of the one that
ends it, the sign and the value of the line if it has one, then the sign once more, and a newline if
it is the end of input that ends it. It reports, in order, what is wrong with those of these lines
that are not blank, each time with the line 1 and in one line. It always succeeds, and the lines
behind the one that ends it are left unread. -/
theorem session_answers_each_line_on_its_own (typed : List String)
    (h : ∀ line ∈ typed, '\n' ∉ line.toList) :
    (session typed).output =
      String.join ((served typed).map fun line => sign ++ shown line) ++ sign ++
        (if unserved typed = [] then "\n" else "") ∧
    (session typed).errors = String.join (((served typed).filterMap problem?).map report) ∧
    (session typed).code = 0 ∧
    (∀ line ∈ served typed, ∀ problem, problem? line = some problem →
      problem.line = 1 ∧ problem.message = "Error on line 1: " ++ problem.description ∧
        '\n' ∉ problem.message.toList) ∧
    conversation typed = (session typed, (unserved typed).tail) := by
  have hsession := conversation_fst typed
  have hconversation := conversation_eq typed
  rw [hconversation] at hsession
  refine ⟨?_, ?_, ?_, ?_, ?_⟩
  · rw [← hsession]
  · rw [← hsession]
  · rw [← hsession]
  · intro line hline problem hproblem
    have hmem : line ∈ typed := (List.takeWhile_sublist _).subset hline
    have hone := line_of_problem? (h line hmem) hproblem
    refine ⟨hone, ?_, Diagnostic.oneLine_message (calculate_of_problem? hproblem)⟩
    rw [problem.message_eq, hone]
    rfl
  · rw [hconversation, ← hsession]

/-- A blank line, a sum, a line in error, and a line that nobody reads behind the end. -/
theorem session_answers_each_line_on_its_own_of_five_lines :
    served ["  ", " 1 + 1 ", "2 $", " quit ", "3"] = ["  ", " 1 + 1 ", "2 $"] ∧
      session ["  ", " 1 + 1 ", "2 $", " quit ", "3"] =
        ⟨0, "> > 2\n> > ", "Error on line 1: Unknown character '$' at column 3.\n"⟩ ∧
      (session ["  ", " 1 + 1 ", "2 $", " quit ", "3"]).code = 0 ∧
      conversation ["  ", " 1 + 1 ", "2 $", " quit ", "3"] =
        (session ["  ", " 1 + 1 ", "2 $", " quit ", "3"], ["3"]) := by
  have hlines : ∀ line ∈ ["  ", " 1 + 1 ", "2 $", " quit ", "3"], '\n' ∉ line.toList := by
    decide +kernel
  obtain ⟨_, _, hcode, _, hunread⟩ := session_answers_each_line_on_its_own _ hlines
  have hrest : (unserved ["  ", " 1 + 1 ", "2 $", " quit ", "3"]).tail = ["3"] := by
    decide +kernel
  rw [hrest] at hunread
  exact ⟨by decide +kernel, by decide +kernel, hcode, hunread⟩

end Calculator.Prompt
