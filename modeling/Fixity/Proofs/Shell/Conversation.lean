import Fixity.Proofs.Shell.Cut

/-! # What a session says

A session writes a prompt in front of each line and an answer behind it. -/

namespace Fixity

namespace Shell

/-- What is written about a fed line: nothing, an error, or the program in the form that was asked
for, behind the tokens of its whole text if they are shown. -/
inductive Answers (shell : Shell) (line : String) : String → Prop
  | needsMoreInput : (shell.feed line).1 = .needsMoreInput → Answers shell line ""
  | rejected {error} : (shell.feed line).1 = .rejected error →
      Answers shell line ("error: " ++ error.message ++ "\n")
  | parsed {program scanned} : (shell.feed line).1 = .parsed program →
      scan (shell.pending ++ line ++ "\n") = .ok scanned →
      Answers shell line ((if shell.showTokens then scanned.listing else "") ++
        if shell.showSource then program.source else program.outline)

/-- What is written while lines are fed: a prompt and an answer for each line, then a prompt that
gets no line, and a line break. -/
inductive Converses : Shell → List String → String → Prop
  | leaves {shell} : Converses shell [] (shell.prompt ++ "\n")
  | line {shell line lines answer rest} : Answers shell line answer →
      Converses (shell.feed line).2 lines rest →
      Converses shell (line :: lines) (shell.prompt ++ answer ++ rest)

variable {shell : Shell} {line : String}

/-! ## There is one answer -/

theorem Answers.unique {answer other : String} (h : Answers shell line answer)
    (hother : Answers shell line other) : answer = other := by
  cases h with
  | needsMoreInput houtcome =>
      cases hother with
      | needsMoreInput => rfl
      | rejected houtcome' => cases houtcome.symm.trans houtcome'
      | parsed houtcome' => cases houtcome.symm.trans houtcome'
  | rejected houtcome =>
      cases hother with
      | needsMoreInput houtcome' => cases houtcome.symm.trans houtcome'
      | rejected houtcome' =>
          cases houtcome.symm.trans houtcome'
          rfl
      | parsed houtcome' => cases houtcome.symm.trans houtcome'
  | parsed houtcome hscan =>
      cases hother with
      | needsMoreInput houtcome' => cases houtcome.symm.trans houtcome'
      | rejected houtcome' => cases houtcome.symm.trans houtcome'
      | parsed houtcome' hscan' =>
          cases houtcome.symm.trans houtcome'
          cases hscan.symm.trans hscan'
          rfl

theorem Converses.unique {lines : List String} {output other : String}
    (h : Converses shell lines output) (hother : Converses shell lines other) : output = other := by
  induction h generalizing other with
  | leaves =>
      cases hother
      rfl
  | line hanswer _ ih =>
      cases hother with
      | line hanswer' hrest => rw [hanswer.unique hanswer', ih hrest]

/-! ## Sessions without a limit -/

/-- What is parsed has been scanned, so its tokens are shown and never an error in their place. -/
theorem exists_tokenReport_eq {read : Shell} {program : Program}
    (h : read.outcome = .parsed program) :
    ∃ scanned, scan read.pending = .ok scanned ∧
      read.tokenReport = if read.showTokens then scanned.listing else "" := by
  obtain ⟨scanned, -, hscan, -, -⟩ := (Grammar.parse_eq_iff (by simp)).mp h
  refine ⟨scanned, hscan, ?_⟩
  rw [tokenReport, hscan]

theorem answers_report (shell : Shell) (line : String) :
    Answers shell line ((shell.append line).report (shell.append line).outcome) := by
  cases houtcome : (shell.append line).outcome with
  | needsMoreInput => exact .needsMoreInput houtcome
  | rejected error => exact .rejected houtcome
  | parsed program =>
      obtain ⟨scanned, hscan, htokens⟩ := exists_tokenReport_eq houtcome
      rw [report, htokens]
      exact .parsed houtcome hscan

theorem run_nil (shell : Shell) (written : ByteArray) :
    shell.run ⟨written, none⟩ [] =
      ⟨⟨written ++ (shell.prompt ++ "\n").toUTF8, none⟩, none, shell⟩ := by
  rw [toUTF8_append, ← ByteArray.append_assoc]
  rfl

theorem run_of_isQuit (shell : Shell) (written : ByteArray) (h : isQuit line)
    (rest : List (Option String)) :
    shell.run ⟨written, none⟩ (some line :: rest) = shell.run ⟨written, none⟩ [] := by
  rw [run, Sink.write_unlimited]
  simp only [turn_of_isQuit h]
  rfl

theorem run_of_not_isQuit (shell : Shell) (written : ByteArray) (h : ¬ isQuit line)
    (rest : List (Option String)) :
    shell.run ⟨written, none⟩ (some line :: rest) =
      (shell.feed line).2.run ⟨written ++ (shell.prompt ++
        (shell.append line).report (shell.append line).outcome).toUTF8, none⟩ rest := by
  rw [run, Sink.write_unlimited]
  simp only [turn_of_not_isQuit h, Sink.write_unlimited]
  rw [toUTF8_append, ← ByteArray.append_assoc]

/-- Whatever waits in the shell, its session over some lines is the conversation over those in front
of the one that ends it. -/
theorem exists_converses_run (shell : Shell) (written : ByteArray) (lines : List String) :
    ∃ output, Converses shell (lines.takeWhile fun line => !isQuit line) output ∧
      shell.run ⟨written, none⟩ (lines.map some) =
        ⟨⟨written ++ output.toUTF8, none⟩, none,
          (shell.feedAll (lines.takeWhile fun line => !isQuit line)).2⟩ := by
  induction lines generalizing shell written with
  | nil => exact ⟨_, .leaves, run_nil shell written⟩
  | cons line lines ih =>
      rw [List.map_cons]
      by_cases hquit : isQuit line
      · rw [List.takeWhile_cons_of_neg (by simp [hquit]), run_of_isQuit shell written hquit]
        exact ⟨_, .leaves, run_nil shell written⟩
      · rw [List.takeWhile_cons_of_pos (by simp [hquit]), run_of_not_isQuit shell written hquit]
        obtain ⟨rest, hrest, hrun⟩ := ih (shell.feed line).2 (written ++ (shell.prompt ++
          (shell.append line).report (shell.append line).outcome).toUTF8)
        refine ⟨_, .line (shell.answers_report line) hrest, ?_⟩
        rw [hrun, toUTF8_append _ rest, ByteArray.append_assoc]
        rfl

/-- A session whose sink takes everything feeds the lines in front of the first one that ends it,
and writes the conversation about them, in which no error stands for tokens. -/
theorem run_eq_conversation (shell : Shell) (written : ByteArray) (input : List UInt8)
    (lines : List String) (htexts : inputLines input = lines.map some) :
    let fed := lines.takeWhile fun line => !isQuit line
    (∃ output, (∀ other, Converses shell fed other ↔ other = output) ∧
      shell.run ⟨written, none⟩ (inputLines input) =
        ⟨⟨written ++ output.toUTF8, none⟩, none, (shell.feedAll fed).2⟩) ∧
    ∀ (read : Shell) (program : Program), read.outcome = .parsed program →
      ∃ scanned, scan read.pending = .ok scanned ∧
        read.tokenReport = if read.showTokens then scanned.listing else "" := by
  intro fed
  refine ⟨?_, fun read program hparsed => exists_tokenReport_eq hparsed⟩
  obtain ⟨output, hconverses, hrun⟩ := exists_converses_run shell written lines
  refine ⟨output, ?_, by rw [htexts, hrun]⟩
  intro other
  constructor
  · exact fun hother => hother.unique hconverses
  · rintro rfl
    exact hconverses

/-- A program on two lines, with its tokens, and an end with blanks around it. -/
theorem run_eq_conversation_two_lines :
    inputLines "x +\r\ny\n :q \nz".toUTF8.toList = ["x +", "y", " :q ", "z"].map some ∧
      (run { showTokens := true, showSource := true } {}
          (inputLines "x +\r\ny\n :q \nz".toUTF8.toList)).sink.written =
        ("guppy>   ...> IDENTIFIER (1:1): x\nOPERATOR (1:3): +\nIDENTIFIER (2:1): y\nEND (3:1): \n" ++
          "(x + y)\nguppy> \n").toUTF8 := by
  have htexts : inputLines "x +\r\ny\n :q \nz".toUTF8.toList =
      ["x +", "y", " :q ", "z"].map some := by
    decide +kernel
  refine ⟨htexts, ?_⟩
  obtain ⟨⟨output, hunique, hrun⟩, -⟩ :=
    run_eq_conversation { showTokens := true, showSource := true } .empty _ _ htexts
  have hconverses : Converses { showTokens := true, showSource := true } ["x +", "y"]
      ("guppy> " ++ "" ++ ("  ...> " ++ _ ++ ("guppy> " ++ "\n"))) :=
    .line (.needsMoreInput rfl) (.line (.parsed rfl rfl) .leaves)
  have hwritten := congrArg (fun session => session.sink.written) hrun
  rw [← (hunique _).mp hconverses] at hwritten
  exact hwritten

end Shell

end Fixity
