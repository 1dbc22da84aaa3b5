import Fixity.Proofs.Shell.Moments
import Fixity.Proofs.Shell.Recovery
import Mathlib.Data.List.DropRight
import Mathlib.Data.List.ReduceOption

/-! # What waits between uses

Between two uses a shell holds the lines that are unfinished and nothing else. -/

namespace Fixity

/-- A line that was processed, with the outcome of the text that it was added to. -/
structure Processed where
  line : String
  outcome : Outcome

/-- The lines behind the last one whose outcome did not ask for more. -/
def unfinished (trace : List Processed) : List String :=
  (trace.rtakeWhile fun processed => processed.outcome.needsMore).map Processed.line

/-- The line that was read for a moment, with the outcome that is reported. -/
def Moment.processed : Moment → List Processed
  | reporting line read => [⟨line, read.outcome⟩]
  | _ => []

/-- A way to use a shell. -/
inductive Use where
  | feed (line : String)
  | run (sink : Sink) (input : List UInt8)

/-- The lines that a use processes: a session processes those in front of the first that is no text
or ends it. -/
def Use.lines : Use → List String
  | feed line => [line]
  | run _ input =>
    ((inputLines input).takeWhile fun line => line.any fun text => !Shell.isQuit text).reduceOption

namespace Shell

/-- Uses a shell, with what it processes: a session processes the lines of its moments. -/
def use (shell : Shell) : Use → List Processed × Shell
  | .feed line => ([⟨line, (shell.feed line).1⟩], (shell.feed line).2)
  | .run sink input =>
    ((shell.moments (inputLines input)).flatMap Moment.processed,
      (shell.run sink (inputLines input)).shell)

def useAll (shell : Shell) : List Use → List Processed × Shell
  | [] => ([], shell)
  | use :: uses =>
    let (trace, next) := shell.use use
    let (later, last) := next.useAll uses
    (trace ++ later, last)

/-- No session finds its sink full. -/
def Writes (shell : Shell) : List Use → Prop
  | [] => True
  | use :: uses =>
    (∀ sink input, use = .run sink input →
      (shell.run sink (inputLines input)).failure ≠ some .sinkFull) ∧ (shell.use use).2.Writes uses

/-- What a shell is between two uses: it holds the unfinished lines, each outcome was that of the
lines that were unfinished by then and the new one, and what is held needs more input. -/
structure Holds (shell : Shell) (grammar : Grammar) (trace : List Processed) : Prop where
  grammar_eq : shell.grammar = grammar
  pending_eq : shell.pending = textOf (unfinished trace)
  outcome_eq : ∀ before processed after, trace = before ++ processed :: after →
    processed.outcome = grammar.parse (textOf (unfinished before ++ [processed.line]))
  needsMore : shell.pending = "" ∨ grammar.parse shell.pending = .needsMoreInput

variable {shell : Shell} {grammar : Grammar} {trace : List Processed}

/-- Feeding keeps the line behind the unfinished ones if its outcome asks for more, and nothing at
all otherwise. -/
theorem Holds.feed (h : shell.Holds grammar trace) (line : String) :
    (shell.feed line).2.Holds grammar (trace ++ [⟨line, (shell.feed line).1⟩]) := by
  have hgrammar : (shell.feed line).2.grammar = grammar :=
    (shell.feed_grammar line).trans h.grammar_eq
  refine ⟨hgrammar, ?_, ?_, ?_⟩
  · rw [unfinished, List.rtakeWhile_concat]
    by_cases hmore : (shell.feed line).1.needsMore
    · rw [feed_pending_of_needsMore h.pending_eq (Outcome.needsMore_iff.mp hmore), if_pos hmore,
        List.map_append]
      rfl
    · have hdropped : (shell.feed line).2.pending = "" := by
        simp only [Shell.feed, settle] at hmore ⊢
        rw [if_neg hmore]
      rw [hdropped, if_neg hmore]
      rfl
  · intro before processed after hsplit
    -- Either the new line is the one in question, or it is behind that.
    rcases List.eq_nil_or_concat' after with rfl | ⟨between, last, rfl⟩
    · obtain ⟨rfl, hlast⟩ := List.append_inj' hsplit rfl
      rw [← (List.cons.inj hlast).1, ← h.grammar_eq]
      exact feed_fst h.pending_eq line
    · rw [← List.cons_append, ← List.append_assoc] at hsplit
      exact h.outcome_eq before processed between (List.append_inj' hsplit rfl).1
  · rcases shell.settled_feed line with hempty | ⟨-, -, hmore⟩
    · exact .inl hempty
    · exact .inr (hgrammar ▸ hmore)

theorem shell_leave (shell : Shell) (sink : Sink) : (shell.leave sink).shell = shell := by
  unfold leave
  split
  · rfl
  · rfl

/-- A session feeds its lines, and holds the same when it ends as behind the last of them. -/
theorem Holds.run {sink : Sink} {lines : List (Option String)} (h : shell.Holds grammar trace)
    (hwrites : (shell.run sink lines).failure ≠ some .sinkFull) :
    (shell.run sink lines).shell.Holds grammar
      (trace ++ (shell.moments lines).flatMap Moment.processed) := by
  induction lines generalizing shell sink trace with
  | nil =>
      rw [run.eq_def]
      split
      · simpa [moments, Moment.processed] using h
      · simpa [moments, Moment.processed, shell_leave] using h
  | cons line rest ih =>
      rw [run.eq_def] at hwrites ⊢
      cases hprompt : sink.write shell.prompt with
      | error full =>
          rw [hprompt] at hwrites
          exact absurd rfl hwrites
      | ok asked =>
          rw [moments.eq_def]
          cases line with
          | none => simpa [turn, Moment.processed] using h
          | some line =>
              by_cases hquit : isQuit line
              · simpa [turn_of_isQuit hquit, hquit, Moment.processed, shell_leave] using h
              · simp only [hprompt, turn_of_not_isQuit hquit] at hwrites ⊢
                cases hreport : asked.write
                    ((shell.append line).report (shell.append line).outcome) with
                | error full =>
                    rw [hreport] at hwrites
                    exact absurd rfl hwrites
                | ok reported =>
                    rw [hreport] at hwrites
                    have hrest := ih (h.feed line) hwrites
                    rw [List.append_assoc] at hrest
                    rw [if_neg hquit]
                    exact hrest

theorem map_line_processed (shell : Shell) (lines : List (Option String)) :
    ((shell.moments lines).flatMap Moment.processed).map Processed.line =
      (lines.takeWhile fun line => line.any fun text => !isQuit text).reduceOption := by
  induction lines generalizing shell with
  | nil => simp [moments, Moment.processed]
  | cons line rest ih =>
      rw [moments.eq_def]
      cases line with
      | none => simp [Moment.processed]
      | some line =>
          by_cases hquit : isQuit line
          · simp [hquit, Moment.processed]
          · simp [hquit, Moment.processed, ih]

theorem Holds.use (h : shell.Holds grammar trace) (use : Use)
    (hwrites : ∀ sink input, use = .run sink input →
      (shell.run sink (inputLines input)).failure ≠ some .sinkFull) :
    (shell.use use).2.Holds grammar (trace ++ (shell.use use).1) := by
  cases use with
  | feed line => exact h.feed line
  | run sink input => exact h.run (hwrites sink input rfl)

theorem Holds.useAll {uses : List Use} (h : shell.Holds grammar trace)
    (hwrites : shell.Writes uses) :
    (shell.useAll uses).2.Holds grammar (trace ++ (shell.useAll uses).1) := by
  induction uses generalizing shell trace with
  | nil => simpa [Shell.useAll] using h
  | cons use uses ih =>
      have hnext := ih (h.use use hwrites.1) hwrites.2
      rw [List.append_assoc] at hnext
      exact hnext

theorem map_line_useAll (shell : Shell) (uses : List Use) :
    (shell.useAll uses).1.map Processed.line = uses.flatMap Use.lines := by
  induction uses generalizing shell with
  | nil => rfl
  | cons use uses ih =>
      have huse : (shell.use use).1.map Processed.line = use.lines := by
        cases use with
        | feed line => rfl
        | run sink input => exact shell.map_line_processed (inputLines input)
      rw [Shell.useAll, List.map_append, ih, huse, List.flatMap_cons]

/-- Whatever a fresh shell is used for, if its sinks take what is written, it holds the lines that
are unfinished behind those that it has processed. -/
theorem holds_useAll (shell : Shell) (hfresh : shell.pending = "") (uses : List Use)
    (hwrites : shell.Writes uses) :
    (shell.useAll uses).2.Holds shell.grammar (shell.useAll uses).1 ∧
      (shell.useAll uses).1.map Processed.line = uses.flatMap Use.lines ∧
      ∀ (held : Shell) (sink : Sink) (lines : List (Option String)),
        held.run sink lines = replay (ending lines) held sink (held.moments lines) := by
  have hstart : shell.Holds shell.grammar [] := ⟨rfl, hfresh, by simp, .inl hfresh⟩
  exact ⟨hstart.useAll hwrites, shell.map_line_useAll uses, run_eq_replay⟩

/-- A call goes on through a session that is told to quit and one that comes to a line that is no
text. -/
theorem holds_useAll_call :
    let uses : List Use := [.feed "f(x", .run { room := some 50 } "y\n :q \nz".toUTF8.toList,
      .run {} ("z\n".toUTF8.toList ++ [0xff, 0x0a]), .feed ")", .feed "a +"]
    let last := (({} : Shell).useAll uses).2
    ({} : Shell).Writes uses ∧ uses.flatMap Use.lines = ["f(x", "y", "z", ")", "a +"] ∧
      last.pending = "a +\n" ∧ last.Holds {} (({} : Shell).useAll uses).1 := by
  intro uses last
  have hwrites : ({} : Shell).Writes uses := by
    refine ⟨nofun, ?_, ?_, nofun, nofun, trivial⟩
    · rintro sink input ⟨⟩
      decide +kernel
    · rintro sink input ⟨⟩
      decide +kernel
  have hpending : last.pending = "a +\n" := by decide +kernel
  exact ⟨hwrites, by decide +kernel, hpending, (holds_useAll {} rfl uses hwrites).1⟩

end Shell

end Fixity
