import Fixity.Proofs.Shell.Blocks
import Fixity.Shell.Session

/-! # The moments of a session

A session writes one text after another, and holds a shell while it writes each. -/

namespace Fixity

/-- A shell in the middle of a session, and why it writes something. -/
inductive Moment where
  | asking (shell : Shell)
  | reporting (line : String) (read : Shell)
  | leaving (shell : Shell)

namespace Moment

/-- What is held until the text is written. -/
def shell : Moment → Shell
  | asking shell => shell
  | reporting _ read => read
  | leaving shell => shell

def text : Moment → String
  | asking shell => shell.prompt
  | reporting _ read => read.report read.outcome
  | leaving _ => "\n"

/-- What is held once the text is written. -/
def settled : Moment → Shell
  | asking shell => shell
  | reporting _ read => read.settle read.outcome
  | leaving shell => shell

/-- The line that was read for this moment, if any. -/
def lines : Moment → List String
  | reporting line _ => [line]
  | _ => []

/-- The block that is dropped once the text is written, if any. -/
def blocks : Moment → List String
  | reporting _ read => if read.outcome.needsMore then [] else [read.pending]
  | _ => []

theorem join_blocks_append (moment : Moment) :
    String.join moment.blocks ++ moment.settled.pending = moment.shell.pending := by
  cases moment with
  | asking shell => simp [blocks, settled, Moment.shell]
  | leaving shell => simp [blocks, settled, Moment.shell]
  | reporting line read =>
      simp only [blocks, settled, Moment.shell, Shell.settle]
      split <;> simp

theorem pending_of_mem_blocks {moment : Moment} {block : String} (h : block ∈ moment.blocks) :
    moment.shell.pending = block := by
  cases moment with
  | asking => cases h
  | leaving => cases h
  | reporting line read =>
      simp only [blocks] at h
      split at h
      · cases h
      · exact (List.mem_singleton.mp h).symm

end Moment

def transcript (moments : List Moment) : String := String.join (moments.map Moment.text)

@[simp] theorem transcript_nil : transcript [] = "" := rfl

@[simp] theorem transcript_cons (moment : Moment) (moments : List Moment) :
    transcript (moment :: moments) = moment.text ++ transcript moments := by
  simp [transcript]

/-- Each moment holds what was held in front of it and the line that was read for it. -/
inductive Continues : Shell → List Moment → Prop
  | nil {shell} : Continues shell []
  | cons {shell moment moments} : moment.shell.pending = shell.pending ++ textOf moment.lines →
      Continues moment.settled moments → Continues shell (moment :: moments)

/-- All lines are in the blocks that have been dropped or in what is held. -/
theorem Continues.pending_append {shell : Shell} {before after : List Moment} {moment : Moment}
    (h : Continues shell (before ++ moment :: after)) :
    shell.pending ++ textOf ((before ++ [moment]).flatMap Moment.lines) =
      String.join (before.flatMap Moment.blocks) ++ moment.shell.pending := by
  induction before generalizing shell with
  | nil =>
      cases h with
      | cons hmoment _ => simpa using hmoment.symm
  | cons first before ih =>
      cases h with | cons hfirst hrest =>
      have hbehind := ih hrest
      calc shell.pending ++ textOf ((first :: before ++ [moment]).flatMap Moment.lines)
          = first.shell.pending ++ textOf ((before ++ [moment]).flatMap Moment.lines) := by
            rw [hfirst, List.cons_append, List.flatMap_cons, textOf_append, String.append_assoc]
        _ = String.join first.blocks ++
              (first.settled.pending ++ textOf ((before ++ [moment]).flatMap Moment.lines)) := by
            rw [← first.join_blocks_append, String.append_assoc]
        _ = String.join ((first :: before).flatMap Moment.blocks) ++ moment.shell.pending := by
            rw [hbehind, List.flatMap_cons, String.join_append, String.append_assoc]

namespace Shell

theorem turn_of_isQuit {shell : Shell} {line : String} (h : isQuit line) :
    shell.turn (some line) = .leave := by
  simp [turn, h]

theorem turn_of_not_isQuit {shell : Shell} {line : String} (h : ¬ isQuit line) :
    shell.turn (some line) = .report ((shell.append line).report (shell.append line).outcome)
      (shell.append line) (shell.feed line).2 := by
  simp [turn, h, feed]

/-- The moments of a session over the lines of an input, as far as it comes. -/
def moments (shell : Shell) (lines : List (Option String)) : List Moment :=
  .asking shell :: match lines with
    | [] => [.leaving shell]
    | none :: _ => []
    | some line :: rest =>
      if isQuit line then [.leaving shell]
      else .reporting line (shell.append line) :: (shell.feed line).2.moments rest

/-- How a session over the lines of an input ends if everything can be written. -/
def ending : List (Option String) → Option SessionFailure
  | [] => none
  | none :: _ => some .inputNotText
  | some line :: rest => if isQuit line then none else ending rest

theorem continues_moments (shell : Shell) (lines : List (Option String)) :
    Continues shell (shell.moments lines) := by
  have hnone : ∀ shell : Shell, shell.pending = shell.pending ++ textOf [] := by simp [textOf]
  induction lines generalizing shell with
  | nil => exact .cons (hnone shell) (.cons (hnone shell) .nil)
  | cons line rest ih =>
      rw [moments.eq_def]
      refine .cons (hnone shell) ?_
      cases line with
      | none => exact .nil
      | some line =>
          have hline : (shell.append line).pending = shell.pending ++ textOf [line] := by
            rw [append, textOf_singleton, String.append_assoc]
          by_cases hquit : isQuit line
          · simp only [if_pos hquit]
            exact .cons (hnone shell) .nil
          · simp only [if_neg hquit]
            exact .cons hline (ih (shell.feed line).2)

/-- Lines are read in their order, and none is skipped. -/
theorem lines_moments_prefix (shell : Shell) (lines : List (Option String)) :
    ((shell.moments lines).flatMap Moment.lines).map some <+: lines := by
  induction lines generalizing shell with
  | nil => exact List.nil_prefix
  | cons line rest ih =>
      rw [moments.eq_def]
      cases line with
      | none => exact List.nil_prefix
      | some line =>
          by_cases hquit : isQuit line
          · simp only [if_pos hquit]
            exact List.nil_prefix
          · simp only [if_neg hquit]
            simpa [Moment.lines] using ih (shell.feed line).2

theorem lines_prefix_of_moments_eq {shell : Shell} {lines : List (Option String)}
    {before after : List Moment} {moment : Moment}
    (h : shell.moments lines = before ++ moment :: after) :
    ((before ++ [moment]).flatMap Moment.lines).map some <+: lines := by
  have hsplit : shell.moments lines = before ++ [moment] ++ after := by simp [h]
  refine List.IsPrefix.trans ?_ (shell.lines_moments_prefix lines)
  rw [hsplit]
  simp only [List.flatMap_append, List.map_append]
  exact List.prefix_append _ _

end Shell

/-! ## Replaying moments -/

/-- Writes the texts of some moments in turn, each shell being held until its text is written. -/
def replay (failure : Option SessionFailure) (shell : Shell) (sink : Sink) : List Moment → Session
  | [] => ⟨sink, failure, shell⟩
  | moment :: moments =>
    match sink.write moment.text with
    | .ok sink => replay failure moment.settled sink moments
    | .error sink => ⟨sink, some .sinkFull, moment.shell⟩

/-- Whatever the sink, a session is the replay of its moments. -/
theorem Shell.run_eq_replay (shell : Shell) (sink : Sink) (lines : List (Option String)) :
    shell.run sink lines = replay (ending lines) shell sink (shell.moments lines) := by
  induction lines generalizing shell sink with
  | nil =>
      rw [run.eq_def, moments.eq_def, replay, Moment.text]
      cases sink.write shell.prompt with
      | error sink => rfl
      | ok sink => rfl
  | cons line rest ih =>
      rw [run.eq_def, moments.eq_def, replay, Moment.text]
      cases sink.write shell.prompt with
      | error sink => rfl
      | ok sink =>
          cases line with
          | none => rfl
          | some line =>
              by_cases hquit : isQuit line
              · simp only [turn_of_isQuit hquit, if_pos hquit, ending]
                rfl
              · simp only [turn_of_not_isQuit hquit, if_neg hquit, ending, replay, ih]
                rfl

end Fixity
