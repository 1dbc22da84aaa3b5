import Fixity.Proofs.Parse.Concatenation
import Fixity.Shell.Basic
import Mathlib.Data.List.Forall2

/-! # A shell and the text of its lines

A shell cuts its lines into blocks, and together they are parsed as the programs of the blocks. -/

namespace Fixity

/-- The text that some lines make, a line break behind each of them. -/
def textOf : List String → String
  | [] => ""
  | line :: lines => line ++ "\n" ++ textOf lines

/-- Cuts lines behind each one that completes a program. An unfinished block in front of them
belongs to the first; lines that complete nothing are in no block. -/
def blocksBehind (front : List String) : List String → List Outcome → List (List String)
  | line :: lines, outcome :: outcomes =>
    if outcome.isParsed then (front ++ [line]) :: blocksBehind [] lines outcomes
    else blocksBehind (front ++ [line]) lines outcomes
  | _, _ => []

/-- The blocks of lines that had these outcomes. -/
def blocksOf (lines : List String) (outcomes : List Outcome) : List (List String) :=
  blocksBehind [] lines outcomes

/-- No block begins with a parenthesis that comes right behind a name. -/
def Apart (blocks : List (List String)) : Prop :=
  ∀ (i : Nat) (h : i < blocks.length),
    ¬ MeetsName (textOf (blocks.take i).flatten) (textOf blocks[i])

instance (blocks : List (List String)) : Decidable (Apart blocks) :=
  inferInstanceAs (Decidable (∀ (i : Nat) (h : i < blocks.length),
    ¬ MeetsName (textOf (blocks.take i).flatten) (textOf blocks[i])))

@[simp] theorem textOf_append (front back : List String) :
    textOf (front ++ back) = textOf front ++ textOf back := by
  induction front with
  | nil => simp [textOf]
  | cons line front ih => simp [textOf, ih, String.append_assoc]

theorem textOf_singleton (line : String) : textOf [line] = line ++ "\n" := by
  simp [textOf]

theorem nul_notMem_textOf {lines : List String} (h : ∀ line ∈ lines, '\x00' ∉ line.toList) :
    '\x00' ∉ (textOf lines).toList := by
  induction lines with
  | nil => simp [textOf]
  | cons line lines ih =>
      have hline : '\x00' ∉ line.toList := h line List.mem_cons_self
      have hlines := ih fun other hother => h other (List.mem_cons_of_mem line hother)
      simp [textOf, hline, hlines]

theorem eq_nil_of_textOf_eq_empty {lines : List String} (h : textOf lines = "") : lines = [] := by
  cases lines with
  | nil => rfl
  | cons line lines =>
      have hchars := congrArg String.toList h
      simp [textOf] at hchars

namespace Grammar

variable {grammar : Grammar}

/-- A program on lines of its own does not change how the text behind it is parsed. -/
theorem parse_textOf_append {front : List String} {rest : String} {program more : Program}
    (hnul : ∀ line ∈ front, '\x00' ∉ line.toList)
    (h : grammar.parse (textOf front) = .parsed program) (hrest : grammar.parse rest = .parsed more)
    (hmeets : ¬ MeetsName (textOf front) rest) :
    grammar.parse (textOf front ++ rest) = .parsed (program ++ more) := by
  rcases List.eq_nil_or_concat' front with rfl | ⟨before, line, rfl⟩
  · cases h
    simpa [textOf] using hrest
  · have htext : textOf (before ++ [line]) = textOf before ++ line ++ "\n" := by
      rw [textOf_append, textOf_singleton, String.append_assoc]
    rw [htext] at h hmeets ⊢
    refine parse_append_line ?_ h hrest hmeets
    have hbefore := nul_notMem_textOf fun other hother => hnul other (List.mem_append_left _ hother)
    have hline := hnul line (by simp)
    simp [hbefore, hline]

/-- Blocks that are programs and stay apart make one program behind lines that are a program. -/
theorem parse_textOf_blocks {blocks : List (List String)} {programs : List Program}
    (hprograms : List.Forall₂ (fun block program => grammar.parse (textOf block) = .parsed program)
      blocks programs)
    {front : List String} {program : Program} (h : grammar.parse (textOf front) = .parsed program)
    (hnul : ∀ line ∈ front ++ blocks.flatten, '\x00' ∉ line.toList)
    (hapart : ∀ (i : Nat) (h : i < blocks.length),
      ¬ MeetsName (textOf (front ++ (blocks.take i).flatten)) (textOf blocks[i])) :
    grammar.parse (textOf (front ++ blocks.flatten)) =
      .parsed (program ++ programs.flatten) := by
  induction hprograms generalizing front program with
  | nil => simpa using h
  | @cons block blockProgram blocks programs hblock _ ih =>
      -- Each block joins the lines in front: a name calls across blocks that have no tokens.
      have hhead : ¬ MeetsName (textOf (front ++ [])) (textOf block) := hapart 0 (Nat.succ_pos _)
      have htail : ∀ (i : Nat) (h : i < blocks.length),
          ¬ MeetsName (textOf (front ++ (block ++ (blocks.take i).flatten))) (textOf blocks[i]) :=
        fun i hi => hapart (i + 1) (Nat.succ_lt_succ hi)
      have hnext : grammar.parse (textOf (front ++ block)) = .parsed (program ++ blockProgram) := by
        rw [List.append_nil] at hhead
        rw [textOf_append]
        exact parse_textOf_append (fun line hline => hnul line (by simp [hline])) h hblock hhead
      have hall := ih hnext (by simpa using hnul) (by simpa using htail)
      simpa using hall

end Grammar

namespace Shell

def feedAll (shell : Shell) : List String → List Outcome × Shell
  | [] => ([], shell)
  | line :: lines =>
    let (outcome, next) := shell.feed line
    let (outcomes, last) := next.feedAll lines
    (outcome :: outcomes, last)

variable {shell : Shell} {front : List String}

@[simp] theorem feed_grammar (shell : Shell) (line : String) :
    (shell.feed line).2.grammar = shell.grammar := by
  simp only [feed, settle]
  split <;> rfl

theorem feed_fst (hpending : shell.pending = textOf front) (line : String) :
    (shell.feed line).1 = shell.grammar.parse (textOf (front ++ [line])) := by
  simp only [feed, outcome, append, hpending, textOf_append, textOf_singleton, String.append_assoc]

theorem feed_pending_of_needsMore (hpending : shell.pending = textOf front) {line : String}
    (h : (shell.feed line).1 = .needsMoreInput) :
    (shell.feed line).2.pending = textOf (front ++ [line]) := by
  have houtcome : (shell.append line).outcome = .needsMoreInput := h
  have hkept : (shell.feed line).2 = shell.append line := by
    simp [feed, settle, houtcome, Outcome.needsMore]
  rw [hkept, append, hpending, textOf_append, textOf_singleton, String.append_assoc]

theorem feed_pending_of_parsed {line : String} {program : Program}
    (h : (shell.feed line).1 = .parsed program) : (shell.feed line).2.pending = textOf [] := by
  have houtcome : (shell.append line).outcome = .parsed program := h
  simp [feed, settle, houtcome, Outcome.needsMore, textOf]

/-- If nothing is rejected and nothing waits in the end, every block is the program that its last
line was said to complete, and every line is in a block. -/
theorem forall₂_blocksBehind {lines : List String} (hpending : shell.pending = textOf front)
    (haccepted : ∀ outcome ∈ (shell.feedAll lines).1, ∀ error, outcome ≠ .rejected error)
    (hlast : (shell.feedAll lines).2.pending = "") :
    List.Forall₂ (fun block program => shell.grammar.parse (textOf block) = .parsed program)
        (blocksBehind front lines (shell.feedAll lines).1)
        ((shell.feedAll lines).1.filterMap Outcome.program?) ∧
      (blocksBehind front lines (shell.feedAll lines).1).flatten = front ++ lines := by
  induction lines generalizing shell front with
  | nil =>
      have hfront : front = [] := eq_nil_of_textOf_eq_empty (hpending.symm.trans hlast)
      subst hfront
      exact ⟨.nil, rfl⟩
  | cons line lines ih =>
      have houtcome := feed_fst hpending line
      have hrest : ∀ outcome ∈ ((shell.feed line).2.feedAll lines).1, ∀ error,
          outcome ≠ .rejected error :=
        fun outcome hmem => haccepted outcome (List.mem_cons_of_mem _ hmem)
      simp only [feedAll]
      cases hparse : (shell.feed line).1 with
      | rejected error =>
          have hmem : Outcome.rejected error ∈ (shell.feedAll (line :: lines)).1 := by
            simp [feedAll, hparse]
          exact absurd rfl (haccepted _ hmem error)
      | needsMoreInput =>
          have hbehind := ih (feed_pending_of_needsMore hpending hparse) hrest hlast
          simpa [blocksBehind, Outcome.isParsed, Outcome.program?, List.filterMap_cons] using
            hbehind
      | parsed program =>
          obtain ⟨hprograms, hflatten⟩ := ih (feed_pending_of_parsed hparse) hrest hlast
          rw [feed_grammar] at hprograms
          have hblock := houtcome.symm.trans hparse
          exact ⟨.cons hblock hprograms, by simp [blocksBehind, Outcome.isParsed, hflatten]⟩

/-- Whatever the table and however the lines were cut into blocks, a text is parsed as the programs
that a shell made of its lines. -/
theorem parse_textOf_of_feedAll (shell : Shell) (lines : List String) (hfresh : shell.pending = "")
    (hnul : ∀ line ∈ lines, '\x00' ∉ line.toList)
    (haccepted : ∀ outcome ∈ (shell.feedAll lines).1, ∀ error, outcome ≠ .rejected error)
    (hlast : (shell.feedAll lines).2.pending = "")
    (hapart : Apart (blocksOf lines (shell.feedAll lines).1)) :
    shell.grammar.parse (textOf lines) =
      .parsed ((shell.feedAll lines).1.filterMap Outcome.program?).flatten := by
  have hpending : shell.pending = textOf [] := hfresh
  obtain ⟨hprograms, hflatten⟩ := forall₂_blocksBehind hpending haccepted hlast
  have hnothing : shell.grammar.parse (textOf []) = .parsed [] := by rfl
  have hparsed := Grammar.parse_textOf_blocks hprograms hnothing
    (by simpa [hflatten] using hnul) (by simpa [Apart, blocksOf] using hapart)
  simpa [hflatten] using hparsed

/-- A definition on two lines, an empty line, a group and a declaration. -/
theorem parse_textOf_of_feedAll_four_blocks :
    let lines := ["defn f(a) \x7b", "a + b \x7d", "", "(c) # in a group", "extern g()"]
    ({} : Shell).pending = "" ∧ (∀ line ∈ lines, '\x00' ∉ line.toList) ∧
      (∀ outcome ∈ (({} : Shell).feedAll lines).1, ∀ error, outcome ≠ .rejected error) ∧
      (({} : Shell).feedAll lines).2.pending = "" ∧
      Apart (blocksOf lines (({} : Shell).feedAll lines).1) ∧
      ({} : Grammar).parse (textOf lines) = .parsed [
        .definition ⟨"f", ["a"]⟩ (.binary "+" (.var "a") (.var "b")),
        .definition .anonymous (.var "c"), .external ⟨"g", []⟩] := by
  intro lines
  have hfed : ({} : Shell).feedAll lines =
      ([.needsMoreInput, .parsed [.definition ⟨"f", ["a"]⟩ (.binary "+" (.var "a") (.var "b"))],
        .parsed [], .parsed [.definition .anonymous (.var "c")], .parsed [.external ⟨"g", []⟩]],
        {}) := by
    rfl
  have hnul : ∀ line ∈ lines, '\x00' ∉ line.toList := by decide
  have haccepted : ∀ outcome ∈ (({} : Shell).feedAll lines).1, ∀ error,
      outcome ≠ .rejected error := by
    simp [hfed]
  have hlast : (({} : Shell).feedAll lines).2.pending = "" := by rw [hfed]
  have hapart : Apart (blocksOf lines (({} : Shell).feedAll lines).1) := by
    rw [hfed]
    decide
  refine ⟨rfl, hnul, haccepted, hlast, hapart, ?_⟩
  have hparsed := parse_textOf_of_feedAll {} lines rfl hnul haccepted hlast hapart
  rw [hfed] at hparsed
  exact hparsed

end Shell

end Fixity
