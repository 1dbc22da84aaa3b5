import Fixity.Proofs.Shell.Blocks
import Fixity.Proofs.Token.Content

/-! # Leaving an unfinished text

A character that has no place in any text makes a shell drop what waits, unless a NUL ended that. -/

namespace Fixity

theorem Outcome.needsMore_iff {outcome : Outcome} :
    outcome.needsMore ↔ outcome = .needsMoreInput := by
  cases outcome <;> simp [needsMore]

namespace Shell

variable {shell : Shell}

/-! ## What waits between two lines -/

/-- Nothing waits, or some lines that need more input. -/
def Settled (shell : Shell) : Prop :=
  shell.pending = "" ∨
    ∃ before, shell.pending = before ++ "\n" ∧ shell.outcome = .needsMoreInput

theorem settled_feed (shell : Shell) (line : String) : (shell.feed line).2.Settled := by
  simp only [feed, settle]
  split
  · next hmore => exact .inr ⟨shell.pending ++ line, rfl, Outcome.needsMore_iff.mp hmore⟩
  · exact .inl rfl

theorem settled_feedAll (h : shell.Settled) (lines : List String) :
    (shell.feedAll lines).2.Settled := by
  induction lines generalizing shell with
  | nil => exact h
  | cons line lines ih => exact ih (shell.settled_feed line)

/-! ## Dropping what waits -/

theorem feed_pending_of_rejected {line : String} {error : ParseError}
    (h : (shell.append line).outcome = .rejected error) : (shell.feed line).2.pending = "" := by
  simp [feed, settle, h, Outcome.needsMore]

theorem breakLine_next_equals (scanner : Scanner) :
    scanner.breakLine.next '=' = .unrecognized := by
  have hunfinished : scanner.breakLine.unfinished = .nothing := scanner.unfinished_close
  have hbegun : LexemeClass.begunBy? '=' = none := by decide
  have hother : Unicode.isWhiteSpace '=' = false ∧ isReservedChar '=' = false := by decide
  simp [Scanner.next, hunfinished, Scanner.begin, hbegun, hother]

theorem exists_scan_error_of_content {before : String}
    (hcontent : content (before ++ "\n") = (before ++ "\n").toList) :
    ∃ error, scan (before ++ "\n" ++ "=\n") = .error error := by
  rw [scan_append_newline]
  cases hwalk : Scanner.walk {} before.toList with
  | passed last =>
      refine ⟨⟨"=", last.breakLine.position⟩, ?_⟩
      have htext : "=\n".toList = ['=', '\n'] := rfl
      rw [Walk.run, Scanner.run_newline, htext, Scanner.run, breakLine_next_equals]
      rfl
  | stopped scanned =>
      have hstopped := Scanner.walk_append_of_stopped hwalk ['\n']
      rw [content, String.toList_append] at hcontent
      exact absurd hcontent (Scanner.upToNul_of_walk_stopped hstopped)
  | failed error => exact ⟨error, rfl⟩

/-- An equals sign makes a shell drop what waits, unless a NUL ended it. -/
theorem feed_equals_pending {before : String} (hpending : shell.pending = before ++ "\n")
    (hcontent : content shell.pending = shell.pending.toList) :
    (shell.feed "=").2.pending = "" := by
  rw [hpending] at hcontent
  obtain ⟨error, hscan⟩ := exists_scan_error_of_content hcontent
  have htext : (shell.append "=").pending = before ++ "\n" ++ "=\n" := by
    simp only [append, hpending, String.append_assoc]
    rfl
  have hrejected : (shell.append "=").outcome = .rejected (.scan error) := by
    rw [outcome, htext, Grammar.parse, hscan]
  exact feed_pending_of_rejected hrejected

/-! ## Being stuck -/

/-- A NUL has ended what waits, in the middle of a declaration. -/
def Stuck (shell : Shell) : Prop :=
  ∃ scanned, Scanner.walk {} shell.pending.toList = .stopped scanned ∧
    shell.grammar.parseScan scanned = .needsMoreInput

/-- What has more than its content and needs more input was ended by a NUL. -/
theorem stuck_of_content_ne (houtcome : shell.outcome = .needsMoreInput)
    (hcontent : content shell.pending ≠ shell.pending.toList) : shell.Stuck := by
  rw [outcome, Grammar.parse, scan, Scanner.run_eq_walk] at houtcome
  cases hwalk : Scanner.walk {} shell.pending.toList with
  | passed last => exact absurd (Scanner.upToNul_of_walk_passed hwalk) hcontent
  | stopped scanned =>
      rw [hwalk] at houtcome
      exact ⟨scanned, hwalk, houtcome⟩
  | failed error =>
      rw [hwalk] at houtcome
      cases houtcome

namespace Stuck

theorem pending_ne_empty (h : shell.Stuck) : shell.pending ≠ "" := by
  obtain ⟨scanned, hwalk, -⟩ := h
  intro hempty
  rw [hempty] at hwalk
  cases hwalk

theorem feed (h : shell.Stuck) (line : String) : (shell.feed line).2.Stuck := by
  obtain ⟨scanned, hwalk, hmore⟩ := h
  have hstopped : Scanner.walk {} (shell.append line).pending.toList = .stopped scanned := by
    simp only [append, String.toList_append]
    exact Scanner.walk_append_of_stopped (Scanner.walk_append_of_stopped hwalk _) _
  have houtcome : (shell.append line).outcome = .needsMoreInput := by
    rw [outcome, Grammar.parse, scan, Scanner.run_eq_walk, hstopped]
    exact hmore
  have hkept : (shell.feed line).2 = shell.append line := by
    simp [Shell.feed, settle, houtcome, Outcome.needsMore]
  rw [hkept]
  exact ⟨scanned, hstopped, hmore⟩

theorem feedAll (h : shell.Stuck) (lines : List String) : (shell.feedAll lines).2.Stuck := by
  induction lines generalizing shell with
  | nil => exact h
  | cons line lines ih => exact ih (h.feed line)

end Stuck

/-! ## Which texts can be left -/

/-- Whatever lines a fresh shell was given, it can be brought to drop what waits just if no NUL
outside of comments is in it. -/
theorem exists_feedAll_pending_eq_empty_iff (shell : Shell) (lines : List String)
    (hfresh : shell.pending = "") :
    (∃ more, ((shell.feedAll lines).2.feedAll more).2.pending = "") ↔
      content (shell.feedAll lines).2.pending = (shell.feedAll lines).2.pending.toList := by
  have hsettled : (shell.feedAll lines).2.Settled := settled_feedAll (.inl hfresh) lines
  generalize (shell.feedAll lines).2 = reached at hsettled
  rcases hsettled with hempty | ⟨before, hpending, houtcome⟩
  · have hcontent : content reached.pending = reached.pending.toList := by
      rw [hempty]
      rfl
    exact ⟨fun _ => hcontent, fun _ => ⟨[], hempty⟩⟩
  · constructor
    · rintro ⟨more, hmore⟩
      by_contra hcontent
      exact ((stuck_of_content_ne houtcome hcontent).feedAll more).pending_ne_empty hmore
    · exact fun hcontent => ⟨["="], feed_equals_pending hpending hcontent⟩

/-- A NUL in a comment can be left behind. -/
theorem exists_feedAll_pending_eq_empty_comment :
    let reached := (({} : Shell).feedAll ["defn f(x) \x7b # \x00", "x +"]).2
    ({} : Shell).pending = "" ∧ reached.pending = "defn f(x) \x7b # \x00\nx +\n" ∧
      ∃ more, (reached.feedAll more).2.pending = "" := by
  intro reached
  have hpending : reached.pending = "defn f(x) \x7b # \x00\nx +\n" := by rfl
  refine ⟨rfl, hpending, ?_⟩
  refine (exists_feedAll_pending_eq_empty_iff {} _ rfl).mpr ?_
  change content reached.pending = reached.pending.toList
  rw [hpending]
  decide

/-- No line makes a shell drop a parenthesis with a NUL behind it. -/
theorem pending_ne_empty_of_nul :
    ¬ ∀ (table : OperatorTable) (lines : List String), ∃ more,
      (((({ grammar := { operators := table } } : Shell).feedAll lines).2).feedAll more).2.pending =
        "" := by
  intro h
  obtain ⟨more, hmore⟩ := h .standard ["(\x00"]
  have hstuck : (({} : Shell).feedAll ["(\x00"]).2.Stuck := ⟨_, by rfl, by rfl⟩
  exact (hstuck.feedAll more).pending_ne_empty hmore

end Shell

end Fixity
