import Fixity.Proofs.Token.Munch

/-! # The lines of a text

What stands behind a line break is scanned as if it stood alone, only so many lines further down. -/

namespace Fixity

/-! ## Further down -/

/-- The place so many lines further down. -/
def Position.down (lines : Nat) (here : Position) : Position := ⟨here.line + lines, here.column⟩

theorem Position.after_down (lines : Nat) (here : Position) (c : Char) :
    (here.down lines).after c = (here.after c).down lines := by
  unfold after
  split
  · simp [down, Nat.add_right_comm]
  · rfl

def Token.down (lines : Nat) (token : Token) : Token :=
  { token with position := token.position.down lines }

def ScanError.down (lines : Nat) (error : ScanError) : ScanError :=
  { error with position := error.position.down lines }

def Unfinished.down (lines : Nat) : Unfinished → Unfinished
  | .nothing => .nothing
  | .comment => .comment
  | .lexeme lexemeClass start latestFirst => .lexeme lexemeClass (start.down lines) latestFirst

/-- The scan so many lines further down, behind the words of the lines in front. -/
def Scan.below (lines : Nat) (front : List Token) (scanned : Scan) : Scan where
  words := front ++ scanned.words.map (Token.down lines)
  stop := scanned.stop.down lines

/-- The scanner so many lines further down, behind the words `front`, the latest first. -/
def Scanner.below (lines : Nat) (front : List Token) (scanner : Scanner) : Scanner where
  position := scanner.position.down lines
  unfinished := scanner.unfinished.down lines
  latestFirst := scanner.latestFirst.map (Token.down lines) ++ front

def ScanStep.below (lines : Nat) (front : List Token) : ScanStep → ScanStep
  | .proceed scanner => .proceed (scanner.below lines front)
  | .stop => .stop
  | .unrecognized => .unrecognized

namespace Scanner

variable (lines : Nat) (front : List Token) (scanner : Scanner)

theorem close_below : (scanner.below lines front).close = scanner.close.below lines front := by
  obtain ⟨position, unfinished, latestFirst⟩ := scanner
  cases unfinished <;> rfl

theorem pass_below (c : Char) (unfinished : Unfinished) :
    (scanner.below lines front).pass c (unfinished.down lines) =
      (scanner.pass c unfinished).below lines front := by
  simp only [pass, below, ScanStep.below, Position.after_down]

theorem begin_below (c : Char) :
    (scanner.below lines front).begin c = (scanner.begin c).below lines front := by
  unfold begin
  split
  · exact pass_below lines front scanner c .nothing
  · split
    · next lexemeClass _ =>
      exact pass_below lines front scanner c (.lexeme lexemeClass scanner.position [c])
    · split
      · exact pass_below lines front scanner c .comment
      · split
        · rfl
        · split
          · exact pass_below lines front
              { scanner with
                latestFirst := ⟨.reserved, .ofList [c], scanner.position⟩ :: scanner.latestFirst }
              c .nothing
          · rfl

theorem next_below (c : Char) :
    (scanner.below lines front).next c = (scanner.next c).below lines front := by
  have hclose := close_below lines front scanner
  obtain ⟨position, unfinished, latestFirst⟩ := scanner
  cases unfinished with
  | nothing => exact begin_below lines front _ c
  | comment =>
      simp only [next, below, Unfinished.down]
      split
      · exact begin_below lines front ⟨position, .comment, latestFirst⟩ c
      · exact pass_below lines front ⟨position, .comment, latestFirst⟩ c .comment
  | lexeme lexemeClass start chars =>
      simp only [next, below, Unfinished.down]
      split
      · exact pass_below lines front ⟨position, .lexeme lexemeClass start chars, latestFirst⟩ c
          (.lexeme lexemeClass start (c :: chars))
      · rw [← begin_below, ← hclose]
        rfl

theorem finish_below :
    (scanner.below lines front).finish = scanner.finish.below lines front.reverse := by
  simp only [finish, close_below]
  simp [below, Scan.below, Token.down]

theorem run_below (text : List Char) :
    (scanner.below lines front).run text =
      ((scanner.run text).map (Scan.below lines front.reverse)).mapError
        (ScanError.down lines) := by
  induction text generalizing scanner with
  | nil =>
      rw [run, run, finish_below]
      rfl
  | cons c text ih =>
      rw [run, run, next_below]
      cases scanner.next c with
      | proceed next => exact ih next
      | stop =>
          simp only [ScanStep.below, finish_below]
          rfl
      | unrecognized => rfl

/-! ## Texts without NUL -/

theorem eq_nul_of_next_eq_stop {scanner : Scanner} {c : Char} (h : scanner.next c = .stop) :
    c = '\x00' := by
  have hsteps := scanner.steps c
  rw [h] at hsteps
  cases hsteps with
  | begin _ hbegins =>
      cases hbegins with
      | stop hnul => exact hnul

/-- Only a NUL can end a scan in front of the end of its text. -/
theorem walk_ne_stopped (scanner : Scanner) {text : List Char} (hnul : '\x00' ∉ text)
    (scanned : Scan) : scanner.walk text ≠ .stopped scanned := by
  induction text generalizing scanner with
  | nil =>
      intro h
      cases h
  | cons c text ih =>
      rw [walk]
      cases hnext : scanner.next c with
      | proceed next => exact ih next (fun hmem => hnul (List.mem_cons_of_mem c hmem))
      | stop => exact absurd (by simp [eq_nul_of_next_eq_stop hnext]) hnul
      | unrecognized =>
          intro h
          cases h

end Scanner

/-- The scan of a line, with or without its end, is what a walk through the line comes to. -/
theorem exists_walk_of_scan {text front : String} {scanned : Scan}
    (hfront : front = text ∨ front = text ++ "\n") (hnul : '\x00' ∉ text.toList)
    (h : scan front = .ok scanned) :
    ∃ last, Scanner.walk {} text.toList = .passed last ∧
      scanned.words = last.finish.words := by
  have hrun : ∃ behind, (behind = [] ∨ behind = ['\n']) ∧
      (Scanner.walk {} text.toList).run behind = .ok scanned := by
    rcases hfront with rfl | rfl
    · exact ⟨[], .inl rfl, by rw [← Scanner.run_eq_walk]; exact h⟩
    · have hline : scan (text ++ "\n") = (Scanner.walk {} text.toList).run ['\n'] := by
        simpa using scan_append_newline text ""
      rw [hline] at h
      exact ⟨['\n'], .inr rfl, h⟩
  obtain ⟨behind, hbehind, hrun⟩ := hrun
  cases hwalk : Scanner.walk {} text.toList with
  | passed last =>
      refine ⟨last, rfl, ?_⟩
      rw [hwalk] at hrun
      rcases hbehind with rfl | rfl
      · cases hrun
        rfl
      · rw [Walk.run, Scanner.run_newline] at hrun
        cases hrun
        exact last.finish_words_breakLine
  | stopped ended => exact absurd hwalk (Scanner.walk_ne_stopped _ hnul ended)
  | failed error =>
      rw [hwalk] at hrun
      cases hrun

/-! ## Lines behind lines -/

/-- What stands behind a line break is scanned as if it stood alone, below the lines in front. -/
theorem scan_append_of_walk {text : String} {last : Scanner}
    (h : Scanner.walk {} text.toList = .passed last) (rest : String) :
    scan (text ++ "\n" ++ rest) =
      ((scan rest).map (Scan.below (text.toList.count '\n' + 1) last.finish.words)).mapError
        (ScanError.down (text.toList.count '\n' + 1)) := by
  have hposition : last.position = .behind text.toList := by
    rw [Scanner.position_of_walk h]
    exact (Position.behind_append [] text.toList).symm
  have hbelow : last.breakLine =
      Scanner.below (text.toList.count '\n' + 1) last.close.latestFirst {} := by
    simp [Scanner.breakLine, Scanner.below, hposition, Position.after, Position.behind,
      Position.down, Unfinished.down, Nat.add_comm]
  rw [scan_append_newline, h, Walk.run, Scanner.run_newline, hbelow, Scanner.run_below]
  rfl

/-- The lines of a text have its lexemes: those behind a line break are the ones that they would be
alone. -/
theorem scan_append_line {text front rest : String} {scanned alone : Scan}
    (hfront : front = text ∨ front = text ++ "\n") (hnul : '\x00' ∉ text.toList)
    (h : scan front = .ok scanned) (hrest : scan rest = .ok alone) :
    ∃ whole more, scan (text ++ "\n" ++ rest) = .ok whole ∧ whole.words = scanned.words ++ more ∧
      more.map Token.lexeme = alone.words.map Token.lexeme := by
  obtain ⟨last, hwalk, hwords⟩ := exists_walk_of_scan hfront hnul h
  have hscan := scan_append_of_walk hwalk rest
  rw [hrest] at hscan
  refine ⟨_, alone.words.map (Token.down (text.toList.count '\n' + 1)), hscan, ?_, ?_⟩
  · rw [hwords]
    rfl
  · rw [List.map_map]
    rfl

/-- Behind a text that is content as a whole and a line break, the rest is scanned as it would be
alone, below the lines of the text. An error in front stays the same. -/
theorem scan_across_newline (text rest : String) :
    (∀ error, scan text = .error error → scan (text ++ "\n" ++ rest) = .error error) ∧
      ∀ scanned, scan text = .ok scanned → content text = text.toList →
        (∀ alone, scan rest = .ok alone →
          scan (text ++ "\n" ++ rest) =
            .ok (alone.below (text.toList.count '\n' + 1) scanned.words)) ∧
        ∀ error, scan rest = .error error →
          scan (text ++ "\n" ++ rest) =
            .error (error.down (text.toList.count '\n' + 1)) := by
  refine ⟨?_, ?_⟩
  · intro error herror
    have hextends := extendsScan_line (.inl (Eq.refl text)) rest
    rw [herror] at hextends
    exact hextends
  · intro scanned hscanned hcontent
    obtain ⟨last, hwalk, rfl⟩ := exists_walk_of_content hscanned hcontent
    have hscan := scan_append_of_walk hwalk rest
    refine ⟨?_, ?_⟩
    · intro alone halone
      rw [hscan, halone]
      rfl
    · intro error herror
      rw [hscan, herror]
      rfl

/-- A comment that holds a NUL, behind which a line is scanned, or fails, on the third line. -/
theorem scan_across_newline_comment :
    scan ("a # \x00\nb" ++ "\n" ++ "+ c") =
        .ok ⟨[⟨.identifier, "a", ⟨1, 1⟩⟩, ⟨.identifier, "b", ⟨2, 1⟩⟩, ⟨.operator, "+", ⟨3, 1⟩⟩,
          ⟨.identifier, "c", ⟨3, 3⟩⟩], ⟨.stop, "", ⟨3, 4⟩⟩⟩ ∧
      scan ("a # \x00\nb" ++ "\n" ++ "+ ?") = .error ⟨"?", ⟨3, 3⟩⟩ ∧
      scan ("a ?" ++ "\n" ++ "+ c") = .error ⟨"?", ⟨1, 3⟩⟩ := by
  have hscan : scan "a # \x00\nb" =
      .ok ⟨[⟨.identifier, "a", ⟨1, 1⟩⟩, ⟨.identifier, "b", ⟨2, 1⟩⟩], ⟨.stop, "", ⟨2, 2⟩⟩⟩ := by rfl
  have hcontent : content "a # \x00\nb" = "a # \x00\nb".toList := by decide
  have hrest : scan "+ c" =
      .ok ⟨[⟨.operator, "+", ⟨1, 1⟩⟩, ⟨.identifier, "c", ⟨1, 3⟩⟩], ⟨.stop, "", ⟨1, 4⟩⟩⟩ := by rfl
  have hfails : scan "+ ?" = .error ⟨"?", ⟨1, 3⟩⟩ := by rfl
  have hfirst : scan "a ?" = .error ⟨"?", ⟨1, 3⟩⟩ := by rfl
  refine ⟨?_, ?_, ?_⟩
  · exact ((scan_across_newline "a # \x00\nb" "+ c").2 _ hscan hcontent).1 _ hrest
  · exact ((scan_across_newline "a # \x00\nb" "+ ?").2 _ hscan hcontent).2 _ hfails
  · exact (scan_across_newline "a ?" "+ c").1 _ hfirst

end Fixity
