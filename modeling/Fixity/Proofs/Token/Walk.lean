import Fixity.Proofs.Token.Step

/-! # Scanning a text that something follows

A walk is a scan up to a place inside of a text, and what follows continues it. -/

namespace Fixity

open Unicode (isWhiteSpace)

/-- What a scanner comes to in the front of a text. -/
inductive Walk where
  | passed (scanner : Scanner)
  | stopped (scanned : Scan)
  | failed (error : ScanError)

namespace Scanner

def walk (scanner : Scanner) : List Char → Walk
  | [] => .passed scanner
  | c :: rest =>
    match scanner.next c with
    | .proceed scanner => scanner.walk rest
    | .stop => .stopped scanner.finish
    | .unrecognized => .failed ⟨quoted (c :: rest), scanner.position⟩

end Scanner

/-- Goes on with the rest of the text. -/
def Walk.run (rest : List Char) : Walk → Except ScanError Scan
  | passed scanner => scanner.run rest
  | stopped scanned => .ok scanned
  | failed error => .error error

namespace Scanner

/-! ## Continuing -/

theorem quoted_append (text : List Char) {rest : List Char}
    (hrest : ∀ c ∈ rest.head?, isWhiteSpace c) : quoted (text ++ rest) = quoted text := by
  have htake : ∀ n, ((text ++ rest).take n).takeWhile (fun c => !isWhiteSpace c) =
      (text.take n).takeWhile fun c => !isWhiteSpace c := by
    induction text with
    | nil =>
        intro n
        cases rest with
        | nil => simp
        | cons c rest =>
            have hc : isWhiteSpace c := hrest c rfl
            cases n <;> simp [hc]
    | cons c text ih =>
        intro n
        cases n with
        | zero => simp
        | succ n => simp only [List.cons_append, List.take_succ_cons, List.takeWhile_cons, ih n]
  rw [quoted, quoted, htake]

theorem run_append (scanner : Scanner) (text : List Char) {rest : List Char}
    (hrest : ∀ c ∈ rest.head?, isWhiteSpace c) :
    scanner.run (text ++ rest) = (scanner.walk text).run rest := by
  induction text generalizing scanner with
  | nil => rfl
  | cons c text ih =>
      rw [List.cons_append, run, walk]
      cases hnext : scanner.next c with
      | proceed scanner' => exact ih scanner'
      | stop => rfl
      | unrecognized =>
          have hquoted := quoted_append (c :: text) hrest
          rw [List.cons_append] at hquoted
          simp only [Walk.run, hquoted]

theorem run_eq_walk (scanner : Scanner) (text : List Char) :
    scanner.run text = (scanner.walk text).run [] := by
  have hrun : scanner.run (text ++ []) = (scanner.walk text).run [] :=
    scanner.run_append text (by simp)
  rwa [List.append_nil] at hrun

theorem exists_next_of_walk {scanner last : Scanner} {c : Char} {text : List Char}
    (h : scanner.walk (c :: text) = .passed last) :
    ∃ next, scanner.next c = .proceed next ∧ next.walk text = .passed last := by
  rw [walk] at h
  cases hnext : scanner.next c with
  | proceed next =>
      rw [hnext] at h
      exact ⟨next, rfl, h⟩
  | stop =>
      rw [hnext] at h
      cases h
  | unrecognized =>
      rw [hnext] at h
      cases h

/-- Behind what a walk has passed, the scan goes on from the scanner that it has come to. -/
theorem run_append_of_walk {scanner last : Scanner} {text : List Char}
    (h : scanner.walk text = .passed last) (rest : List Char) :
    scanner.run (text ++ rest) = last.run rest := by
  induction text generalizing scanner with
  | nil =>
      cases h
      rfl
  | cons c text ih =>
      obtain ⟨next, hnext, hwalk⟩ := exists_next_of_walk h
      rw [List.cons_append, run, hnext]
      exact ih hwalk

/-- A scan that fails has walked up to the character that it fails at. -/
theorem exists_walk_of_run_eq_error {scanner : Scanner} {text : List Char} {error : ScanError}
    (h : scanner.run text = .error error) :
    ∃ front c rest last, text = front ++ c :: rest ∧ scanner.walk front = .passed last ∧
      last.next c = .unrecognized ∧ error = ⟨quoted (c :: rest), last.position⟩ := by
  induction text generalizing scanner with
  | nil => cases h
  | cons c text ih =>
      rw [run] at h
      cases hnext : scanner.next c with
      | proceed next =>
          rw [hnext] at h
          obtain ⟨front, d, rest, last, rfl, hwalk, hfails, herror⟩ := ih h
          refine ⟨c :: front, d, rest, last, rfl, ?_, hfails, herror⟩
          rw [walk, hnext]
          exact hwalk
      | stop =>
          rw [hnext] at h
          cases h
      | unrecognized =>
          rw [hnext] at h
          cases h
          exact ⟨[], c, text, scanner, rfl, rfl, hnext, rfl⟩

theorem position_of_walk {scanner last : Scanner} {text : List Char}
    (h : scanner.walk text = .passed last) :
    last.position = text.foldl Position.after scanner.position := by
  induction text generalizing scanner with
  | nil =>
      cases h
      rfl
  | cons c text ih =>
      obtain ⟨next, hnext, hwalk⟩ := exists_next_of_walk h
      rw [ih hwalk, position_of_next hnext, List.foldl_cons]

/-- What stands behind a place where the scan ends is not read. -/
theorem walk_append_of_stopped {scanner : Scanner} {text : List Char} {scanned : Scan}
    (h : scanner.walk text = .stopped scanned) (rest : List Char) :
    scanner.walk (text ++ rest) = .stopped scanned := by
  induction text generalizing scanner with
  | nil => cases h
  | cons c text ih =>
      rw [walk] at h
      rw [List.cons_append, walk]
      cases hnext : scanner.next c with
      | proceed next =>
          rw [hnext] at h
          exact ih h
      | stop =>
          rw [hnext] at h
          exact h
      | unrecognized =>
          rw [hnext] at h
          cases h

/-! ## Line breaks -/

/-- The scanner at the start of the next line. -/
def breakLine (scanner : Scanner) : Scanner :=
  { scanner.close with position := scanner.position.after '\n' }

@[simp] theorem finish_words_breakLine (scanner : Scanner) :
    scanner.breakLine.finish.words = scanner.finish.words := by
  obtain ⟨position, unfinished, latestFirst⟩ := scanner
  cases unfinished <;> rfl

/-- A line break closes whatever is unfinished. -/
theorem next_newline (scanner : Scanner) : scanner.next '\n' = .proceed scanner.breakLine := by
  obtain ⟨position, unfinished, latestFirst⟩ := scanner
  have hwhite : isWhiteSpace '\n' := by decide
  cases unfinished with
  | nothing => simp [next, begin, hwhite, pass, breakLine, close]
  | comment => simp [next, begin, hwhite, pass, breakLine, close]
  | lexeme lexemeClass start text =>
      have hcontinued : lexemeClass.continuedBy '\n' = false := by cases lexemeClass <;> decide
      simp [next, hcontinued, begin, hwhite, pass, breakLine, close]

@[simp] theorem run_newline (scanner : Scanner) (rest : List Char) :
    scanner.run ('\n' :: rest) = scanner.breakLine.run rest := by
  rw [run, next_newline]

end Scanner

/-- The lines of a text behind its first ones are scanned from where those lead. -/
theorem scan_append_newline (text rest : String) :
    scan (text ++ "\n" ++ rest) =
      (Scanner.walk {} text.toList).run ('\n' :: rest.toList) := by
  have hlines : (text ++ "\n" ++ rest).toList = text.toList ++ '\n' :: rest.toList := by simp
  have hwhite : ∀ c ∈ ('\n' :: rest.toList).head?, isWhiteSpace c := by
    intro c hc
    cases hc
    decide
  rw [scan, hlines, Scanner.run_append _ _ hwhite]

namespace Scanner

/-! ## Tokens are kept -/

theorem suffix_close (scanner : Scanner) : scanner.latestFirst <:+ scanner.close.latestFirst := by
  unfold close
  split
  · exact List.suffix_cons _ _
  · exact List.suffix_refl _

theorem suffix_of_begins {scanner next : Scanner} {c : Char}
    (h : scanner.Begins c (.proceed next)) : scanner.latestFirst <:+ next.latestFirst := by
  cases h with
  | symbol => exact List.suffix_cons _ _
  | _ => exact List.suffix_refl _

theorem suffix_of_next {scanner next : Scanner} {c : Char}
    (h : scanner.next c = .proceed next) : scanner.latestFirst <:+ next.latestFirst := by
  have hsteps := scanner.steps c
  rw [h] at hsteps
  cases hsteps with
  | begin _ hbegins => exact (suffix_close scanner).trans (suffix_of_begins hbegins)
  | _ => exact List.suffix_refl _

theorem isPrefix_of_run {scanner : Scanner} {text : List Char} {scanned : Scan}
    (h : scanner.run text = .ok scanned) : scanner.latestFirst.reverse <+: scanned.words := by
  have hfinish : ∀ scanner : Scanner, scanner.latestFirst.reverse <+: scanner.finish.words :=
    fun scanner => List.reverse_prefix.mpr scanner.suffix_close
  induction text generalizing scanner with
  | nil =>
      cases h
      exact hfinish scanner
  | cons c text ih =>
      rw [run] at h
      cases hnext : scanner.next c with
      | proceed next =>
          rw [hnext] at h
          exact (List.reverse_prefix.mpr (suffix_of_next hnext)).trans (ih h)
      | stop =>
          rw [hnext] at h
          cases h
          exact hfinish scanner
      | unrecognized =>
          rw [hnext] at h
          cases h

end Scanner

/-! ## Longer texts -/

/-- A scan of a longer text: it has the same error, or a new one, or the tokens and more. -/
def ExtendsScan : Except ScanError Scan → Except ScanError Scan → Prop
  | .error error, longer => longer = .error error
  | .ok scanned, longer => ∀ scanned', longer = .ok scanned' → scanned.words <+: scanned'.words

/-- The rest of a text begins behind a line break, which the front may contain or not. -/
theorem Walk.extendsScan (walk : Walk) {front : List Char} (hfront : front = [] ∨ front = ['\n'])
    (rest : List Char) : ExtendsScan (walk.run front) (walk.run ('\n' :: rest)) := by
  cases walk with
  | passed scanner =>
      have hkept : ∀ scanned, scanner.breakLine.run rest = .ok scanned →
          scanner.finish.words <+: scanned.words := by
        intro scanned hscanned
        have hwords := Scanner.isPrefix_of_run hscanned
        exact hwords
      rcases hfront with rfl | rfl
      · intro scanned hscanned
        rw [Walk.run, Scanner.run_newline] at hscanned
        exact hkept scanned hscanned
      · simp only [Walk.run, Scanner.run_newline]
        intro scanned hscanned
        rw [Scanner.finish_words_breakLine]
        exact hkept scanned hscanned
  | stopped scanned =>
      intro scanned' hscanned
      cases hscanned
      exact List.prefix_refl _
  | failed error => rfl

/-- What stands on later lines does not change the scan of a line. -/
theorem extendsScan_line {text front : String} (hfront : front = text ∨ front = text ++ "\n")
    (rest : String) : ExtendsScan (scan front) (scan (text ++ "\n" ++ rest)) := by
  rw [scan_append_newline]
  rcases hfront with rfl | rfl
  · rw [scan, Scanner.run_eq_walk]
    exact Walk.extendsScan _ (.inl rfl) _
  · have hline : scan (text ++ "\n") = (Scanner.walk {} text.toList).run ['\n'] := by
      simpa using scan_append_newline text ""
    rw [hline]
    exact Walk.extendsScan _ (.inr rfl) _

end Fixity
