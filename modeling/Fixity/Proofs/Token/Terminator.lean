import Fixity.Parse.Outcome
import Fixity.Proofs.Token.Misplaced

/-! # What a NUL ends

Outside of comments a NUL ends a text; in a comment it is a character as any other. -/

namespace Fixity

open Unicode (isWhiteSpace)

namespace Scanner

/-! ## Outside of comments -/

theorem begin_nul (scanner : Scanner) : scanner.begin '\x00' = .stop := by
  have hwhite : isWhiteSpace '\x00' = false := by decide
  have hbegun : LexemeClass.begunBy? '\x00' = none := by decide
  simp [begin, hwhite, hbegun]

theorem next_nul {scanner : Scanner} (h : scanner.unfinished ≠ .comment) :
    scanner.next '\x00' = .stop := by
  obtain ⟨position, unfinished, latestFirst⟩ := scanner
  cases unfinished with
  | nothing => exact begin_nul _
  | comment => exact absurd rfl h
  | lexeme lexemeClass start chars =>
      have hcontinued : lexemeClass.continuedBy '\x00' = false := by cases lexemeClass <;> decide
      simp only [next, hcontinued, Bool.false_eq_true, if_false]
      exact begin_nul _

/-! ## Inside of comments -/

/-- In a comment, all characters that do not end the line are alike. -/
theorem next_of_comment {scanner : Scanner} (h : scanner.unfinished = .comment) {c : Char}
    (hend : isLineEnd c = false) :
    scanner.next c = .proceed
      ⟨⟨scanner.position.line, scanner.position.column + 1⟩, .comment, scanner.latestFirst⟩ := by
  obtain ⟨hline, hreturn⟩ : c ≠ '\n' ∧ c ≠ '\r' := by simpa [isLineEnd] using hend
  simp [next, h, hline, hreturn, pass, Position.after]

/-! ## Behind an error -/

/-- An error that does not reach to the end of a text quotes nothing behind it. -/
theorem quoted_append_of_nul {text : List Char} (h : quoted (text ++ ['\x00']) = quoted text)
    (more : List Char) : quoted (text ++ more) = quoted text := by
  have hwhite : isWhiteSpace '\x00' = false := by decide
  by_cases hlong : 3 ≤ text.length
  · rw [quoted, quoted, List.take_append_of_le_length hlong]
  · obtain ⟨missing, hmissing⟩ : ∃ missing, 3 - text.length = missing + 1 :=
      Nat.exists_eq_succ_of_ne_zero (by omega)
    have htake : text.take 3 = text := List.take_of_length_le (by omega)
    have hall : (text.takeWhile fun c => !isWhiteSpace c).length ≠ text.length := by
      intro hall
      have hchars := congrArg (fun quoted => quoted.toList.length) h
      simp [quoted, List.take_append, htake, hmissing, List.takeWhile_append, hall, hwhite]
        at hchars
    simp only [quoted, List.take_append, htake, List.takeWhile_append, if_neg hall]

theorem run_append_of_error {scanner : Scanner} {text : List Char} {error : ScanError}
    (h : scanner.run text = .error error) (hnul : scanner.run (text ++ ['\x00']) = .error error)
    (more : List Char) : scanner.run (text ++ more) = .error error := by
  obtain ⟨front, c, rest, last, rfl, hwalk, hfails, rfl⟩ := exists_walk_of_run_eq_error h
  have hmore : ∀ more, scanner.run (front ++ c :: rest ++ more) =
      .error ⟨quoted (c :: rest ++ more), last.position⟩ := by
    intro more
    rw [List.append_assoc, run_append_of_walk hwalk, List.cons_append, run, hfails]
  rw [hmore, Except.error.injEq, ScanError.mk.injEq] at hnul
  rw [hmore, quoted_append_of_nul hnul.1]

/-! ## Texts around a NUL -/

variable {scanner : Scanner} {text : List Char}

theorem run_append_nul {scanned : Scan} (h : scanner.run text = .ok scanned)
    (houtside : ∀ last, scanner.walk text = .passed last → last.unfinished ≠ .comment)
    (rest : List Char) : scanner.run (text ++ '\x00' :: rest) = .ok scanned := by
  rw [run_eq_walk] at h
  cases hwalk : scanner.walk text with
  | passed last =>
      rw [hwalk] at h
      rw [run_append_of_walk hwalk, run, next_nul (houtside last hwalk)]
      exact h
  | stopped ended =>
      rw [hwalk] at h
      rw [run_eq_walk, walk_append_of_stopped hwalk]
      exact h
  | failed error =>
      rw [hwalk] at h
      cases h

theorem run_append_of_comment {c : Char} (hend : isLineEnd c = false)
    (hinside : ∀ last, scanner.walk text = .passed last → last.unfinished = .comment)
    (hquoted : ∀ error, scanner.run text = .error error →
      scanner.run (text ++ ['\x00']) = .error error)
    (rest : List Char) :
    scanner.run (text ++ c :: rest) = scanner.run (text ++ '\x00' :: rest) := by
  cases hwalk : scanner.walk text with
  | passed last =>
      have hcomment := hinside last hwalk
      have hnul : isLineEnd '\x00' = false := by decide
      rw [run_append_of_walk hwalk, run_append_of_walk hwalk, run, run,
        next_of_comment hcomment hend, next_of_comment hcomment hnul]
  | stopped ended =>
      rw [run_eq_walk, walk_append_of_stopped hwalk, run_eq_walk, walk_append_of_stopped hwalk]
  | failed error =>
      have herror : scanner.run text = .error error := by
        rw [run_eq_walk, hwalk]
        rfl
      have hmore := run_append_of_error herror (hquoted error herror)
      rw [hmore, hmore]

end Scanner

/-- Behind a text that scans and leaves no comment open, a NUL and all that follows it are not read.
In a comment any other character that ends no line may stand in its place, unless an error in front
of it quotes it. -/
theorem nul_ends_outside_comments (text rest : String) :
    ((∃ scanned, scan text = .ok scanned) →
      (content text = text.toList → ¬ EndsInComment text.toList) →
        scan (text ++ "\x00" ++ rest) = scan text ∧
        ∀ grammar : Grammar, grammar.parse (text ++ "\x00" ++ rest) = grammar.parse text) ∧
    (EndsInComment text.toList →
      (∀ error, scan text = .error error → scan (text ++ "\x00") = .error error) →
        ∀ c, c ≠ '\n' → c ≠ '\r' →
          scan (text ++ String.singleton c ++ rest) = scan (text ++ "\x00" ++ rest)) := by
  have hcomment : ∀ last, Scanner.walk {} text.toList = .passed last →
      (last.unfinished = .comment ↔ EndsInComment text.toList) :=
    fun last hwalk => (Scanner.At.start.walk hwalk).comment
  have hnul : (text ++ "\x00" ++ rest).toList = text.toList ++ '\x00' :: rest.toList := by simp
  constructor
  · rintro ⟨scanned, hscan⟩ houtside
    have hrest : scan (text ++ "\x00" ++ rest) = scan text := by
      rw [hscan, scan, hnul]
      refine Scanner.run_append_nul hscan (fun last hwalk hinside => ?_) rest.toList
      exact houtside (Scanner.upToNul_of_walk_passed hwalk) ((hcomment last hwalk).mp hinside)
    refine ⟨hrest, fun grammar => ?_⟩
    rw [Grammar.parse, Grammar.parse, hrest]
  · intro hinside hquoted c hline hreturn
    have hend : isLineEnd c = false := by simp [isLineEnd, hline, hreturn]
    have hother : (text ++ String.singleton c ++ rest).toList =
        text.toList ++ c :: rest.toList := by
      simp
    rw [scan, scan, hother, hnul]
    refine Scanner.run_append_of_comment hend (fun last hwalk => ?_) ?_ rest.toList
    · exact (hcomment last hwalk).mpr hinside
    · simpa [scan] using hquoted

/-- A NUL behind a number, with characters behind it that begin nothing, and one in a comment behind
which the text goes on. -/
theorem nul_ends_outside_comments_number :
    scan ("f # (\n1.5" ++ "\x00" ++ "? #") = .ok
        ⟨[⟨.identifier, "f", ⟨1, 1⟩⟩, ⟨.number, "1.5", ⟨2, 1⟩⟩], ⟨.stop, "", ⟨2, 4⟩⟩⟩ ∧
      scan ("f # " ++ "\x00" ++ "?\ng") = .ok
        ⟨[⟨.identifier, "f", ⟨1, 1⟩⟩, ⟨.identifier, "g", ⟨2, 1⟩⟩], ⟨.stop, "", ⟨2, 2⟩⟩⟩ := by
  have hscan : scan "f # (\n1.5" = .ok
      ⟨[⟨.identifier, "f", ⟨1, 1⟩⟩, ⟨.number, "1.5", ⟨2, 1⟩⟩], ⟨.stop, "", ⟨2, 4⟩⟩⟩ := by rfl
  have hother : scan ("f # " ++ String.singleton '?' ++ "?\ng") = .ok
      ⟨[⟨.identifier, "f", ⟨1, 1⟩⟩, ⟨.identifier, "g", ⟨2, 1⟩⟩], ⟨.stop, "", ⟨2, 2⟩⟩⟩ := by rfl
  have hfront : scan "f # " = .ok ⟨[⟨.identifier, "f", ⟨1, 1⟩⟩], ⟨.stop, "", ⟨1, 5⟩⟩⟩ := by rfl
  constructor
  · have houtside : ¬ EndsInComment "f # (\n1.5".toList := by decide
    rw [((nul_ends_outside_comments _ "? #").1 ⟨_, hscan⟩ fun _ => houtside).1, hscan]
  · have hinside : EndsInComment "f # ".toList := by decide
    rw [← (nul_ends_outside_comments "f # " "?\ng").2 hinside (by simp [hfront]) '?' (by decide)
      (by decide), hother]

end Fixity
