import Fixity.Token.Scan

/-! # What one character does

What a scanner does about one character, by cases. -/

namespace Fixity

open Unicode (isWhiteSpace)

/-- A character that ends a comment. -/
def isLineEnd (c : Char) : Bool := c = '\n' || c = '\r'

namespace Scanner

/-- What a scanner that continues nothing does about a character. -/
inductive Begins (scanner : Scanner) (c : Char) : ScanStep → Prop
  | blank : isWhiteSpace c →
      Begins scanner c (.proceed ⟨scanner.position.after c, .nothing, scanner.latestFirst⟩)
  | lexeme {lexemeClass} : LexemeClass.begunBy? c = some lexemeClass →
      Begins scanner c (.proceed ⟨scanner.position.after c,
        .lexeme lexemeClass scanner.position [c], scanner.latestFirst⟩)
  | comment : c = '#' →
      Begins scanner c (.proceed ⟨scanner.position.after c, .comment, scanner.latestFirst⟩)
  | stop : c = '\x00' → Begins scanner c .stop
  | symbol : isReservedChar c →
      Begins scanner c (.proceed ⟨scanner.position.after c, .nothing,
        ⟨.reserved, .ofList [c], scanner.position⟩ :: scanner.latestFirst⟩)
  | unrecognized : Begins scanner c .unrecognized

theorem begins (scanner : Scanner) (c : Char) : Begins scanner c (scanner.begin c) := by
  unfold begin
  split
  · next h => exact .blank h
  · split
    · next h => exact .lexeme h
    · split
      · next h => exact .comment h
      · split
        · next h => exact .stop h
        · split
          · next h => exact .symbol h
          · exact .unrecognized

/-- What a scanner does about a character. -/
inductive Steps (scanner : Scanner) (c : Char) : ScanStep → Prop
  | comment : scanner.unfinished = .comment → isLineEnd c = false →
      Steps scanner c (.proceed ⟨scanner.position.after c, .comment, scanner.latestFirst⟩)
  | lexeme {lexemeClass start chars} : scanner.unfinished = .lexeme lexemeClass start chars →
      lexemeClass.continuedBy c →
      Steps scanner c (.proceed ⟨scanner.position.after c, .lexeme lexemeClass start (c :: chars),
        scanner.latestFirst⟩)
  | begin {step} : (scanner.unfinished = .comment → isLineEnd c) → Begins scanner.close c step →
      Steps scanner c step

theorem steps (scanner : Scanner) (c : Char) : Steps scanner c (scanner.next c) := by
  have hbegins := scanner.close.begins c
  obtain ⟨position, unfinished, latestFirst⟩ := scanner
  cases unfinished with
  | nothing => exact .begin nofun hbegins
  | comment =>
      by_cases hend : isLineEnd c
      · have hnext : next ⟨position, .comment, latestFirst⟩ c =
            (close ⟨position, .comment, latestFirst⟩).begin c := if_pos hend
        exact hnext ▸ .begin (fun _ => hend) hbegins
      · have hnext : next ⟨position, .comment, latestFirst⟩ c =
            pass ⟨position, .comment, latestFirst⟩ c .comment := if_neg hend
        exact hnext ▸ .comment rfl (by simpa using hend)
  | lexeme lexemeClass start text =>
      simp only [next]
      split
      · next hcontinued => exact .lexeme rfl hcontinued
      · exact .begin nofun hbegins

/-! ## Positions -/

@[simp] theorem position_close (scanner : Scanner) : scanner.close.position = scanner.position := by
  unfold close
  split <;> rfl

theorem Begins.position {scanner next : Scanner} {c : Char} (h : scanner.Begins c (.proceed next)) :
    next.position = scanner.position.after c := by
  cases h <;> rfl

theorem position_of_next {scanner next : Scanner} {c : Char} (h : scanner.next c = .proceed next) :
    next.position = scanner.position.after c := by
  have hsteps := scanner.steps c
  rw [h] at hsteps
  cases hsteps with
  | comment => rfl
  | lexeme => rfl
  | begin _ hbegins => rw [hbegins.position, position_close]

end Scanner

end Fixity
