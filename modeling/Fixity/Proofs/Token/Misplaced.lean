import Fixity.Proofs.Token.Front

/-! # Misplaced characters

A scan fails at a character that begins nothing and that no word, number or comment goes on with. -/

namespace Fixity

open Unicode (isWhiteSpace isAlphabetic isAlphanumeric)

/-- Neither white space nor the first character of a token or a comment, and not the end of a text
either. -/
def BeginsNothing (c : Char) : Prop :=
  isWhiteSpace c = false ∧ isAlphabetic c = false ∧ c.isDigit = false ∧ c ≠ '#' ∧ c ≠ '\x00' ∧
    isOperatorChar c = false ∧ isReservedChar c = false

instance : DecidablePred BeginsNothing := fun _ => inferInstanceAs (Decidable (_ ∧ _))

/-- A number sign stands behind the last end of a line. -/
def EndsInComment (text : List Char) : Prop := '#' ∈ text.reverse.takeWhile fun c => !isLineEnd c

instance : DecidablePred EndsInComment := fun _ => inferInstanceAs (Decidable (_ ∈ _))

/-- The token stands at the end of the text. -/
def Token.Ends (token : Token) (text : List Char) : Prop :=
  ∃ front, text = front ++ token.text.toList ∧ token.position = .behind front

/-- Whether a character makes a word or a number longer. -/
def TokenKind.lengthenedBy : TokenKind → Char → Bool
  | definition, c | external, c | identifier, c => isAlphanumeric c
  | number, c => c.isDigit || c == '.'
  | operator, _ | reserved, _ | stop, _ => false

/-- The text is cut around a character that has no place in it: what stands in front scans as a
whole, outside of comments, and ends with no word or number that the character lengthens. -/
structure Misplaced (text front : String) (c : Char) (rest : String) : Prop where
  split : text = front ++ String.singleton c ++ rest
  scans : ∃ scanned, scan front = .ok scanned ∧
    ∀ token ∈ scanned.words.getLast?, token.Ends front.toList → token.kind.lengthenedBy c = false
  content : content front = front.toList
  outside : ¬ EndsInComment front.toList
  beginsNothing : BeginsNothing c

/-! ## Characters -/

theorem endsInComment_concat {text : List Char} {c : Char} :
    EndsInComment (text ++ [c]) ↔ isLineEnd c = false ∧ (c = '#' ∨ EndsInComment text) := by
  cases hend : isLineEnd c with
  | false => simp [EndsInComment, hend, eq_comm]
  | true => simp [EndsInComment, hend]

namespace BeginsNothing

variable {c : Char} (h : BeginsNothing c)
include h

theorem not_isLineEnd : isLineEnd c = false := by
  cases hend : isLineEnd c with
  | false => rfl
  | true =>
      have hwhite : isWhiteSpace c := by
        simp only [isLineEnd, Bool.or_eq_true, decide_eq_true_eq] at hend
        rcases hend with rfl | rfl <;> decide
      exact absurd hwhite (by simp [h.1])

theorem lengthenedBy_kind (lexemeClass : LexemeClass) (text : String) :
    (lexemeClass.kind text).lengthenedBy c = lexemeClass.continuedBy c := by
  obtain ⟨-, -, -, -, -, hop, -⟩ := h
  cases lexemeClass with
  | word =>
      simp only [LexemeClass.kind, TokenKind.ofWord]
      split
      · rfl
      · split <;> rfl
  | number => rfl
  | operator => exact hop.symm

end BeginsNothing

theorem Lexeme.WellFormed.kind_of_white_end {lexeme : Lexeme} (h : lexeme.WellFormed) {c : Char}
    (hwhite : isWhiteSpace c) {front before : List Char}
    (htext : front ++ [c] = before ++ lexeme.text.toList) : lexeme.kind = .reserved := by
  cases h with
  | symbol => rfl
  | @ofClass lexemeClass text hadmits =>
      exfalso
      rcases List.eq_nil_or_concat' text with rfl | ⟨init, last, rfl⟩
      · exact hadmits.elim
      · have hlast : c = last := by
          rw [LexemeClass.lexeme, String.toList_ofList, ← List.append_assoc] at htext
          simpa using (List.append_inj' htext rfl).2
        have hcontinued : lexemeClass.continuedBy c := hadmits.continuedBy c (by simp [hlast])
        rw [Unicode.continuedBy_of_isWhiteSpace hwhite] at hcontinued
        cases hcontinued

namespace Scanner

/-! ## Scanners and what they have read -/

/-- The scanner has read a text: where it stands and what it is inside of follow from the text. -/
structure At (front : List Char) (scanner : Scanner) : Prop extends WellFormed scanner where
  position : scanner.position = .behind front
  comment : scanner.unfinished = .comment ↔ EndsInComment front
  lexeme : ∀ lexemeClass start chars, scanner.unfinished = .lexeme lexemeClass start chars →
    ∃ before, front = before ++ chars.reverse ∧ start = .behind before
  nothing : scanner.unfinished = .nothing →
    ∀ token ∈ scanner.latestFirst.head?, token.Ends front → token.kind = .reserved

namespace At

variable {front : List Char} {scanner : Scanner} {c : Char}

theorem start : At [] {} where
  tokens := by simp
  unfinished := nofun
  position := rfl
  comment := by decide
  lexeme := nofun
  nothing := by simp

theorem not_endsInComment_concat (h : scanner.At front)
    (hend : scanner.unfinished = .comment → isLineEnd c) (hc : c ≠ '#') :
    ¬ EndsInComment (front ++ [c]) := by
  rw [endsInComment_concat]
  rintro ⟨hnot, hopened | hopen⟩
  · exact hc hopened
  · rw [hend (h.comment.mpr hopen)] at hnot
    cases hnot

theorem begin {next : Scanner} (h : scanner.At front)
    (hend : scanner.unfinished = .comment → isLineEnd c)
    (hnext : scanner.close.Begins c (.proceed next)) : next.At (front ++ [c]) := by
  have hformed := h.toWellFormed.close.begin hnext
  have hposition : next.position = .behind (front ++ [c]) := by
    rw [hnext.position, position_close, h.position, Position.behind_concat]
  cases hnext with
  | blank hwhite =>
      have houtside := h.not_endsInComment_concat hend (IsPlain.of_isWhiteSpace hwhite).1
      refine ⟨hformed, hposition, iff_of_false nofun houtside, nofun, ?_⟩
      -- No token of a class has white space in it, so none of them ends behind it.
      rintro - token htoken ⟨before, htext, -⟩
      have htokenFormed := hformed.tokens token (List.mem_of_mem_head? htoken)
      exact htokenFormed.kind_of_white_end hwhite htext
  | lexeme hbegun =>
      have houtside := h.not_endsInComment_concat hend (IsPlain.of_begunBy? hbegun).1
      refine ⟨hformed, hposition, iff_of_false nofun houtside, ?_, nofun⟩
      intro _ _ _ hunfinished
      cases hunfinished
      exact ⟨front, rfl, by rw [position_close, h.position]⟩
  | comment hopened =>
      have hinside : EndsInComment (front ++ [c]) := by
        rw [endsInComment_concat]
        exact ⟨by rw [hopened]; decide, .inl hopened⟩
      exact ⟨hformed, hposition, iff_of_true rfl hinside, nofun, nofun⟩
  | symbol hreserved =>
      have houtside := h.not_endsInComment_concat hend (IsPlain.of_isReservedChar hreserved).1
      refine ⟨hformed, hposition, iff_of_false nofun houtside, nofun, ?_⟩
      intro _ token htoken _
      cases htoken
      rfl

theorem next {next : Scanner} (h : scanner.At front) (hnext : scanner.next c = .proceed next) :
    next.At (front ++ [c]) := by
  have hformed := h.toWellFormed.next hnext
  have hposition : next.position = .behind (front ++ [c]) := by
    rw [position_of_next hnext, h.position, Position.behind_concat]
  have hsteps := scanner.steps c
  rw [hnext] at hsteps
  cases hsteps with
  | comment hunfinished hend =>
      have hinside : EndsInComment (front ++ [c]) :=
        endsInComment_concat.mpr ⟨hend, .inr (h.comment.mp hunfinished)⟩
      exact ⟨hformed, hposition, iff_of_true rfl hinside, nofun, nofun⟩
  | lexeme hunfinished hcontinued =>
      have houtside := h.not_endsInComment_concat (c := c)
        (by rw [hunfinished]; exact nofun) (IsPlain.of_continuedBy hcontinued).1
      refine ⟨hformed, hposition, iff_of_false nofun houtside, ?_, nofun⟩
      intro _ _ _ heq
      cases heq
      obtain ⟨before, rfl, rfl⟩ := h.lexeme _ _ _ hunfinished
      exact ⟨before, by simp, rfl⟩
  | begin hend hbegins => exact h.begin hend hbegins

theorem walk {text : List Char} {last : Scanner} (h : scanner.At front)
    (hwalk : scanner.walk text = .passed last) : last.At (front ++ text) := by
  induction text generalizing scanner front with
  | nil =>
      cases hwalk
      rwa [List.append_nil]
  | cons c text ih =>
      obtain ⟨next, hnext, hrest⟩ := exists_next_of_walk hwalk
      rw [List.append_cons]
      exact ih (h.next hnext) hrest

end At

/-! ## The character that a scan fails at -/

@[simp] theorem pass_ne_unrecognized (scanner : Scanner) (c : Char) (unfinished : Unfinished) :
    scanner.pass c unfinished ≠ .unrecognized := by
  intro h
  cases h

theorem begin_eq_unrecognized_iff (scanner : Scanner) (c : Char) :
    scanner.begin c = .unrecognized ↔ BeginsNothing c := by
  unfold begin
  split
  · next hwhite => simp [BeginsNothing, hwhite]
  · next hwhite =>
    cases hbegun : LexemeClass.begunBy? c with
    | some lexemeClass =>
        refine iff_of_false (pass_ne_unrecognized _ _ _) ?_
        rintro ⟨-, halpha, hdigit, -, -, hop, -⟩
        rw [LexemeClass.begunBy?_eq_none_iff.mpr ⟨halpha, hdigit, hop⟩] at hbegun
        cases hbegun
    | none =>
        obtain ⟨halpha, hdigit, hop⟩ := LexemeClass.begunBy?_eq_none_iff.mp hbegun
        simp only [BeginsNothing, hwhite, halpha, hdigit, hop, true_and]
        split
        · next hcomment => simp [hcomment]
        · next hcomment =>
          split
          · next hnul => simp [hnul]
          · next hnul =>
            split
            · next hreserved => simp [hreserved]
            · next hreserved => simp [hcomment, hnul, hreserved]

/-- A scan that ends inside of a lexeme has it as its last word, at the end of the text. -/
theorem At.exists_last_of_lexeme {front : List Char} {scanner : Scanner}
    {lexemeClass : LexemeClass} {start : Position} {chars : List Char} (h : scanner.At front)
    (hunfinished : scanner.unfinished = .lexeme lexemeClass start chars) :
    ∃ text, scanner.finish.words.getLast? = some ⟨lexemeClass.kind text, text, start⟩ ∧
      Token.Ends ⟨lexemeClass.kind text, text, start⟩ front := by
  obtain ⟨before, hfront, hstart⟩ := h.lexeme lexemeClass start chars hunfinished
  refine ⟨.ofList chars.reverse, ?_, before, ?_, hstart⟩
  · simp [Scanner.finish, close, hunfinished]
  · simpa using hfront

/-- A character is misplaced if no comment, word or number goes on with it and it begins nothing. -/
theorem At.next_eq_unrecognized_iff {front : List Char} {scanner : Scanner} {c : Char}
    (h : scanner.At front) :
    scanner.next c = .unrecognized ↔
      (∀ token ∈ scanner.finish.words.getLast?, token.Ends front →
        token.kind.lengthenedBy c = false) ∧ ¬ EndsInComment front ∧ BeginsNothing c := by
  have hbegin := scanner.close.begin_eq_unrecognized_iff c
  obtain ⟨position, unfinished, latestFirst⟩ := scanner
  cases unfinished with
  | nothing =>
      have houtside : ¬ EndsInComment front := fun hinside => by cases h.comment.mpr hinside
      have hlast : ∀ token ∈ (Scanner.finish ⟨position, .nothing, latestFirst⟩).words.getLast?,
          token.Ends front → token.kind.lengthenedBy c = false := by
        intro token htoken hends
        have hkind := h.nothing rfl token (by simpa [finish, close] using htoken) hends
        rw [hkind]
        rfl
      exact hbegin.trans ⟨fun hbegins => ⟨hlast, houtside, hbegins⟩, fun hright => hright.2.2⟩
  | comment =>
      have hinside : EndsInComment front := h.comment.mp rfl
      refine iff_of_false ?_ (fun hright => hright.2.1 hinside)
      simp only [Scanner.next]
      split
      · next hend =>
        rw [begin_eq_unrecognized_iff]
        intro hbegins
        exact absurd hend (by simpa [isLineEnd] using hbegins.not_isLineEnd)
      · exact pass_ne_unrecognized _ _ _
  | lexeme lexemeClass start chars =>
      have houtside : ¬ EndsInComment front := fun hinside => by cases h.comment.mpr hinside
      obtain ⟨text, hlast, hends⟩ := h.exists_last_of_lexeme rfl
      rw [hlast]
      simp only [Scanner.next]
      split
      · next hcontinued =>
        refine iff_of_false (pass_ne_unrecognized _ _ _) ?_
        rintro ⟨hleaves, -, hbegins⟩
        have hnot := hleaves _ rfl hends
        rw [hbegins.lengthenedBy_kind, hcontinued] at hnot
        cases hnot
      · next hcontinued =>
        refine hbegin.trans ⟨fun hbegins => ⟨?_, houtside, hbegins⟩, fun hright => hright.2.2⟩
        intro token htoken _
        cases htoken
        rw [hbegins.lengthenedBy_kind]
        simpa using hcontinued

/-- Up to white space, three characters at most: behind a character that is quoted, two. -/
theorem quoted_cons {c : Char} (h : isWhiteSpace c = false) (rest : List Char) :
    quoted (c :: rest) = .ofList ((c :: rest.takeWhile fun d => !isWhiteSpace d).take 3) := by
  have htake : (c :: rest).takeWhile (fun d => !isWhiteSpace d) =
      c :: rest.takeWhile fun d => !isWhiteSpace d := by
    simp [h]
  rw [quoted, ← htake, List.take_takeWhile]

end Scanner

/-! ## Texts -/

/-- What stands in front of a misplaced character is walked through, up to a scanner that has no
use for the character. -/
theorem misplaced_iff {text front rest : String} {c : Char} :
    Misplaced text front c rest ↔ text = front ++ String.singleton c ++ rest ∧
      ∃ last, Scanner.walk {} front.toList = .passed last ∧ last.next c = .unrecognized := by
  have hat : ∀ {last}, Scanner.walk {} front.toList = .passed last → last.At front.toList :=
    fun hwalk => Scanner.At.start.walk hwalk
  constructor
  · rintro ⟨hsplit, ⟨scanned, hscan, hleaves⟩, hcontent, houtside, hbegins⟩
    obtain ⟨last, hwalk, rfl⟩ := exists_walk_of_content hscan hcontent
    exact ⟨hsplit, last, hwalk,
      (hat hwalk).next_eq_unrecognized_iff.mpr ⟨hleaves, houtside, hbegins⟩⟩
  · rintro ⟨hsplit, last, hwalk, hfails⟩
    obtain ⟨hleaves, houtside, hbegins⟩ := (hat hwalk).next_eq_unrecognized_iff.mp hfails
    have hscan : scan front = .ok last.finish := by
      rw [scan, Scanner.run_eq_walk, hwalk]
      rfl
    have hcontent : content front = front.toList := Scanner.upToNul_of_walk_passed hwalk
    exact ⟨hsplit, ⟨last.finish, hscan, hleaves⟩, hcontent, houtside, hbegins⟩

namespace Misplaced

variable {text front front' rest rest' : String} {c c' : Char}

theorem scan_eq (h : Misplaced text front c rest) :
    scan text = .error
      ⟨.ofList ((c :: rest.toList.takeWhile fun d => !isWhiteSpace d).take 3),
        .behind front.toList⟩ := by
  obtain ⟨hsplit, last, hwalk, hfails⟩ := misplaced_iff.mp h
  have hposition : last.position = .behind front.toList := (Scanner.At.start.walk hwalk).position
  have htext : text.toList = front.toList ++ c :: rest.toList := by simp [hsplit]
  rw [scan, htext, Scanner.run_append_of_walk hwalk, Scanner.run, hfails,
    ← Scanner.quoted_cons h.beginsNothing.1, ← hposition]

/-- No text has two misplaced characters: the error tells the place of the first. -/
theorem unique (h : Misplaced text front c rest) (h' : Misplaced text front' c' rest') :
    front' = front ∧ c' = c ∧ rest' = rest := by
  have hposition : Position.behind front'.toList = .behind front.toList := by
    have herror := h'.scan_eq.symm.trans h.scan_eq
    simp only [Except.error.injEq, ScanError.mk.injEq] at herror
    exact herror.2
  have htext : text.toList = front.toList ++ c :: rest.toList := by simp [h.split]
  have htext' : text.toList = front'.toList ++ c' :: rest'.toList := by simp [h'.split]
  have hfront : front'.toList = front.toList :=
    Position.eq_of_behind_eq ⟨_, htext'.symm⟩ ⟨_, htext.symm⟩ hposition
  rw [htext, hfront, List.append_cancel_left_eq, List.cons.injEq] at htext'
  exact ⟨String.toList_injective hfront, htext'.1.symm, String.toList_injective htext'.2.symm⟩

end Misplaced

theorem exists_misplaced_of_scan {text : String} {error : ScanError}
    (h : scan text = .error error) : ∃ front c rest, Misplaced text front c rest := by
  obtain ⟨front, c, rest, last, htext, hwalk, hfails, -⟩ := Scanner.exists_walk_of_run_eq_error h
  refine ⟨.ofList front, c, .ofList rest, misplaced_iff.mpr ⟨?_, last, ?_, hfails⟩⟩
  · exact String.toList_injective (by simp [htext])
  · rwa [String.toList_ofList]

/-- A text fails to scan if and only if it has a misplaced character. It has only one then, and the
error quotes it at its place. -/
theorem scan_fails_iff_misplaced (text : String) :
    ((∃ error, scan text = .error error) ↔ ∃ front c rest, Misplaced text front c rest) ∧
      ∀ front c rest, Misplaced text front c rest →
        (∀ front' c' rest', Misplaced text front' c' rest' →
          front' = front ∧ c' = c ∧ rest' = rest) ∧
        scan text = .error
          ⟨.ofList ((c :: rest.toList.takeWhile fun d => !isWhiteSpace d).take 3),
            .behind front.toList⟩ := by
  refine ⟨⟨?_, ?_⟩, ?_⟩
  · rintro ⟨error, herror⟩
    exact exists_misplaced_of_scan herror
  · rintro ⟨front, c, rest, hmisplaced⟩
    exact ⟨_, hmisplaced.scan_eq⟩
  · intro front c rest hmisplaced
    exact ⟨fun _ _ _ hother => hmisplaced.unique hother, hmisplaced.scan_eq⟩

/-- A point behind a word, where the same characters have a place in a number and in a comment. -/
theorem scan_fails_iff_misplaced_point :
    Misplaced "f(1.5) # ?\nb.2 c" "f(1.5) # ?\nb" '.' "2 c" ∧
      scan "f(1.5) # ?\nb.2 c" = .error ⟨".2", ⟨2, 2⟩⟩ := by
  have hscan : scan "f(1.5) # ?\nb" = .ok
      ⟨[⟨.identifier, "f", ⟨1, 1⟩⟩, ⟨.reserved, "(", ⟨1, 2⟩⟩, ⟨.number, "1.5", ⟨1, 3⟩⟩,
        ⟨.reserved, ")", ⟨1, 6⟩⟩, ⟨.identifier, "b", ⟨2, 1⟩⟩], ⟨.stop, "", ⟨2, 2⟩⟩⟩ := by rfl
  have hmisplaced : Misplaced "f(1.5) # ?\nb.2 c" "f(1.5) # ?\nb" '.' "2 c" := by
    refine ⟨by decide, ⟨_, hscan, ?_⟩, by decide, by decide, by decide⟩
    intro token htoken _
    cases htoken
    decide
  exact ⟨hmisplaced, ((scan_fails_iff_misplaced _).2 _ _ _ hmisplaced).2⟩

end Fixity
