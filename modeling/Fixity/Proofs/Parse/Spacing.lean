import Fixity.Proofs.Program.WellFormed
import Fixity.Proofs.Reading.Places
import Fixity.Proofs.Token.Spacing

/-! # Spacing has no meaning

Texts with the same tokens in other places come to the same end. -/

namespace Fixity

/-! ## Outcomes that agree -/

/-- Whether two errors have the same reason, and tokens that agree. -/
def ParseError.agrees : ParseError → ParseError → Bool
  | scan error, scan error' => error == error'
  | unexpected token expected, unexpected token' expected' =>
    token.agrees token' && expected == expected'
  | unknownOperator token, unknownOperator token' => token.agrees token'
  | malformedNumber token, malformedNumber token' => token.agrees token'
  | numberOutOfRange token, numberOutOfRange token' => token.agrees token'
  | tooDeep token, tooDeep token' => token.agrees token'
  | _, _ => false

/-- Whether two outcomes are of one kind, with programs or errors that agree. -/
def Outcome.agrees : Outcome → Outcome → Bool
  | parsed program, parsed program' => Program.agrees program program'
  | needsMoreInput, needsMoreInput => true
  | rejected error, rejected error' => error.agrees error'
  | _, _ => false

theorem Token.agrees_moved (token : Token) (position : Position) :
    token.agrees (token.moved position) := by
  simp [agrees]

theorem ParseError.agrees_moved (error : ParseError) (position : Position) :
    error.agrees (error.moved position) := by
  cases error <;> simp [agrees, moved, Token.agrees_moved]

theorem ParseError.agrees_self (error : ParseError) : error.agrees error := by
  cases error <;> simp [agrees, Token.agrees]

theorem Outcome.agrees_self {outcome : Outcome}
    (h : ∀ program, outcome = .parsed program → Program.agrees program program) :
    outcome.agrees outcome := by
  cases outcome with
  | parsed program => exact h program rfl
  | needsMoreInput => rfl
  | rejected error => exact error.agrees_self

namespace Grammar

variable {grammar : Grammar}

/-! ## Tokens in other places -/

theorem advance_moved (progress : Progress) (token : Token) (position : Position) :
    grammar.advance progress (token.moved position) =
      (grammar.advance progress token).mapError (.moved position) := by
  rw [advance, advance, read_moved, mapError_map]

/-- Two rows of tokens lead to the same progress, or to errors that agree. -/
inductive EndsAlike : Except ParseError Progress → Except ParseError Progress → Prop
  | ok {progress} : EndsAlike (.ok progress) (.ok progress)
  | error {error error' : ParseError} : error.agrees error' →
      EndsAlike (.error error) (.error error')

theorem endsAlike_of_lexemes_eq {tokens others : List Token}
    (h : tokens.map Token.lexeme = others.map Token.lexeme) (progress : Progress) :
    EndsAlike (grammar.readAll progress tokens) (grammar.readAll progress others) := by
  induction tokens generalizing others progress with
  | nil =>
      rw [List.map_eq_nil_iff.mp h.symm]
      exact .ok
  | cons token tokens ih =>
      obtain ⟨other, others, rfl, hother, hothers⟩ := List.map_eq_cons_iff.mp h.symm
      rw [readAll_cons, readAll_cons, Token.eq_moved_of_lexeme_eq hother.symm, advance_moved]
      cases grammar.advance progress token with
      | ok next => exact ih hothers.symm next
      | error error => exact .error (error.agrees_moved other.position)

/-- Where a text ends shows in no outcome but that of an expression which is too deep. -/
theorem finish_agrees (progress : Progress) {stop stop' : Token} (h : stop.agrees stop')
    (hself : ∀ program, grammar.finish progress stop = .parsed program →
      Program.agrees program program) :
    (grammar.finish progress stop).agrees (grammar.finish progress stop') := by
  obtain ⟨latestFirst, reading⟩ := progress
  cases reading with
  | operand surroundings =>
      simp only [finish]
      split
      · exact h
      · rfl
  | _ => exact Outcome.agrees_self hself

theorem parse_agrees_of_lexemes_eq {text other : String} {scanned scanned' : Scan}
    (h : scan text = .ok scanned) (h' : scan other = .ok scanned')
    (hwords : scanned.words.map Token.lexeme = scanned'.words.map Token.lexeme)
    (hstop : scanned.stop.lexeme = scanned'.stop.lexeme) :
    (grammar.parse text).agrees (grammar.parse other) := by
  have hself : ∀ program, grammar.parse text = .parsed program →
      Program.agrees program program :=
    fun program hparse => Program.agrees_self (wellFormed_of_parse hparse)
  have halike : EndsAlike (grammar.readAll {} scanned.words) (grammar.readAll {} scanned'.words) :=
    endsAlike_of_lexemes_eq hwords {}
  simp only [parse, h, h', parseScan_eq] at hself ⊢
  generalize grammar.readAll {} scanned.words = read at hself halike
  generalize grammar.readAll {} scanned'.words = read' at halike
  cases halike with
  | ok => exact finish_agrees _ (Token.agrees_iff.mpr hstop) hself
  | error hagrees => exact hagrees

/-- A text whose tokens are written again with other gaps has the same tokens, and comes to the same
end. -/
theorem agrees_of_setsApart {text spaced : String} {scanned : Scan} (h : scan text = .ok scanned)
    (hspaced : SetsApart scanned.words spaced.toList) :
    (∃ scanned', scan spaced = .ok scanned' ∧
      List.Forall₂ (fun token token' => token.agrees token') scanned.tokens scanned'.tokens) ∧
    ∀ grammar : Grammar, (grammar.parse text).agrees (grammar.parse spaced) := by
  obtain ⟨scanned', h', htokens⟩ := exists_scan_of_setsApart h hspaced
  refine ⟨⟨scanned', h', ?_⟩, ?_⟩
  · simp only [Token.agrees_iff]
    have hequal : List.Forall₂ (· = ·) (scanned.tokens.map Token.lexeme)
        (scanned'.tokens.map Token.lexeme) := by
      rw [htokens, List.forall₂_eq_eq_eq]
    exact List.forall₂_map_left_iff.mp (List.forall₂_map_right_iff.mp hequal)
  · intro grammar
    simp only [Scan.tokens, List.map_append] at htokens
    obtain ⟨hwords, hstop⟩ := List.append_inj' htokens (by simp)
    exact parse_agrees_of_lexemes_eq h h' hwords (List.cons.inj hstop).1

/-- A comment may have anything in it, and a carriage return ends it, too. -/
theorem agrees_of_setsApart_sum :
    (({} : Grammar).parse "a+1").agrees (({} : Grammar).parse "\ta # ?\x00\n+#\r1 ") := by
  have hscan : scan "a+1" = .ok ⟨[⟨.identifier, "a", ⟨1, 1⟩⟩, ⟨.operator, "+", ⟨1, 2⟩⟩,
      ⟨.number, "1", ⟨1, 3⟩⟩], ⟨.stop, "", ⟨1, 4⟩⟩⟩ := by rfl
  have htab : IsGap ['\t'] := .last (.white (by decide))
  have hcomment : IsGap ([' '] ++ ('#' :: [' ', '?', '\x00'] ++ ['\n'])) :=
    .cons (.white (by decide)) (.last (.comment (by simp [isLineEnd]) (by decide)))
  have hempty : IsGap ('#' :: [] ++ ['\r']) := .last (.comment (by simp) (by decide))
  have hspace : IsGap [' '] := .last (.white (by decide))
  have hspaced : SetsApart [⟨.identifier, "a", ⟨1, 1⟩⟩, ⟨.operator, "+", ⟨1, 2⟩⟩,
      ⟨.number, "1", ⟨1, 3⟩⟩] "\ta # ?\x00\n+#\r1 ".toList :=
    .cons htab (.cons hcomment (.cons hempty (.nil hspace)))
  exact (agrees_of_setsApart hscan hspaced).2 {}

end Grammar

end Fixity
