import Fixity.Proofs.Reading.Opening
import Fixity.Proofs.Token.Lexeme

/-! # How deep a row of lexemes is nested

`Takes` says where a row of lexemes leads, and which depth it needs on the way. -/

namespace Fixity

theorem Token.kind_of_lexeme {token : Token} {kind : TokenKind} {text : String}
    (h : token.lexeme = ⟨kind, text⟩) : token.kind = kind := congrArg Lexeme.kind h

theorem Token.text_of_lexeme {token : Token} {kind : TokenKind} {text : String}
    (h : token.lexeme = ⟨kind, text⟩) : token.text = text := congrArg Lexeme.text h

theorem Token.isSymbol_of_lexeme {token : Token} {c : Char} (h : token.lexeme = .symbol c) :
    token.isSymbol (.ofList [c]) :=
  Token.isSymbol_iff.mpr ⟨kind_of_lexeme h, text_of_lexeme h⟩

/-- A lexeme that can begin an expression. -/
def Lexeme.BeginsOperand (lexeme : Lexeme) : Prop :=
  lexeme = .symbol '(' ∨ lexeme.kind = .identifier ∨ lexeme.kind = .number

theorem Lexeme.BeginsOperand.token {token : Token} (h : token.lexeme.BeginsOperand) :
    token.beginsOperand := by
  rcases h with h | h | h
  · exact .inl (Token.isSymbol_of_lexeme h)
  · exact .inr (.inl h)
  · exact .inr (.inr h)

namespace Grammar

variable {grammar : Grammar}

/-- Whether so many expressions may be open at once. -/
def Allows (grammar : Grammar) (depth : Nat) : Prop := ∀ limit ∈ grammar.nestingLimit, depth ≤ limit

@[simp] theorem allows_zero : grammar.Allows 0 := fun _ _ => Nat.zero_le _

theorem allows_max {depth depth' : Nat} :
    grammar.Allows (max depth depth') ↔ grammar.Allows depth ∧ grammar.Allows depth' := by
  simp only [Allows, Nat.max_le]
  constructor
  · intro h
    exact ⟨fun limit hlimit => (h limit hlimit).1, fun limit hlimit => (h limit hlimit).2⟩
  · intro h limit hlimit
    exact ⟨h.1 limit hlimit, h.2 limit hlimit⟩

theorem exceeds_iff {surroundings : Surroundings} :
    grammar.exceeds surroundings ↔ ¬ grammar.Allows (surroundings.depth + 1) := by
  obtain ⟨operators, nestingLimit⟩ := grammar
  cases nestingLimit with
  | none => simp [exceeds, Allows]
  | some limit =>
      simp only [exceeds, Allows, Option.any_some, decide_eq_true_eq, Option.mem_def,
        Option.some.injEq, forall_eq']
      omega

/-- The lexemes lead from one reading to the other and complete some declarations, if the depth that
they need is allowed. Otherwise one of them is too deep. -/
structure Takes (grammar : Grammar) (depth : Nat) (reading : Reading) (lexemes : List Lexeme)
    (completed : List Declaration) (next : Reading) : Prop where
  passes : grammar.Allows depth → ∀ tokens latestFirst, tokens.map Token.lexeme = lexemes →
    grammar.readAll ⟨latestFirst, reading⟩ tokens = .ok ⟨completed.reverse ++ latestFirst, next⟩
  tooDeep : ¬ grammar.Allows depth → ∀ tokens latestFirst, tokens.map Token.lexeme = lexemes →
    ∃ token, grammar.readAll ⟨latestFirst, reading⟩ tokens = .error (.tooDeep token)

namespace Takes

variable {depth depth' : Nat} {reading next last : Reading} {surroundings : Surroundings}
  {lexeme : Lexeme} {lexemes others : List Lexeme} {completed completed' : List Declaration}

theorem nil (reading : Reading) : grammar.Takes 0 reading [] [] reading := by
  constructor
  · intro _ tokens latestFirst htokens
    rw [List.map_eq_nil_iff.mp htokens]
    rfl
  · exact fun hdeep => absurd allows_zero hdeep

theorem append (h : grammar.Takes depth reading lexemes completed next)
    (h' : grammar.Takes depth' next others completed' last) :
    grammar.Takes (max depth depth') reading (lexemes ++ others) (completed ++ completed')
      last := by
  constructor
  · intro hallows tokens latestFirst htokens
    obtain ⟨hallows, hallows'⟩ := allows_max.mp hallows
    obtain ⟨before, behind, rfl, hbefore, hbehind⟩ := List.map_eq_append_iff.mp htokens
    rw [readAll_append, h.passes hallows before latestFirst hbefore]
    simpa [Except.bind] using h'.passes hallows' behind (completed.reverse ++ latestFirst) hbehind
  · intro hdeep tokens latestFirst htokens
    obtain ⟨before, behind, rfl, hbefore, hbehind⟩ := List.map_eq_append_iff.mp htokens
    by_cases hallows : grammar.Allows depth
    · have hdeep' : ¬ grammar.Allows depth' := fun hallows' =>
        hdeep (allows_max.mpr ⟨hallows, hallows'⟩)
      rw [readAll_append, h.passes hallows before latestFirst hbefore]
      exact h'.tooDeep hdeep' behind _ hbehind
    · obtain ⟨token, htoken⟩ := h.tooDeep hallows before latestFirst hbefore
      exact ⟨token, by rw [readAll_append, htoken]; rfl⟩

theorem of_eq (h : grammar.Takes depth reading lexemes completed next) (hdepth : depth = depth')
    (hlexemes : lexemes = others) : grammar.Takes depth' reading others completed next := by
  subst hdepth hlexemes
  exact h

theorem step (result : Advance)
    (h : ∀ token : Token, token.lexeme = lexeme → grammar.read reading token = .ok result) :
    grammar.Takes 0 reading [lexeme] result.completed.toList result.reading := by
  constructor
  · intro _ tokens latestFirst htokens
    obtain ⟨token, rfl, htoken⟩ := List.map_eq_singleton_iff.mp htokens
    rw [readAll_cons, advance_of_read (h token htoken), reverse_toList]
    rfl
  · exact fun hdeep => absurd allows_zero hdeep

theorem operand
    (h : ∀ token : Token, token.lexeme = lexeme → ¬ grammar.exceeds surroundings →
      grammar.readOperand surroundings token = .ok next) :
    grammar.Takes (surroundings.depth + 1) (.operand surroundings) [lexeme] [] next := by
  constructor
  · intro hallows tokens latestFirst htokens
    obtain ⟨token, rfl, htoken⟩ := List.map_eq_singleton_iff.mp htokens
    have hread : grammar.read (.operand surroundings) token = .ok { reading := next } := by
      rw [read, h token htoken (fun hexceeds => exceeds_iff.mp hexceeds hallows)]
      rfl
    rw [readAll_cons, advance_of_read hread]
    rfl
  · intro hdeep tokens latestFirst htokens
    obtain ⟨token, rfl, htoken⟩ := List.map_eq_singleton_iff.mp htokens
    refine ⟨token, ?_⟩
    have hread : grammar.read (.operand surroundings) token = .error (.tooDeep token) := by
      rw [read, readOperand, if_pos (exceeds_iff.mpr hdeep)]
      rfl
    rw [readAll_cons, advance, hread]
    rfl

/-- Where an expression can begin, its lexemes are taken as in its surroundings. -/
theorem of_opening? (h : grammar.Takes depth (.operand surroundings) lexemes completed next)
    (hbegins : ∃ first rest, lexemes = first :: rest ∧ first.BeginsOperand)
    {ended : Option Declaration} (hopening : reading.opening? = some ⟨ended, surroundings⟩)
    (hname : ∀ name outer, reading ≠ .afterName name outer) :
    grammar.Takes depth reading lexemes (ended.toList ++ completed) next := by
  obtain ⟨first, rest, rfl, hbegins⟩ := hbegins
  have hsame : ∀ tokens latestFirst, tokens.map Token.lexeme = first :: rest →
      grammar.readAll ⟨latestFirst, reading⟩ tokens =
        grammar.readAll ⟨ended.toList ++ latestFirst, .operand surroundings⟩ tokens := by
    intro tokens latestFirst htokens
    obtain ⟨token, others, rfl, rfl, -⟩ := List.map_eq_cons_iff.mp htokens
    have hread := read_of_opening? grammar hopening hbegins.token
      (fun name outer heq => absurd heq (hname name outer))
    rw [readAll_cons, readAll_cons, advance, advance, hread, read]
    cases grammar.readOperand surroundings token <;> rfl
  constructor
  · intro hallows tokens latestFirst htokens
    rw [hsame tokens latestFirst htokens, h.passes hallows tokens _ htokens]
    simp [reverse_toList]
  · intro hdeep tokens latestFirst htokens
    rw [hsame tokens latestFirst htokens]
    exact h.tooDeep hdeep tokens _ htokens

end Takes

end Grammar

end Fixity
