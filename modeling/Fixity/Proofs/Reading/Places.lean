import Fixity.Proofs.Reading.Run
import Fixity.Proofs.Token.Lexeme

/-! # Readings do not see places

What a token does to a reading depends on its lexeme alone. -/

namespace Fixity

/-- The same lexeme in another place. -/
def Token.moved (token : Token) (position : Position) : Token := { token with position }

namespace ParseError

def moved (position : Position) : ParseError → ParseError
  | scan error => scan error
  | unexpected token expected => unexpected (token.moved position) expected
  | unknownOperator token => unknownOperator (token.moved position)
  | malformedNumber token => malformedNumber (token.moved position)
  | numberOutOfRange token => numberOutOfRange (token.moved position)
  | tooDeep token => tooDeep (token.moved position)

end ParseError

@[simp] theorem Token.isSymbol_moved (token : Token) (position : Position) (symbol : String) :
    (token.moved position).isSymbol symbol = token.isSymbol symbol := rfl

@[simp] theorem Token.kind_moved (token : Token) (position : Position) :
    (token.moved position).kind = token.kind := rfl

@[simp] theorem Token.text_moved (token : Token) (position : Position) :
    (token.moved position).text = token.text := rfl

theorem Token.eq_moved_of_lexeme_eq {token other : Token} (h : token.lexeme = other.lexeme) :
    other = token.moved other.position := by
  obtain ⟨kind, text, position⟩ := token
  obtain ⟨kind', text', position'⟩ := other
  cases h
  rfl

theorem mapError_map {ε ε' α β : Type} (x : Except ε α) (f : α → β) (g : ε → ε') :
    (x.map f).mapError g = (x.mapError g).map f := by
  cases x <;> rfl

theorem mapError_ite {ε ε' α : Type} (condition : Prop) [Decidable condition] (x y : Except ε α)
    (g : ε → ε') :
    (if condition then x else y).mapError g =
      if condition then x.mapError g else y.mapError g :=
  apply_ite (Except.mapError g) condition x y

namespace Grammar

variable (grammar : Grammar) (token : Token) (position : Position)

/-! ## One token -/

theorem readNumber_moved (surroundings : Surroundings) :
    readNumber (token.moved position) surroundings =
      (readNumber token surroundings).mapError (.moved position) := by
  rw [readNumber, readNumber, Token.text_moved]
  split <;> rfl

theorem readOperand_moved (surroundings : Surroundings) :
    grammar.readOperand surroundings (token.moved position) =
      (grammar.readOperand surroundings token).mapError (.moved position) := by
  rw [readOperand, readOperand, Token.isSymbol_moved, Token.kind_moved, Token.text_moved,
    readNumber_moved, mapError_ite, mapError_ite]
  cases token.kind <;> rfl

theorem readStart_moved :
    grammar.readStart (token.moved position) =
      (grammar.readStart token).mapError (.moved position) := by
  rw [readStart, readStart, Token.kind_moved, readOperand_moved]
  cases token.kind <;> rfl

theorem readParameter_moved (head : HeadKind) (name : String) (latestFirst : List String) :
    readParameter head name latestFirst (token.moved position) =
      (readParameter head name latestFirst token).mapError (.moved position) := by
  rw [readParameter, readParameter, Token.isSymbol_moved, Token.kind_moved, Token.text_moved,
    mapError_ite, mapError_ite]
  cases head <;> rfl

theorem readArgument_moved (callee : String) (latestFirst : List Expr) (outer : Surroundings) :
    grammar.readArgument callee latestFirst outer (token.moved position) =
      (grammar.readArgument callee latestFirst outer token).mapError (.moved position) := by
  rw [readArgument, readArgument, Token.isSymbol_moved, readOperand_moved, mapError_ite]
  rfl

theorem readAfterExpr_moved (e : Expr) (surroundings : Surroundings) :
    grammar.readAfterExpr (token.moved position) e surroundings =
      (grammar.readAfterExpr token e surroundings).mapError (.moved position) := by
  induction surroundings generalizing e with
  | operand left op outer ih => exact ih (.binary op.symbol left e)
  | statement => rw [readAfterExpr, readAfterExpr, readStart_moved, mapError_map]
  | body prototype =>
      rw [readAfterExpr, readAfterExpr, Token.isSymbol_moved, mapError_ite]
      rfl
  | group outer =>
      rw [readAfterExpr, readAfterExpr, Token.isSymbol_moved, mapError_ite]
      rfl
  | argument callee latestFirst outer =>
      rw [readAfterExpr, readAfterExpr, Token.isSymbol_moved, readArgument_moved, mapError_ite,
        mapError_map]
      rfl

theorem readAfterOperand_moved (e : Expr) (surroundings : Surroundings) :
    grammar.readAfterOperand e surroundings (token.moved position) =
      (grammar.readAfterOperand e surroundings token).mapError (.moved position) := by
  rw [readAfterOperand, readAfterOperand, Token.kind_moved, Token.text_moved, readAfterExpr_moved,
    mapError_ite]
  cases grammar.operators.get? token.text <;> rfl

/-- A token is read alike wherever it stands; only an error tells the place. -/
theorem read_moved (reading : Reading) :
    grammar.read reading (token.moved position) =
      (grammar.read reading token).mapError (.moved position) := by
  cases reading with
  | ready => rw [read, read, readStart_moved, mapError_map]
  | functionName head =>
      rw [read, read, Token.kind_moved, mapError_ite]
      rfl
  | parameterList head name =>
      rw [read, read, Token.isSymbol_moved, mapError_ite]
      rfl
  | parameter head name latestFirst =>
      exact readParameter_moved token position head name latestFirst
  | afterParameter head name latestFirst =>
      rw [read, read, Token.isSymbol_moved, readParameter_moved, mapError_ite]
      rfl
  | bodyStart prototype =>
      rw [read, read, Token.isSymbol_moved, mapError_ite]
      rfl
  | operand surroundings => rw [read, read, readOperand_moved, mapError_map]
  | afterName name surroundings =>
      rw [read, read, Token.isSymbol_moved, readAfterOperand_moved, mapError_ite]
      rfl
  | afterOperand e surroundings =>
      exact grammar.readAfterOperand_moved token position e surroundings
  | argument callee latestFirst outer => rw [read, read, readArgument_moved, mapError_map]

variable {grammar}

/-! ## Many tokens -/

theorem advance_of_lexeme_eq {token other : Token} (h : token.lexeme = other.lexeme)
    {progress next : Progress} (hadvance : grammar.advance progress token = .ok next) :
    grammar.advance progress other = .ok next := by
  obtain ⟨step, hread, rfl⟩ := advance_eq_ok_iff.mp hadvance
  refine advance_of_read ?_ progress.latestFirst
  rw [Token.eq_moved_of_lexeme_eq h, read_moved, hread]
  rfl

theorem readAll_of_lexemes_eq {tokens others : List Token}
    (h : tokens.map Token.lexeme = others.map Token.lexeme) {progress last : Progress}
    (hread : grammar.readAll progress tokens = .ok last) :
    grammar.readAll progress others = .ok last := by
  induction tokens generalizing others progress with
  | nil =>
      rw [List.map_eq_nil_iff.mp h.symm]
      exact hread
  | cons token tokens ih =>
      obtain ⟨other, others, rfl, hother, hothers⟩ := List.map_eq_cons_iff.mp h.symm
      obtain ⟨next, hnext, hrest⟩ := bind_eq_ok_iff.mp hread
      rw [readAll_cons, advance_of_lexeme_eq hother.symm hnext]
      exact ih hothers.symm hrest

/-- Declarations that were completed before stay in front of what some tokens complete. -/
theorem readAll_frame (latestFirst : List Declaration) {tokens : List Token}
    {progress last : Progress} (h : grammar.readAll progress tokens = .ok last) :
    grammar.readAll ⟨progress.latestFirst ++ latestFirst, progress.reading⟩ tokens =
      .ok ⟨last.latestFirst ++ latestFirst, last.reading⟩ := by
  induction tokens generalizing progress with
  | nil =>
      cases h
      rfl
  | cons token tokens ih =>
      obtain ⟨next, hnext, hrest⟩ := bind_eq_ok_iff.mp h
      obtain ⟨step, hread, rfl⟩ := advance_eq_ok_iff.mp hnext
      rw [readAll_cons, advance_of_read hread]
      simpa [Except.bind] using ih hrest

end Grammar

end Fixity
