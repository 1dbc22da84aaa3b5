import Fixity.Proofs.Program.Cost
import Fixity.Proofs.Program.Height
import Fixity.Proofs.Reading.Depth
import Fixity.Proofs.Reading.Run

/-! # Expressions are nested no deeper than is allowed

Every expression that is read stays within the limit, and so does what surrounds it. -/

namespace Fixity

namespace Grammar

theorem Allows.mono {grammar : Grammar} {depth depth' : Nat} (h : grammar.Allows depth)
    (hle : depth' ≤ depth) : grammar.Allows depth' :=
  fun limit hlimit => Nat.le_trans hle (h limit hlimit)

end Grammar

/-- All expressions that the surroundings hold are within the limit where they stand. -/
def Surroundings.Fits (grammar : Grammar) : Surroundings → Prop
  | statement | body _ => True
  | group outer => outer.Fits grammar
  | argument _ latestFirst outer =>
      grammar.Allows (outer.depth + 1) ∧
        (∀ e ∈ latestFirst, grammar.Allows (e.nesting + (outer.depth + 1))) ∧ outer.Fits grammar
  | operand left _ outer => grammar.Allows (left.nesting + outer.depth) ∧ outer.Fits grammar

/-- An expression that stands in these surroundings is within the limit, and so are they. -/
structure FitsIn (grammar : Grammar) (e : Expr) (surroundings : Surroundings) : Prop where
  nesting : grammar.Allows (e.nesting + surroundings.depth)
  surroundings : surroundings.Fits grammar

/-- All expressions that a reading holds are within the limit where they stand. -/
def Reading.Fits (grammar : Grammar) : Reading → Prop
  | operand surroundings => surroundings.Fits grammar
  | afterName name surroundings => FitsIn grammar (.var name) surroundings
  | afterOperand e surroundings => FitsIn grammar e surroundings
  | argument callee latestFirst outer =>
      (Surroundings.argument callee latestFirst outer).Fits grammar
  | _ => True

def Declaration.Fits (grammar : Grammar) (declaration : Declaration) : Prop :=
  ∀ body ∈ declaration.body?, grammar.Allows body.nesting

structure Advance.Fits (grammar : Grammar) (step : Advance) : Prop where
  completed : ∀ declaration ∈ step.completed, declaration.Fits grammar
  reading : step.reading.Fits grammar

structure Progress.Fits (grammar : Grammar) (progress : Progress) : Prop where
  declarations : ∀ declaration ∈ progress.latestFirst, declaration.Fits grammar
  reading : progress.reading.Fits grammar

variable {grammar : Grammar} {surroundings outer : Surroundings} {e : Expr} {token : Token}

/-! ## Where an expression ends -/

namespace FitsIn

/-- An operation is nested one level deeper than its right operand, which was read one level deeper
than the operation stands. -/
theorem binary {left : Expr} {op : Operator} (h : FitsIn grammar e (.operand left op outer)) :
    FitsIn grammar (.binary op.symbol left e) outer := by
  obtain ⟨hright, hleft, houter⟩ := h
  refine ⟨?_, houter⟩
  have hboth : grammar.Allows (max (left.nesting + outer.depth) (e.nesting + (outer.depth + 1))) :=
    Grammar.allows_max.mpr ⟨hleft, hright⟩
  refine hboth.mono ?_
  rw [Expr.nesting_binary]
  omega

theorem fold (h : FitsIn grammar e surroundings) (precedence : Nat) :
    FitsIn grammar (surroundings.fold precedence e).1 (surroundings.fold precedence e).2 := by
  induction surroundings generalizing e with
  | operand left op outer ih =>
      rw [Surroundings.fold]
      split
      · exact ih h.binary
      · exact h
  | _ => exact h

/-- The whole expression is within the limit in the construct that it stands in. -/
theorem close (h : FitsIn grammar e surroundings) :
    FitsIn grammar (surroundings.whole e) surroundings.base := by
  induction surroundings generalizing e with
  | operand left op outer ih => exact ih h.binary
  | _ => exact h

theorem group (h : FitsIn grammar e (.group outer)) : FitsIn grammar e outer :=
  ⟨h.nesting.mono (Nat.le_succ _), h.surroundings⟩

theorem argument {callee : String} {latestFirst : List Expr}
    (h : FitsIn grammar e (.argument callee latestFirst outer)) :
    (Surroundings.argument callee (e :: latestFirst) outer).Fits grammar := by
  obtain ⟨hnesting, hopen, harguments, houter⟩ := h
  refine ⟨hopen, ?_, houter⟩
  intro argument hargument
  rcases List.mem_cons.mp hargument with rfl | hargument
  · exact hnesting
  · exact harguments argument hargument

end FitsIn

/-- A call is nested one level deeper than its arguments, or not at all. -/
theorem Surroundings.Fits.call {callee : String} {latestFirst : List Expr}
    (h : (Surroundings.argument callee latestFirst outer).Fits grammar) :
    FitsIn grammar (.call callee latestFirst.reverse) outer := by
  obtain ⟨hopen, harguments, houter⟩ := h
  refine ⟨?_, houter⟩
  intro limit hlimit
  have hroom : outer.depth + 1 ≤ limit := hopen limit hlimit
  have hcall : (Expr.call callee latestFirst.reverse).nesting ≤ (limit - outer.depth - 1) + 1 := by
    rw [Expr.nesting_call_le_iff]
    intro argument hargument
    have hargument' : argument.nesting + (outer.depth + 1) ≤ limit :=
      harguments argument (List.mem_reverse.mp hargument) limit hlimit
    omega
  omega

/-! ## One step -/

namespace Grammar

end Grammar

end Fixity
