import Fixity.Proofs.Binary64.RoundTrip
import Fixity.Proofs.Operator.Table
import Fixity.Proofs.Parse.Precedence
import Fixity.Proofs.Token.Lexeme

/-! # Parsed programs are well formed

Names and symbols of a parsed program could be scanned again, and its numbers are finite and not
below zero. -/

namespace Fixity

def IsName (text : String) : Prop :=
  LexemeClass.word.Admits text.toList ∧ TokenKind.ofWord text = .identifier

def IsOperatorText (text : String) : Prop := LexemeClass.operator.Admits text.toList

instance (text : String) : Decidable (IsName text) := inferInstanceAs (Decidable (_ ∧ _))

instance (text : String) : Decidable (IsOperatorText text) :=
  inferInstanceAs (Decidable (LexemeClass.operator.Admits text.toList))

mutual

def Expr.WellFormed : Expr → Prop
  | .literal value => value.isFinite ∧ value.negative = false
  | .var name => IsName name
  | .binary symbol left right => IsOperatorText symbol ∧ left.WellFormed ∧ right.WellFormed
  | .call callee arguments => IsName callee ∧ Expr.AllWellFormed arguments

def Expr.AllWellFormed : List Expr → Prop
  | [] => True
  | e :: es => e.WellFormed ∧ Expr.AllWellFormed es

end

structure Prototype.WellFormed (prototype : Prototype) : Prop where
  name : IsName prototype.name
  parameters : ∀ parameter ∈ prototype.parameters, IsName parameter

/-- Only a bare expression may have the anonymous prototype. -/
inductive Declaration.WellFormed : Declaration → Prop
  | external {prototype} : Prototype.WellFormed prototype → WellFormed (.external prototype)
  | definition {prototype body} : Prototype.WellFormed prototype → Expr.WellFormed body →
      WellFormed (.definition prototype body)
  | expression {body} : Expr.WellFormed body → WellFormed (.definition .anonymous body)

def Program.WellFormed (program : Program) : Prop :=
  ∀ declaration ∈ program, Declaration.WellFormed declaration

theorem isAnonymous_of_wellFormed {prototype : Prototype} (h : prototype.WellFormed) :
    prototype.isAnonymous = false := by
  rw [Prototype.isAnonymous, beq_eq_false_iff_ne]
  rintro rfl
  have hbegun : LexemeClass.begunBy? '_' = some .word := h.name.1.1
  exact absurd hbegun (by decide)

/-! ## Agreement

No number of a well formed program is a NaN, so the program agrees with itself. -/

theorem Binary64.agrees_self {x : Binary64} (h : x.isFinite) : x.agrees x := by
  simp [agrees, isNaN_of_isFinite h]

mutual

theorem Expr.agrees_self (e : Expr) (h : e.WellFormed) : e.agrees e := by
  match e with
  | .literal value => exact Binary64.agrees_self h.1
  | .var name => simp [Expr.agrees]
  | .binary symbol left right =>
      have hleft := left.agrees_self h.2.1
      have hright := right.agrees_self h.2.2
      simp [Expr.agrees, hleft, hright]
  | .call callee arguments =>
      have harguments := Expr.allAgree_self arguments h.2
      simp [Expr.agrees, harguments]

theorem Expr.allAgree_self (es : List Expr) (h : Expr.AllWellFormed es) : Expr.allAgree es es := by
  match es with
  | [] => rfl
  | e :: es =>
      have hfirst := e.agrees_self h.1
      have hrest := Expr.allAgree_self es h.2
      simp [Expr.allAgree, hfirst, hrest]

end

theorem Program.agrees_self {program : Program} (h : program.WellFormed) :
    program.agrees program := by
  induction program with
  | nil => rfl
  | cons declaration rest ih =>
      have hrest := ih fun other hother => h other (by simp [hother])
      have hdeclaration : declaration.agrees declaration := by
        cases h declaration (by simp) with
        | external => simp [Declaration.agrees]
        | definition _ hbody => simp [Declaration.agrees, Expr.agrees_self _ hbody]
        | expression hbody => simp [Declaration.agrees, Expr.agrees_self _ hbody]
      simp [Program.agrees, hdeclaration, hrest]

theorem Binary64.eq_of_agrees {x y : Binary64} (hx : x.negative = false) (hy : y.negative = false)
    (h : x.agrees y) : x = y := by
  simp only [agrees, Bool.and_eq_true, Bool.or_eq_true, beq_iff_eq] at h
  rcases h.2 with heq | ⟨hzero, hzero'⟩
  · exact heq
  · cases x
    cases y
    simp_all

mutual

theorem Expr.eq_of_agrees (e f : Expr) (he : e.WellFormed) (hf : f.WellFormed) (h : e.agrees f) :
    e = f := by
  match e with
  | .literal x =>
      cases f with
      | literal y => rw [Binary64.eq_of_agrees he.2 hf.2 h]
      | _ => cases h
  | .var name =>
      cases f with
      | var name' => rw [eq_of_beq h]
      | _ => cases h
  | .binary symbol left right =>
      cases f with
      | binary symbol' left' right' =>
          simp only [Expr.agrees, Bool.and_eq_true, beq_iff_eq] at h
          rw [h.1.1, left.eq_of_agrees left' he.2.1 hf.2.1 h.1.2,
            right.eq_of_agrees right' he.2.2 hf.2.2 h.2]
      | _ => cases h
  | .call callee arguments =>
      cases f with
      | call callee' arguments' =>
          simp only [Expr.agrees, Bool.and_eq_true, beq_iff_eq] at h
          rw [h.1, Expr.eq_of_allAgree arguments arguments' he.2 hf.2 h.2]
      | _ => cases h

theorem Expr.eq_of_allAgree (es fs : List Expr) (hes : Expr.AllWellFormed es)
    (hfs : Expr.AllWellFormed fs) (h : Expr.allAgree es fs) : es = fs := by
  match es with
  | [] =>
      cases fs with
      | nil => rfl
      | cons f fs => cases h
  | e :: es =>
      cases fs with
      | nil => cases h
      | cons f fs =>
          simp only [Expr.allAgree, Bool.and_eq_true] at h
          rw [e.eq_of_agrees f hes.1 hfs.1 h.1, Expr.eq_of_allAgree es fs hes.2 hfs.2 h.2]

end

theorem Declaration.WellFormed.body {prototype : Prototype} {body : Expr}
    (h : (Declaration.definition prototype body).WellFormed) : body.WellFormed := by
  cases h with
  | definition _ hbody => exact hbody
  | expression hbody => exact hbody

theorem Declaration.eq_of_agrees {declaration declaration' : Declaration}
    (h : declaration.WellFormed) (h' : declaration'.WellFormed)
    (hagrees : declaration.agrees declaration') : declaration = declaration' := by
  cases declaration with
  | external prototype =>
      cases declaration' with
      | external prototype' => rw [eq_of_beq hagrees]
      | definition => cases hagrees
  | definition prototype body =>
      cases declaration' with
      | external => cases hagrees
      | definition prototype' body' =>
          simp only [Declaration.agrees, Bool.and_eq_true, beq_iff_eq] at hagrees
          rw [hagrees.1, body.eq_of_agrees body' h.body h'.body hagrees.2]

/-- Only equal programs agree: their numbers have one zero. -/
theorem Program.agrees_iff_eq {a b : Program} (ha : a.WellFormed) (hb : b.WellFormed) :
    a.agrees b ↔ a = b := by
  constructor
  · intro h
    induction a generalizing b with
    | nil =>
        cases b with
        | nil => rfl
        | cons declaration b => cases h
    | cons declaration a ih =>
        cases b with
        | nil => cases h
        | cons declaration' b =>
            rw [Program.WellFormed, List.forall_mem_cons] at ha hb
            simp only [Program.agrees, Bool.and_eq_true] at h
            rw [Declaration.eq_of_agrees ha.1 hb.1 h.1, ih ha.2 hb.2 h.2]
  · rintro rfl
    exact Program.agrees_self ha

/-! ## What is spelled by well formed tokens -/

variable {table : OperatorTable}

mutual

theorem Spells.wellFormed {phrase : Phrase} {tokens : List Token} (h : Spells table phrase tokens)
    (htokens : ∀ token ∈ tokens, token.lexeme.WellFormed) : phrase.expr.WellFormed := by
  match h with
  | .literal _ hvalue => exact Binary64.of_ofNumeral hvalue
  | .var hname => exact (htokens _ (by simp)).admits_of_identifier hname
  | .call hname _ harguments _ =>
      refine ⟨(htokens _ (by simp)).admits_of_identifier hname, ?_⟩
      exact harguments.wellFormed fun token htoken => htokens token (by simp [htoken])
  | .group _ hinner _ =>
      exact hinner.wellFormed fun token htoken => htokens token (by simp [htoken])
  | .binary hleft hkind hop hright =>
      have hsymbol := (htokens _ (by simp)).admits_of_operator hkind
      refine ⟨?_, ?_, ?_⟩
      · rw [OperatorTable.symbol_of_get? hop]
        exact hsymbol
      · exact hleft.wellFormed fun token htoken => htokens token (by simp [htoken])
      · exact hright.wellFormed fun token htoken => htokens token (by simp [htoken])

theorem SpellsArguments.wellFormed {arguments : List Phrase} {tokens : List Token}
    (h : SpellsArguments table arguments tokens)
    (htokens : ∀ token ∈ tokens, token.lexeme.WellFormed) :
    Expr.AllWellFormed (Phrase.exprs arguments) := by
  match h with
  | .nil => trivial
  | .cons hargument _ hrest =>
      refine ⟨?_, ?_⟩
      · exact hargument.wellFormed fun token htoken => htokens token (by simp [htoken])
      · exact hrest.wellFormed fun token htoken => htokens token (by simp [htoken])

end

theorem SpellsParameters.wellFormed {names : List String} {tokens : List Token}
    (h : SpellsParameters names tokens) (htokens : ∀ token ∈ tokens, token.lexeme.WellFormed) :
    ∀ name ∈ names, IsName name := by
  induction h with
  | nil => exact nofun
  | cons hname _ _ ih =>
      intro name hmem
      rcases List.mem_cons.mp hmem with rfl | hmem
      · exact (htokens _ (by simp)).admits_of_identifier hname
      · exact ih (fun token htoken => htokens token (by simp [htoken])) name hmem

theorem SpellsPrototype.wellFormed {prototype : Prototype} {tokens : List Token}
    (h : SpellsPrototype prototype tokens) (htokens : ∀ token ∈ tokens, token.lexeme.WellFormed) :
    prototype.WellFormed := by
  cases h with
  | mk hname _ hparameters _ =>
      refine ⟨(htokens _ (by simp)).admits_of_identifier hname, ?_⟩
      exact hparameters.wellFormed fun token htoken => htokens token (by simp [htoken])

theorem SpellsStatement.wellFormed {statement : Statement} {tokens : List Token}
    (h : SpellsStatement table statement tokens)
    (htokens : ∀ token ∈ tokens, token.lexeme.WellFormed) : statement.declaration.WellFormed := by
  cases h with
  | external _ hprototype =>
      exact .external (hprototype.wellFormed fun token htoken => htokens token (by simp [htoken]))
  | definition _ hprototype _ hbody _ =>
      refine .definition ?_ ?_
      · exact hprototype.wellFormed fun token htoken => htokens token (by simp [htoken])
      · exact hbody.wellFormed fun token htoken => htokens token (by simp [htoken])
  | expression hbody => exact .expression (hbody.wellFormed htokens)

theorem SpellsProgram.wellFormed {statements : List Statement} {tokens : List Token}
    (h : SpellsProgram table statements tokens)
    (htokens : ∀ token ∈ tokens, token.lexeme.WellFormed) :
    Program.WellFormed (statements.map Statement.declaration) := by
  induction h with
  | nil => exact nofun
  | cons hstatement _ ih =>
      intro declaration hmem
      rcases List.mem_cons.mp hmem with rfl | hmem
      · exact hstatement.wellFormed fun token htoken => htokens token (by simp [htoken])
      · exact ih (fun token htoken => htokens token (by simp [htoken])) declaration hmem

theorem wellFormed_of_parse {grammar : Grammar} {text : String} {program : Program}
    (h : grammar.parse text = .parsed program) : program.WellFormed := by
  obtain ⟨scanned, statements, hscan, hwritten, rfl⟩ := written_of_parse h
  exact hwritten.spells.wellFormed (wellFormed_of_scan hscan)

end Fixity
