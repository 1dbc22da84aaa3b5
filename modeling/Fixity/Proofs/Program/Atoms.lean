import Fixity.Proofs.Program.WellFormed
import Fixity.Proofs.Token.Munch
import Mathlib.Data.List.Forall2

/-! # Where the atoms of a program come from

Names, operators and numbers of a program are those among the tokens of its text, in order. -/

namespace Fixity

/-- A part of a program that is written with one token. -/
inductive Atom where
  | name (text : String)
  | operator (symbol : String)
  | literal (value : Binary64)
deriving DecidableEq

namespace Atom

/-- The atom is what the token stands for. -/
inductive ReadFrom (table : OperatorTable) : Atom → Token → Prop
  | name {token} : token.kind = .identifier → ReadFrom table (.name token.text) token
  | operator {token op} : token.kind = .operator → table.get? token.text = some op →
      ReadFrom table (.operator token.text) token
  | literal {token value} : token.kind = .number → Binary64.ofNumeral token.text = .ok value →
      ReadFrom table (.literal value) token

/-- Names are words and no keywords, operators are made of their characters and known to the table,
and numbers are finite and not below zero. -/
def Sound (table : OperatorTable) : Atom → Prop
  | name text => IsWord text.toList ∧ text ≠ "defn" ∧ text ≠ "extern"
  | operator symbol =>
      symbol ≠ "" ∧ (∀ c ∈ symbol.toList, isOperatorChar c) ∧ (table.get? symbol).isSome
  | literal value => value.isFinite ∧ value.negative = false

end Atom

/-! ## The atoms of a program -/

mutual

/-- The atoms of an expression in the order in which they are written. -/
def Expr.atoms : Expr → List Atom
  | .literal value => [.literal value]
  | .var name => [.name name]
  | .binary symbol left right => left.atoms ++ .operator symbol :: right.atoms
  | .call callee arguments => .name callee :: Expr.atomsOfAll arguments

def Expr.atomsOfAll : List Expr → List Atom
  | [] => []
  | e :: es => e.atoms ++ Expr.atomsOfAll es

end

/-- The prototype of a bare expression is not written. -/
def Prototype.atoms (prototype : Prototype) : List Atom :=
  if prototype.isAnonymous then [] else .name prototype.name :: prototype.parameters.map .name

def Declaration.atoms : Declaration → List Atom
  | external prototype => prototype.atoms
  | definition prototype body => prototype.atoms ++ body.atoms

def Program.atoms (program : Program) : List Atom := program.flatMap Declaration.atoms

/-! ## The tokens they are read from -/

/-- Whether a token stands for an atom; all others only give the program its shape. -/
def Token.isAtomic (token : Token) : Bool :=
  token.kind == .identifier || token.kind == .operator || token.kind == .number

/-- The atoms are read from the tokens, one from each that stands for any. -/
def ReadInOrder (table : OperatorTable) (atoms : List Atom) (tokens : List Token) : Prop :=
  List.Forall₂ (Atom.ReadFrom table) atoms (tokens.filter Token.isAtomic)

variable {table : OperatorTable} {atoms others : List Atom} {tokens rest : List Token}
  {token : Token}

namespace ReadInOrder

theorem nil : ReadInOrder table [] [] := List.Forall₂.nil

theorem append (h : ReadInOrder table atoms tokens) (hothers : ReadInOrder table others rest) :
    ReadInOrder table (atoms ++ others) (tokens ++ rest) := by
  rw [ReadInOrder, List.filter_append]
  exact List.rel_append h hothers

theorem cons {atom : Atom} (htoken : atom.ReadFrom table token)
    (h : ReadInOrder table atoms tokens) : ReadInOrder table (atom :: atoms) (token :: tokens) := by
  have hatomic : token.isAtomic := by
    cases htoken with
    | name hkind => simp [Token.isAtomic, hkind]
    | operator hkind _ => simp [Token.isAtomic, hkind]
    | literal hkind _ => simp [Token.isAtomic, hkind]
  rw [ReadInOrder, List.filter_cons_of_pos hatomic]
  exact .cons htoken h

theorem skip (htoken : token.isAtomic = false) (h : ReadInOrder table atoms tokens) :
    ReadInOrder table atoms (token :: tokens) := by
  rwa [ReadInOrder, List.filter_cons_of_neg (by simp [htoken])]

theorem concat (h : ReadInOrder table atoms tokens) (htoken : token.isAtomic = false) :
    ReadInOrder table atoms (tokens ++ [token]) := by
  simpa using h.append (.skip htoken .nil)

end ReadInOrder

theorem Token.isAtomic_of_isSymbol {symbol : String} (h : token.isSymbol symbol) :
    token.isAtomic = false := by
  have hkind : token.kind = .reserved := by
    simp only [isSymbol, Bool.and_eq_true, beq_iff_eq] at h
    exact h.1
  simp [isAtomic, hkind]

theorem OptionalComma.readInOrder (h : OptionalComma tokens) : ReadInOrder table [] tokens := by
  cases h with
  | absent => exact .nil
  | present comma hcomma => exact .skip (Token.isAtomic_of_isSymbol hcomma) .nil

mutual

theorem Spells.readInOrder {phrase : Phrase} {tokens : List Token}
    (h : Spells table phrase tokens) : ReadInOrder table phrase.expr.atoms tokens := by
  match h with
  | .literal hkind hvalue => exact .cons (.literal hkind hvalue) .nil
  | .var hname => exact .cons (.name hname) .nil
  | .call hname hopening harguments hclosing =>
      have hlist := harguments.readInOrder.concat (Token.isAtomic_of_isSymbol hclosing)
      exact .cons (.name hname) (.skip (Token.isAtomic_of_isSymbol hopening) hlist)
  | .group hopening hinner hclosing =>
      have hcontent := hinner.readInOrder.concat (Token.isAtomic_of_isSymbol hclosing)
      exact .skip (Token.isAtomic_of_isSymbol hopening) hcontent
  | .binary hleft hkind hop hright =>
      have hoperation := hleft.readInOrder.append (.cons (.operator hkind hop) hright.readInOrder)
      rw [← OperatorTable.symbol_of_get? hop] at hoperation
      exact hoperation

theorem SpellsArguments.readInOrder {arguments : List Phrase} {tokens : List Token}
    (h : SpellsArguments table arguments tokens) :
    ReadInOrder table (Expr.atomsOfAll (Phrase.exprs arguments)) tokens := by
  match h with
  | .nil => exact .nil
  | .cons hargument hcomma hrest =>
      have hfirst := hargument.readInOrder.append hcomma.readInOrder
      rw [List.append_nil] at hfirst
      exact hfirst.append hrest.readInOrder

end

theorem SpellsParameters.readInOrder {names : List String} (h : SpellsParameters names tokens) :
    ReadInOrder table (names.map .name) tokens := by
  induction h with
  | nil => exact .nil
  | cons hname hcomma _ ih => exact .cons (.name hname) (hcomma.readInOrder.append ih)

theorem SpellsPrototype.isAnonymous_eq_false {prototype : Prototype}
    (h : SpellsPrototype prototype tokens) (htokens : ∀ token ∈ tokens, token.lexeme.WellFormed) :
    prototype.isAnonymous = false :=
  isAnonymous_of_wellFormed (h.wellFormed htokens)

theorem SpellsPrototype.readInOrder {prototype : Prototype} (h : SpellsPrototype prototype tokens)
    (htokens : ∀ token ∈ tokens, token.lexeme.WellFormed) :
    ReadInOrder table prototype.atoms tokens := by
  rw [Prototype.atoms, h.isAnonymous_eq_false htokens]
  cases h with
  | mk hname hopening hparameters hclosing =>
      refine .cons (.name hname) (.skip (Token.isAtomic_of_isSymbol hopening) ?_)
      exact hparameters.readInOrder.concat (Token.isAtomic_of_isSymbol hclosing)

theorem SpellsStatement.readInOrder {statement : Statement}
    (h : SpellsStatement table statement tokens)
    (htokens : ∀ token ∈ tokens, token.lexeme.WellFormed) :
    ReadInOrder table statement.declaration.atoms tokens := by
  cases h with
  | external hword hprototype =>
      refine .skip (by simp [Token.isAtomic, hword]) ?_
      exact hprototype.readInOrder fun token htoken => htokens token (by simp [htoken])
  | @definition word opening closing prototype body tokens others hword hprototype hopening hbody
      hclosing =>
      have hhead : ReadInOrder table prototype.atoms tokens :=
        hprototype.readInOrder fun token htoken => htokens token (by simp [htoken])
      have hbehind := ReadInOrder.skip (Token.isAtomic_of_isSymbol hopening)
        (hbody.readInOrder.concat (Token.isAtomic_of_isSymbol hclosing))
      have hkeyword : word.isAtomic = false := by simp [Token.isAtomic, hword]
      have hall := ReadInOrder.skip hkeyword (hhead.append hbehind)
      simpa [Statement.declaration, Declaration.atoms] using hall
  | expression hbody => exact hbody.readInOrder

theorem SpellsProgram.readInOrder {statements : List Statement}
    (h : SpellsProgram table statements tokens)
    (htokens : ∀ token ∈ tokens, token.lexeme.WellFormed) :
    ReadInOrder table (Program.atoms (statements.map Statement.declaration)) tokens := by
  induction h with
  | nil => exact .nil
  | cons hstatement _ ih =>
      have hfirst := hstatement.readInOrder fun token htoken => htokens token (by simp [htoken])
      have hrest := ih fun token htoken => htokens token (by simp [htoken])
      exact hfirst.append hrest

/-! ## What the tokens say of them -/

theorem SpellsStatement.isAnonymous_iff {statement : Statement}
    (h : SpellsStatement table statement tokens)
    (htokens : ∀ token ∈ tokens, token.lexeme.WellFormed) :
    statement.declaration.prototype.isAnonymous ↔ ∃ body, statement = .expression body := by
  cases h with
  | external _ hprototype =>
      have hnamed := hprototype.isAnonymous_eq_false
        fun token htoken => htokens token (by simp [htoken])
      simp [Statement.declaration, Declaration.prototype, hnamed]
  | definition _ hprototype _ _ _ =>
      have hnamed := hprototype.isAnonymous_eq_false
        fun token htoken => htokens token (by simp [htoken])
      simp [Statement.declaration, Declaration.prototype, hnamed]
  | @expression body _ _ =>
      exact ⟨fun _ => ⟨body, rfl⟩, fun _ => beq_self_eq_true Prototype.anonymous⟩

theorem SpellsProgram.isAnonymous_iff {statements : List Statement}
    (h : SpellsProgram table statements tokens)
    (htokens : ∀ token ∈ tokens, token.lexeme.WellFormed) :
    ∀ statement ∈ statements,
      statement.declaration.prototype.isAnonymous ↔ ∃ body, statement = .expression body := by
  induction h with
  | nil => exact nofun
  | cons hstatement _ ih =>
      intro statement hmem
      rcases List.mem_cons.mp hmem with rfl | hmem
      · exact hstatement.isAnonymous_iff fun token htoken => htokens token (by simp [htoken])
      · exact ih (fun token htoken => htokens token (by simp [htoken])) statement hmem

theorem isWord_of_admits {text : List Char} (h : LexemeClass.word.Admits text) : IsWord text := by
  cases text with
  | nil => exact h.elim
  | cons c more => exact ⟨c, more, rfl, LexemeClass.begunBy?_eq_word_iff.mp h.1, h.2⟩

theorem ne_keyword_of_ofWord {text : String} (h : TokenKind.ofWord text = .identifier) :
    text ≠ "defn" ∧ text ≠ "extern" := by
  constructor <;> rintro rfl <;> exact absurd h (by decide)

theorem Atom.ReadFrom.sound {atom : Atom} (h : atom.ReadFrom table token)
    (htoken : token.lexeme.WellFormed) : atom.Sound table := by
  cases h with
  | name hkind =>
      obtain ⟨hadmits, hword⟩ := htoken.admits_of_identifier hkind
      exact ⟨isWord_of_admits hadmits, ne_keyword_of_ofWord hword⟩
  | operator hkind hop =>
      have hadmits := htoken.admits_of_operator hkind
      refine ⟨?_, hadmits.continuedBy, by simp [hop]⟩
      intro hempty
      rw [show token.lexeme.text = "" from hempty] at hadmits
      exact hadmits
  | literal _ hvalue => exact Binary64.of_ofNumeral hvalue

theorem ReadInOrder.sound (h : ReadInOrder table atoms tokens)
    (htokens : ∀ token ∈ tokens, token.lexeme.WellFormed) : ∀ atom ∈ atoms, atom.Sound table := by
  have hatomic : ∀ token ∈ tokens.filter Token.isAtomic, token.lexeme.WellFormed :=
    fun token htoken => htokens token (List.mem_of_mem_filter htoken)
  rw [ReadInOrder] at h
  generalize tokens.filter Token.isAtomic = atomic at h hatomic
  induction h with
  | nil => exact nofun
  | @cons first token _ _ hfirst _ ih =>
      intro atom hmem
      rcases List.mem_cons.mp hmem with rfl | hmem
      · exact hfirst.sound (hatomic token List.mem_cons_self)
      · exact ih (fun other hother => hatomic other (List.mem_cons_of_mem _ hother)) atom hmem

/-! ## Parsed programs -/

/-- The atoms of a parsed program are the names, operators and numerals of its text, in order, and
just its bare expressions have no prototype of their own. -/
theorem atoms_of_parse (grammar : Grammar) (text : String) (program : Program)
    (h : grammar.parse text = .parsed program) :
    ∃ scanned statements, scan text = .ok scanned ∧
      SpellsProgram grammar.operators statements scanned.words ∧
      statements.map Statement.declaration = program ∧
      (∀ statement ∈ statements,
        statement.declaration.prototype.isAnonymous ↔ ∃ body, statement = .expression body) ∧
      ReadInOrder grammar.operators program.atoms scanned.words ∧
      (∀ atom ∈ program.atoms, atom.Sound grammar.operators) ∧ program.agrees program := by
  have hagrees := Program.agrees_self (wellFormed_of_parse h)
  obtain ⟨scanned, statements, hscan, ⟨hspells, -⟩, rfl⟩ := written_of_parse h
  have htokens := wellFormed_of_scan hscan
  have hread := hspells.readInOrder htokens
  exact ⟨scanned, statements, hscan, hspells, rfl, hspells.isAnonymous_iff htokens, hread,
    hread.sound htokens, hagrees⟩

/-- A table may have operators for texts that are none; no text makes use of them. -/
theorem atoms_of_parse_odd_table :
    let table : OperatorTable := .ofList [⟨"|>", 3, .left⟩, ⟨"sin", 9, .right⟩, ⟨"", 0, .left⟩]
    ∃ program, ({ operators := table } : Grammar).parse
        "extern sin(x) defn f(a b) \x7b a |> 2.5 \x7d f(sin(y))" = .parsed program ∧
      program.atoms = [.name "sin", .name "x", .name "f", .name "a", .name "b", .name "a",
        .operator "|>", .literal (.ofBits 0x4004000000000000), .name "f", .name "sin", .name "y"] ∧
      (∀ atom ∈ program.atoms, atom.Sound table) ∧ program.agrees program := by
  intro table
  have hatoms : (({ operators := table } : Grammar).parse
      "extern sin(x) defn f(a b) \x7b a |> 2.5 \x7d f(sin(y))").program?.map Program.atoms =
        some [.name "sin", .name "x", .name "f", .name "a", .name "b", .name "a",
          .operator "|>", .literal (.ofBits 0x4004000000000000), .name "f", .name "sin",
          .name "y"] := by
    decide +kernel
  obtain ⟨program, hprogram, hlist⟩ := Option.map_eq_some_iff.mp hatoms
  have hparse := Outcome.program?_eq_some_iff.mp hprogram
  obtain ⟨_, _, -, -, -, -, -, hsound, hagrees⟩ := atoms_of_parse _ _ program hparse
  exact ⟨program, hparse, hlist, hsound, hagrees⟩

end Fixity
