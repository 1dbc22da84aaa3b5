import Fixity.Program.Source
import Fixity.Proofs.Program.WellFormed
import Fixity.Proofs.Token.Layout

/-! # The lexemes of canonical source

Canonical source is scanned as a row of lexemes that can be read off the program. -/

namespace Fixity

/-- The lexemes of some items with commas between them. -/
def commaSeparated : List (List Lexeme) → List Lexeme
  | [] => []
  | [item] => item
  | item :: next :: rest => item ++ .symbol ',' :: commaSeparated (next :: rest)

namespace Expr

mutual

def lexemes : Expr → List Lexeme
  | literal value => [⟨.number, value.toText⟩]
  | var name => [⟨.identifier, name⟩]
  | binary symbol left right =>
      .symbol '(' :: left.lexemes ++ ⟨.operator, symbol⟩ :: right.lexemes ++ [.symbol ')']
  | call callee arguments =>
      ⟨.identifier, callee⟩ :: .symbol '(' :: commaSeparated (lexemesOfAll arguments) ++
        [.symbol ')']

def lexemesOfAll : List Expr → List (List Lexeme)
  | [] => []
  | e :: es => e.lexemes :: lexemesOfAll es

end

/-- A bare name stands in parentheses. -/
def statementLexemes : Expr → List Lexeme
  | var name => [.symbol '(', ⟨.identifier, name⟩, .symbol ')']
  | e => e.lexemes

end Expr

def Prototype.lexemes (prototype : Prototype) : List Lexeme :=
  ⟨.identifier, prototype.name⟩ :: .symbol '(' ::
    commaSeparated (prototype.parameters.map fun name => [⟨.identifier, name⟩]) ++ [.symbol ')']

def Declaration.lexemes : Declaration → List Lexeme
  | external prototype => ⟨.external, "extern"⟩ :: prototype.lexemes
  | definition prototype body =>
    if prototype.isAnonymous then body.statementLexemes
    else ⟨.definition, "defn"⟩ :: prototype.lexemes ++
      .symbol '\x7b' :: body.lexemes ++ [.symbol '\x7d']

def Program.lexemes (program : Program) : List Lexeme := program.flatMap Declaration.lexemes

/-! ## Pieces of a layout -/

/-- A text that no unfinished lexeme runs into. -/
def Free (text : List Char) : Prop :=
  ∀ d ∈ text.head?, ∀ lexemeClass : LexemeClass, lexemeClass.continuedBy d = false

/-- Separators are free of what stands in front of them. -/
theorem free_cons {c : Char} (h : c ∈ [' ', '\n', ',', '(', ')']) (text : List Char) :
    Free (c :: text) := by
  intro d hd lexemeClass
  cases hd
  simp only [List.mem_cons, List.not_mem_nil, or_false] at h
  cases lexemeClass <;> rcases h with rfl | rfl | rfl | rfl | rfl <;> decide

/-- In front of free text, the source is laid out as the lexemes. -/
def LaysAs (source : String) (lexemes : List Lexeme) : Prop :=
  ∀ text others, Free text → Lays text others → Lays (source.toList ++ text) (lexemes ++ others)

theorem blank_space : Unicode.isWhiteSpace ' ' := by decide

theorem LaysAs.nil : LaysAs "" [] := fun _ _ _ hlays => hlays

theorem LaysAs.of_admits {lexemeClass : LexemeClass} {source : String}
    (h : lexemeClass.Admits source.toList) : LaysAs source [⟨lexemeClass.kind source, source⟩] := by
  intro text others hfree hlays
  have hlexeme := Lays.lexeme h (fun d hd => hfree d hd lexemeClass) hlays
  simpa [LexemeClass.lexeme] using hlexeme

theorem LaysAs.of_isName {name : String} (h : IsName name) : LaysAs name [⟨.identifier, name⟩] := by
  have hword : LaysAs name [⟨TokenKind.ofWord name, name⟩] := .of_admits h.1
  rwa [h.2] at hword

theorem admits_defn : LexemeClass.word.Admits "defn".toList := by decide

theorem admits_external : LexemeClass.word.Admits "extern".toList := by decide

theorem LaysAs.intercalate_cons {source : String} {sources : List String} {item : List Lexeme}
    {items : List (List Lexeme)} (hitem : LaysAs source item)
    (hitems : LaysAs (", ".intercalate sources) (commaSeparated items))
    (hlength : sources.length = items.length) :
    LaysAs (", ".intercalate (source :: sources)) (commaSeparated (item :: items)) := by
  cases sources with
  | nil =>
      have hnil : items = [] := List.length_eq_zero_iff.mp hlength.symm
      rw [hnil, String.intercalate_singleton]
      exact hitem
  | cons second sources =>
      cases items with
      | nil => simp at hlength
      | cons next items =>
          intro text others hfree hlays
          have hrest := Lays.symbol (by decide : isReservedChar ',')
            (.blank blank_space (hitems text others hfree hlays))
          have hall := hitem _ _ (free_cons (by simp) _) hrest
          rw [String.intercalate_cons_cons, commaSeparated]
          simpa using hall

namespace Expr

@[simp] theorem length_sources (es : List Expr) :
    (sources es).length = (lexemesOfAll es).length := by
  induction es with
  | nil => rfl
  | cons e es ih => simp [sources, lexemesOfAll, ih]

mutual

theorem laysAs_source (e : Expr) (h : e.WellFormed) : LaysAs e.source e.lexemes := by
  match e with
  | literal value =>
      obtain ⟨c, rest, htext, hc, hrest⟩ := Binary64.toList_toText h.1 h.2
      have hadmits : LexemeClass.number.Admits value.toText.toList := by
        rw [htext]
        refine ⟨LexemeClass.begunBy?_of_isDigit hc, ?_⟩
        intro d hd
        simpa [LexemeClass.continuedBy] using hrest d hd
      exact .of_admits hadmits
  | var name => exact .of_isName h
  | binary symbol left right =>
      intro text others hfree hlays
      have hclosing := Lays.symbol (by decide : isReservedChar ')') hlays
      have hright := laysAs_source right h.2.2 _ _ (free_cons (by simp) _) hclosing
      have hoperator := LaysAs.of_admits h.1 _ _ (free_cons (by simp) _) (.blank blank_space hright)
      have hleft := laysAs_source left h.2.1 _ _ (free_cons (by simp) _)
        (.blank blank_space hoperator)
      have hopening := Lays.symbol (by decide : isReservedChar '(') hleft
      simpa [source, lexemes, LexemeClass.kind] using hopening
  | call callee arguments =>
      intro text others hfree hlays
      have hclosing := Lays.symbol (by decide : isReservedChar ')') hlays
      have harguments := laysAs_sources arguments h.2 _ _ (free_cons (by simp) _) hclosing
      have hopening := Lays.symbol (by decide : isReservedChar '(') harguments
      have hcallee := LaysAs.of_isName h.1 _ _ (free_cons (by simp) _) hopening
      simpa [source, lexemes] using hcallee

theorem laysAs_sources (es : List Expr) (h : AllWellFormed es) :
    LaysAs (", ".intercalate (sources es)) (commaSeparated (lexemesOfAll es)) := by
  match es with
  | [] => exact .nil
  | e :: es =>
      exact (laysAs_source e h.1).intercalate_cons (laysAs_sources es h.2) (length_sources es)

end

theorem laysAs_statementSource (e : Expr) (h : e.WellFormed) :
    LaysAs e.statementSource e.statementLexemes := by
  cases e with
  | var name =>
      intro text others hfree hlays
      have hclosing := Lays.symbol (by decide : isReservedChar ')') hlays
      have hname := LaysAs.of_isName h _ _ (free_cons (by simp) _) hclosing
      have hopening := Lays.symbol (by decide : isReservedChar '(') hname
      simpa [statementSource, statementLexemes] using hopening
  | _ => exact laysAs_source _ h

end Expr

/-! ## Declarations -/

theorem laysAs_parameters {names : List String} (h : ∀ name ∈ names, IsName name) :
    LaysAs (", ".intercalate names)
      (commaSeparated (names.map fun name => [⟨.identifier, name⟩])) := by
  induction names with
  | nil => exact .nil
  | cons name names ih =>
      have hname : LaysAs name [⟨.identifier, name⟩] := .of_isName (h name (by simp))
      exact hname.intercalate_cons (ih fun other hother => h other (by simp [hother])) (by simp)

theorem Prototype.laysAs_source {prototype : Prototype} (h : prototype.WellFormed) :
    LaysAs prototype.source prototype.lexemes := by
  intro text others hfree hlays
  have hclosing := Lays.symbol (by decide : isReservedChar ')') hlays
  have hparameters := laysAs_parameters h.parameters _ _ (free_cons (by simp) _) hclosing
  have hopening := Lays.symbol (by decide : isReservedChar '(') hparameters
  have hname := LaysAs.of_isName h.name _ _ (free_cons (by simp) _) hopening
  simpa [source, lexemes] using hname

theorem Declaration.laysAs_source {declaration : Declaration} (h : declaration.WellFormed) :
    LaysAs declaration.source declaration.lexemes := by
  intro text others hfree hlays
  cases h with
  | external hprototype =>
      have hhead := Prototype.laysAs_source hprototype _ _ hfree hlays
      have hword := LaysAs.of_admits (admits_external) _ _ (free_cons (by simp) _)
        (.blank blank_space hhead)
      simpa [source, lexemes, LexemeClass.kind, TokenKind.ofWord] using hword
  | definition hprototype hbody =>
      have hclosing := Lays.symbol (by decide : isReservedChar '\x7d') hlays
      have hinner := Expr.laysAs_source _ hbody _ _ (free_cons (by simp) _)
        (.blank blank_space hclosing)
      have hopening := Lays.symbol (by decide : isReservedChar '\x7b') (.blank blank_space hinner)
      have hhead := Prototype.laysAs_source hprototype _ _ (free_cons (by simp) _)
        (.blank blank_space hopening)
      have hword := LaysAs.of_admits admits_defn _ _ (free_cons (by simp) _)
        (.blank blank_space hhead)
      simpa [source, lexemes, isAnonymous_of_wellFormed hprototype, LexemeClass.kind,
        TokenKind.ofWord] using hword
  | expression hbody =>
      have hanonymous : Prototype.anonymous.isAnonymous = true := by decide
      have hstatement := Expr.laysAs_statementSource _ hbody _ _ hfree hlays
      simpa [source, lexemes, hanonymous] using hstatement

theorem Program.lays_source {program : Program} (h : program.WellFormed) :
    Lays program.source.toList program.lexemes := by
  rw [source, String.toList_join, lexemes]
  induction program with
  | nil => exact .nil
  | cons declaration program ih =>
      have hrest := ih fun other hother => h other (by simp [hother])
      have hline := Declaration.laysAs_source (h declaration (by simp)) _ _
        (free_cons (by simp) _) (.blank (by decide : Unicode.isWhiteSpace '\n') hrest)
      simpa using hline

/-- The canonical source of a well formed program is scanned as its lexemes. -/
theorem Program.scan_source {program : Program} (h : program.WellFormed) :
    ∃ scanned, scan program.source = .ok scanned ∧
      scanned.words.map Token.lexeme = program.lexemes :=
  scan_of_lays (lays_source h)

end Fixity
