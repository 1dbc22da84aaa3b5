import Fixity.Proofs.Reading.Run
import Fixity.Proofs.Reading.Surroundings

/-! # Operators in each other's place

Parses with two tables stay in step if the operators of the tables win and lose against each other
alike. -/

namespace Fixity

/-- Partners have one symbol, and which of two operators takes an operand is the same for their
partners. -/
structure Interchanges (partners : Operator → Operator → Prop) : Prop where
  symbol : ∀ {op op'}, partners op op' → op.symbol = op'.symbol
  competes : ∀ {op op' waiting waiting'}, partners op op' → partners waiting waiting' →
    (op.precedence < waiting.rightFloor ↔ op'.precedence < waiting'.rightFloor)

variable {partners : Operator → Operator → Prop}

/-- The same surroundings, except that partners wait. -/
inductive Surroundings.Alike (partners : Operator → Operator → Prop) :
    Surroundings → Surroundings → Prop
  | statement : Alike partners .statement .statement
  | body {prototype} : Alike partners (.body prototype) (.body prototype)
  | group {outer outer'} : Alike partners outer outer' →
      Alike partners (.group outer) (.group outer')
  | argument {callee latestFirst outer outer'} : Alike partners outer outer' →
      Alike partners (.argument callee latestFirst outer) (.argument callee latestFirst outer')
  | operand {left op op' outer outer'} : partners op op' → Alike partners outer outer' →
      Alike partners (.operand left op outer) (.operand left op' outer')

/-- Whether a reading is in front of the expressions of a declaration. -/
def Reading.InHead : Reading → Prop
  | operand _ | afterName .. | afterOperand .. | argument .. => False
  | _ => True

/-- The same reading, except that partners wait. -/
inductive Reading.Alike (partners : Operator → Operator → Prop) : Reading → Reading → Prop
  | head {reading} : reading.InHead → Alike partners reading reading
  | operand {surroundings surroundings'} : surroundings.Alike partners surroundings' →
      Alike partners (.operand surroundings) (.operand surroundings')
  | afterName {name surroundings surroundings'} : surroundings.Alike partners surroundings' →
      Alike partners (.afterName name surroundings) (.afterName name surroundings')
  | afterOperand {e surroundings surroundings'} : surroundings.Alike partners surroundings' →
      Alike partners (.afterOperand e surroundings) (.afterOperand e surroundings')
  | argument {callee latestFirst outer outer'} : outer.Alike partners outer' →
      Alike partners (.argument callee latestFirst outer) (.argument callee latestFirst outer')

structure Advance.Alike (partners : Operator → Operator → Prop) (step step' : Advance) : Prop where
  completed : step.completed = step'.completed
  reading : step.reading.Alike partners step'.reading

structure Progress.Alike (partners : Operator → Operator → Prop) (progress progress' : Progress) :
    Prop where
  latestFirst : progress.latestFirst = progress'.latestFirst
  reading : progress.reading.Alike partners progress'.reading

/-- The same error, or results that are related. -/
inductive InStep {α : Type} (related : α → α → Prop) :
    Except ParseError α → Except ParseError α → Prop
  | refused (error : ParseError) : InStep related (.error error) (.error error)
  | read {a b : α} : related a b → InStep related (.ok a) (.ok b)

namespace InStep

variable {α β : Type} {related : α → α → Prop} {related' : β → β → Prop}

theorem map {x y : Except ParseError α} {f g : α → β} (h : InStep related x y)
    (hrelated : ∀ {a b}, related a b → related' (f a) (g b)) :
    InStep related' (x.map f) (y.map g) := by
  cases h with
  | refused error => exact .refused error
  | read hab => exact .read (hrelated hab)

theorem bind {x y : Except ParseError α} {f g : α → Except ParseError β} (h : InStep related x y)
    (hrelated : ∀ {a b}, related a b → InStep related' (f a) (g b)) :
    InStep related' (x.bind f) (y.bind g) := by
  cases h with
  | refused error => exact .refused error
  | read hab => exact hrelated hab

theorem ite {condition : Prop} [Decidable condition] {yes yes' no no' : Except ParseError α}
    (hyes : condition → InStep related yes yes') (hno : ¬ condition → InStep related no no') :
    InStep related (if condition then yes else no) (if condition then yes' else no') := by
  by_cases h : condition
  · simpa only [if_pos h] using hyes h
  · simpa only [if_neg h] using hno h

end InStep

/-! ## Surroundings -/

namespace Surroundings.Alike

variable {surroundings surroundings' : Surroundings}

theorem depth_eq (h : surroundings.Alike partners surroundings') :
    surroundings.depth = surroundings'.depth := by
  induction h with
  | statement => rfl
  | body => rfl
  | group _ ih => exact congrArg (· + 1) ih
  | argument _ ih => exact congrArg (· + 1) ih
  | operand _ _ ih => exact congrArg (· + 1) ih

theorem complete?_eq (hpartners : Interchanges partners)
    (h : surroundings.Alike partners surroundings') (e : Expr) :
    surroundings.complete? e = surroundings'.complete? e := by
  induction h generalizing e with
  | operand hop _ ih =>
      rw [complete?, complete?, hpartners.symbol hop]
      exact ih _
  | _ => rfl

/-- Partners take the same operands from those that wait. -/
theorem fold (hpartners : Interchanges partners) (h : surroundings.Alike partners surroundings')
    {op op' : Operator} (hop : partners op op') (e : Expr) :
    (surroundings.fold op.precedence e).1 = (surroundings'.fold op'.precedence e).1 ∧
      (surroundings.fold op.precedence e).2.Alike partners
        (surroundings'.fold op'.precedence e).2 := by
  induction h generalizing e with
  | @operand left waiting waiting' outer outer' hwaiting houter ih =>
      have hcompetes := hpartners.competes hop hwaiting
      by_cases hlt : op.precedence < waiting.rightFloor
      · rw [Surroundings.fold, Surroundings.fold, if_pos hlt, if_pos (hcompetes.mp hlt),
          hpartners.symbol hwaiting]
        exact ih _
      · have hge : ¬ op'.precedence < waiting'.rightFloor := fun hlt' => hlt (hcompetes.mpr hlt')
        rw [Surroundings.fold, Surroundings.fold, if_neg hlt, if_neg hge]
        exact ⟨rfl, .operand hwaiting houter⟩
  | statement => exact ⟨rfl, .statement⟩
  | body => exact ⟨rfl, .body⟩
  | group houter => exact ⟨rfl, .group houter⟩
  | argument houter => exact ⟨rfl, .argument houter⟩

end Surroundings.Alike

namespace Grammar

variable {grammar other : Grammar} {token : Token} {surroundings surroundings' : Surroundings}

/-! ## One token -/

theorem exceeds_eq_of_alike (hlimit : grammar.nestingLimit = other.nestingLimit)
    (h : surroundings.Alike partners surroundings') :
    grammar.exceeds surroundings = other.exceeds surroundings' := by
  rw [exceeds, exceeds, hlimit, h.depth_eq]

theorem readNumber_alike (h : surroundings.Alike partners surroundings') :
    InStep (Reading.Alike partners) (readNumber token surroundings)
      (readNumber token surroundings') := by
  unfold readNumber
  split
  · exact .read (.afterOperand h)
  · exact .refused _
  · exact .refused _

theorem readOperand_alike (hlimit : grammar.nestingLimit = other.nestingLimit)
    (h : surroundings.Alike partners surroundings') :
    InStep (Reading.Alike partners) (grammar.readOperand surroundings token)
      (other.readOperand surroundings' token) := by
  rw [readOperand, readOperand, exceeds_eq_of_alike hlimit h]
  refine .ite (fun _ => .refused _) fun _ => .ite (fun _ => .read (.operand (.group h))) fun _ => ?_
  cases token.kind with
  | identifier => exact .read (.afterName h)
  | number => exact readNumber_alike h
  | _ => exact .refused _

theorem readStart_alike (hlimit : grammar.nestingLimit = other.nestingLimit) :
    InStep (Reading.Alike partners) (grammar.readStart token) (other.readStart token) := by
  unfold readStart
  split
  · exact .read (.head trivial)
  · exact .read (.head trivial)
  · exact readOperand_alike hlimit .statement

theorem readParameter_alike (head : HeadKind) (name : String) (latestFirst : List String) :
    InStep (Advance.Alike partners) (readParameter head name latestFirst token)
      (readParameter head name latestFirst token) := by
  unfold readParameter
  refine .ite (fun _ => .read ⟨rfl, .head trivial⟩) fun _ => .ite (fun _ => ?_)
    fun _ => .refused _
  cases head with
  | external => exact .read ⟨rfl, .head trivial⟩
  | definition => exact .read ⟨rfl, .head trivial⟩

theorem readArgument_alike (hlimit : grammar.nestingLimit = other.nestingLimit)
    (h : surroundings.Alike partners surroundings') (callee : String) (latestFirst : List Expr) :
    InStep (Reading.Alike partners) (grammar.readArgument callee latestFirst surroundings token)
      (other.readArgument callee latestFirst surroundings' token) :=
  .ite (fun _ => .read (.afterOperand h)) fun _ => readOperand_alike hlimit (.argument h)

theorem readAfterExpr_alike (hpartners : Interchanges partners)
    (hlimit : grammar.nestingLimit = other.nestingLimit)
    (h : surroundings.Alike partners surroundings') (e : Expr) :
    InStep (Advance.Alike partners) (grammar.readAfterExpr token e surroundings)
      (other.readAfterExpr token e surroundings') := by
  induction h generalizing e with
  | operand hop _ ih =>
      rw [readAfterExpr, readAfterExpr, hpartners.symbol hop]
      exact ih _
  | statement => exact (readStart_alike hlimit).map fun hreading => ⟨rfl, hreading⟩
  | body => exact .ite (fun _ => .read ⟨rfl, .head trivial⟩) fun _ => .refused _
  | group houter => exact .ite (fun _ => .read ⟨rfl, .afterOperand houter⟩) fun _ => .refused _
  | argument houter =>
      refine .ite (fun _ => .read ⟨rfl, .argument houter⟩) fun _ => ?_
      exact (readArgument_alike hlimit houter _ _).map fun hreading => ⟨rfl, hreading⟩

/-- What the tables have for a token, if it is an operator. -/
def LooksUpAlike (partners : Operator → Operator → Prop) (grammar other : Grammar)
    (token : Token) : Prop :=
  token.kind = .operator →
    Option.Rel partners (grammar.operators.get? token.text) (other.operators.get? token.text)

theorem readAfterOperand_alike (hpartners : Interchanges partners)
    (hlimit : grammar.nestingLimit = other.nestingLimit)
    (htoken : LooksUpAlike partners grammar other token)
    (h : surroundings.Alike partners surroundings') (e : Expr) :
    InStep (Advance.Alike partners) (grammar.readAfterOperand e surroundings token)
      (other.readAfterOperand e surroundings' token) := by
  refine .ite (fun hkind => ?_) fun _ => readAfterExpr_alike hpartners hlimit h e
  -- Only what is found matters, not the tables it is found in.
  have hrel := htoken hkind
  generalize grammar.operators.get? token.text = found at hrel ⊢
  generalize other.operators.get? token.text = found' at hrel ⊢
  cases hrel with
  | none => exact .refused _
  | @some op op' hop =>
      obtain ⟨hleft, houter⟩ := h.fold hpartners hop e
      refine .read ⟨rfl, ?_⟩
      rw [hleft]
      exact .operand (.operand hop houter)

/-- At a token for which the tables have partners, two parses stay in step. -/
theorem read_alike (hpartners : Interchanges partners)
    (hlimit : grammar.nestingLimit = other.nestingLimit)
    (htoken : LooksUpAlike partners grammar other token) {reading reading' : Reading}
    (h : reading.Alike partners reading') :
    InStep (Advance.Alike partners) (grammar.read reading token) (other.read reading' token) := by
  cases h with
  | operand hsurroundings =>
      exact (readOperand_alike hlimit hsurroundings).map fun hreading => ⟨rfl, hreading⟩
  | afterName hsurroundings =>
      exact .ite (fun _ => .read ⟨rfl, .argument hsurroundings⟩) fun _ =>
        readAfterOperand_alike hpartners hlimit htoken hsurroundings _
  | afterOperand hsurroundings =>
      exact readAfterOperand_alike hpartners hlimit htoken hsurroundings _
  | argument houter =>
      exact (readArgument_alike hlimit houter _ _).map fun hreading => ⟨rfl, hreading⟩
  | head hhead =>
      cases reading with
      | ready => exact (readStart_alike hlimit).map fun hreading => ⟨rfl, hreading⟩
      | functionName => exact .ite (fun _ => .read ⟨rfl, .head trivial⟩) fun _ => .refused _
      | parameterList => exact .ite (fun _ => .read ⟨rfl, .head trivial⟩) fun _ => .refused _
      | parameter head name latestFirst => exact readParameter_alike head name latestFirst
      | afterParameter head name latestFirst =>
          exact .ite (fun _ => .read ⟨rfl, .head trivial⟩) fun _ =>
            readParameter_alike head name latestFirst
      | bodyStart => exact .ite (fun _ => .read ⟨rfl, .operand .body⟩) fun _ => .refused _
      | operand | afterName | afterOperand | argument => exact hhead.elim

/-! ## All tokens -/

theorem readAll_alike (hpartners : Interchanges partners)
    (hlimit : grammar.nestingLimit = other.nestingLimit) {tokens : List Token}
    (htokens : ∀ token ∈ tokens, LooksUpAlike partners grammar other token)
    {progress progress' : Progress} (h : progress.Alike partners progress') :
    InStep (Progress.Alike partners) (grammar.readAll progress tokens)
      (other.readAll progress' tokens) := by
  induction tokens generalizing progress progress' with
  | nil => exact .read h
  | cons token tokens ih =>
      have htoken := htokens token List.mem_cons_self
      have hread := read_alike hpartners hlimit htoken h.reading
      have hadvance : InStep (Progress.Alike partners) (grammar.advance progress token)
          (other.advance progress' token) := by
        refine hread.map fun hstep => ⟨?_, hstep.reading⟩
        simp only [hstep.completed, h.latestFirst]
      exact hadvance.bind fun hnext =>
        ih (fun token htoken => htokens token (List.mem_cons_of_mem _ htoken)) hnext

theorem finish_eq_of_alike (hpartners : Interchanges partners)
    (hlimit : grammar.nestingLimit = other.nestingLimit) {progress progress' : Progress}
    (h : progress.Alike partners progress') (stop : Token) :
    grammar.finish progress stop = other.finish progress' stop := by
  obtain ⟨latestFirst, reading⟩ := progress
  obtain ⟨latestFirst', reading'⟩ := progress'
  obtain ⟨rfl, hreading⟩ := h
  cases hreading with
  | operand hsurroundings => simp only [finish, exceeds_eq_of_alike hlimit hsurroundings]
  | afterName hsurroundings => simp only [finish, finishExpr, hsurroundings.complete?_eq hpartners]
  | afterOperand hsurroundings =>
      simp only [finish, finishExpr, hsurroundings.complete?_eq hpartners]
  | argument => rfl
  | head hhead =>
      cases reading with
      | operand | afterName | afterOperand | argument => exact hhead.elim
      | _ => rfl

theorem parseScan_eq_of_alike (hpartners : Interchanges partners)
    (hlimit : grammar.nestingLimit = other.nestingLimit) {scanned : Scan}
    (htokens : ∀ token ∈ scanned.words, LooksUpAlike partners grammar other token) :
    grammar.parseScan scanned = other.parseScan scanned := by
  have hstart : Progress.Alike partners {} {} := ⟨rfl, .head trivial⟩
  have hread := readAll_alike hpartners hlimit htokens hstart
  rw [parseScan_eq, parseScan_eq]
  generalize grammar.readAll {} scanned.words = result at hread ⊢
  generalize other.readAll {} scanned.words = result' at hread ⊢
  cases hread with
  | refused error => rfl
  | read halike => exact finish_eq_of_alike hpartners hlimit halike scanned.stop

end Grammar

end Fixity
