import Fixity.Proofs.Cursor.Basic
import Fixity.Proofs.Reading.Depth

/-! # The discipline of the cursor

Every routine ends, stays on the tokens and within the limit, and closes again what it opened. -/

namespace Fixity

theorem Grammar.full_iff {grammar : Grammar} {depth : Nat} :
    grammar.full depth ↔ ¬ grammar.Allows (depth + 1) := by
  obtain ⟨operators, nestingLimit⟩ := grammar
  cases nestingLimit with
  | none => simp [full, Allows]
  | some limit =>
      simp only [full, Allows, Option.any_some, decide_eq_true_eq, Option.mem_def,
        Option.some.injEq, forall_eq']
      omega

/-- The cursor is on a token, and not too many expressions are open there. -/
structure Cursor.Sound (grammar : Grammar) (scan : Scan) (cursor : Cursor) : Prop where
  place_le : cursor.place ≤ scan.words.length
  allows : grammar.Allows cursor.depth

theorem Cursor.Sound.deeper {grammar : Grammar} {scan : Scan} {start : Trail}
    (h : start.now.Sound grammar scan) (hfull : ¬ grammar.full start.now.depth) :
    start.deeper.now.Sound grammar scan where
  place_le := h.place_le
  allows := by simpa [Grammar.full_iff] using hfull

namespace Routine

variable {grammar : Grammar} {scan : Scan} {α β : Type}

/-! ## What routines may do -/

/-- The cursor has come to a place that is not before the one it was at, and as many expressions are
open there. On the way, it was sound and had those open all the time. -/
structure Leads (grammar : Grammar) (scan : Scan) (start last : Trail) : Prop where
  place_le : start.now.place ≤ last.now.place
  depth_eq : last.now.depth = start.now.depth
  sound : last.now.Sound grammar scan
  passed : ∃ passed, last.history = passed ++ start.history ∧
    ∀ cursor ∈ passed, cursor.Sound grammar scan ∧ start.now.depth ≤ cursor.depth

namespace Leads

variable {start next last : Trail}

theorem refl (hsound : start.now.Sound grammar scan) : Leads grammar scan start start where
  place_le := Nat.le_refl _
  depth_eq := rfl
  sound := hsound
  passed := ⟨[], rfl, by simp⟩

theorem trans (h : Leads grammar scan start next) (h' : Leads grammar scan next last) :
    Leads grammar scan start last where
  place_le := Nat.le_trans h.place_le h'.place_le
  depth_eq := h'.depth_eq.trans h.depth_eq
  sound := h'.sound
  passed := by
    obtain ⟨passed, hpassed, hall⟩ := h.passed
    obtain ⟨passed', hpassed', hall'⟩ := h'.passed
    refine ⟨passed' ++ passed, by rw [hpassed', hpassed, List.append_assoc], ?_⟩
    intro cursor hcursor
    rcases List.mem_append.mp hcursor with hcursor | hcursor
    · exact ⟨(hall' cursor hcursor).1, h.depth_eq ▸ (hall' cursor hcursor).2⟩
    · exact hall cursor hcursor

theorem onward (hsound : start.now.Sound grammar scan)
    (hplace : start.now.place < scan.words.length) : Leads grammar scan start start.onward where
  place_le := Nat.le_succ _
  depth_eq := rfl
  sound := ⟨hplace, hsound.allows⟩
  passed := ⟨[start.onward.now], rfl, by simpa using ⟨hplace, hsound.allows⟩⟩

/-- While an expression is open, one more is open than in front of it. -/
theorem inside (h : Leads grammar scan start.deeper last)
    (hsound : start.deeper.now.Sound grammar scan) :
    ∃ inside, inside ≠ [] ∧ last.higher.history = last.higher.now :: inside ++ start.history ∧
      ∀ cursor ∈ inside, cursor.Sound grammar scan ∧ start.now.depth < cursor.depth := by
  obtain ⟨passed, hpassed, hall⟩ := h.passed
  refine ⟨passed ++ [start.deeper.now], by simp, by simp [hpassed], ?_⟩
  intro cursor hcursor
  rcases List.mem_append.mp hcursor with hcursor | hcursor
  · exact hall cursor hcursor
  · rw [List.mem_singleton.mp hcursor]
    exact ⟨hsound, Nat.lt_succ_self _⟩

theorem enclosed (h : Leads grammar scan start.deeper last)
    (hsound : start.deeper.now.Sound grammar scan) : Leads grammar scan start last.higher := by
  have hdepth : last.higher.now.depth = start.now.depth := by
    rw [Trail.higher_now, h.depth_eq, Trail.deeper_now, Nat.add_sub_cancel]
  have hclosed : last.higher.now.Sound grammar scan :=
    ⟨h.sound.place_le, fun limit hlimit =>
      hdepth ▸ Nat.le_of_succ_le (hsound.allows limit hlimit)⟩
  obtain ⟨inside, -, hhistory, hall⟩ := h.inside hsound
  refine ⟨h.place_le, hdepth, hclosed, last.higher.now :: inside, hhistory, ?_⟩
  intro cursor hcursor
  rcases List.mem_cons.mp hcursor with rfl | hcursor
  · exact ⟨hclosed, Nat.le_of_eq hdepth.symm⟩
  · exact ⟨(hall cursor hcursor).1, Nat.le_of_lt (hall cursor hcursor).2⟩

end Leads

/-- The routine has an end. It does to the trail what routines may do, it looks at nothing but
tokens, and if it comes to something, the cursor has gained so many tokens. -/
def Proceeds (grammar : Grammar) (scan : Scan) (gain : α → Nat) (x : Nat → Routine α)
    (start : Trail) : Prop :=
  Finishes x start fun result last => Leads grammar scan start last ∧ result ≠ .error .outside ∧
    ∀ a, result = .ok a → start.now.place + gain a ≤ last.now.place

/-- The routine proceeds wherever it begins. -/
def Advances (grammar : Grammar) (scan : Scan) (gain : α → Nat) (x : Nat → Routine α) : Prop :=
  ∀ start : Trail, start.now.Sound grammar scan → Proceeds grammar scan gain x start

namespace Proceeds

variable {gain : α → Nat} {x y : Nat → Routine α} {start : Trail}

theorem pure {a : α} (hsound : start.now.Sound grammar scan) (hgain : gain a = 0) :
    Proceeds grammar scan gain (fun _ => pure a) start := by
  refine ⟨.ok a, start, .of_forall fun _ => rfl, .refl hsound, nofun, ?_⟩
  rintro _ ⟨⟩
  rw [hgain, Nat.add_zero]

theorem throw {reason : Break} (hsound : start.now.Sound grammar scan) (h : reason ≠ .outside) :
    Proceeds grammar scan gain (fun _ => throw reason) start :=
  ⟨.error reason, start, .of_forall fun _ => rfl, .refl hsound, by simpa using h, nofun⟩

theorem call (h : Proceeds grammar scan gain x start) (hcall : ∀ calls, y (calls + 1) = x calls) :
    Proceeds grammar scan gain y start :=
  Finishes.call h hcall

/-- What a routine has gained is taken from what is to be gained behind it. -/
theorem bind {gain' : β → Nat} {f : α → Nat → Routine β} (hx : Proceeds grammar scan gain x start)
    (hf : ∀ a next, Leads grammar scan start next → start.now.place + gain a ≤ next.now.place →
      Proceeds grammar scan (fun b => gain' b - gain a) (f a) next) :
    Proceeds grammar scan gain' (fun calls => x calls >>= fun a => f a calls) start := by
  refine Finishes.bind hx ?_ ?_
  · rintro reason last ⟨hleads, hinside, -⟩
    exact ⟨hleads, by simpa using hinside, nofun⟩
  · rintro a next ⟨hleads, -, hgain⟩
    refine (hf a next hleads (hgain a rfl)).mono ?_
    rintro result last ⟨hleads', hinside, hgain'⟩
    refine ⟨hleads.trans hleads', hinside, fun b hb => ?_⟩
    have hfirst : start.now.place + gain a ≤ next.now.place := hgain a rfl
    have hsecond : next.now.place + (gain' b - gain a) ≤ last.now.place := hgain' b hb
    omega

theorem mono {gain' : α → Nat} (hx : Proceeds grammar scan gain x start)
    (h : ∀ a, gain' a ≤ gain a) : Proceeds grammar scan gain' x start := by
  refine Finishes.mono hx ?_
  rintro result last ⟨hleads, hinside, hgain⟩
  exact ⟨hleads, hinside, fun a ha => Nat.le_trans (Nat.add_le_add_left (h a) _) (hgain a ha)⟩

theorem peek_bind {f : Token → Nat → Routine α} (hsound : start.now.Sound grammar scan)
    (hf : Proceeds grammar scan gain (f (scan.tokenAt start.now.place)) start) :
    Proceeds grammar scan gain (fun calls => peek scan.tokens >>= fun token => f token calls)
      start :=
  Finishes.of_runFrom 0 hf fun _ => runFrom_peek_bind hsound.place_le _

end Proceeds

/-! ## Tokens -/

variable {start : Trail}

theorem kind_ne_stop_of_isSymbol {token : Token} {symbol : String} (h : token.isSymbol symbol) :
    token.kind ≠ .stop := by
  rw [(Token.isSymbol_iff.mp h).1]
  nofun

theorem proceeds_bump (h : scan.StopsOnce) (hsound : start.now.Sound grammar scan)
    (hkind : (scan.tokenAt start.now.place).kind ≠ .stop) :
    Proceeds grammar scan (fun _ => 1) (fun _ => bump scan.tokens) start := by
  have hplace : start.now.place < scan.words.length :=
    Nat.lt_of_not_le (mt h.kind_tokenAt.mpr hkind)
  exact ⟨_, _, .of_forall fun _ => runFrom_bump h hplace, .onward hsound hplace, nofun,
    fun _ _ => Nat.le_refl _⟩

theorem proceeds_unexpected {gain : α → Nat} (hsound : start.now.Sound grammar scan)
    (message : String) :
    Proceeds grammar scan gain (fun _ => unexpected scan.tokens message) start :=
  ⟨_, _, .of_forall fun _ => runFrom_unexpected hsound.place_le message, .refl hsound, by simp,
    nofun⟩

theorem proceeds_acceptKind (h : scan.StopsOnce) (hsound : start.now.Sound grammar scan)
    (kind : TokenKind) :
    Proceeds grammar scan (·.isSome.toNat) (fun _ => acceptKind scan.tokens kind) start := by
  have hrun := runFrom_acceptKind h hsound.place_le kind
  split_ifs at hrun with hend hkind
  · exact ⟨_, _, .of_forall fun _ => hrun, .refl hsound, by simp, nofun⟩
  · exact ⟨_, _, .of_forall fun _ => hrun, .onward hsound (Nat.lt_of_not_le hend), nofun, by simp⟩
  · exact ⟨_, _, .of_forall fun _ => hrun, .refl hsound, nofun, by simp⟩

theorem proceeds_acceptSymbol (h : scan.StopsOnce) (hsound : start.now.Sound grammar scan)
    (symbol : String) :
    Proceeds grammar scan Bool.toNat (fun _ => acceptSymbol scan.tokens symbol) start := by
  have hrun := runFrom_acceptSymbol h hsound.place_le symbol
  split_ifs at hrun with hend hsymbol
  · exact ⟨_, _, .of_forall fun _ => hrun, .refl hsound, by simp, nofun⟩
  · exact ⟨_, _, .of_forall fun _ => hrun, .onward hsound (Nat.lt_of_not_le hend), nofun, by simp⟩
  · exact ⟨_, _, .of_forall fun _ => hrun, .refl hsound, nofun, by simp⟩

theorem proceeds_expectKind (h : scan.StopsOnce) (hsound : start.now.Sound grammar scan)
    (kind : TokenKind) (what : String) :
    Proceeds grammar scan (fun _ => 1) (fun _ => expectKind scan.tokens kind what) start := by
  refine (proceeds_acceptKind h hsound kind).bind fun token? next hleads _ => ?_
  cases token? with
  | none => exact proceeds_unexpected hleads.sound _
  | some token => exact .pure hleads.sound rfl

theorem proceeds_expectSymbol (h : scan.StopsOnce) (hsound : start.now.Sound grammar scan)
    (symbol : String) :
    Proceeds grammar scan (fun _ => 1) (fun _ => expectSymbol scan.tokens symbol) start := by
  refine (proceeds_acceptSymbol h hsound symbol).bind fun accepted next hleads _ => ?_
  cases accepted with
  | false => exact proceeds_unexpected hleads.sound _
  | true => exact .pure hleads.sound rfl

theorem proceeds_number (h : scan.StopsOnce) (hsound : start.now.Sound grammar scan) :
    Proceeds grammar scan (fun _ => 1) (fun _ => number scan.tokens) start := by
  refine (proceeds_expectKind h hsound .number "number").bind fun token next hleads _ => ?_
  cases Binary64.ofNumeral token.text with
  | ok value => exact .pure hleads.sound rfl
  | error error => cases error <;> exact .throw hleads.sound nofun

/-! ## Expressions

A routine that calls another one without a token passed over comes behind it in this order: names,
groups and single operations; operands and rows of operations; climbs; expressions; single
arguments; rows of arguments. -/

mutual

theorem proceeds_expr (h : scan.StopsOnce) (floor : Nat) (start : Trail)
    (hsound : start.now.Sound grammar scan) :
    Proceeds grammar scan (fun _ => 1) (expr scan.tokens grammar floor) start := by
  by_cases hfull : grammar.full start.now.depth
  · refine Finishes.of_runFrom 1 ?_ fun calls => (runFrom_expr calls).trans (if_pos hfull)
    exact Proceeds.peek_bind hsound (.throw hsound nofun)
  · have hdeeper := hsound.deeper hfull
    refine Finishes.expr hfull (proceeds_climb h floor start.deeper hdeeper) ?_
    rintro result last ⟨hleads, hinside, hgain⟩
    exact ⟨hleads.enclosed hdeeper, hinside, hgain⟩
termination_by 6 * (scan.words.length - start.now.place) + 3
decreasing_by simp

theorem proceeds_climb (h : scan.StopsOnce) (floor : Nat) (start : Trail)
    (hsound : start.now.Sound grammar scan) :
    Proceeds grammar scan (fun _ => 1) (climb scan.tokens grammar floor) start := by
  refine .call ?_ (climb.eq_2 scan.tokens grammar floor)
  refine (proceeds_primary h start hsound).bind fun left next hleads hgain => ?_
  exact (proceeds_operations h floor left next hleads.sound).mono fun _ => Nat.zero_le _
termination_by 6 * (scan.words.length - start.now.place) + 2
decreasing_by
  · omega
  · have := hleads.sound.place_le
    omega

theorem proceeds_operations (h : scan.StopsOnce) (floor : Nat) (left : Expr) (start : Trail)
    (hsound : start.now.Sound grammar scan) :
    Proceeds grammar scan (fun _ => 0) (operations scan.tokens grammar floor left) start := by
  refine .call ?_ (operations.eq_2 scan.tokens grammar floor left)
  refine (proceeds_operation h floor left start hsound).bind fun e? next hleads hgain => ?_
  cases e? with
  | none => exact .pure hleads.sound rfl
  | some e => exact (proceeds_operations h floor e next hleads.sound).mono fun _ => Nat.zero_le _
termination_by 6 * (scan.words.length - start.now.place) + 1
decreasing_by
  · omega
  · have := hleads.sound.place_le
    simp only [Option.isSome_some, Bool.toNat_true] at hgain
    omega

theorem proceeds_operation (h : scan.StopsOnce) (floor : Nat) (left : Expr) (start : Trail)
    (hsound : start.now.Sound grammar scan) :
    Proceeds grammar scan (·.isSome.toNat) (operation scan.tokens grammar floor left) start := by
  refine .call ?_ (operation.eq_2 scan.tokens grammar floor left)
  refine .peek_bind hsound ?_
  by_cases hkind : (scan.tokenAt start.now.place).kind = .operator
  · simp only [if_pos hkind]
    cases grammar.operators.get? (scan.tokenAt start.now.place).text with
    | none => exact .throw hsound nofun
    | some op =>
        by_cases hfloor : op.precedence < floor
        · simp only [if_pos hfloor]
          exact .pure hsound rfl
        · simp only [if_neg hfloor]
          refine (proceeds_bump h hsound (by simp [hkind])).bind fun _ next hleads hgain => ?_
          refine (proceeds_expr h op.rightFloor next hleads.sound).bind fun _ _ hleads _ => ?_
          exact .pure hleads.sound rfl
  · simp only [if_neg hkind]
    exact .pure hsound rfl
termination_by 6 * (scan.words.length - start.now.place)
decreasing_by
  have := hleads.sound.place_le
  omega

theorem proceeds_primary (h : scan.StopsOnce) (start : Trail)
    (hsound : start.now.Sound grammar scan) :
    Proceeds grammar scan (fun _ => 1) (primary scan.tokens grammar) start := by
  refine .call ?_ (primary.eq_2 scan.tokens grammar)
  refine .peek_bind hsound ?_
  split
  · exact proceeds_nested h start hsound
  · refine .peek_bind hsound ?_
    split
    · exact proceeds_identifier h start hsound
    · exact proceeds_number h hsound
    · exact .throw hsound nofun
    · exact proceeds_unexpected hsound _
termination_by 6 * (scan.words.length - start.now.place) + 1

theorem proceeds_identifier (h : scan.StopsOnce) (start : Trail)
    (hsound : start.now.Sound grammar scan) :
    Proceeds grammar scan (fun _ => 1) (identifier scan.tokens grammar) start := by
  refine .call ?_ (identifier.eq_2 scan.tokens grammar)
  have hname := proceeds_expectKind h hsound .identifier "identifier"
  refine hname.bind fun name next hleads hgain => ?_
  refine .peek_bind hleads.sound ?_
  split
  · next hsymbol =>
      have hkind := kind_ne_stop_of_isSymbol hsymbol
      refine (proceeds_bump h hleads.sound hkind).bind fun _ next' hleads' hgain' => ?_
      exact (proceeds_arguments h name.text [] next' hleads'.sound).mono fun _ => Nat.zero_le _
  · exact .pure hleads.sound rfl
termination_by 6 * (scan.words.length - start.now.place)
decreasing_by
  have := hleads'.sound.place_le
  omega

theorem proceeds_arguments (h : scan.StopsOnce) (callee : String) (latestFirst : List Expr)
    (start : Trail) (hsound : start.now.Sound grammar scan) :
    Proceeds grammar scan (fun _ => 0) (arguments scan.tokens grammar callee latestFirst)
      start := by
  refine .call ?_ (arguments.eq_2 scan.tokens grammar callee latestFirst)
  have hargument := proceeds_argument h latestFirst start hsound
  refine hargument.bind fun latestFirst? next hleads hgain => ?_
  cases latestFirst? with
  | none => exact .pure hleads.sound rfl
  | some latestFirst =>
      exact (proceeds_arguments h callee latestFirst next hleads.sound).mono fun _ => Nat.zero_le _
termination_by 6 * (scan.words.length - start.now.place) + 5
decreasing_by
  · omega
  · have := hleads.sound.place_le
    simp only [Option.isSome_some, Bool.toNat_true] at hgain
    omega

theorem proceeds_argument (h : scan.StopsOnce) (latestFirst : List Expr) (start : Trail)
    (hsound : start.now.Sound grammar scan) :
    Proceeds grammar scan (·.isSome.toNat) (argument scan.tokens grammar latestFirst) start := by
  refine .call ?_ (argument.eq_2 scan.tokens grammar latestFirst)
  refine (proceeds_acceptSymbol h hsound ")").bind fun closes next hleads hgain => ?_
  cases closes with
  | true => exact .pure hleads.sound rfl
  | false =>
      refine (proceeds_expr h 0 next hleads.sound).bind fun e _ hleads _ => ?_
      refine (proceeds_acceptSymbol h hleads.sound ",").bind fun comma _ hleads _ => ?_
      exact .pure hleads.sound (by simp)
termination_by 6 * (scan.words.length - start.now.place) + 4
decreasing_by
  have := hleads.place_le
  omega

theorem proceeds_nested (h : scan.StopsOnce) (start : Trail)
    (hsound : start.now.Sound grammar scan) :
    Proceeds grammar scan (fun _ => 1) (nested scan.tokens grammar) start := by
  refine .call ?_ (nested.eq_2 scan.tokens grammar)
  refine (proceeds_expectSymbol h hsound "(").bind fun _ next hleads hgain => ?_
  refine (proceeds_expr h 0 next hleads.sound).bind fun e _ hleads _ => ?_
  refine (proceeds_expectSymbol h hleads.sound ")").bind fun _ _ hleads _ => ?_
  exact .pure hleads.sound rfl
termination_by 6 * (scan.words.length - start.now.place)
decreasing_by
  have := hleads.sound.place_le
  omega

end

theorem expr_inside (h : scan.StopsOnce) (floor : Nat) (hsound : start.now.Sound grammar scan)
    (hfull : ¬ grammar.full start.now.depth) :
    Finishes (expr scan.tokens grammar floor) start fun _ last =>
      ∃ inside, inside ≠ [] ∧ last.history = last.now :: inside ++ start.history ∧
        ∀ cursor ∈ inside, cursor.Sound grammar scan ∧ start.now.depth < cursor.depth := by
  have hdeeper := hsound.deeper hfull
  refine Finishes.expr hfull (proceeds_climb h floor start.deeper hdeeper) ?_
  rintro result last ⟨hleads, -⟩
  exact hleads.inside hdeeper

/-! ## Declarations -/

theorem proceeds_parameter (h : scan.StopsOnce) (latestFirst : List String)
    (hsound : start.now.Sound grammar scan) :
    Proceeds grammar scan (·.isSome.toNat) (fun _ => parameter scan.tokens latestFirst) start := by
  refine (proceeds_acceptKind h hsound .identifier).bind fun token? _ hleads _ => ?_
  cases token? with
  | none => exact .pure hleads.sound rfl
  | some token =>
      refine (proceeds_acceptSymbol h hleads.sound ",").bind fun comma _ hleads _ => ?_
      exact .pure hleads.sound (by simp)

theorem proceeds_parameters (h : scan.StopsOnce) (latestFirst : List String) (start : Trail)
    (hsound : start.now.Sound grammar scan) :
    Proceeds grammar scan (fun _ => 0) (parameters scan.tokens latestFirst) start := by
  refine .call ?_ (parameters.eq_2 scan.tokens latestFirst)
  refine (proceeds_parameter h latestFirst hsound).bind fun latestFirst? next hleads hgain => ?_
  cases latestFirst? with
  | none => exact .pure hleads.sound rfl
  | some latestFirst =>
      exact (proceeds_parameters h latestFirst next hleads.sound).mono fun _ => Nat.zero_le _
termination_by scan.words.length - start.now.place
decreasing_by
  have := hleads.sound.place_le
  simp only [Option.isSome_some, Bool.toNat_true] at hgain
  omega

theorem proceeds_prototype (h : scan.StopsOnce) (hsound : start.now.Sound grammar scan) :
    Proceeds grammar scan (fun _ => 1) (prototype scan.tokens) start := by
  refine (proceeds_expectKind h hsound .identifier "function name").bind fun name _ hleads _ => ?_
  refine (proceeds_expectSymbol h hleads.sound "(").bind fun _ next hleads _ => ?_
  refine (proceeds_parameters h [] next hleads.sound).bind fun parameters _ hleads _ => ?_
  refine (proceeds_expectSymbol h hleads.sound ")").bind fun _ _ hleads _ => ?_
  exact .pure hleads.sound rfl

theorem proceeds_definition (h : scan.StopsOnce) (hsound : start.now.Sound grammar scan) :
    Proceeds grammar scan (fun _ => 1) (definition scan.tokens grammar) start := by
  refine (proceeds_prototype h hsound).bind fun head _ hleads _ => ?_
  refine (proceeds_expectSymbol h hleads.sound "\x7b").bind fun _ next hleads _ => ?_
  refine (proceeds_expr h 0 next hleads.sound).bind fun body _ hleads _ => ?_
  refine (proceeds_expectSymbol h hleads.sound "\x7d").bind fun _ _ hleads _ => ?_
  exact .pure hleads.sound rfl

theorem proceeds_statement (h : scan.StopsOnce) (hsound : start.now.Sound grammar scan) :
    Proceeds grammar scan (fun _ => 1) (statement scan.tokens grammar) start := by
  refine (proceeds_acceptKind h hsound .definition).bind fun token? next hleads _ => ?_
  cases token? with
  | some token => exact (proceeds_definition h hleads.sound).mono fun _ => Nat.zero_le _
  | none =>
      refine (proceeds_acceptKind h hleads.sound .external).bind fun token? next hleads _ => ?_
      cases token? with
      | some token =>
          refine (proceeds_prototype h hleads.sound).bind fun head _ hleads _ => ?_
          exact .pure hleads.sound rfl
      | none =>
          refine (proceeds_expr h 0 next hleads.sound).bind fun body _ hleads _ => ?_
          exact .pure hleads.sound rfl

theorem proceeds_declaration (h : scan.StopsOnce) (latestFirst : List Declaration)
    (hsound : start.now.Sound grammar scan) :
    Proceeds grammar scan (·.isSome.toNat) (declaration scan.tokens grammar latestFirst) start := by
  refine Finishes.of_runFrom 0 ?_ fun _ => runFrom_atEnd_bind h hsound.place_le _
  split
  · exact Proceeds.pure hsound rfl
  · refine Proceeds.bind (proceeds_statement h hsound) fun declaration _ hleads _ => ?_
    exact .pure hleads.sound rfl

theorem proceeds_program (h : scan.StopsOnce) (latestFirst : List Declaration) (start : Trail)
    (hsound : start.now.Sound grammar scan) :
    Proceeds grammar scan (fun _ => 0) (program scan.tokens grammar latestFirst) start := by
  refine .call ?_ (program.eq_2 scan.tokens grammar latestFirst)
  refine (proceeds_declaration h latestFirst hsound).bind fun latestFirst? next hleads hgain => ?_
  cases latestFirst? with
  | none => exact .pure hleads.sound rfl
  | some latestFirst =>
      exact (proceeds_program h latestFirst next hleads.sound).mono fun _ => Nat.zero_le _
termination_by scan.words.length - start.now.place
decreasing_by
  have := hleads.sound.place_le
  simp only [Option.isSome_some, Bool.toNat_true] at hgain
  omega

end Routine

end Fixity
