import Fixity.Proofs.Descent.Simulation
import Fixity.Proofs.Parse.Nesting

/-! # What the limit to nesting refuses

The limit refuses the first expression that would be open with more others than are allowed, and
changes nothing else. -/

namespace Fixity

open Descent

/-- Never are more expressions open than the limit, with some open in front of the events. -/
def OpensAtMost (limit n : Nat) (events : List Event) : Prop :=
  ∀ earlier, earlier <+: events → openBehind n earlier ≤ limit

theorem OpensAtMost.nil {limit n : Nat} (h : n ≤ limit) : OpensAtMost limit n [] := by
  intro earlier hearlier
  rw [List.prefix_nil.mp hearlier]
  exact h

theorem OpensAtMost.cons {limit n : Nat} {event : Event} {events : List Event} (h : n ≤ limit)
    (hevents : OpensAtMost limit (event.count n) events) :
    OpensAtMost limit n (event :: events) := by
  intro earlier hearlier
  rcases List.prefix_cons_iff.mp hearlier with rfl | ⟨others, rfl, hothers⟩
  · exact h
  · exact hevents others hothers

theorem openBehind_declarations (table : OperatorTable) (stop : Token) (tokens : List Token) :
    ∀ before declaration after,
      (program table stop tokens).declarations = before ++ declaration :: after →
        openBehind 0 before.flatten = 0 := by
  intro before declaration after
  cases tokens with
  | nil =>
      rw [program]
      simp
  | cons token rest =>
      intro h
      rw [program] at h
      generalize statement table stop (token :: rest) = first at h
      cases before with
      | nil => rfl
      | cons events before =>
          cases hresult : first.result with
          | error halt =>
              rw [hresult] at h
              simp at h
          | ok parsed =>
              rw [hresult] at h
              obtain ⟨rfl, hrest⟩ := List.cons.inj h
              rw [List.flatten_cons, openBehind_append, first.balanced parsed hresult]
              exact openBehind_declarations table stop parsed.rest before declaration after hrest
termination_by tokens.length
decreasing_by exact parsed.shorter

namespace Grammar

variable {grammar : Grammar}

theorem tooDeep?_unlimited (n : Nat) (events : List Event) :
    grammar.unlimited.tooDeep? n events = none := by
  induction events generalizing n with
  | nil => rfl
  | cons event events ih =>
      cases event with
      | opened cursor =>
          have hfull : grammar.unlimited.full n = false := rfl
          rw [tooDeep?, hfull]
          exact ih (n + 1)
      | closed => exact ih (n - 1)

/-- Either no more expressions than the limit are ever open, or one is begun when so many are. -/
theorem tooDeep?_cases {limit : Nat} (hlimit : grammar.nestingLimit = some limit) {n : Nat}
    (hn : n ≤ limit) (events : List Event) :
    OpensAtMost limit n events ∧ grammar.tooDeep? n events = none ∨
      ∃ before cursor after, events = before ++ .opened cursor :: after ∧
        OpensAtMost limit n before ∧ openBehind n before = limit ∧
        grammar.tooDeep? n events = some cursor := by
  have hfull : ∀ n, grammar.full n ↔ limit ≤ n := by
    intro n
    simp [full, hlimit]
  induction events generalizing n with
  | nil => exact .inl ⟨.nil hn, rfl⟩
  | cons event events ih =>
      -- An event that is let through is put in front of what comes behind it.
      have hstep : event.count n ≤ limit →
          grammar.tooDeep? n (event :: events) = grammar.tooDeep? (event.count n) events →
          OpensAtMost limit n (event :: events) ∧ grammar.tooDeep? n (event :: events) = none ∨
            ∃ before cursor after, event :: events = before ++ .opened cursor :: after ∧
              OpensAtMost limit n before ∧ openBehind n before = limit ∧
              grammar.tooDeep? n (event :: events) = some cursor := by
        intro hn' hsame
        rcases ih hn' with ⟨hwithin, hnone⟩ | ⟨before, cursor, after, rfl, hwithin, hopen, hsome⟩
        · exact .inl ⟨hwithin.cons hn, hsame.trans hnone⟩
        · exact .inr ⟨event :: before, cursor, after, rfl, hwithin.cons hn, hopen,
            hsame.trans hsome⟩
      cases event with
      | opened cursor =>
          by_cases hroom : limit ≤ n
          · refine .inr ⟨[], cursor, events, rfl, .nil hn, Nat.le_antisymm hn hroom, ?_⟩
            rw [tooDeep?, if_pos ((hfull n).mpr hroom)]
          · refine hstep (Nat.lt_of_not_le hroom) ?_
            rw [tooDeep?, if_neg fun h => hroom ((hfull n).mp h), Event.count]
      | closed => exact hstep (Nat.le_trans (Nat.sub_le n 1) hn) rfl

end Grammar

/-- Either a descent through the text never has more than 256 expressions open, and the text has the
outcome that it has without a limit, or the text is too deep where one more would begin. -/
theorem parse_eq_unlimited_or_tooDeep (table : OperatorTable) (text : String) :
    let grammar : Grammar := { operators := table }
    let run := descend table text
    grammar.unlimited.parse text = run.outcome ∧
      (OpensAtMost 256 0 run.events ∧ grammar.parse text = grammar.unlimited.parse text ∨
        ∃ before cursor after, run.events = before ++ .opened cursor :: after ∧
          OpensAtMost 256 0 before ∧ openBehind 0 before = 256 ∧
          grammar.parse text = .rejected (.tooDeep cursor)) ∧
      ∀ before declaration after, run.declarations = before ++ declaration :: after →
        openBehind 0 before.flatten = 0 := by
  intro grammar run
  have hunlimited : grammar.unlimited.parse text = run.outcome := by
    rw [Grammar.parse_eq_descend, Grammar.tooDeep?_unlimited]
    rfl
  have hlimited := Grammar.parse_eq_descend grammar text
  refine ⟨hunlimited, ?_, ?_⟩
  · have hlimit : grammar.nestingLimit = some 256 := rfl
    rcases Grammar.tooDeep?_cases hlimit (Nat.zero_le 256) run.events with
      ⟨hwithin, hnone⟩ | ⟨before, cursor, after, hevents, hwithin, hopen, hsome⟩
    · left
      rw [hnone] at hlimited
      exact ⟨hwithin, hlimited.trans hunlimited.symm⟩
    · right
      rw [hsome] at hlimited
      exact ⟨before, cursor, after, hevents, hwithin, hopen, hlimited⟩
  · intro before declaration after h
    simp only [run, descend] at h
    cases hscan : scan text with
    | error error =>
        rw [hscan] at h
        simp at h
    | ok scanned =>
        rw [hscan] at h
        exact openBehind_declarations table _ _ before declaration after h

end Fixity
