import Fixity.Proofs.Phrase.Basic

/-! # Precedences determine the tree

Two grouped trees over one chain have the same root, and so they are the same. -/

namespace Fixity

theorem Operator.precedence_le_rightFloor (op : Operator) : op.precedence ≤ op.rightFloor := by
  unfold rightFloor
  split <;> omega

theorem Operator.rightFloor_le_succ (op : Operator) : op.rightFloor ≤ op.precedence + 1 := by
  unfold rightFloor
  split <;> omega

namespace Phrase

/-- A bound on the left spine bounds the whole chain from below. -/
theorem Grouped.le_precedence {phrase : Phrase} (h : phrase.Grouped) {floor : Nat}
    (hspine : ∀ q ∈ phrase.leftSpine, floor ≤ q.precedence) :
    ∀ q, Link.operator q ∈ phrase.chain → floor ≤ q.precedence := by
  induction phrase using chainInduction generalizing floor with
  | operand phrase hoperand =>
      intro q hq
      simp [chain_of_isOperand hoperand] at hq
  | binary op left right ihleft ihright =>
      obtain ⟨hright, -, hgroupedLeft, hgroupedRight⟩ := h
      have hop : floor ≤ op.precedence := hspine op (by simp [leftSpine])
      intro q hq
      simp only [chain, List.mem_append, List.mem_cons, Link.operator.injEq] at hq
      rcases hq with hq | rfl | hq
      · exact ihleft hgroupedLeft (fun q hq => hspine q (by simp [leftSpine, hq])) q hq
      · exact hop
      · apply ihright hgroupedRight _ q hq
        intro p hp
        have hfloor := op.precedence_le_rightFloor
        have hp' := hright p hp
        omega

/-- A precedence that the operators of the right spine do not take in is taken in by no operator of
the chain. -/
theorem Grouped.lt_rightFloor {phrase : Phrase} (h : phrase.Grouped) {precedence : Nat}
    (hspine : ∀ p ∈ phrase.rightSpine, precedence < p.rightFloor) :
    ∀ p, Link.operator p ∈ phrase.chain → precedence < p.rightFloor := by
  induction phrase using chainInduction generalizing precedence with
  | operand phrase hoperand =>
      intro p hp
      simp [chain_of_isOperand hoperand] at hp
  | binary op left right ihleft ihright =>
      obtain ⟨-, hleft, hgroupedLeft, hgroupedRight⟩ := h
      have hop : precedence < op.rightFloor := hspine op (by simp [rightSpine])
      intro p hp
      simp only [chain, List.mem_append, List.mem_cons, Link.operator.injEq] at hp
      rcases hp with hp | rfl | hp
      · apply ihleft hgroupedLeft _ p hp
        intro q hq
        have hsucc := op.rightFloor_le_succ
        have hq' := hleft q hq
        omega
      · exact hop
      · exact ihright hgroupedRight (fun p hp => hspine p (by simp [rightSpine, hp])) p hp

/-- If the root of one tree stands further left in the chain than the root of the other, then each
of the two operators lies below the other, which the precedences exclude. -/
private theorem roots_not_apart {op op' : Operator} {left right left' right' : Phrase}
    {between : List Link} (h : (binary op left right).Grouped)
    (h' : (binary op' left' right').Grouped)
    (hleft : left'.chain = left.chain ++ .operator op :: between)
    (hright : right.chain = between ++ .operator op' :: right'.chain) : False := by
  obtain ⟨hbelow, -, -, hgrouped⟩ := h
  obtain ⟨-, hbelow', hgrouped', -⟩ := h'
  have hle : op.rightFloor ≤ op'.precedence :=
    hgrouped.le_precedence hbelow op' (by simp [hright])
  have hlt : op'.precedence < op.rightFloor :=
    hgrouped'.lt_rightFloor hbelow' op (by simp [hleft])
  omega

private theorem roots_agree {op op' : Operator} {left right left' right' : Phrase}
    (h : (binary op left right).Grouped) (h' : (binary op' left' right').Grouped)
    (hchain : left.chain ++ .operator op :: right.chain =
      left'.chain ++ .operator op' :: right'.chain) :
    left.chain = left'.chain ∧ op = op' ∧ right.chain = right'.chain := by
  rcases List.append_eq_append_iff.mp hchain with ⟨between, hl, hr⟩ | ⟨between, hl, hr⟩
  · cases between with
    | nil =>
        simp only [List.nil_append, List.cons.injEq, Link.operator.injEq] at hr
        exact ⟨by simpa using hl.symm, hr⟩
    | cons link between =>
        simp only [List.cons_append, List.cons.injEq] at hr
        obtain ⟨rfl, hr⟩ := hr
        exact (roots_not_apart h h' hl hr).elim
  · cases between with
    | nil =>
        simp only [List.nil_append, List.cons.injEq, Link.operator.injEq] at hr
        exact ⟨by simpa using hl, hr.1.symm, hr.2.symm⟩
    | cons link between =>
        simp only [List.cons_append, List.cons.injEq] at hr
        obtain ⟨rfl, hr⟩ := hr
        exact (roots_not_apart h' h hl hr).elim

theorem eq_of_chain_eq_singleton {phrase operand : Phrase}
    (h : phrase.chain = [.operand operand]) : phrase = operand := by
  cases phrase with
  | binary op left right =>
      have hlength := congrArg List.length h
      have hpos := List.length_pos_iff.mpr left.chain_ne_nil
      simp only [chain, List.length_append, List.length_cons, List.length_nil] at hlength
      omega
  | _ => simpa [chain] using h

/-- Only one tree over a chain has the shape that precedences give to it. -/
theorem Grouped.eq_of_chain_eq {phrase other : Phrase} (h : phrase.Grouped)
    (hother : other.Grouped) (hchain : phrase.chain = other.chain) : phrase = other := by
  induction phrase using chainInduction generalizing other with
  | operand phrase hoperand =>
      rw [chain_of_isOperand hoperand] at hchain
      exact (eq_of_chain_eq_singleton hchain.symm).symm
  | binary op left right ihleft ihright =>
      cases other with
      | binary op' left' right' =>
          obtain ⟨hleft, rfl, hright⟩ := roots_agree h hother hchain
          obtain ⟨-, -, hgroupedLeft, hgroupedRight⟩ := h
          obtain ⟨-, -, hgroupedLeft', hgroupedRight'⟩ := hother
          rw [ihleft hgroupedLeft hgroupedLeft' hleft, ihright hgroupedRight hgroupedRight' hright]
      | _ => exact eq_of_chain_eq_singleton hchain

end Phrase

end Fixity
