import Fixity.Program.Basic

/-! # How high expressions are

An expression is no higher than it is nested, apart from the steps that lead to left operands. -/

namespace Fixity

namespace Expr

mutual

/-- The greatest weight of a way down, if every step to a left operand has the one weight and every
other step has the other. -/
def reach (toLeft other : Nat) : Expr → Nat
  | literal _ | var _ => 0
  | binary _ left right => max (toLeft + left.reach toLeft other) (other + right.reach toLeft other)
  | call _ arguments => greatestReach toLeft other arguments

def greatestReach (toLeft other : Nat) : List Expr → Nat
  | [] => 0
  | e :: es => max (other + e.reach toLeft other) (greatestReach toLeft other es)

end

/-- The number of expressions on the longest way down, both ends included. -/
def height (e : Expr) : Nat := e.reach 1 1 + 1

/-- The number of expressions on a way down, except those that are left operands of the one in front
of them, where it is greatest. -/
def nesting (e : Expr) : Nat := e.reach 0 1 + 1

@[simp] theorem height_var (name : String) : (var name).height = 1 := by
  simp [height, reach]

@[simp] theorem height_binary (symbol : String) (left right : Expr) :
    (binary symbol left right).height = max left.height right.height + 1 := by
  simp only [height, reach]
  omega

theorem greatestReach_le_iff {toLeft other limit : Nat} {es : List Expr} :
    greatestReach toLeft other es ≤ limit ↔
      ∀ e ∈ es, other + e.reach toLeft other ≤ limit := by
  induction es with
  | nil => simp [greatestReach]
  | cons e es ih => simp only [greatestReach, Nat.max_le, ih, List.forall_mem_cons]

/-! ## Nesting -/

@[simp] theorem nesting_binary (symbol : String) (left right : Expr) :
    (binary symbol left right).nesting = max left.nesting (right.nesting + 1) := by
  simp only [nesting, reach]
  omega

theorem nesting_call_le_iff {callee : String} {arguments : List Expr} {limit : Nat} :
    (call callee arguments).nesting ≤ limit + 1 ↔ ∀ e ∈ arguments, e.nesting ≤ limit := by
  have hreach : (call callee arguments).nesting ≤ limit + 1 ↔
      greatestReach 0 1 arguments ≤ limit := by
    simp [nesting, reach]
  rw [hreach, greatestReach_le_iff]
  simp only [nesting, Nat.add_comm 1]

/-! ## Weights add up -/

mutual

/-- On every way down, the sum of two weights is at most the sum of the greatest. -/
theorem reach_add_le (toLeft other toLeft' other' : Nat) (e : Expr) :
    e.reach (toLeft + toLeft') (other + other') ≤
      e.reach toLeft other + e.reach toLeft' other' := by
  match e with
  | literal _ | var _ => simp [reach]
  | binary symbol left right =>
      have hleft := reach_add_le toLeft other toLeft' other' left
      have hright := reach_add_le toLeft other toLeft' other' right
      simp only [reach]
      omega
  | call callee arguments =>
      simpa only [reach] using greatestReach_add_le toLeft other toLeft' other' arguments

theorem greatestReach_add_le (toLeft other toLeft' other' : Nat) (es : List Expr) :
    greatestReach (toLeft + toLeft') (other + other') es ≤
      greatestReach toLeft other es + greatestReach toLeft' other' es := by
  match es with
  | [] => simp [greatestReach]
  | e :: es =>
      have hfirst := reach_add_le toLeft other toLeft' other' e
      have hrest := greatestReach_add_le toLeft other toLeft' other' es
      simp only [greatestReach]
      omega

end

end Expr

end Fixity
