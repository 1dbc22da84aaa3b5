import Fixity.CommandLine.Execute
import Mathlib.Data.List.Forall2
import Mathlib.Tactic.SplitIfs

/-! # The operators of a command line

Every argument gives at most one specification, and the operators are inserted in order. -/

namespace Fixity.CommandLine

/-! ## Arguments -/

/-- At most one value is taken from a text, which is the end of it. An answer is no run: that is the
matter of all arguments together. -/
def Reaction.TakesFrom (given : Given) (text : List Char) : Reaction → Prop
  | .next later => later.latestFirst = given.latestFirst ∨
      ∃ value : String, value.toList <:+ text ∧ later.latestFirst = value :: given.latestFirst
  | .answer request => ∀ settings, request ≠ .run settings

namespace Given

variable {given : Given} {text : List Char}

theorem takesFrom_of_suffix {shorter : List Char} {reaction : Reaction}
    (h : reaction.TakesFrom given shorter) (hsuffix : shorter <:+ text) :
    reaction.TakesFrom given text := by
  cases reaction with
  | answer request => exact h
  | next later =>
      exact h.imp_right fun ⟨value, htaken, hlatest⟩ => ⟨value, htaken.trans hsuffix, hlatest⟩

theorem takeFile_takesFrom (path : String) : (given.takeFile path).TakesFrom given text := by
  unfold takeFile
  split
  · nofun
  · exact .inl rfl

theorem takeOperator_takesFrom {value : List Char} (h : value <:+ text) :
    (given.takeOperator value).TakesFrom given text := by
  exact .inr ⟨.ofList value, by simpa using h, rfl⟩

theorem takeAttached_takesFrom {value : List Char} (h : value <:+ text) :
    (given.takeAttached value).TakesFrom given text :=
  takeOperator_takesFrom ((List.dropWhile_suffix _).trans h)

theorem readLong_takesFrom (given : Given) (text : List Char) :
    (given.readLong text).TakesFrom given text := by
  simp only [readLong]
  split_ifs
  · exact .inl rfl
  · exact .inl rfl
  · nofun
  · nofun
  · exact takeAttached_takesFrom ((List.drop_suffix 1 _).trans (List.dropWhile_suffix _))
  · exact .inl rfl
  · nofun

/-- Of combined flags only the last can take a value. -/
theorem readShort_takesFrom (given : Given) (text : List Char) :
    (given.readShort text).TakesFrom given text := by
  induction text generalizing given with
  | nil => exact .inl rfl
  | cons c rest ih =>
      have hrest : rest <:+ c :: rest := List.suffix_cons c rest
      unfold readShort
      split_ifs
      · exact takesFrom_of_suffix (ih given.takeTokens) hrest
      · exact takesFrom_of_suffix (ih given.takeSource) hrest
      · nofun
      · nofun
      · exact .inl rfl
      · exact takeAttached_takesFrom hrest
      · nofun

theorem read_takesFrom (given : Given) (argument : String) :
    (given.read argument).TakesFrom given argument.toList := by
  unfold read
  split
  · exact takeFile_takesFrom argument
  · split
    · exact .inl rfl
    · rename_i rest _ hargument
      rw [hargument]
      have hsuffix : rest.dropWhile (· == '-') <:+ '-' :: '-' :: rest :=
        (List.dropWhile_suffix _).trans (List.suffix_append ['-', '-'] rest)
      exact takesFrom_of_suffix (readLong_takesFrom given _) hsuffix
    · rename_i c rest _ _ hargument
      rw [hargument]
      exact takesFrom_of_suffix (readShort_takesFrom given _) (List.suffix_cons '-' (c :: rest))
    · split
      · exact takeOperator_takesFrom (List.suffix_refl _)
      · exact takeFile_takesFrom argument

/-- The specifications are ends of different arguments, in the order of those. -/
theorem exists_operators_of_readAll {arguments : List String} {settings : Settings}
    (h : given.readAll arguments = .run settings) :
    ∃ specs, settings.operators = given.latestFirst.reverse ++ specs ∧
      List.SublistForall₂ (fun spec argument => spec.toList <:+ argument.toList) specs
        arguments := by
  induction arguments generalizing given with
  | nil =>
      rw [readAll, request] at h
      split_ifs at h
      cases h
      exact ⟨[], by simp, .nil⟩
  | cons argument rest ih =>
      rw [readAll] at h
      have htakes := read_takesFrom given argument
      cases hread : given.read argument with
      | answer request =>
          rw [hread] at h htakes
          exact absurd h (htakes settings)
      | next later =>
          rw [hread] at h htakes
          obtain ⟨specs, hoperators, hspecs⟩ := ih h
          rcases htakes with hlatest | ⟨value, htaken, hlatest⟩
          · exact ⟨specs, by rw [hoperators, hlatest], hspecs.cons_right⟩
          · exact ⟨value :: specs, by simp [hoperators, hlatest], .cons htaken hspecs⟩

theorem readAll_option_cons (given : Given) (rest : List String) {spec : String}
    (hfiles : given.filesOnly = false) (hspec : spec.toList.head? ≠ some '-') :
    given.readAll ("-o" :: spec :: rest) =
      { given with
        operatorOption := true, awaitsOperator := false
        latestFirst := spec :: given.latestFirst }.readAll rest := by
  have hoption : given.read "-o" = given.takeOperatorOption := by
    simp [read, hfiles, readShort]
  have hvalue : { given with operatorOption := true, awaitsOperator := true }.read spec =
      { given with operatorOption := true, awaitsOperator := true }.takeOperator spec.toList := by
    unfold read
    rw [if_neg (by simp [hfiles])]
    split
    · simp_all
    · simp_all
    · simp_all
    · rfl
  simp only [readAll, hoption, takeOperatorOption, hvalue, takeOperator, String.ofList_toList]

theorem readAll_flatMap (latestFirst : List String) {specs : List String}
    (h : ∀ spec ∈ specs, spec.toList.head? ≠ some '-') :
    Given.readAll { operatorOption := !latestFirst.isEmpty, latestFirst }
        (specs.flatMap fun spec => ["-o", spec]) =
      .run { operators := latestFirst.reverse ++ specs } := by
  induction specs generalizing latestFirst with
  | nil => simp [readAll, request]
  | cons spec specs ih =>
      obtain ⟨hspec, hspecs⟩ := List.forall_mem_cons.mp h
      rw [List.flatMap_cons, List.cons_append, List.cons_append, List.nil_append,
        readAll_option_cons _ _ rfl hspec]
      have hrest := ih (spec :: latestFirst) hspecs
      simpa using hrest

end Given

/-! ## Specifications -/

/-- The table of a command line comes of inserting the specified operators in turn. -/
theorem foldlM_insertSpec_eq_ok_iff {specs : List String} {start table : OperatorTable} :
    specs.foldlM insertSpec start = .ok table ↔
      ∃ ops, List.Forall₂ (fun spec op => Operator.ofSpec spec = .ok op) specs ops ∧
        table = ops.foldl OperatorTable.insert start := by
  induction specs generalizing start with
  | nil =>
      constructor
      · rintro ⟨⟩
        exact ⟨[], .nil, rfl⟩
      · rintro ⟨ops, hops, rfl⟩
        cases hops
        rfl
  | cons spec specs ih =>
      rw [List.foldlM_cons, insertSpec]
      cases hspec : Operator.ofSpec spec with
      | error error =>
          constructor
          · nofun
          · rintro ⟨ops, hops, -⟩
            cases hops with
            | cons hop _ => cases hspec.symm.trans hop
      | ok op =>
          refine ih.trans ⟨?_, ?_⟩
          · rintro ⟨ops, hops, htable⟩
            exact ⟨op :: ops, .cons hspec hops, htable⟩
          · rintro ⟨ops, hops, htable⟩
            cases hops with
            | cons hop hops =>
                cases hspec.symm.trans hop
                exact ⟨_, hops, htable⟩

end Fixity.CommandLine
