import FrontEnd.Proofs.Parser.Accounts
import FrontEnd.Proofs.Parser.Parts

/-!
Productions of declarations and statements account for the names that they read.
-/

namespace FrontEnd.Grammar

open Script

variable {symbols : Symbols} {p : Nat}

/-! ## Declarations -/

theorem initializer_accounts :
    Script.Accounts symbols p initializer [] fun v => (v.map Tree.names).getD [] := by
  refine accounts_bind (accounts_accept rfl) fun found q => ?_
  split
  · refine accounts_bind (accounts_require (accounts_deeper .expression)) fun value q => ?_
    exact accounts_pure (by simp)
  · exact accounts_pure (by simp)

variable (symbols)

theorem function_accounts : Rule.function.Accounts symbols := by
  intro p
  refine accounts_bind accounts_here fun token q => ?_
  refine accounts_bind (accounts_accept rfl) fun isExport q => ?_
  refine accounts_bind (accounts_accept rfl) fun isExtern q => ?_
  refine accounts_bind (accounts_run (.prototype isExport isExtern)) fun signature q => ?_
  refine accounts_bind (accounts_run (.block none)) fun body q => ?_
  cases body with
  | some body => exact accounts_pure (by simp)
  | none =>
    refine accounts_bind (accounts_expect rfl) fun _ q => ?_
    exact accounts_pure (by simp)

theorem prototype_accounts (isExport isExtern : Bool) :
    (Rule.prototype isExport isExtern).Accounts symbols := by
  intro p
  refine accounts_bind accounts_here fun token q => ?_
  refine accounts_bind (accounts_expect rfl) fun _ q => ?_
  refine accounts_bind accounts_acceptText fun name q => ?_
  refine accounts_bind (accounts_expect rfl) fun _ q => ?_
  refine accounts_bind (accounts_run .params) fun params q => ?_
  refine accounts_bind (accounts_expect rfl) fun _ q => ?_
  refine accounts_bind (accounts_require (accounts_run .type)) fun result q => ?_
  exact accounts_pure (by simp [List.flatMap_map])

theorem params_accounts : Rule.params.Accounts symbols := by
  intro p
  refine accounts_bind accounts_here fun token q => ?_
  refine accounts_bind (accounts_run .type) fun type q => ?_
  cases type with
  | none => exact accounts_pure (by simp)
  | some type =>
    refine accounts_bind (accounts_accept rfl) fun variadic q => ?_
    refine accounts_bind accounts_expect_name fun name q => ?_
    split
    · exact accounts_pure (by simp)
    · refine accounts_bind (accounts_accept rfl) fun more q => ?_
      split
      · refine accounts_bind (accounts_run .params) fun params q => ?_
        exact accounts_pure (by simp)
      · exact accounts_pure (by simp)

theorem record_accounts : Rule.record.Accounts symbols := by
  intro p
  refine accounts_bind accounts_here fun token q => ?_
  refine accounts_bind (accounts_accept rfl) fun isExport q => ?_
  refine accounts_bind (accounts_accept rfl) fun isUnion q => ?_
  cases isUnion with
  | true =>
    refine accounts_bind accounts_expect_name fun name q => ?_
    refine accounts_bind (accounts_expect rfl) fun _ q => ?_
    refine accounts_bind (accounts_run .fields) fun fields q => ?_
    exact accounts_pure (by simp)
  | false =>
    refine accounts_bind (accounts_expect rfl) fun _ q => ?_
    refine accounts_bind accounts_expect_name fun name q => ?_
    refine accounts_bind (accounts_expect rfl) fun _ q => ?_
    refine accounts_bind (accounts_run .fields) fun fields q => ?_
    exact accounts_pure (by simp)

theorem field_accounts : Script.Accounts symbols p field [] Tree.names := by
  refine accounts_bind accounts_here fun token q => ?_
  refine accounts_bind (accounts_require (accounts_run .type)) fun type q => ?_
  refine accounts_bind accounts_expect_name fun name q => ?_
  refine accounts_bind initializer_accounts fun default q => ?_
  refine accounts_bind (accounts_expect rfl) fun _ q => ?_
  exact accounts_pure (by simp)

theorem fields_accounts : Rule.fields.Accounts symbols := by
  intro p
  refine accounts_bind (accounts_accept rfl) fun closed q => ?_
  split
  · exact accounts_pure (by simp)
  · refine accounts_bind (field_accounts symbols) fun field q => ?_
    refine accounts_bind (accounts_run .fields) fun fields q => ?_
    exact accounts_pure (by simp)

theorem enumeration_accounts : Rule.enumeration.Accounts symbols := by
  intro p
  refine accounts_bind accounts_here fun token q => ?_
  refine accounts_bind (accounts_accept rfl) fun isExport q => ?_
  refine accounts_bind (accounts_expect rfl) fun _ q => ?_
  refine accounts_bind accounts_expect_name fun name q => ?_
  refine accounts_bind (accounts_expect rfl) fun _ q => ?_
  refine accounts_bind (accounts_run .variants) fun variants q => ?_
  exact accounts_pure (by simp [List.flatMap_map])

theorem variants_accounts : Rule.variants.Accounts symbols := by
  intro p
  refine accounts_bind accounts_here fun token q => ?_
  refine accounts_bind accounts_expect_name fun name q => ?_
  refine accounts_bind initializer_accounts fun value q => ?_
  refine accounts_bind (accounts_accept rfl) fun more q => ?_
  split
  · refine accounts_bind (accounts_accept rfl) fun closed q => ?_
    split
    · exact accounts_pure (by simp)
    · refine accounts_bind (accounts_run .variants) fun variants q => ?_
      exact accounts_pure (by simp)
  · refine accounts_bind (accounts_expect rfl) fun _ q => ?_
    exact accounts_pure (by simp)

theorem modifiers_accounts : Rule.modifiers.Accounts symbols := by
  intro p
  refine accounts_bind (accounts_accept rfl) fun isMutable q => ?_
  split
  · exact accounts_bind (accounts_run .modifiers) fun _ _ => accounts_pure rfl
  · refine accounts_bind (accounts_accept rfl) fun isConst q => ?_
    split
    · exact accounts_bind (accounts_run .modifiers) fun _ _ => accounts_pure rfl
    · exact accounts_pure rfl

theorem declared_accounts {front : List Symbol} (token : Nat) (type : Option Tree)
    (isExport isMutable isConst : Bool) (hfront : front = (type.map Tree.names).getD []) :
    Script.Accounts symbols p (declared token type isExport isMutable isConst) front
      Tree.names := by
  subst hfront
  refine accounts_bind accounts_expect_name fun name q => ?_
  refine accounts_bind initializer_accounts fun init q => ?_
  refine accounts_bind (accounts_expect rfl) fun _ q => ?_
  exact accounts_pure (by simp)

theorem declaration_accounts : Rule.declaration.Accounts symbols := by
  intro p
  refine accounts_bind accounts_here fun token q => ?_
  refine accounts_bind (accounts_accept rfl) fun isExport q => ?_
  refine accounts_bind (accounts_run .modifiers) fun found q => ?_
  obtain ⟨isMutable, isConst⟩ := found
  dsimp only
  split
  · exact accounts_fail
  · refine accounts_bind accounts_sight fun s q => ?_
    split
    · exact declared_accounts symbols token none isExport isMutable isConst rfl
    · have htype : Script.Accounts symbols q (some <$> require .type (run .type)) [] fun v =>
          (v.map Tree.names).getD [] :=
        accounts_map (accounts_require (accounts_run .type)) fun _ => rfl
      refine accounts_bind htype fun type q => ?_
      exact declared_accounts symbols token type isExport isMutable isConst (by simp)

/-! ## Statements -/

theorem unit_accounts : Rule.unit.Accounts symbols := by
  intro p
  refine accounts_bind accounts_sight fun s q => ?_
  split
  · exact accounts_pure rfl
  · refine accounts_bind (accounts_require (accounts_deeper .statement)) fun item q => ?_
    refine accounts_bind (accounts_run .unit) fun rest q => ?_
    exact accounts_pure (by simp)

theorem block_accounts (label : Option String) : (Rule.block label).Accounts symbols := by
  intro p
  refine accounts_bind accounts_here fun token q => ?_
  refine accounts_bind (accounts_accept rfl) fun found q => ?_
  split
  · refine accounts_bind (accounts_run .statements) fun statements q => ?_
    exact accounts_pure (by simp)
  · exact accounts_pure (by simp)

theorem statements_accounts : Rule.statements.Accounts symbols := by
  intro p
  refine accounts_bind (accounts_accept rfl) fun closed q => ?_
  split
  · exact accounts_pure rfl
  · refine accounts_bind (accounts_require (accounts_deeper .statement)) fun statement q => ?_
    refine accounts_bind (accounts_run .statements) fun rest q => ?_
    exact accounts_pure (by simp)

theorem requiredBlock_accounts : Script.Accounts symbols p requiredBlock [] Tree.names :=
  accounts_require (accounts_run (.block none))

theorem blockOrAssignment_accounts :
    Script.Accounts symbols p blockOrAssignment [] fun v => v.1.names := by
  refine accounts_bind (accounts_run (.block none)) fun block q => ?_
  cases block with
  | some block => exact accounts_pure (by simp)
  | none =>
    refine accounts_bind (accounts_require (accounts_run (.level .assignment))) fun value q => ?_
    exact accounts_pure (by simp)

theorem body_accounts : Rule.body.Accounts symbols := by
  intro p
  refine accounts_bind (blockOrAssignment_accounts symbols) fun found q => ?_
  obtain ⟨body, isBlock⟩ := found
  cases isBlock with
  | true => exact accounts_pure (by simp)
  | false =>
    refine accounts_bind (accounts_expect rfl) fun _ q => ?_
    exact accounts_pure (by simp)

theorem condition_accounts : Script.Accounts symbols p condition [] Tree.names := by
  refine accounts_bind (accounts_expect rfl) fun _ q => ?_
  refine accounts_bind (accounts_require (accounts_deeper .expression)) fun condition q => ?_
  refine accounts_bind (accounts_expect rfl) fun _ q => ?_
  exact accounts_pure (by simp)

theorem branched_accounts (token : Nat) :
    Script.Accounts symbols p (branched token) [] Tree.names := by
  refine accounts_bind (condition_accounts symbols) fun condition q => ?_
  refine accounts_bind (accounts_run .body) fun thenBody q => ?_
  refine accounts_bind (accounts_accept rfl) fun hasElse q => ?_
  split
  · refine accounts_bind (accounts_require (accounts_deeper .statement)) fun elseBody q => ?_
    exact accounts_pure (by simp)
  refine accounts_bind accounts_sight fun s q => ?_
  split
  · refine accounts_bind (accounts_run .conditional) fun elseBody q => ?_
    exact accounts_pure (by simp)
  · exact accounts_pure (by simp)

theorem conditional_accounts : Rule.conditional.Accounts symbols := by
  intro p
  refine accounts_bind accounts_here fun token q => ?_
  refine accounts_bind (accounts_accept rfl) fun isElseIf q => ?_
  cases isElseIf with
  | true => exact branched_accounts symbols token
  | false => exact accounts_bind (accounts_expect rfl) fun _ _ => branched_accounts symbols token

theorem whileLoop_accounts (label : Option String) :
    (Rule.whileLoop label).Accounts symbols := by
  intro p
  refine accounts_bind accounts_here fun token q => ?_
  refine accounts_bind (accounts_expect rfl) fun _ q => ?_
  refine accounts_bind (condition_accounts symbols) fun condition q => ?_
  refine accounts_bind (requiredBlock_accounts symbols) fun body q => ?_
  exact accounts_pure (by simp)

theorem stepped_accounts {front : List Symbol} (token : Nat) (label : Option String)
    (init : Option Tree) (hfront : front = labelNames label ++ (init.map Tree.names).getD []) :
    Script.Accounts symbols p (stepped token label init) front Tree.names := by
  subst hfront
  refine accounts_bind (accounts_deeper .expression) fun condition q => ?_
  refine accounts_bind (accounts_expect rfl) fun _ q => ?_
  refine accounts_bind (accounts_run (.level .assignment)) fun step q => ?_
  refine accounts_bind (accounts_expect rfl) fun _ q => ?_
  refine accounts_bind (requiredBlock_accounts symbols) fun body q => ?_
  exact accounts_pure (by simp)

theorem variableIfAny_accounts :
    Script.Accounts symbols p variableIfAny [] fun v => (v.map Tree.names).getD [] := by
  refine accounts_bind accounts_sight fun s q => ?_
  split
  · refine accounts_bind (accounts_run .declaration) fun declaration q => ?_
    exact accounts_pure (by simp)
  · exact accounts_pure rfl

theorem selection_accounts : Rule.selection.Accounts symbols := by
  intro p
  refine accounts_bind accounts_here fun token q => ?_
  refine accounts_bind (accounts_expect rfl) fun _ q => ?_
  refine accounts_bind (accounts_accept rfl) fun parenthesized q => ?_
  refine accounts_bind (accounts_require (accounts_deeper .expression)) fun subject q => ?_
  split
  · refine accounts_bind (accounts_expect rfl) fun _ q => ?_
    refine accounts_bind (accounts_expect rfl) fun _ q => ?_
    refine accounts_bind (accounts_run .branches) fun branches q => ?_
    exact accounts_pure (by simp [List.flatMap_map])
  · refine accounts_bind (accounts_expect rfl) fun _ q => ?_
    refine accounts_bind (accounts_run .branches) fun branches q => ?_
    exact accounts_pure (by simp [List.flatMap_map])

theorem branches_accounts : Rule.branches.Accounts symbols := by
  intro p
  refine accounts_bind (accounts_run .branch) fun branch q => ?_
  refine accounts_bind (accounts_accept rfl) fun more q => ?_
  split
  · refine accounts_bind (accounts_accept rfl) fun closed q => ?_
    split
    · exact accounts_pure (by simp)
    · refine accounts_bind (accounts_run .branches) fun rest q => ?_
      exact accounts_pure (by simp)
  · refine accounts_bind (accounts_expect rfl) fun _ q => ?_
    exact accounts_pure (by simp)

theorem branchMark_accounts : Script.Accounts symbols p branchMark [] fun _ => [] := by
  refine accounts_bind (accounts_accept rfl) fun isColon q => ?_
  split
  · exact accounts_pure rfl
  refine accounts_bind (accounts_accept rfl) fun isArrow q => ?_
  split
  · exact accounts_pure rfl
  · exact accounts_failing

theorem item_accounts :
    Script.Accounts symbols p item [] fun i => (i.map Tree.names).names := by
  refine accounts_bind (accounts_require (accounts_deeper .expression)) fun start q => ?_
  refine accounts_bind (accounts_accept rfl) fun isRange q => ?_
  split
  · refine accounts_bind (accounts_require (accounts_deeper .expression)) fun stop q => ?_
    exact accounts_pure (by simp [MatchItem.map, MatchItem.names])
  · exact accounts_pure (by simp [MatchItem.map, MatchItem.names])

theorem items_accounts : Rule.items.Accounts symbols := by
  intro p
  refine accounts_bind (item_accounts symbols) fun first q => ?_
  refine accounts_bind (accounts_accept rfl) fun more q => ?_
  split
  · refine accounts_bind (accounts_run .items) fun rest q => ?_
    exact accounts_pure (by simp)
  · exact accounts_pure (by simp)

theorem jumpLabel_accounts : Script.Accounts symbols p jumpLabel [] labelNames := by
  refine accounts_bind (accounts_accept rfl) fun found q => ?_
  split
  · exact accounts_bind accounts_expect_name fun name q => accounts_pure rfl
  · exact accounts_pure rfl

theorem deferral_accounts : Script.Accounts symbols p deferral [] Tree.names := by
  refine accounts_bind accounts_here fun token q => ?_
  refine accounts_bind (accounts_expect rfl) fun _ q => ?_
  refine accounts_bind (accounts_run .body) fun body q => ?_
  exact accounts_pure (by simp)

theorem breaking_accounts : Script.Accounts symbols p breaking [] Tree.names := by
  refine accounts_bind accounts_here fun token q => ?_
  refine accounts_bind (accounts_expect rfl) fun _ q => ?_
  refine accounts_bind (jumpLabel_accounts symbols) fun label q => ?_
  refine accounts_bind (accounts_deeper .expression) fun value q => ?_
  refine accounts_bind (accounts_expect rfl) fun _ q => ?_
  exact accounts_pure (by simp)

theorem continuing_accounts : Script.Accounts symbols p continuing [] Tree.names := by
  refine accounts_bind accounts_here fun token q => ?_
  refine accounts_bind (accounts_expect rfl) fun _ q => ?_
  refine accounts_bind (jumpLabel_accounts symbols) fun label q => ?_
  refine accounts_bind (accounts_expect rfl) fun _ q => ?_
  exact accounts_pure (by simp)

theorem returning_accounts : Script.Accounts symbols p returning [] Tree.names := by
  refine accounts_bind accounts_here fun token q => ?_
  refine accounts_bind (accounts_expect rfl) fun _ q => ?_
  refine accounts_bind (accounts_deeper .expression) fun value q => ?_
  refine accounts_bind (accounts_expect rfl) fun _ q => ?_
  exact accounts_pure (by simp)

theorem raising_accounts : Script.Accounts symbols p raising [] Tree.names := by
  refine accounts_bind accounts_here fun token q => ?_
  refine accounts_bind (accounts_expect rfl) fun _ q => ?_
  refine accounts_bind (accounts_require (accounts_deeper .expression)) fun value q => ?_
  refine accounts_bind (accounts_expect rfl) fun _ q => ?_
  exact accounts_pure (by simp)

theorem marked_accounts (token : Nat) (items : List (MatchItem Tree)) :
    Script.Accounts symbols p (marked token items)
      (items.flatMap fun i => (i.map Tree.names).names) fun b => (b.map Tree.names).names := by
  refine accounts_bind (branchMark_accounts symbols) fun _ q => ?_
  refine accounts_bind (blockOrAssignment_accounts symbols) fun found q => ?_
  obtain ⟨body, isBlock⟩ := found
  exact accounts_pure (by simp [List.flatMap_map])

theorem branch_accounts : Rule.branch.Accounts symbols := by
  intro p
  refine accounts_bind accounts_here fun token q => ?_
  refine accounts_bind (accounts_accept rfl) fun _ q => ?_
  refine accounts_bind (accounts_accept rfl) fun isElse q => ?_
  split
  · exact accounts_pure_bind (accounts_pure_bind (marked_accounts symbols token []))
  refine accounts_bind (accounts_accept rfl) fun isDefault q => ?_
  dsimp only
  split
  · exact accounts_pure_bind (marked_accounts symbols token [])
  · refine accounts_bind (accounts_run .items) fun items q => ?_
    exact marked_accounts symbols token items

theorem loop_accounts (label : Option String) : (Rule.loop label).Accounts symbols := by
  intro p
  refine accounts_bind accounts_here fun token q => ?_
  refine accounts_bind (accounts_expect rfl) fun _ q => ?_
  refine accounts_bind (accounts_run (.block none)) fun body q => ?_
  cases body with
  | some body => exact accounts_pure (by simp)
  | none =>
    refine accounts_bind (accounts_expect rfl) fun _ q => ?_
    refine accounts_sight_bind ?_
    split
    · rename_i h
      simp only [Bool.and_eq_true, decide_eq_true_eq] at h
      obtain ⟨hname, hin⟩ := h
      refine accounts_bind (accounts_take_both hname (by rw [← Symbols.sight_next, hin]; rfl))
        fun _ q => ?_
      refine accounts_bind (accounts_require (accounts_deeper .expression)) fun iterable q => ?_
      refine accounts_bind (accounts_expect rfl) fun _ q => ?_
      refine accounts_bind (requiredBlock_accounts symbols) fun body q => ?_
      exact accounts_pure (by simp)
    refine accounts_bind (variableIfAny_accounts symbols) fun init q => ?_
    cases init with
    | some init =>
      exact stepped_accounts symbols token label (some init) (by simp)
    | none =>
      refine accounts_bind (accounts_accept rfl) fun isEmpty q => ?_
      split
      · exact stepped_accounts symbols token label none (by simp)
      refine accounts_bind (accounts_require (accounts_run (.level .assignment))) fun first q => ?_
      refine accounts_bind (accounts_accept rfl) fun isStepped q => ?_
      split
      · exact stepped_accounts symbols token label (some first) (by simp)
      refine accounts_bind (accounts_expect rfl) fun _ q => ?_
      refine accounts_bind (requiredBlock_accounts symbols) fun body q => ?_
      exact accounts_pure (by simp)

theorem label_accounts : Script.Accounts symbols p label [] labelNames := by
  refine accounts_sight_bind ?_
  split
  · rename_i h
    simp only [Bool.and_eq_true, decide_eq_true_eq] at h
    obtain ⟨hname, hcolon⟩ := h
    refine accounts_bind (accounts_take_both hname (by rw [← Symbols.sight_next, hcolon]; rfl))
      fun _ q => ?_
    exact accounts_pure rfl
  · exact accounts_pure rfl

theorem loopIfAny_accounts (label : Option String) :
    Script.Accounts symbols p (loopIfAny label) (labelNames label) fun v =>
      (v.map Tree.names).getD (labelNames label) := by
  refine accounts_sight_bind ?_
  split
  · exact accounts_bind_of (accounts_run (.loop label)) fun _ _ => accounts_pure rfl
  · exact accounts_bind_of (accounts_run (.whileLoop label)) fun _ _ => accounts_pure rfl
  · exact accounts_pure rfl

theorem labelled_accounts : Rule.labelled.Accounts symbols := by
  intro p
  refine accounts_bind_of (label_accounts symbols) fun label q => ?_
  refine accounts_bind_of (accounts_run (.block label)) fun block q => ?_
  cases block with
  | some block => exact accounts_pure rfl
  | none =>
    refine accounts_bind_of (loopIfAny_accounts symbols label) fun loop q => ?_
    cases loop with
    | some loop => exact accounts_pure rfl
    | none =>
      cases label with
      | some label => exact accounts_failing
      | none => exact accounts_pure rfl

theorem containerIfAny_accounts :
    Script.Accounts symbols p containerIfAny [] fun v => (v.map Tree.names).getD [] := by
  refine accounts_bind accounts_sight fun s q => ?_
  split
  · exact accounts_bind (accounts_run .function) fun _ _ => accounts_pure rfl
  split
  · exact accounts_bind (accounts_run .record) fun _ _ => accounts_pure rfl
  split
  · exact accounts_bind (accounts_run .enumeration) fun _ _ => accounts_pure rfl
  · exact accounts_pure rfl

theorem expressionStatement_accounts :
    Script.Accounts symbols p expressionStatement [] fun v => (v.map Tree.names).getD [] := by
  refine accounts_bind (accounts_run (.level .assignment)) fun value q => ?_
  cases value with
  | none => exact accounts_pure rfl
  | some value =>
    refine accounts_bind (accounts_expect rfl) fun _ q => ?_
    exact accounts_pure (by simp)

theorem statement_accounts : Rule.statement.Accounts symbols := by
  intro p
  have hsome {x : Script Tree} {q : Nat} (hx : Script.Accounts symbols q x [] Tree.names) :
      Script.Accounts symbols q (x >>= fun t => pure (some t)) [] fun v =>
        (v.map Tree.names).getD [] :=
    accounts_bind_of hx fun _ _ => accounts_pure rfl
  refine accounts_bind_of (containerIfAny_accounts symbols) fun declaration q => ?_
  cases declaration with
  | some declaration => exact accounts_pure rfl
  | none =>
    refine accounts_bind_of (variableIfAny_accounts symbols) fun declaration q => ?_
    cases declaration with
    | some declaration => exact accounts_pure rfl
    | none =>
      refine accounts_bind accounts_sight fun s q => ?_
      split
      · exact hsome (deferral_accounts symbols)
      · exact hsome (accounts_run .conditional)
      · refine accounts_bind_of (accounts_run .selection) fun selection q => ?_
        refine accounts_bind (accounts_accept rfl) fun _ q => ?_
        exact accounts_pure (by simp)
      · exact hsome (breaking_accounts symbols)
      · exact hsome (continuing_accounts symbols)
      · exact hsome (returning_accounts symbols)
      · exact hsome (raising_accounts symbols)
      · refine accounts_bind_of (accounts_run .labelled) fun statement q => ?_
        cases statement with
        | some statement => exact accounts_pure rfl
        | none => exact expressionStatement_accounts symbols

end FrontEnd.Grammar
