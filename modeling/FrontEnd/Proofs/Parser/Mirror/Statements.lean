import FrontEnd.Proofs.Parser.Mirror

/-!
Productions of declarations and statements read the same in both sources of a passage.
-/

namespace FrontEnd.Grammar

open Script

variable (w : Passage) (limit : Nat) {p : Nat} {pre : Prop}

/-! ## Declarations -/

theorem initializer_mirrors :
    Script.Mirrors w limit p pre initializer initializer (Option.map (·.mapTokens w.move))
      fun _ => False := by
  refine mirrors_bind (mirrors_accept (by decide)) fun found q => ?_
  cases found with
  | true =>
    refine mirrors_bind (mirrors_require (mirrors_deeper .expression rfl)) fun value q => ?_
    exact mirrors_pure rfl False.elim
  | false => exact mirrors_pure rfl False.elim

theorem function_mirrors : Rule.function.Mirrors w limit p := by
  refine mirrors_bind mirrors_here fun token q => ?_
  refine mirrors_bind (mirrors_accept (by decide)) fun isExport q => ?_
  refine mirrors_bind (mirrors_accept (by decide)) fun isExtern q => ?_
  refine mirrors_bind (mirrors_run (.prototype isExport isExtern) rfl) fun signature q => ?_
  refine mirrors_bind (mirrors_block none) fun body q => ?_
  cases body with
  | some body => exact mirrors_pure (by simp [Rule.move]) fun _ => rfl
  | none =>
    refine mirrors_bind (mirrors_expect (by decide)) fun _ q => ?_
    exact mirrors_pure rfl fun _ => trivial

theorem prototype_mirrors (isExport isExtern : Bool) :
    (Rule.prototype isExport isExtern).Mirrors w limit p := by
  refine mirrors_bind mirrors_here fun token q => ?_
  refine mirrors_bind (mirrors_expect (by decide)) fun _ q => ?_
  refine mirrors_bind (mirrors_acceptText (by decide)) fun name q => ?_
  refine mirrors_bind (mirrors_expect (by decide)) fun _ q => ?_
  refine mirrors_bind (mirrors_run .params rfl) fun params q => ?_
  refine mirrors_bind (mirrors_expect (by decide)) fun _ q => ?_
  refine mirrors_bind (mirrors_require (mirrors_run .type rfl)) fun result q => ?_
  exact mirrors_pure (by simp [Rule.move, Param.move]) fun h => ⟨rfl, h⟩

theorem params_mirrors : Rule.params.Mirrors w limit p := by
  refine mirrors_bind mirrors_here fun token q => ?_
  refine mirrors_bind (mirrors_run .type rfl) fun type q => ?_
  cases type with
  | none => exact mirrors_pure rfl False.elim
  | some type =>
    refine mirrors_bind (mirrors_accept (by decide)) fun variadic q => ?_
    refine mirrors_bind (mirrors_expect (by decide)) fun name q => ?_
    cases variadic with
    | true => exact mirrors_pure rfl False.elim
    | false =>
      refine mirrors_bind (mirrors_accept (by decide)) fun more q => ?_
      cases more with
      | true =>
        refine mirrors_bind (mirrors_run .params rfl) fun params q => ?_
        exact mirrors_pure rfl False.elim
      | false => exact mirrors_pure rfl False.elim

theorem record_mirrors : Rule.record.Mirrors w limit p := by
  refine mirrors_bind mirrors_here fun token q => ?_
  refine mirrors_bind (mirrors_accept (by decide)) fun isExport q => ?_
  refine mirrors_bind (mirrors_accept (by decide)) fun isUnion q => ?_
  cases isUnion with
  | true =>
    refine mirrors_bind (mirrors_expect (by decide)) fun name q => ?_
    refine mirrors_bind (mirrors_expect (by decide)) fun _ q => ?_
    refine mirrors_bind (mirrors_run .fields rfl) fun fields q => ?_
    exact mirrors_pure (by simp [Rule.move]) fun _ => trivial
  | false =>
    refine mirrors_bind (mirrors_expect (by decide)) fun _ q => ?_
    refine mirrors_bind (mirrors_expect (by decide)) fun name q => ?_
    refine mirrors_bind (mirrors_expect (by decide)) fun _ q => ?_
    refine mirrors_bind (mirrors_run .fields rfl) fun fields q => ?_
    exact mirrors_pure (by simp [Rule.move]) fun _ => trivial

theorem field_mirrors :
    Script.Mirrors w limit p pre field field (·.mapTokens w.move) fun _ => True := by
  refine mirrors_bind mirrors_here fun token q => ?_
  refine mirrors_bind (mirrors_require (mirrors_run .type rfl)) fun type q => ?_
  refine mirrors_bind (mirrors_expect (by decide)) fun name q => ?_
  refine mirrors_bind (initializer_mirrors w limit) fun default q => ?_
  refine mirrors_bind (mirrors_expect (by decide)) fun _ q => ?_
  exact mirrors_pure (by simp) fun _ => trivial

theorem fields_mirrors : Rule.fields.Mirrors w limit p := by
  refine mirrors_bind (mirrors_accept (by decide)) fun closed q => ?_
  cases closed with
  | true => exact mirrors_pure rfl fun _ => .inl rfl
  | false =>
    refine mirrors_bind (field_mirrors w limit) fun field q => ?_
    refine mirrors_bind (mirrors_run .fields rfl) fun fields q => ?_
    exact mirrors_pure rfl fun _ => trivial

theorem enumeration_mirrors : Rule.enumeration.Mirrors w limit p := by
  refine mirrors_bind mirrors_here fun token q => ?_
  refine mirrors_bind (mirrors_accept (by decide)) fun isExport q => ?_
  refine mirrors_bind (mirrors_expect (by decide)) fun _ q => ?_
  refine mirrors_bind (mirrors_expect (by decide)) fun name q => ?_
  refine mirrors_bind (mirrors_expect (by decide)) fun _ q => ?_
  refine mirrors_bind (mirrors_run .variants rfl) fun variants q => ?_
  exact mirrors_pure (by simp [Rule.move, Variant.move]) fun _ => trivial

theorem variants_mirrors : Rule.variants.Mirrors w limit p := by
  refine mirrors_bind mirrors_here fun token q => ?_
  refine mirrors_bind (mirrors_expect (by decide)) fun name q => ?_
  refine mirrors_bind (initializer_mirrors w limit) fun value q => ?_
  refine mirrors_bind (mirrors_accept (by decide)) fun more q => ?_
  cases more with
  | true =>
    refine mirrors_bind (mirrors_accept (by decide)) fun closed q => ?_
    cases closed with
    | true => exact mirrors_pure rfl fun _ => .inl rfl
    | false =>
      refine mirrors_bind (mirrors_run .variants rfl) fun variants q => ?_
      exact mirrors_pure rfl fun _ => trivial
  | false =>
    refine mirrors_bind (mirrors_expect (by decide)) fun _ q => ?_
    exact mirrors_pure rfl fun _ => trivial

theorem modifiers_mirrors : Rule.modifiers.Mirrors w limit p := by
  refine mirrors_bind (mirrors_accept (by decide)) fun isMutable q => ?_
  cases isMutable with
  | true =>
    exact mirrors_bind (mirrors_run .modifiers rfl) fun _ _ => mirrors_pure rfl False.elim
  | false =>
    refine mirrors_bind (mirrors_accept (by decide)) fun isConst q => ?_
    cases isConst with
    | true =>
      exact mirrors_bind (mirrors_run .modifiers rfl) fun _ _ => mirrors_pure rfl False.elim
    | false => exact mirrors_pure rfl False.elim

theorem declared_mirrors (token : Nat) (type : Option Tree)
    (isExport isMutable isConst : Bool) :
    Script.Mirrors w limit p pre (declared token type isExport isMutable isConst)
      (declared (w.move token) (type.map (·.mapTokens w.move)) isExport isMutable isConst)
      (·.mapTokens w.move) fun _ => True := by
  refine mirrors_bind (mirrors_expect (by decide)) fun name q => ?_
  refine mirrors_bind (initializer_mirrors w limit) fun init q => ?_
  refine mirrors_bind (mirrors_expect (by decide)) fun _ q => ?_
  exact mirrors_pure (by simp) fun _ => trivial

theorem declaration_mirrors : Rule.declaration.Mirrors w limit p := by
  refine mirrors_bind mirrors_here fun token q => ?_
  refine mirrors_bind (mirrors_accept (by decide)) fun isExport q => ?_
  refine mirrors_bind (mirrors_run .modifiers rfl) fun found q => ?_
  obtain ⟨isMutable, isConst⟩ := found
  dsimp only [Rule.move]
  split
  · exact mirrors_fail
  · by_cases hnext : q + 1 < w.stop
    · refine mirrors_sight_bind (Nat.lt_of_succ_lt hnext) fun hs => ?_
      rw [w.sight_move hs hnext]
      refine mirrors_ite Iff.rfl (fun _ => ?_) fun _ => ?_
      · exact declared_mirrors w limit token none isExport isMutable isConst
      · have htype : Script.Mirrors w limit q (w.Asks .modifiers (isMutable, isConst))
            (some <$> require .type (run .type)) (some <$> require .type (run .type))
            (Option.map (·.mapTokens w.move)) fun _ => w.EndsOperand :=
          mirrors_map ((mirrors_require (mirrors_run .type rfl)).imp fun _ h => ⟨rfl, h⟩)
            fun _ => rfl
        exact mirrors_bind htype fun type q => declared_mirrors w limit token type _ _ _
    · -- a name of a variable and the semicolon behind it go beyond the passage
      refine mirrors_of_reaches (n := q + 2) (by omega) (reaches_skip fun s q => ?_)
      refine reaches_ite (declared_reaches token none _ _ _) ?_
      exact reaches_skip fun type _ => declared_reaches token type _ _ _

/-! ## Statements -/

theorem unit_mirrors (hp : p < w.stop) : Rule.unit.Mirrors w limit p := by
  refine mirrors_sight_bind hp fun hs => ?_
  refine mirrors_ite ?_ (fun _ => mirrors_pure rfl False.elim) fun _ => ?_
  · rw [Symbols.sight_kind, Symbols.sight_kind, w.same_move hs hp]
  refine mirrors_bind mirrors_require_statement fun item q => ?_
  refine mirrors_bind (mirrors_run .unit rfl) fun rest q => ?_
  exact mirrors_pure rfl False.elim

theorem block_mirrors (label : Option String) (hp : p < w.stop) :
    (Rule.block label).Mirrors w limit p := by
  refine mirrors_bind mirrors_here fun token q => ?_
  refine mirrors_bind (mirrors_accept (by decide)) fun found q => ?_
  cases found with
  | true =>
    refine mirrors_bind (mirrors_run .statements rfl) fun statements q => ?_
    exact mirrors_pure (by simp [Rule.move]) fun _ => trivial
  | false => exact mirrors_pure rfl fun h => .inr ⟨hp, h.resolve_left (by simp)⟩

theorem block_mirrors_stop (label : Option String) :
    (Rule.block label).Mirrors w limit w.stop := by
  intro hs hp depth
  change (block label).Ensures _ _ _ _ _ _
  rw [block, ensures_bind, ensures_here, ensures_bind, ensures_accept]
  refine ⟨fun h => ?_, fun _ => ⟨Nat.le_refl _, fun _ hbrace => ⟨fun _ => trivial, ?_⟩⟩⟩
  · rw [Symbols.next_of_kind h (by decide)]
    exact (ensures_le _).of_exact.mono fun v q hq => ⟨by omega, fun hq' => by omega⟩
  · exact obtains_bind obtains_here
      (obtains_bind (obtains_accept_of_ne ((hbrace rfl).resolve_left (by simp))) (obtains_pure _))

theorem statements_mirrors : Rule.statements.Mirrors w limit p := by
  refine mirrors_bind (mirrors_accept (by decide)) fun closed q => ?_
  cases closed with
  | true => exact mirrors_pure rfl fun _ => .inl rfl
  | false =>
    refine mirrors_bind mirrors_require_statement fun statement q => ?_
    refine mirrors_bind (mirrors_run .statements rfl) fun rest q => ?_
    exact mirrors_pure rfl fun _ => trivial

theorem requiredBlock_mirrors :
    Script.Mirrors w limit p pre requiredBlock requiredBlock (·.mapTokens w.move)
      fun _ => True :=
  (mirrors_require (mirrors_block none)).imp fun _ _ => rfl

theorem assignment_mirrors :
    Script.Mirrors w limit p pre assignment assignment (Option.map (·.mapTokens w.move))
      w.Completes :=
  mirrors_run (.level .assignment) rfl

theorem blockOrAssignment_mirrors :
    Script.Mirrors w limit p pre blockOrAssignment blockOrAssignment
      (fun v => (v.1.mapTokens w.move, v.2)) fun v => v.2 = true := by
  refine mirrors_bind (mirrors_block none) fun block q => ?_
  cases block with
  | some block => exact mirrors_pure rfl fun _ => rfl
  | none =>
    refine mirrors_bind (mirrors_require (assignment_mirrors w limit)) fun value q => ?_
    exact mirrors_pure rfl fun h => by cases h

theorem body_mirrors : Rule.body.Mirrors w limit p := by
  refine mirrors_bind (blockOrAssignment_mirrors w limit) fun found q => ?_
  obtain ⟨body, isBlock⟩ := found
  cases isBlock with
  | true => exact mirrors_pure rfl fun _ => rfl
  | false =>
    refine mirrors_bind (mirrors_expect (by decide)) fun _ q => ?_
    exact mirrors_pure rfl fun _ => trivial

theorem condition_mirrors :
    Script.Mirrors w limit p pre condition condition (·.mapTokens w.move) fun _ => True := by
  refine mirrors_bind (mirrors_expect (by decide)) fun _ q => ?_
  refine mirrors_bind (mirrors_require (mirrors_deeper .expression rfl)) fun condition q => ?_
  refine mirrors_bind (mirrors_expect (by decide)) fun _ q => ?_
  exact mirrors_pure rfl fun _ => trivial

theorem branched_mirrors (token : Nat) :
    Script.Mirrors w limit p pre (branched token) (branched (w.move token))
      (·.mapTokens w.move) fun _ => w.EndsStatement := by
  refine mirrors_bind (condition_mirrors w limit) fun condition q => ?_
  refine mirrors_bind (mirrors_run .body rfl) fun thenBody q => ?_
  refine mirrors_bind (mirrors_accept (by decide)) fun hasElse q => ?_
  cases hasElse with
  | true =>
    refine mirrors_bind mirrors_require_statement fun elseBody q => ?_
    exact mirrors_pure (by simp [Rule.move]) fun h => h
  | false =>
    refine mirrors_sight_ite ?_ ?_
    · refine mirrors_bind (mirrors_run .conditional rfl) fun elseBody q => ?_
      exact mirrors_pure (by simp [Rule.move]) fun h => h
    · exact mirrors_pure (by simp [Rule.move]) fun h =>
        ⟨.inr ⟨trivial, h.otherwise⟩, h.elseIf⟩

theorem conditional_mirrors : Rule.conditional.Mirrors w limit p := by
  refine mirrors_bind mirrors_here fun token q => ?_
  refine mirrors_bind (mirrors_accept (by decide)) fun isElseIf q => ?_
  cases isElseIf with
  | true => exact branched_mirrors w limit token
  | false =>
    exact mirrors_bind (mirrors_expect (by decide)) fun _ _ => branched_mirrors w limit token

theorem whileLoop_mirrors (label : Option String) :
    (Rule.whileLoop label).Mirrors w limit p := by
  refine mirrors_bind mirrors_here fun token q => ?_
  refine mirrors_bind (mirrors_expect (by decide)) fun _ q => ?_
  refine mirrors_bind (condition_mirrors w limit) fun condition q => ?_
  refine mirrors_bind (requiredBlock_mirrors w limit) fun body q => ?_
  exact mirrors_pure (by simp [Rule.move]) fun _ => trivial

theorem stepped_mirrors (token : Nat) (label : Option String) (init : Option Tree) :
    Script.Mirrors w limit p pre (stepped token label init)
      (stepped (w.move token) label (init.map (·.mapTokens w.move))) (·.mapTokens w.move)
      fun _ => True := by
  refine mirrors_bind (mirrors_deeper .expression rfl) fun condition q => ?_
  refine mirrors_bind (mirrors_expect (by decide)) fun _ q => ?_
  refine mirrors_bind (assignment_mirrors w limit) fun step q => ?_
  refine mirrors_bind (mirrors_expect (by decide)) fun _ q => ?_
  refine mirrors_bind (requiredBlock_mirrors w limit) fun body q => ?_
  exact mirrors_pure (by simp [Rule.move]) fun _ => trivial

theorem variableIfAny_mirrors (hp : p + 1 < w.stop) :
    Script.Mirrors w limit p pre variableIfAny variableIfAny (Option.map (·.mapTokens w.move))
      fun _ => True := by
  refine mirrors_sight_bind (Nat.lt_of_succ_lt hp) fun hs => ?_
  rw [w.sight_move hs hp]
  refine mirrors_ite Iff.rfl (fun _ => ?_) fun _ => ?_
  · exact mirrors_bind (mirrors_run .declaration rfl) fun _ _ => mirrors_pure rfl fun _ => trivial
  · exact mirrors_pure_lt (Nat.lt_of_succ_lt hp) rfl

theorem selection_mirrors : Rule.selection.Mirrors w limit p := by
  refine mirrors_bind mirrors_here fun token q => ?_
  refine mirrors_bind (mirrors_expect (by decide)) fun _ q => ?_
  refine mirrors_bind (mirrors_accept (by decide)) fun parenthesized q => ?_
  refine mirrors_bind (mirrors_require (mirrors_deeper .expression rfl)) fun subject q => ?_
  cases parenthesized with
  | true =>
    refine mirrors_bind (mirrors_expect (by decide)) fun _ q => ?_
    refine mirrors_bind (mirrors_expect (by decide)) fun _ q => ?_
    refine mirrors_bind (mirrors_run .branches rfl) fun branches q => ?_
    exact mirrors_pure (by simp [Rule.move, MatchBranch.move, MatchItem.move]) fun _ => trivial
  | false =>
    refine mirrors_bind (mirrors_expect (by decide)) fun _ q => ?_
    refine mirrors_bind (mirrors_run .branches rfl) fun branches q => ?_
    exact mirrors_pure (by simp [Rule.move, MatchBranch.move, MatchItem.move]) fun _ => trivial

theorem branches_mirrors : Rule.branches.Mirrors w limit p := by
  refine mirrors_bind (mirrors_run .branch rfl) fun branch q => ?_
  refine mirrors_bind (mirrors_accept (by decide)) fun more q => ?_
  cases more with
  | true =>
    refine mirrors_bind (mirrors_accept (by decide)) fun closed q => ?_
    cases closed with
    | true => exact mirrors_pure rfl fun _ => .inl rfl
    | false =>
      refine mirrors_bind (mirrors_run .branches rfl) fun rest q => ?_
      exact mirrors_pure rfl fun _ => trivial
  | false =>
    refine mirrors_bind (mirrors_expect (by decide)) fun _ q => ?_
    exact mirrors_pure rfl fun _ => trivial

theorem branchMark_mirrors :
    Script.Mirrors w limit p pre branchMark branchMark id fun _ => True := by
  refine mirrors_bind (mirrors_accept (by decide)) fun isColon q => ?_
  cases isColon with
  | true => exact mirrors_found rfl (.inl rfl)
  | false =>
    refine mirrors_bind (mirrors_accept (by decide)) fun isArrow q => ?_
    cases isArrow with
    | true => exact mirrors_found rfl (.inl rfl)
    | false => exact mirrors_failing

theorem item_mirrors :
    Script.Mirrors w limit p pre item item (MatchItem.move w.move) fun _ => False := by
  refine mirrors_bind (mirrors_require (mirrors_deeper .expression rfl)) fun start q => ?_
  refine mirrors_bind (mirrors_accept (by decide)) fun isRange q => ?_
  cases isRange with
  | true =>
    refine mirrors_bind (mirrors_require (mirrors_deeper .expression rfl)) fun stop q => ?_
    exact mirrors_pure rfl False.elim
  | false => exact mirrors_pure rfl False.elim

theorem items_mirrors : Rule.items.Mirrors w limit p := by
  refine mirrors_bind (item_mirrors w limit) fun first q => ?_
  refine mirrors_bind (mirrors_accept (by decide)) fun more q => ?_
  cases more with
  | true =>
    refine mirrors_bind (mirrors_run .items rfl) fun rest q => ?_
    exact mirrors_pure rfl False.elim
  | false => exact mirrors_pure rfl False.elim

theorem marked_mirrors (token : Nat) (items : List (MatchItem Tree)) :
    Script.Mirrors w limit p pre (marked token items)
      (marked (w.move token) (items.map (·.move w.move))) (MatchBranch.move w.move)
      fun _ => False := by
  refine mirrors_bind (branchMark_mirrors w limit) fun _ q => ?_
  refine mirrors_bind (blockOrAssignment_mirrors w limit) fun found q => ?_
  exact mirrors_pure rfl False.elim

theorem branch_mirrors : Rule.branch.Mirrors w limit p := by
  refine mirrors_bind mirrors_here fun token q => ?_
  refine mirrors_bind (mirrors_accept (by decide)) fun _ q => ?_
  refine mirrors_bind (mirrors_accept (by decide)) fun isElse q => ?_
  cases isElse with
  | true => exact marked_mirrors w limit token []
  | false =>
    refine mirrors_bind (mirrors_accept (by decide)) fun isDefault q => ?_
    cases isDefault with
    | true => exact marked_mirrors w limit token []
    | false =>
      refine mirrors_bind (mirrors_run .items rfl) fun items q => ?_
      exact marked_mirrors w limit token items

theorem headed_mirrors (token : Nat) (label : Option String) :
    Script.Mirrors w limit p pre (headed token label) (headed (w.move token) label)
      (·.mapTokens w.move) fun _ => True := by
  by_cases hnext : p + 1 < w.stop
  · refine mirrors_sight_bind (Nat.lt_of_succ_lt hnext) fun hs => ?_
    rw [w.sight_move hs hnext]
    refine mirrors_ite Iff.rfl (fun _ => ?_) fun _ => ?_
    · refine mirrors_bind (mirrors_take_both hnext) fun _ q => ?_
      refine mirrors_bind (mirrors_require (mirrors_deeper .expression rfl)) fun iterable q => ?_
      refine mirrors_bind (mirrors_expect (by decide)) fun _ q => ?_
      refine mirrors_bind (requiredBlock_mirrors w limit) fun body q => ?_
      exact mirrors_pure (by simp) fun _ => trivial
    refine mirrors_bind (variableIfAny_mirrors w limit hnext) fun init q => ?_
    cases init with
    | some init => exact stepped_mirrors w limit token label (some init)
    | none =>
      refine mirrors_bind (mirrors_accept (by decide)) fun isEmpty q => ?_
      cases isEmpty with
      | true => exact stepped_mirrors w limit token label none
      | false =>
        refine mirrors_bind (mirrors_require (assignment_mirrors w limit)) fun first q => ?_
        refine mirrors_bind (mirrors_accept (by decide)) fun isStepped q => ?_
        cases isStepped with
        | true => exact stepped_mirrors w limit token label (some first)
        | false =>
          refine mirrors_bind (mirrors_expect (by decide)) fun _ q => ?_
          refine mirrors_bind (requiredBlock_mirrors w limit) fun body q => ?_
          exact mirrors_pure (by simp) fun _ => trivial
  · exact mirrors_of_reaches (n := p + 2) (by omega) (headed_reaches token label)

theorem loop_mirrors (label : Option String) : (Rule.loop label).Mirrors w limit p := by
  refine mirrors_bind mirrors_here fun token q => ?_
  refine mirrors_bind (mirrors_expect (by decide)) fun _ q => ?_
  refine mirrors_bind (mirrors_block none) fun body q => ?_
  cases body with
  | some body => exact mirrors_pure (by simp [Rule.move]) fun _ => rfl
  | none =>
    refine mirrors_bind (mirrors_expect (by decide)) fun _ q => ?_
    exact headed_mirrors w limit token label

theorem jumpLabel_mirrors :
    Script.Mirrors w limit p pre jumpLabel jumpLabel id fun _ => False := by
  refine mirrors_bind (mirrors_accept (by decide)) fun found q => ?_
  cases found with
  | true =>
    exact mirrors_bind (mirrors_expect (by decide)) fun name q => mirrors_pure rfl False.elim
  | false => exact mirrors_pure rfl False.elim

theorem deferral_mirrors :
    Script.Mirrors w limit p pre deferral deferral (·.mapTokens w.move) fun _ => True := by
  refine mirrors_bind mirrors_here fun token q => ?_
  refine mirrors_bind (mirrors_expect (by decide)) fun _ q => ?_
  refine mirrors_bind (mirrors_run .body rfl) fun body q => ?_
  exact mirrors_pure (by simp [Rule.move]) fun _ => trivial

theorem breaking_mirrors :
    Script.Mirrors w limit p pre breaking breaking (·.mapTokens w.move) fun _ => True := by
  refine mirrors_bind mirrors_here fun token q => ?_
  refine mirrors_bind (mirrors_expect (by decide)) fun _ q => ?_
  refine mirrors_bind (jumpLabel_mirrors w limit) fun label q => ?_
  refine mirrors_bind (mirrors_deeper .expression rfl) fun value q => ?_
  refine mirrors_bind (mirrors_expect (by decide)) fun _ q => ?_
  exact mirrors_pure (by simp [Rule.move]) fun _ => trivial

theorem continuing_mirrors :
    Script.Mirrors w limit p pre continuing continuing (·.mapTokens w.move) fun _ => True := by
  refine mirrors_bind mirrors_here fun token q => ?_
  refine mirrors_bind (mirrors_expect (by decide)) fun _ q => ?_
  refine mirrors_bind (jumpLabel_mirrors w limit) fun label q => ?_
  refine mirrors_bind (mirrors_expect (by decide)) fun _ q => ?_
  exact mirrors_pure (by simp) fun _ => trivial

theorem returning_mirrors :
    Script.Mirrors w limit p pre returning returning (·.mapTokens w.move) fun _ => True := by
  refine mirrors_bind mirrors_here fun token q => ?_
  refine mirrors_bind (mirrors_expect (by decide)) fun _ q => ?_
  refine mirrors_bind (mirrors_deeper .expression rfl) fun value q => ?_
  refine mirrors_bind (mirrors_expect (by decide)) fun _ q => ?_
  exact mirrors_pure (by simp [Rule.move]) fun _ => trivial

theorem raising_mirrors :
    Script.Mirrors w limit p pre raising raising (·.mapTokens w.move) fun _ => True := by
  refine mirrors_bind mirrors_here fun token q => ?_
  refine mirrors_bind (mirrors_expect (by decide)) fun _ q => ?_
  refine mirrors_bind (mirrors_require (mirrors_deeper .expression rfl)) fun value q => ?_
  refine mirrors_bind (mirrors_expect (by decide)) fun _ q => ?_
  exact mirrors_pure (by simp) fun _ => trivial

theorem label_mirrors (hp : p + 1 < w.stop) :
    Script.Mirrors w limit p pre label label id fun _ => True := by
  refine mirrors_sight_bind (Nat.lt_of_succ_lt hp) fun hs => ?_
  rw [w.sight_move hs hp]
  refine mirrors_ite Iff.rfl (fun _ => ?_) fun _ => ?_
  · exact mirrors_bind (mirrors_take_both hp) fun _ q => mirrors_found rfl trivial
  · exact mirrors_pure_lt (Nat.lt_of_succ_lt hp) rfl

theorem loopIfAny_mirrors (label : Option String) :
    Script.Mirrors w limit p pre (loopIfAny label) (loopIfAny label)
      (Option.map (·.mapTokens w.move)) fun v => v.isSome = true := by
  refine mirrors_of_cases (fun hp => mirrors_sight_bind hp fun hs => ?_) ?_
  · simp only [Symbols.sight_kind]
    rw [w.same_move hs hp]
    split
    · refine mirrors_bind (mirrors_run (.loop label) rfl) fun _ _ => ?_
      exact mirrors_pure rfl fun _ => trivial
    · refine mirrors_bind (mirrors_run (.whileLoop label) rfl) fun _ _ => ?_
      exact mirrors_pure rfl fun _ => trivial
    · exact mirrors_pure_lt hp rfl
  · rintro rfl
    exact mirrors_of_lasts_stop (by omega) (loopIfAny_lasts label)

theorem labelled_mirrors (hp : p + 1 < w.stop) : Rule.labelled.Mirrors w limit p := by
  refine mirrors_bind (label_mirrors w limit hp) fun label q => ?_
  refine mirrors_bind (mirrors_block label) fun block q => ?_
  cases block with
  | some block => exact mirrors_pure rfl fun _ => rfl
  | none =>
    refine mirrors_bind (loopIfAny_mirrors w limit label) fun loop q => ?_
    cases loop with
    | some loop => exact mirrors_pure rfl fun _ => rfl
    | none =>
      cases label with
      | some label => exact mirrors_failing
      | none => exact mirrors_pure rfl id

theorem containerIfAny_mirrors (hp : p + 1 < w.stop) :
    Script.Mirrors w limit p pre containerIfAny containerIfAny
      (Option.map (·.mapTokens w.move)) fun _ => True := by
  refine mirrors_sight_bind (Nat.lt_of_succ_lt hp) fun hs => ?_
  rw [w.sight_move hs hp]
  refine mirrors_ite Iff.rfl (fun _ => ?_) fun _ => ?_
  · exact mirrors_bind (mirrors_run .function rfl) fun _ _ => mirrors_found rfl trivial
  refine mirrors_ite Iff.rfl (fun _ => ?_) fun _ => ?_
  · exact mirrors_bind (mirrors_run .record rfl) fun _ _ => mirrors_found rfl trivial
  refine mirrors_ite Iff.rfl (fun _ => ?_) fun _ => ?_
  · exact mirrors_bind (mirrors_run .enumeration rfl) fun _ _ => mirrors_found rfl trivial
  · exact mirrors_pure_lt (Nat.lt_of_succ_lt hp) rfl

theorem expressionStatement_mirrors :
    Script.Mirrors w limit p pre expressionStatement expressionStatement
      (Option.map (·.mapTokens w.move)) fun v => v.isSome = true := by
  refine mirrors_bind (assignment_mirrors w limit) fun value q => ?_
  cases value with
  | none => exact mirrors_pure rfl fun h => by cases h
  | some value =>
    exact mirrors_bind (mirrors_expect (by decide)) fun _ q => mirrors_pure rfl fun _ => trivial

theorem statement_mirrors (hp : p + 1 < w.stop) : Rule.statement.Mirrors w limit p := by
  have hlt : p < w.stop := Nat.lt_of_succ_lt hp
  have hword {x y : Script Tree}
      (hx : Script.Mirrors w limit p True x y (·.mapTokens w.move) fun _ => True) :
      Script.Mirrors w limit p True (x >>= fun t => pure (some t)) (y >>= fun t => pure (some t))
        (Option.map (·.mapTokens w.move)) (w.Asks .statement) :=
    mirrors_bind hx fun _ _ => mirrors_pure rfl fun _ => trivial
  refine mirrors_find_bind (containerIfAny_mirrors w limit hp)
    (fun _ => (containerIfAny_finds _).exact_of_progress)
    (fun _ _ => mirrors_pure rfl fun _ => trivial) ?_
  refine mirrors_find_bind (variableIfAny_mirrors w limit hp)
    (fun _ => (variableIfAny_finds _).exact_of_progress)
    (fun _ _ => mirrors_pure rfl fun _ => trivial) ?_
  refine mirrors_sight_bind hlt fun hs => ?_
  simp only [Symbols.sight_kind]
  rw [w.same_move hs hlt]
  split
  · exact hword (deferral_mirrors w limit)
  · refine mirrors_bind (mirrors_run .conditional rfl) fun conditional q => ?_
    exact mirrors_pure rfl fun h => h.2
  · refine mirrors_bind (mirrors_run .selection rfl) fun selection q => ?_
    refine mirrors_bind (mirrors_accept (by decide)) fun _ q => ?_
    exact mirrors_pure rfl fun h => .inr ⟨trivial, h.2.semicolon⟩
  · exact hword (breaking_mirrors w limit)
  · exact hword (continuing_mirrors w limit)
  · exact hword (returning_mirrors w limit)
  · exact hword (raising_mirrors w limit)
  · refine mirrors_bind (mirrors_labelled hp) fun statement q => ?_
    cases statement with
    | some statement => exact mirrors_pure rfl fun _ => rfl
    | none => exact (expressionStatement_mirrors w limit).imp fun _ h => h.1

end FrontEnd.Grammar
