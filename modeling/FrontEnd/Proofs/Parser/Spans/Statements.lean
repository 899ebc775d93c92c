import FrontEnd.Proofs.Parser.Parts
import FrontEnd.Proofs.Parser.Spans.Expressions

/-!
Productions of declarations and statements give what spans what they have read.
-/

namespace FrontEnd.Grammar

open Script

variable (symbols : Symbols) (limit : Nat) {depth p : Nat}

/-! ## Declarations -/

theorem initializer_chains :
    Script.Chains symbols limit depth p initializer fun v => v.toList.map .child := by
  refine chains_skip (.nil p) fun found q h => ?_
  refine Ensures.ite (fun _ => ?_) fun _ => h
  exact chains_bind h (requiredExpression_chains symbols limit) fun value q h => h

/-- A function behind the words before it, which begins at the first of them. -/
theorem signed_chains {token : Nat} {isExport isExtern : Bool} (hp : token ≤ p)
    (hfits : (symbols.symbolAt token).kind = if isExport then .kwExport else
      if isExtern then .kwExtern else (symbols.symbolAt p).kind) :
    Script.Spans symbols limit depth p (signed token isExport isExtern) fun t q =>
      Limb.Chain symbols.Tells token [.child t] q := by
  refine Ensures.bind (spans_run (.prototype isExport isExtern)) fun signature q hsignature => ?_
  obtain ⟨hfunc, hopener⟩ := hsignature.begins
  rw [hfunc, ← hopener] at hfits
  have h := hsignature.chain.mono_left hp
  refine chains_bind h (chains_run (.block none)) fun body q h => ?_
  cases body with
  | some body => exact h.node_of_first rfl (List.cons_ne_nil _ _) rfl hfits
  | none => exact chains_skip h fun _ q h => h

theorem function_chains : Rule.function.Chains symbols limit := by
  intro depth p
  refine Ensures.here_bind (Ensures.accept_bind (fun hexport => ?_) fun _ => ?_)
  · refine Ensures.bind (spans_onward (accept .kwExtern)) fun isExtern q hq => ?_
    exact signed_chains symbols limit (Nat.le_trans (symbols.le_next p) hq) hexport
  · refine Ensures.accept_bind (fun hextern => ?_) fun _ => ?_
    · exact signed_chains symbols limit (symbols.le_next p) hextern
    · exact signed_chains symbols limit (Nat.le_refl p) rfl

theorem prototype_chains (isExport isExtern : Bool) :
    (Rule.prototype isExport isExtern).Chains symbols limit := by
  intro depth p
  refine Ensures.here_bind (Ensures.expect_bind fun hfunc => ?_)
  have h := Limb.Chain.behind hfunc (by decide)
  refine chains_skip h fun name q h => ?_
  refine chains_skip h fun _ q h => ?_
  refine chains_bind h (chains_run .params) fun params q h => ?_
  refine chains_skip h fun _ q h => ?_
  refine chains_bind h (chains_require (chains_run .type)) fun result q h => ?_
  exact h.node rfl rfl hfunc

theorem params_chains : Rule.params.Chains symbols limit := by
  intro depth p
  refine Ensures.here_bind (Ensures.bind (spans_run .type) fun type q htype => ?_)
  cases type with
  | none => exact htype.chain
  | some type =>
    have hparam (name : String) (variadic : Bool) {q : Nat}
        (h : Limb.Chain symbols.Tells p [.child type] q) :
        Limb.Chain symbols.Tells p [.param ⟨p, name, type, variadic⟩] q :=
      .singleton (Limb.spans_of_chain rfl (htype.begins rfl) h (h.lt (List.cons_ne_nil _ _)))
    refine chains_skip htype.chain fun variadic q h => ?_
    refine chains_skip h fun name q h => ?_
    refine Ensures.ite (fun _ => hparam name true h) fun _ => ?_
    refine chains_skip h fun more q h => ?_
    refine Ensures.ite (fun _ => ?_) fun _ => hparam name false h
    exact chains_bind (hparam name false h) (chains_run .params) fun params q h => h

theorem recorded_chains {token : Nat} {isExport isUnion : Bool}
    (h : Limb.Chain symbols.Tells (token + 1) [] p)
    (hfits : (symbols.symbolAt token).kind =
      if isExport then .kwExport else if isUnion then .kwUnion else .kwStruct) :
    Script.Spans symbols limit depth p (recorded token isExport isUnion) fun t q =>
      Limb.Chain symbols.Tells token [.child t] q := by
  refine chains_skip h fun name q h => ?_
  refine chains_skip h fun _ q h => ?_
  refine chains_bind h (chains_run .fields) fun fields q h => ?_
  exact h.node rfl rfl hfits

theorem record_chains : Rule.record.Chains symbols limit := by
  intro depth p
  refine Ensures.here_bind (Ensures.accept_bind (fun hexport => ?_) fun _ => ?_)
  · refine chains_skip (.behind hexport (by decide)) fun isUnion q h => ?_
    cases isUnion with
    | true => exact recorded_chains symbols limit h hexport
    | false => exact chains_skip h fun _ q h => recorded_chains symbols limit h hexport
  · refine Ensures.accept_bind (fun hunion => ?_) fun _ => Ensures.expect_bind fun hstruct => ?_
    · exact recorded_chains symbols limit (.behind hunion (by decide)) hunion
    · exact recorded_chains symbols limit (.behind hstruct (by decide)) hstruct

theorem requiredType_spans {what : Expectation} :
    Script.Spans symbols limit depth p (require what (run .type)) fun t q =>
      (symbols.symbolAt p).kind.beginsType = true ∧ Limb.Chain symbols.Tells p [.child t] q := by
  refine (ensures_require _ _ _).mpr ((spans_run .type).mono fun v q hv t ht => ?_)
  subst ht
  exact ⟨hv.begins rfl, hv.chain⟩

theorem field_chains : Script.Chains symbols limit depth p field fun t => [.child t] := by
  refine Ensures.here_bind (Ensures.bind (requiredType_spans symbols limit) fun type q htype => ?_)
  obtain ⟨hbegins, h⟩ := htype
  refine chains_skip h fun name q h => ?_
  refine chains_bind h (initializer_chains symbols limit) fun default q h => ?_
  refine chains_skip h fun _ q h => ?_
  exact h.node_of_first rfl (List.cons_ne_nil _ _) rfl hbegins

theorem fields_chains : Rule.fields.Chains symbols limit := by
  intro depth p
  refine chains_skip (.nil p) fun closed q h => ?_
  refine Ensures.ite (fun _ => h) fun _ => ?_
  refine chains_bind h (field_chains symbols limit) fun field q h => ?_
  exact chains_bind h (chains_run .fields) fun fields q h => h

theorem enumerated_chains {token : Nat} {isExport : Bool}
    (h : Limb.Chain symbols.Tells (token + 1) [] p)
    (hfits : (symbols.symbolAt token).kind = if isExport then .kwExport else .kwEnum) :
    Script.Spans symbols limit depth p (enumerated token isExport) fun t q =>
      Limb.Chain symbols.Tells token [.child t] q := by
  refine chains_skip h fun name q h => ?_
  refine chains_skip h fun _ q h => ?_
  refine chains_bind h (chains_run .variants) fun variants q h => ?_
  exact h.node rfl rfl hfits

theorem enumeration_chains : Rule.enumeration.Chains symbols limit := by
  intro depth p
  refine Ensures.here_bind (Ensures.accept_bind (fun hexport => ?_) fun _ => ?_)
  · refine chains_skip (.behind hexport (by decide)) fun _ q h => ?_
    exact enumerated_chains symbols limit h hexport
  · refine Ensures.expect_bind fun henum => ?_
    exact enumerated_chains symbols limit (.behind henum (by decide)) henum

theorem variants_chains : Rule.variants.Chains symbols limit := by
  intro depth p
  refine Ensures.here_bind (Ensures.expect_bind fun hname => ?_)
  have hvariant {value : Option Tree} {q : Nat}
      (h : Limb.Chain symbols.Tells (p + 1) (value.toList.map .child) q) :
      Limb.Chain symbols.Tells p [.variant ⟨p, (symbols.symbolAt p).text, value⟩] q := by
    have hfits : symbols.symbolAt p = .name (symbols.symbolAt p).text := by
      rw [Symbol.name, ← hname]
    exact .singleton (Limb.spans_of_chain rfl hfits (h.mono_left (Nat.le_succ p)) h.le)
  refine chains_bind (.behind hname (by decide)) (initializer_chains symbols limit)
    fun value q h => ?_
  refine chains_skip h fun more q h => ?_
  refine Ensures.ite (fun _ => ?_) fun _ => ?_
  · refine chains_skip h fun closed q h => ?_
    refine Ensures.ite (fun _ => hvariant h) fun _ => ?_
    exact chains_bind (hvariant h) (chains_run .variants) fun variants q h => h
  · exact chains_skip h fun _ q h => hvariant h

/-- A declaration behind its type, which fits where it is anchored. -/
theorem declared_chains {token : Nat} {type : Option Tree} {isExport isMutable isConst : Bool}
    (h : Limb.Chain symbols.Tells token (type.toList.map .child) p)
    (hfits : ∀ name init, Form.Fits (.declaration name type init isExport isMutable isConst)
      (symbols.symbolAt token)) :
    Script.Spans symbols limit depth p (declared token type isExport isMutable isConst) fun t q =>
      Limb.Chain symbols.Tells token [.child t] q := by
  -- without a type and words before it, the name alone is behind the anchor
  refine Ensures.expect_bind fun hname => ?_
  have hname : Limb.Chain symbols.Tells (p + 1) [] _ := .behind hname (by decide)
  have hlt : token < symbols.next p := Nat.lt_of_le_of_lt h.le hname.le
  have h := h.mono_right (symbols.le_next p)
  refine Ensures.bind (initializer_chains symbols limit) fun init q hinit => ?_
  have hlt := Nat.lt_of_lt_of_le hlt hinit.le
  have h := h.append hinit
  refine Ensures.bind (spans_onward (expect .semicolon)) fun _ r hr => ?_
  refine (h.mono_right hr).node_of_lt (Nat.lt_of_lt_of_le hlt hr) ?_ rfl (hfits _ init)
  simp [Form.limbs, Form.children]

/-- A declaration behind its modifiers, which fits where it is anchored if its type begins here. -/
theorem modified_chains {token : Nat} {isExport isMutable isConst : Bool}
    (h : Limb.Chain symbols.Tells token [] p)
    (hfits : (symbols.symbolAt p).kind.beginsType = true → ∀ name (type init : Option Tree),
      Form.Fits (.declaration name type init isExport isMutable isConst)
        (symbols.symbolAt token)) :
    Script.Spans symbols limit depth p (modified token isExport isMutable isConst) fun t q =>
      Limb.Chain symbols.Tells token [.child t] q := by
  refine Ensures.ite (fun _ => trivial) fun _ => Ensures.sight_bind (Ensures.ite (fun homits => ?_)
    fun _ => ?_)
  · have hname : (symbols.symbolAt p).kind = .identifier := by
      simp only [Sight.omitsType, Symbols.sight_kind, Bool.and_eq_true] at homits
      exact of_decide_eq_true homits.1
    exact declared_chains symbols limit h fun name => hfits (by rw [hname]; rfl) name none
  · have hsome : Script.Spans symbols limit depth p
        (some <$> require .type (run .type)) fun v q =>
          (symbols.symbolAt p).kind.beginsType = true ∧
            Limb.Chain symbols.Tells p (v.toList.map .child) q :=
      Ensures.map (requiredType_spans symbols limit) fun _ _ h => h
    refine Ensures.bind hsome fun type q htype => ?_
    exact declared_chains symbols limit (h.append htype.2) fun name => hfits htype.1 name type

theorem declaration_chains : Rule.declaration.Chains symbols limit := by
  intro depth p
  refine Ensures.here_bind (Ensures.accept_bind (fun hexport => ?_) fun _ => ?_)
  · refine chains_skip (.behind hexport (by decide)) fun found q h => ?_
    exact modified_chains symbols limit (h.mono_left (Nat.le_succ p)) fun _ _ _ _ => hexport
  · refine Ensures.bind (spans_run .modifiers) fun found q hfound => ?_
    obtain ⟨isMutable, isConst⟩ := found
    refine modified_chains symbols limit hfound.chain fun htype _ _ _ => ?_
    rcases hfound.begins with ⟨hnone, rfl⟩ | ⟨rfl, hmutable⟩ | ⟨rfl, hconst⟩
    · cases hnone
      exact htype
    · exact .inl ⟨hmutable, rfl⟩
    · cases isMutable <;> exact .inr ⟨hconst, rfl⟩

/-! ## Statements -/

theorem nestedStatement_chains {what : Expectation} :
    Script.Chains symbols limit depth p (require what nestedStatement) fun t => [.child t] :=
  chains_require (chains_deeper .statement)

theorem requiredAssignment_chains :
    Script.Chains symbols limit depth p (require .expression assignment) fun t => [.child t] :=
  chains_require (chains_run (.level .assignment))

theorem requiredBlock_chains :
    Script.Chains symbols limit depth p requiredBlock fun t => [.child t] :=
  chains_require (chains_run (.block none))

theorem unit_chains : Rule.unit.Chains symbols limit := by
  intro depth p
  refine Ensures.sight_bind (Ensures.ite (fun _ => Nat.le_refl p) fun _ => ?_)
  refine chains_bind (.nil p) (nestedStatement_chains symbols limit) fun item q h => ?_
  exact chains_bind h (chains_run .unit) fun rest q h => h

theorem block_chains (label : Option String) : (Rule.block label).Chains symbols limit := by
  intro depth p
  refine Ensures.here_bind (Ensures.accept_bind (fun hopen => ?_) fun _ => Nat.le_refl p)
  have h := Limb.Chain.behind hopen (by decide)
  exact chains_bind h (chains_run .statements) fun statements q h => h.node rfl rfl hopen

theorem statements_chains : Rule.statements.Chains symbols limit := by
  intro depth p
  refine chains_skip (.nil p) fun closed q h => ?_
  refine Ensures.ite (fun _ => h) fun _ => ?_
  refine chains_bind h (nestedStatement_chains symbols limit) fun statement q h => ?_
  exact chains_bind h (chains_run .statements) fun rest q h => h

theorem blockOrAssignment_chains :
    Script.Chains symbols limit depth p blockOrAssignment fun v => [.child v.1] := by
  refine chains_bind (.nil p) (chains_run (.block none)) fun block q h => ?_
  cases block with
  | some block => exact h
  | none => exact chains_bind h (requiredAssignment_chains symbols limit) fun value q h => h

theorem body_chains : Rule.body.Chains symbols limit := by
  intro depth p
  refine chains_bind (.nil p) (blockOrAssignment_chains symbols limit) fun found q h => ?_
  obtain ⟨body, isBlock⟩ := found
  cases isBlock with
  | true => exact h
  | false => exact chains_skip h fun _ q h => h

theorem condition_chains : Script.Chains symbols limit depth p condition fun t => [.child t] := by
  refine chains_skip (.nil p) fun _ q h => ?_
  refine chains_bind h (requiredExpression_chains symbols limit) fun condition q h => ?_
  exact chains_skip h fun _ q h => h

theorem branched_chains {token : Nat} (h : Limb.Chain symbols.Tells (token + 1) [] p)
    (hopener : (symbols.symbolAt token).kind ∈ [.kwIf, .kwElseIf]) :
    Script.Spans symbols limit depth p (branched token) fun t q =>
      Limb.Chain symbols.Tells token [.child t] q := by
  refine chains_bind h (condition_chains symbols limit) fun condition q h => ?_
  refine chains_bind h (chains_run .body) fun thenBody q h => ?_
  refine chains_skip h fun hasElse q h => ?_
  refine Ensures.ite (fun _ => ?_) fun _ => Ensures.sight_bind (Ensures.ite (fun _ => ?_) fun _ => ?_)
  · refine chains_bind h (nestedStatement_chains symbols limit) fun elseBody q h => ?_
    exact h.node rfl rfl hopener
  · exact chains_bind h (chains_run .conditional) fun elseBody q h => h.node rfl rfl hopener
  · exact h.node rfl rfl hopener

theorem conditional_chains : Rule.conditional.Chains symbols limit := by
  intro depth p
  refine Ensures.here_bind (Ensures.accept_bind (fun helseif => ?_) fun _ => ?_)
  · exact branched_chains symbols limit (.behind helseif (by decide)) (by simp [helseif])
  · refine Ensures.expect_bind fun hif => ?_
    exact branched_chains symbols limit (.behind hif (by decide)) (by simp [hif])

theorem whileLoop_chains (label : Option String) :
    (Rule.whileLoop label).Chains symbols limit := by
  intro depth p
  refine Ensures.here_bind (Ensures.expect_bind fun hwhile => ?_)
  have h := Limb.Chain.behind hwhile (by decide)
  refine chains_bind h (condition_chains symbols limit) fun condition q h => ?_
  refine chains_bind h (requiredBlock_chains symbols limit) fun body q h => ?_
  exact h.node rfl rfl (by simp [Form.Fits, hwhile])

theorem stepped_chains {token : Nat} {label : Option String} {init : Option Tree}
    (h : Limb.Chain symbols.Tells (token + 1) (init.toList.map .child) p)
    (hfor : (symbols.symbolAt token).kind = .kwFor) :
    Script.Spans symbols limit depth p (stepped token label init) fun t q =>
      Limb.Chain symbols.Tells token [.child t] q := by
  refine chains_bind h (expression_chains symbols limit) fun condition q h => ?_
  refine chains_skip h fun _ q h => ?_
  refine chains_bind h (chains_run (.level .assignment)) fun step q h => ?_
  refine chains_skip h fun _ q h => ?_
  refine chains_bind h (requiredBlock_chains symbols limit) fun body q h => ?_
  exact h.node (by simp [Form.limbs, Form.children]) rfl hfor

theorem variableIfAny_chains :
    Script.Chains symbols limit depth p variableIfAny fun v => v.toList.map .child := by
  refine Ensures.sight_bind (Ensures.ite (fun _ => ?_) fun _ => Nat.le_refl p)
  exact chains_bind (.nil p) (chains_run .declaration) fun declaration q h => h

theorem headed_chains {token : Nat} {label : Option String}
    (h : Limb.Chain symbols.Tells (token + 1) [] p)
    (hfor : (symbols.symbolAt token).kind = .kwFor) :
    Script.Spans symbols limit depth p (headed token label) fun t q =>
      Limb.Chain symbols.Tells token [.child t] q := by
  refine Ensures.sight_bind (Ensures.ite (fun _ => ?_) fun _ => ?_)
  · refine chains_skip h fun _ q h => ?_
    refine chains_bind h (requiredExpression_chains symbols limit) fun iterable q h => ?_
    refine chains_skip h fun _ q h => ?_
    exact chains_bind h (requiredBlock_chains symbols limit) fun body q h => h.node rfl rfl hfor
  refine chains_bind h (variableIfAny_chains symbols limit) fun init q h => ?_
  cases init with
  | some init => exact stepped_chains symbols limit h hfor
  | none =>
    refine chains_skip h fun isEmpty q h => ?_
    refine Ensures.ite (fun _ => stepped_chains symbols limit h hfor) fun _ => ?_
    refine chains_bind h (requiredAssignment_chains symbols limit) fun first q h => ?_
    refine chains_skip h fun isStepped q h => ?_
    refine Ensures.ite (fun _ => stepped_chains symbols limit h hfor) fun _ => ?_
    refine chains_skip h fun _ q h => ?_
    refine chains_bind h (requiredBlock_chains symbols limit) fun body q h => ?_
    exact h.node rfl rfl (by simp [Form.Fits, hfor])

theorem loop_chains (label : Option String) : (Rule.loop label).Chains symbols limit := by
  intro depth p
  refine Ensures.here_bind (Ensures.expect_bind fun hfor => ?_)
  have h := Limb.Chain.behind hfor (by decide)
  refine chains_bind h (chains_run (.block none)) fun body q h => ?_
  cases body with
  | some body => exact h.node rfl rfl hfor
  | none => exact chains_skip h fun _ q h => headed_chains symbols limit h hfor

theorem selection_chains : Rule.selection.Chains symbols limit := by
  intro depth p
  refine Ensures.here_bind (Ensures.expect_bind fun hmatch => ?_)
  refine chains_skip (.behind hmatch (by decide)) fun parenthesized q h => ?_
  refine chains_bind h (requiredExpression_chains symbols limit) fun subject q h => ?_
  have hrest {q : Nat} (h : Limb.Chain symbols.Tells (p + 1) [.child subject] q) :
      Script.Spans symbols limit depth q (do
        let _ ← expect .leftBrace
        return .node p (.selection subject (← run .branches))) fun t r =>
          Limb.Chain symbols.Tells p [.child t] r := by
    refine chains_skip h fun _ q h => ?_
    exact chains_bind h (chains_run .branches) fun branches q h => h.node rfl rfl hmatch
  refine Ensures.ite (fun _ => ?_) fun _ => hrest h
  exact chains_skip h fun _ q h => hrest h

theorem branches_chains : Rule.branches.Chains symbols limit := by
  intro depth p
  refine chains_bind (.nil p) (chains_run .branch) fun branch q h => ?_
  refine chains_skip h fun more q h => ?_
  refine Ensures.ite (fun _ => ?_) fun _ => chains_skip h fun _ q h => h
  refine chains_skip h fun closed q h => ?_
  refine Ensures.ite (fun _ => h) fun _ => ?_
  exact chains_bind h (chains_run .branches) fun rest q h => h

theorem marked_chains {token : Nat} {items : List (MatchItem Tree)}
    (h : Limb.Chain symbols.Tells token (items.flatMap fun i => i.children.map .child) p)
    (hfits : (symbols.symbolAt token).kind.beginsBranch = true) :
    Script.Spans symbols limit depth p (marked token items) fun b q =>
      Limb.Chain symbols.Tells token [.branch b] q := by
  refine chains_skip h fun _ q h => ?_
  refine chains_bind h (blockOrAssignment_chains symbols limit) fun found q h => ?_
  obtain ⟨body, isBlock⟩ := found
  refine .singleton (Limb.spans_of_chain rfl hfits ?_ (h.lt (by simp)))
  simpa [Limb.children, MatchBranch.children, List.map_flatMap] using h

/-- A branch is anchored at the word before it, or where it begins without one. -/
theorem itemized_chains {token : Nat} (h : Limb.Chain symbols.Tells token [] p)
    (hfits : (symbols.symbolAt p).kind.beginsBranch = true →
      (symbols.symbolAt token).kind.beginsBranch = true) :
    Script.Spans symbols limit depth p (itemized token) fun b q =>
      Limb.Chain symbols.Tells token [.branch b] q := by
  refine Ensures.accept_bind (fun helse => ?_) fun _ => ?_
  · have hbehind := h.mono_right (symbols.le_next p)
    exact Ensures.pure_bind (Ensures.pure_bind
      (marked_chains symbols limit hbehind (hfits (by rw [helse]; rfl))))
  refine Ensures.accept_bind (fun hdefault => ?_) fun _ => ?_
  · have hbehind := h.mono_right (symbols.le_next p)
    exact Ensures.pure_bind (marked_chains symbols limit hbehind (hfits (by rw [hdefault]; rfl)))
  · refine Ensures.bind (spans_run .items) fun items q hitems => ?_
    refine marked_chains symbols limit (h.append hitems.chain) (hfits ?_)
    have hbegins : (symbols.symbolAt p).kind.beginsExpression = true := hitems.begins
    rw [TokenKind.beginsBranch, hbegins, Bool.true_or]

theorem branch_chains : Rule.branch.Chains symbols limit := by
  intro depth p
  refine Ensures.here_bind (Ensures.accept_bind (fun hcase => ?_) fun _ => ?_)
  · exact itemized_chains symbols limit (symbols.le_next p) fun _ => by rw [hcase]; rfl
  · exact itemized_chains symbols limit (.nil p) id

theorem item_chains :
    Script.Chains symbols limit depth p item fun i => i.children.map .child := by
  refine chains_bind (.nil p) (requiredExpression_chains symbols limit) fun start q h => ?_
  refine chains_skip h fun isRange q h => ?_
  refine Ensures.ite (fun _ => ?_) fun _ => h
  exact chains_bind h (requiredExpression_chains symbols limit) fun stop q h => h

theorem items_chains : Rule.items.Chains symbols limit := by
  intro depth p
  refine chains_bind (.nil p) (item_chains symbols limit) fun first q h => ?_
  refine chains_skip h fun more q h => ?_
  refine Ensures.ite (fun _ => ?_) fun _ => Ensures.pure (by simpa using h)
  exact chains_bind h (chains_run .items) fun rest q h => h

theorem deferral_chains : Script.Chains symbols limit depth p deferral fun t => [.child t] := by
  refine Ensures.here_bind (Ensures.expect_bind fun hdefer => ?_)
  have h := Limb.Chain.behind hdefer (by decide)
  exact chains_bind h (chains_run .body) fun body q h => h.node rfl rfl hdefer

theorem breaking_chains : Script.Chains symbols limit depth p breaking fun t => [.child t] := by
  refine Ensures.here_bind (Ensures.expect_bind fun hbreak => ?_)
  refine chains_skip (.behind hbreak (by decide)) fun label q h => ?_
  refine chains_bind h (expression_chains symbols limit) fun value q h => ?_
  exact chains_skip h fun _ q h => h.node rfl rfl hbreak

theorem continuing_chains :
    Script.Chains symbols limit depth p continuing fun t => [.child t] := by
  refine Ensures.here_bind (Ensures.expect_bind fun hcontinue => ?_)
  refine chains_skip (.behind hcontinue (by decide)) fun label q h => ?_
  exact chains_skip h fun _ q h => h.node rfl rfl hcontinue

theorem returning_chains : Script.Chains symbols limit depth p returning fun t => [.child t] := by
  refine Ensures.here_bind (Ensures.expect_bind fun hreturn => ?_)
  have h := Limb.Chain.behind hreturn (by decide)
  refine chains_bind h (expression_chains symbols limit) fun value q h => ?_
  exact chains_skip h fun _ q h => h.node rfl rfl hreturn

theorem raising_chains : Script.Chains symbols limit depth p raising fun t => [.child t] := by
  refine Ensures.here_bind (Ensures.expect_bind fun hraise => ?_)
  have h := Limb.Chain.behind hraise (by decide)
  refine chains_bind h (requiredExpression_chains symbols limit) fun value q h => ?_
  exact chains_skip h fun _ q h => h.node rfl rfl hraise

theorem loopIfAny_chains (label : Option String) :
    Script.Chains symbols limit depth p (loopIfAny label) fun v => v.toList.map .child := by
  refine Ensures.sight_bind ?_
  split
  · exact chains_bind (.nil p) (chains_run (.loop label)) fun loop q h => h
  · exact chains_bind (.nil p) (chains_run (.whileLoop label)) fun loop q h => h
  · exact Nat.le_refl p

theorem labelled_chains : Rule.labelled.Chains symbols limit := by
  intro depth p
  refine chains_skip (.nil p) fun label q h => ?_
  refine chains_bind h (chains_run (.block label)) fun block q h => ?_
  cases block with
  | some block => exact h
  | none =>
    refine chains_bind h (loopIfAny_chains symbols limit label) fun loop q h => ?_
    cases loop with
    | some loop => exact h
    | none => exact Ensures.ite (fun _ => Ensures.failing) fun _ => h

theorem containerIfAny_chains :
    Script.Chains symbols limit depth p containerIfAny fun v => v.toList.map .child := by
  refine Ensures.sight_bind (Ensures.ite (fun _ => ?_) fun _ => Ensures.ite (fun _ => ?_) fun _ =>
    Ensures.ite (fun _ => ?_) fun _ => Nat.le_refl p)
  · exact chains_bind (.nil p) (chains_run .function) fun function q h => h
  · exact chains_bind (.nil p) (chains_run .record) fun record q h => h
  · exact chains_bind (.nil p) (chains_run .enumeration) fun enumeration q h => h

theorem expressionStatement_chains :
    Script.Chains symbols limit depth p expressionStatement fun v => v.toList.map .child := by
  refine chains_bind (.nil p) (chains_run (.level .assignment)) fun value q h => ?_
  cases value with
  | none => exact h
  | some value => exact chains_skip h fun _ q h => h

theorem statement_chains : Rule.statement.Chains symbols limit := by
  intro depth p
  refine chains_bind (.nil p) (containerIfAny_chains symbols limit) fun declaration q h => ?_
  cases declaration with
  | some declaration => exact h
  | none =>
    refine chains_bind h (variableIfAny_chains symbols limit) fun declaration q h => ?_
    cases declaration with
    | some declaration => exact h
    | none =>
      refine Ensures.sight_bind ?_
      split
      · exact chains_bind h (deferral_chains symbols limit) fun statement q h => h
      · exact chains_bind h (chains_run .conditional) fun statement q h => h
      · refine chains_bind h (chains_run .selection) fun selection q h => ?_
        exact chains_skip h fun _ q h => h
      · exact chains_bind h (breaking_chains symbols limit) fun statement q h => h
      · exact chains_bind h (continuing_chains symbols limit) fun statement q h => h
      · exact chains_bind h (returning_chains symbols limit) fun statement q h => h
      · exact chains_bind h (raising_chains symbols limit) fun statement q h => h
      · refine chains_bind h (chains_run .labelled) fun statement q h => ?_
        cases statement with
        | some statement => exact h
        | none =>
          exact (expressionStatement_chains symbols limit).mono fun v r hv => h.append hv

end FrontEnd.Grammar
