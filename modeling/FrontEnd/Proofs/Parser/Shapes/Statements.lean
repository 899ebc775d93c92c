import FrontEnd.Proofs.Parser.Parts
import FrontEnd.Proofs.Parser.Shapes.Expressions

/-!
The shapes of what the productions of declarations and statements read.
-/

namespace FrontEnd.Grammar

open Script

variable (symbols : Symbols) (limit : Nat) {depth p : Nat}

/-! ## Declarations -/

variable {symbols limit} in
theorem initializer_shapes : Shapes symbols limit depth p initializer fun v _ =>
    ∀ t ∈ v, Shaped symbols limit (.deeper .expression) depth t := by
  refine Ensures.accept_bind (fun _ => ?_) fun _ => Ensures.pure nofun
  refine Ensures.bind require_expression_shapes fun value q hvalue => ?_
  refine Ensures.pure ?_
  rintro t ⟨⟩
  exact hvalue

theorem signed_shapes {isExport isExtern : Bool} {token : Nat}
    (hboth : ¬(isExport = true ∧ isExtern = true)) :
    Shapes symbols limit depth p (signed token isExport isExtern) fun v _ =>
      Shaped symbols limit .statement depth v := by
  refine Ensures.bind (shapes_run (.prototype isExport isExtern)) fun signature q hsignature => ?_
  refine Ensures.bind (shapes_run (.block none)) fun body q hbody => ?_
  cases body with
  | some body => exact Ensures.pure (.declaredFunction hboth hsignature (hbody body rfl))
  | none =>
    refine shapes_any_bind fun _ q => ?_
    exact Ensures.pure (.declaredSignature hboth hsignature)

theorem function_shapes : Rule.function.GivesShape symbols limit := by
  intro depth p
  have hsigned {token q : Nat} {isExport isExtern : Bool}
      (hboth : (symbols.sight p).opensFunction = true → ¬(isExport = true ∧ isExtern = true)) :
      Shapes symbols limit depth q (signed token isExport isExtern)
        (Rule.function.Shapes symbols limit depth p) := by
    by_cases hopens : (symbols.sight p).opensFunction = true
    · exact (signed_shapes symbols limit (hboth hopens)).mono fun _ _ h _ => h
    · exact (shapes_any _).mono fun _ _ _ h => absurd h hopens
  refine Ensures.here_bind ?_
  refine Ensures.accept_bind (fun hexport => ?_) fun _ => ?_
  · refine Ensures.accept_bind (fun hextern => ?_) fun _ => hsigned (by simp)
    -- No function begins with both words.
    refine hsigned fun hopens => ?_
    rw [Symbols.next_of_kind hexport (by decide)] at hextern
    simp [Sight.opensFunction, Sight.opens, hexport, hextern] at hopens
  · exact shapes_any_bind fun isExtern q => hsigned (by simp)

theorem prototype_shapes (isExport isExtern : Bool) :
    (Rule.prototype isExport isExtern).GivesShape symbols limit := by
  intro depth p
  refine shapes_any_bind fun token q => ?_
  refine shapes_any_bind fun _ q => ?_
  refine shapes_any_bind fun name q => ?_
  refine shapes_any_bind fun _ q => ?_
  refine Ensures.bind (shapes_run .params) fun params q ⟨hparams, hlast⟩ => ?_
  refine shapes_any_bind fun _ q => ?_
  refine Ensures.bind (Ensures.require (Q := fun t _ => Shaped symbols limit .type depth t)
    ((shapes_run .type).mono fun _ _ h => h.1)) fun result q hresult => ?_
  exact Ensures.pure (.prototype hparams hlast hresult)

theorem params_shapes : Rule.params.GivesShape symbols limit := by
  intro depth p
  refine shapes_any_bind fun token q => ?_
  refine Ensures.bind (shapes_run .type) fun type q ⟨htype, _⟩ => ?_
  cases type with
  | none => exact Ensures.pure ⟨nofun, nofun⟩
  | some type =>
    have ht := htype type rfl
    refine shapes_any_bind fun variadic q => ?_
    refine shapes_any_bind fun name q => ?_
    cases variadic with
    | true => exact Ensures.pure ⟨List.forall_mem_cons.mpr ⟨ht, nofun⟩, nofun⟩
    | false =>
      refine shapes_any_bind fun more q => ?_
      cases more with
      | false => exact Ensures.pure ⟨List.forall_mem_cons.mpr ⟨ht, nofun⟩, nofun⟩
      | true =>
        refine Ensures.bind (shapes_run .params) fun rest q ⟨hrest, hlast⟩ => ?_
        refine Ensures.pure ⟨List.forall_mem_cons.mpr ⟨ht, hrest⟩, ?_⟩
        cases rest with
        | nil => exact nofun
        | cons x rest => exact List.forall_mem_cons.mpr ⟨rfl, hlast⟩

theorem field_shapes : Shapes symbols limit depth p field fun v _ =>
    Shaped symbols limit .field depth v := by
  refine shapes_any_bind fun token q => ?_
  refine Ensures.bind (Ensures.require (Q := fun t _ => Shaped symbols limit .type depth t)
    ((shapes_run .type).mono fun _ _ h => h.1)) fun type q htype => ?_
  refine shapes_any_bind fun name q => ?_
  refine Ensures.bind initializer_shapes fun default q hdefault => ?_
  refine shapes_any_bind fun _ q => ?_
  exact Ensures.pure (.field htype hdefault)

theorem fields_shapes : Rule.fields.GivesShape symbols limit := by
  intro depth p
  refine Ensures.accept_bind (fun _ => Ensures.pure nofun) fun _ => ?_
  refine Ensures.bind (field_shapes symbols limit) fun field q hfield => ?_
  refine Ensures.bind (shapes_run .fields) fun fields q hfields => ?_
  exact Ensures.pure (List.forall_mem_cons.mpr ⟨hfield, hfields⟩)

theorem record_shapes : Rule.record.GivesShape symbols limit := by
  intro depth p
  refine shapes_any_bind fun token q => ?_
  refine shapes_any_bind fun isExport q => ?_
  refine shapes_any_bind fun isUnion q => ?_
  have hrest {q : Nat} {name : String} : Shapes symbols limit depth q
      (return .node token (.record name isExport isUnion (← run .fields)))
      (Rule.record.Shapes symbols limit depth p) :=
    Ensures.bind (shapes_run .fields) fun fields q hfields => Ensures.pure (.record hfields)
  cases isUnion with
  | true => exact shapes_any_bind fun name q => shapes_any_bind fun _ q => hrest
  | false =>
    exact shapes_any_bind fun _ q => shapes_any_bind fun name q => shapes_any_bind fun _ q => hrest

theorem variants_shapes : Rule.variants.GivesShape symbols limit := by
  intro depth p
  refine shapes_any_bind fun token q => ?_
  refine shapes_any_bind fun name q => ?_
  refine Ensures.bind initializer_shapes fun value q hvalue => ?_
  have hlast {q : Nat} : Shapes symbols limit depth q (pure [⟨token, name, value⟩])
      (Rule.variants.Shapes symbols limit depth p) :=
    Ensures.pure ⟨nofun, List.forall_mem_cons.mpr ⟨hvalue, nofun⟩⟩
  refine shapes_any_bind fun more q => ?_
  cases more with
  | false => exact shapes_any_bind fun _ q => hlast
  | true =>
    refine shapes_any_bind fun closed q => ?_
    cases closed with
    | true => exact hlast
    | false =>
      refine Ensures.bind (shapes_run .variants) fun rest q ⟨_, hrest⟩ => ?_
      exact Ensures.pure ⟨nofun, List.forall_mem_cons.mpr ⟨hvalue, hrest⟩⟩

theorem enumeration_shapes : Rule.enumeration.GivesShape symbols limit := by
  intro depth p
  refine shapes_any_bind fun token q => ?_
  refine shapes_any_bind fun isExport q => ?_
  refine shapes_any_bind fun _ q => ?_
  refine shapes_any_bind fun name q => ?_
  refine shapes_any_bind fun _ q => ?_
  refine Ensures.bind (shapes_run .variants) fun variants q ⟨hne, hvariants⟩ => ?_
  exact Ensures.pure (.enumeration hne hvariants)

theorem modifiers_shapes : Rule.modifiers.GivesShape symbols limit := by
  intro depth p
  refine Ensures.accept_bind (fun _ => ?_) fun hmutable => ?_
  · exact shapes_any_bind fun _ q => Ensures.pure (.inl rfl)
  refine Ensures.accept_bind (fun _ => ?_) fun hconst => ?_
  · exact shapes_any_bind fun _ q => Ensures.pure (.inr (.inl rfl))
  · exact Ensures.pure (.inr (.inr ⟨rfl, hmutable, hconst⟩))

variable {symbols limit} in
theorem declared_shapes {token : Nat} {type : Option Tree} {isExport isMutable isConst : Bool}
    (h : ∀ name init, (∀ t ∈ init, Shaped symbols limit (.deeper .expression) depth t) →
      Shaped symbols limit .declaration depth
        (.node token (.declaration name type init isExport isMutable isConst))) :
    Shapes symbols limit depth p (declared token type isExport isMutable isConst) fun v _ =>
      Shaped symbols limit .declaration depth v := by
  refine shapes_any_bind fun name q => ?_
  refine Ensures.bind initializer_shapes fun init q hinit => ?_
  refine shapes_any_bind fun _ q => ?_
  exact Ensures.pure (h name init hinit)

theorem typed_shapes : Shapes symbols limit depth p (some <$> require .type (run .type))
    fun v q => ∃ t, v = some t ∧ Rule.type.Shapes symbols limit depth p (some t) q := by
  refine Ensures.map (Ensures.require (Q := fun t q =>
    Rule.type.Shapes symbols limit depth p (some t) q) ((shapes_run .type).mono ?_))
    fun t q h => ⟨t, rfl, h⟩
  rintro v q h t rfl
  exact h

/-- A variable that begins with no modifier begins with its type. -/
theorem typed_of_opensVariable (h : (symbols.sight p).opensVariable = true)
    (hexport : (symbols.symbolAt p).kind ≠ .kwExport)
    (hmutable : (symbols.symbolAt p).kind ≠ .kwMutable)
    (hconst : (symbols.symbolAt p).kind ≠ .kwConst) :
    ((symbols.symbolAt p).kind = .question ∨ (symbols.symbolAt p).kind = .leftBracket) ∨
      symbols.namesTwice p := by
  rw [Sight.opensVariable, Symbols.sight_kind, Symbols.sight_next] at h
  simpa [hexport, hmutable, hconst, Symbols.namesTwice] using h

theorem declaration_shapes : Rule.declaration.GivesShape symbols limit := by
  intro depth p
  by_cases hopens : (symbols.sight p).opensVariable = true
  case neg => exact (shapes_any _).mono fun _ _ _ h => absurd h hopens
  refine Ensures.here_bind ?_
  refine Ensures.bind (P := fun v q => v = true ∨ q = p ∧ (symbols.symbolAt p).kind ≠ .kwExport)
    ((ensures_accept _ _).mpr ⟨fun _ => .inl rfl, fun h => .inr ⟨rfl, h⟩⟩)
    fun isExport q hexport => ?_
  refine Ensures.bind (shapes_run .modifiers) fun found q' hfound => ?_
  obtain ⟨isMutable, isConst⟩ := found
  refine Ensures.ite (fun _ => trivial) fun hboth => ?_
  rw [Bool.and_eq_true] at hboth
  refine Ensures.sight_bind ?_
  by_cases hflags : isExport = true ∨ isMutable = true ∨ isConst = true
  · have hflagged {q : Nat} {type : Option Tree}
        (htype : ∀ t ∈ type, Shaped symbols limit .type depth t) :
        Shapes symbols limit depth q (declared p type isExport isMutable isConst)
          (Rule.declaration.Shapes symbols limit depth p) :=
      (declared_shapes fun _ _ hinit => .flagged hflags hboth htype hinit).mono fun _ _ h _ => h
    refine Ensures.ite (fun _ => hflagged nofun) fun _ => ?_
    exact Ensures.bind (typed_shapes symbols limit) fun type r ⟨t, htype, ht, _⟩ =>
      hflagged (htype ▸ ht)
  · simp only [not_or, Bool.not_eq_true] at hflags
    obtain ⟨rfl, rfl, rfl⟩ := hflags
    obtain ⟨rfl, hnoExport⟩ := hexport.resolve_left nofun
    obtain ⟨rfl, hnoMutable, hnoConst⟩ := (hfound.resolve_left nofun).resolve_left nofun
    have htyped := typed_of_opensVariable symbols hopens hnoExport hnoMutable hnoConst
    refine Ensures.ite (fun homits => ?_) fun _ => ?_
    · rcases htyped with (hk | hk) | ⟨hk, hnext⟩
      · simp [Sight.omitsType, hk] at homits
      · simp [Sight.omitsType, hk] at homits
      · simp [Sight.omitsType, hk, hnext] at homits
    · refine Ensures.bind (typed_shapes symbols limit) fun type r ⟨t, htype, ht, hmark, hnames⟩ => ?_
      subst htype
      rcases htyped with hk | hk
      · exact (declared_shapes fun _ _ hinit => .typed (hmark hk t rfl) hinit).mono fun _ _ h _ => h
      · obtain rfl : t = _ := Option.some.inj (hnames hk)
        have hleaf : Shaped symbols limit .expression depth (symbols.nameAt q') :=
          .leaf (by simp [Symbol.leaf?, hk.1])
        exact (declared_shapes fun _ _ hinit => .named hleaf hinit).mono fun _ _ h _ => h

variable {symbols limit} in
theorem shapes_some {x : Script Tree} {c : Category}
    (hx : Shapes symbols limit depth p x fun v _ => Shaped symbols limit c depth v) :
    Shapes symbols limit depth p (return some (← x)) fun v _ =>
      ∀ t ∈ v, Shaped symbols limit c depth t := by
  refine Ensures.bind hx fun t q ht => Ensures.pure ?_
  rintro _ ⟨⟩
  exact ht

theorem containerIfAny_shapes : Shapes symbols limit depth p containerIfAny fun v _ =>
    ∀ t ∈ v, Shaped symbols limit .statement depth t := by
  refine Ensures.sight_bind (Ensures.ite (fun hopens => ?_) fun _ => ?_)
  · exact shapes_some ((shapes_run .function).mono fun _ _ h => h hopens)
  refine Ensures.ite (fun _ => shapes_some (shapes_run .record)) fun _ => ?_
  refine Ensures.ite (fun _ => shapes_some (shapes_run .enumeration)) fun _ => ?_
  exact Ensures.pure nofun

theorem variableIfAny_shapes : Shapes symbols limit depth p variableIfAny fun v _ =>
    ∀ t ∈ v, Shaped symbols limit .declaration depth t := by
  refine Ensures.sight_bind (Ensures.ite (fun hopens => ?_) fun _ => Ensures.pure nofun)
  exact shapes_some ((shapes_run .declaration).mono fun _ _ h => h hopens)

/-! ## Bodies -/

theorem nestedStatement_shapes : Shapes symbols limit depth p nestedStatement fun v _ =>
    ∀ t ∈ v, Shaped symbols limit (.deeper .statement) depth t :=
  (shapes_deeper .statement).mono fun _ _ h t ht => .deeper h.1 (h.2 t ht)

theorem require_statement_shapes {what : Expectation} :
    Shapes symbols limit depth p (require what nestedStatement) fun v _ =>
      Shaped symbols limit (.deeper .statement) depth v :=
  Ensures.require (nestedStatement_shapes symbols limit)

theorem unit_shapes : Rule.unit.GivesShape symbols limit := by
  intro depth p
  refine Ensures.sight_bind (Ensures.ite (fun _ => Ensures.pure nofun) fun _ => ?_)
  refine Ensures.bind (require_statement_shapes symbols limit) fun item q hitem => ?_
  refine Ensures.bind (shapes_run .unit) fun rest q hrest => ?_
  exact Ensures.pure (List.forall_mem_cons.mpr ⟨hitem, hrest⟩)

theorem statements_shapes : Rule.statements.GivesShape symbols limit := by
  intro depth p
  refine Ensures.accept_bind (fun _ => Ensures.pure nofun) fun _ => ?_
  refine Ensures.bind (require_statement_shapes symbols limit) fun item q hitem => ?_
  refine Ensures.bind (shapes_run .statements) fun rest q hrest => ?_
  exact Ensures.pure (List.forall_mem_cons.mpr ⟨hitem, hrest⟩)

theorem block_shapes (label : Option String) : (Rule.block label).GivesShape symbols limit := by
  intro depth p
  refine shapes_any_bind fun token q => ?_
  refine Ensures.accept_bind (fun _ => ?_) fun _ => Ensures.pure nofun
  refine Ensures.bind (shapes_run .statements) fun statements q hstatements => ?_
  refine Ensures.pure ?_
  rintro _ ⟨⟩
  exact .block hstatements

theorem requiredBlock_shapes : Shapes symbols limit depth p requiredBlock fun v _ =>
    Shaped symbols limit (.block none) depth v := Ensures.require (shapes_run (.block none))

theorem blockOrAssignment_shapes : Shapes symbols limit depth p blockOrAssignment fun v _ =>
    Shaped symbols limit .body depth v.1 := by
  refine Ensures.bind (shapes_run (.block none)) fun block q hblock => ?_
  cases block with
  | some block => exact Ensures.pure (.bodyBlock (hblock block rfl))
  | none =>
    refine Ensures.bind (Ensures.require assignment_shapes) fun value q hvalue => ?_
    exact Ensures.pure (.bodyAssignment hvalue)

theorem body_shapes : Rule.body.GivesShape symbols limit := by
  intro depth p
  refine Ensures.bind (blockOrAssignment_shapes symbols limit) fun found q hbody => ?_
  obtain ⟨body, isBlock⟩ := found
  refine Ensures.ite (fun _ => ?_) fun _ => Ensures.pure hbody
  exact shapes_any_bind fun _ q => Ensures.pure hbody

theorem condition_shapes : Shapes symbols limit depth p condition fun v _ =>
    Shaped symbols limit (.deeper .expression) depth v := by
  refine shapes_any_bind fun _ q => ?_
  refine Ensures.bind require_expression_shapes fun condition q hcondition => ?_
  exact shapes_any_bind fun _ q => Ensures.pure hcondition

/-! ## Branches and loops -/

theorem branched_shapes {token : Nat} {opener : TokenKind}
    (hopener : (symbols.symbolAt token).kind = opener) :
    Shapes symbols limit depth p (branched token) fun v _ =>
      Shaped symbols limit (.conditional opener) depth v := by
  refine Ensures.bind (condition_shapes symbols limit) fun condition q hcondition => ?_
  refine Ensures.bind (shapes_run .body) fun thenBody q hthen => ?_
  refine Ensures.accept_bind (fun _ => ?_) fun _ => ?_
  · refine Ensures.bind (require_statement_shapes symbols limit) fun elseBody q helse => ?_
    refine Ensures.pure (.branch hopener hcondition hthen ?_)
    rintro _ ⟨⟩
    exact helse
  refine Ensures.sight_bind (Ensures.ite (fun hk => ?_) fun _ => ?_)
  · refine Ensures.bind (shapes_run .conditional) fun elseBody r helse => ?_
    rw [Symbols.sight_kind] at hk
    change Shaped symbols limit (.conditional (symbols.symbolAt q).kind) depth elseBody at helse
    rw [hk] at helse
    exact Ensures.pure (.chain hopener hcondition hthen helse)
  · exact Ensures.pure (.branch hopener hcondition hthen nofun)

theorem conditional_shapes : Rule.conditional.GivesShape symbols limit := by
  intro depth p
  refine Ensures.here_bind (Ensures.accept_bind (fun _ => ?_) fun _ => ?_)
  · exact branched_shapes symbols limit rfl
  · exact shapes_any_bind fun _ q => branched_shapes symbols limit rfl

theorem whileLoop_shapes (label : Option String) :
    (Rule.whileLoop label).GivesShape symbols limit := by
  intro depth p
  refine shapes_any_bind fun token q => ?_
  refine shapes_any_bind fun _ q => ?_
  refine Ensures.bind (condition_shapes symbols limit) fun condition q hcondition => ?_
  refine Ensures.bind (requiredBlock_shapes symbols limit) fun body q hbody => ?_
  exact Ensures.pure (.whileLoop hcondition hbody)

theorem stepped_shapes (token : Nat) (label : Option String) {init : Option Tree}
    (hinit : ∀ t ∈ init, Shaped symbols limit .initial depth t) :
    Shapes symbols limit depth p (stepped token label init) fun v _ =>
      Shaped symbols limit .statement depth v := by
  refine Ensures.bind expression_shapes fun condition q hcondition => ?_
  refine shapes_any_bind fun _ q => ?_
  refine Ensures.bind assignment_shapes fun step q hstep => ?_
  refine shapes_any_bind fun _ q => ?_
  refine Ensures.bind (requiredBlock_shapes symbols limit) fun body q hbody => ?_
  exact Ensures.pure (.steppedLoop hinit hcondition hstep hbody)

theorem loop_shapes (label : Option String) : (Rule.loop label).GivesShape symbols limit := by
  intro depth p
  have hinitial {c : Category} {t : Tree} (h : Shaped symbols limit c depth t)
      (hc : ∀ t, Shaped symbols limit c depth t → Shaped symbols limit .initial depth t) :
      ∀ u ∈ some t, Shaped symbols limit .initial depth u := by
    rintro _ ⟨⟩
    exact hc t h
  refine Ensures.here_bind (Ensures.expect_bind fun hopener => ?_)
  refine Ensures.bind (shapes_run (.block none)) fun body q hbody => ?_
  cases body with
  | some body => exact Ensures.pure (.loop hopener nofun (hbody body rfl))
  | none =>
    refine shapes_any_bind fun _ q => ?_
    refine Ensures.sight_bind (Ensures.ite (fun _ => ?_) fun _ => ?_)
    · refine shapes_any_bind fun _ q => ?_
      refine Ensures.bind require_expression_shapes fun iterable q hiterable => ?_
      refine shapes_any_bind fun _ q => ?_
      refine Ensures.bind (requiredBlock_shapes symbols limit) fun body q hbody => ?_
      exact Ensures.pure (.eachLoop hiterable hbody)
    refine Ensures.bind (variableIfAny_shapes symbols limit) fun init q hinit => ?_
    cases init with
    | some init =>
      exact stepped_shapes symbols limit _ _ (hinitial (hinit init rfl) fun _ => .declares)
    | none =>
      refine Ensures.accept_bind (fun _ => stepped_shapes symbols limit _ _ nofun) fun _ => ?_
      refine Ensures.bind (Ensures.require assignment_shapes) fun first q hfirst => ?_
      refine Ensures.accept_bind (fun _ => ?_) fun _ => ?_
      · exact stepped_shapes symbols limit _ _ (hinitial hfirst fun _ => .assigns)
      refine shapes_any_bind fun _ q => ?_
      refine Ensures.bind (requiredBlock_shapes symbols limit) fun body q hbody => ?_
      refine Ensures.pure (.loop hopener ?_ hbody)
      rintro _ ⟨⟩
      exact hfirst

/-! ## Selections -/

theorem item_shapes : Shapes symbols limit depth p item fun v _ =>
    ∀ t ∈ v.children, Shaped symbols limit (.deeper .expression) depth t := by
  refine Ensures.bind require_expression_shapes fun start q hstart => ?_
  refine shapes_any_bind fun more q => ?_
  cases more with
  | false => exact Ensures.pure (List.forall_mem_cons.mpr ⟨hstart, nofun⟩)
  | true =>
    refine Ensures.bind require_expression_shapes fun stop q hstop => ?_
    exact Ensures.pure (List.forall_mem_cons.mpr ⟨hstart, List.forall_mem_cons.mpr ⟨hstop, nofun⟩⟩)

theorem items_shapes : Rule.items.GivesShape symbols limit := by
  intro depth p
  refine Ensures.bind (item_shapes symbols limit) fun first q hfirst => ?_
  refine shapes_any_bind fun more q => ?_
  cases more with
  | false => exact Ensures.pure (List.forall_mem_cons.mpr ⟨hfirst, nofun⟩)
  | true =>
    refine Ensures.bind (shapes_run .items) fun rest q hrest => ?_
    exact Ensures.pure (List.forall_mem_cons.mpr ⟨hfirst, hrest⟩)

theorem marked_shapes {token : Nat} {items : List (MatchItem Tree)}
    (hitems : ∀ i ∈ items, ∀ t ∈ i.children, Shaped symbols limit (.deeper .expression) depth t) :
    Shapes symbols limit depth p (marked token items)
      (Rule.branch.Shapes symbols limit depth p) := by
  refine shapes_any_bind fun _ q => ?_
  refine Ensures.bind (blockOrAssignment_shapes symbols limit) fun found q hbody => ?_
  exact Ensures.pure ⟨hitems, hbody⟩

theorem branch_shapes : Rule.branch.GivesShape symbols limit := by
  intro depth p
  refine shapes_any_bind fun token q => ?_
  refine shapes_any_bind fun _ q => ?_
  refine shapes_any_bind fun isElse q => ?_
  cases isElse with
  | true => exact marked_shapes symbols limit nofun
  | false =>
    refine shapes_any_bind fun isDefault q => ?_
    cases isDefault with
    | true => exact marked_shapes symbols limit nofun
    | false => exact Ensures.bind (shapes_run .items) fun items q hitems =>
        marked_shapes symbols limit hitems

theorem branches_shapes : Rule.branches.GivesShape symbols limit := by
  intro depth p
  refine Ensures.bind (shapes_run .branch) fun branch q ⟨hitems, hbody⟩ => ?_
  have hlast {q : Nat} : Shapes symbols limit depth q (pure [branch])
      (Rule.branches.Shapes symbols limit depth p) :=
    Ensures.pure ⟨nofun, List.forall_mem_cons.mpr ⟨hitems, nofun⟩,
      List.forall_mem_cons.mpr ⟨hbody, nofun⟩⟩
  refine shapes_any_bind fun more q => ?_
  cases more with
  | false => exact shapes_any_bind fun _ q => hlast
  | true =>
    refine shapes_any_bind fun closed q => ?_
    cases closed with
    | true => exact hlast
    | false =>
      refine Ensures.bind (shapes_run .branches) fun rest q ⟨_, hrest, hbodies⟩ => ?_
      exact Ensures.pure ⟨nofun, List.forall_mem_cons.mpr ⟨hitems, hrest⟩,
        List.forall_mem_cons.mpr ⟨hbody, hbodies⟩⟩

theorem selection_shapes : Rule.selection.GivesShape symbols limit := by
  intro depth p
  refine shapes_any_bind fun token q => ?_
  refine shapes_any_bind fun _ q => ?_
  refine shapes_any_bind fun parenthesized q => ?_
  refine Ensures.bind require_expression_shapes fun subject q hsubject => ?_
  have hrest {q : Nat} : Shapes symbols limit depth q (do
      let _ ← expect .leftBrace
      return .node token (.selection subject (← run .branches)))
      (Rule.selection.Shapes symbols limit depth p) := by
    refine shapes_any_bind fun _ q => ?_
    refine Ensures.bind (shapes_run .branches) fun branches q ⟨hne, hitems, hbodies⟩ => ?_
    exact Ensures.pure (.selection hsubject hne hitems hbodies)
  exact Ensures.ite (fun _ => shapes_any_bind fun _ q => hrest) fun _ => hrest

/-! ## Statements -/

theorem deferral_shapes : Shapes symbols limit depth p deferral fun v _ =>
    Shaped symbols limit .statement depth v := by
  refine shapes_any_bind fun token q => ?_
  refine shapes_any_bind fun _ q => ?_
  refine Ensures.bind (shapes_run .body) fun body q hbody => ?_
  exact Ensures.pure (.deferral hbody)

theorem breaking_shapes : Shapes symbols limit depth p breaking fun v _ =>
    Shaped symbols limit .statement depth v := by
  refine shapes_any_bind fun token q => ?_
  refine shapes_any_bind fun _ q => ?_
  refine shapes_any_bind fun label q => ?_
  refine Ensures.bind expression_shapes fun value q hvalue => ?_
  refine shapes_any_bind fun _ q => ?_
  exact Ensures.pure (.breaking hvalue)

theorem continuing_shapes : Shapes symbols limit depth p continuing fun v _ =>
    Shaped symbols limit .statement depth v := by
  refine shapes_any_bind fun token q => ?_
  refine shapes_any_bind fun _ q => ?_
  refine shapes_any_bind fun label q => ?_
  refine shapes_any_bind fun _ q => ?_
  exact Ensures.pure .continuing

theorem returning_shapes : Shapes symbols limit depth p returning fun v _ =>
    Shaped symbols limit .statement depth v := by
  refine shapes_any_bind fun token q => ?_
  refine shapes_any_bind fun _ q => ?_
  refine Ensures.bind expression_shapes fun value q hvalue => ?_
  refine shapes_any_bind fun _ q => ?_
  exact Ensures.pure (.returning hvalue)

theorem raising_shapes : Shapes symbols limit depth p raising fun v _ =>
    Shaped symbols limit .statement depth v := by
  refine shapes_any_bind fun token q => ?_
  refine shapes_any_bind fun _ q => ?_
  refine Ensures.bind require_expression_shapes fun value q hvalue => ?_
  refine shapes_any_bind fun _ q => ?_
  exact Ensures.pure (.raising hvalue)

theorem loopIfAny_shapes (label : Option String) :
    Shapes symbols limit depth p (loopIfAny label) fun v _ =>
      ∀ t ∈ v, Shaped symbols limit .statement depth t := by
  refine Ensures.sight_bind ?_
  split
  · exact shapes_some (shapes_run (.loop label))
  · exact shapes_some (shapes_run (.whileLoop label))
  · exact Ensures.pure nofun

theorem labelled_shapes : Rule.labelled.GivesShape symbols limit := by
  intro depth p
  refine shapes_any_bind fun label q => ?_
  refine Ensures.bind (shapes_run (.block label)) fun block q hblock => ?_
  cases block with
  | some block =>
    refine Ensures.pure ?_
    rintro _ ⟨⟩
    exact .labelled (hblock block rfl)
  | none =>
    refine Ensures.bind (loopIfAny_shapes symbols limit label) fun loop q hloop => ?_
    cases loop with
    | some loop => exact Ensures.pure hloop
    | none => exact Ensures.ite (fun _ => Ensures.failing) fun _ => Ensures.pure nofun

theorem expressionStatement_shapes : Shapes symbols limit depth p expressionStatement fun v _ =>
    ∀ t ∈ v, Shaped symbols limit .statement depth t := by
  refine Ensures.bind assignment_shapes fun value q hvalue => ?_
  cases value with
  | none => exact Ensures.pure nofun
  | some value =>
    refine shapes_any_bind fun _ q => Ensures.pure ?_
    rintro _ ⟨⟩
    exact .performed (hvalue value rfl)

theorem statement_shapes : Rule.statement.GivesShape symbols limit := by
  intro depth p
  refine Ensures.bind (containerIfAny_shapes symbols limit) fun container q hcontainer => ?_
  cases container with
  | some container => exact Ensures.pure hcontainer
  | none =>
    refine Ensures.bind (variableIfAny_shapes symbols limit) fun declaration q hdeclaration => ?_
    cases declaration with
    | some declaration =>
      refine Ensures.pure ?_
      rintro _ ⟨⟩
      exact .declared (hdeclaration declaration rfl)
    | none =>
      refine Ensures.sight_bind ?_
      simp only [Symbols.sight_kind]
      split
      · exact shapes_some (deferral_shapes symbols limit)
      · rename_i hk
        refine shapes_some ((shapes_run .conditional).mono fun t r ht => ?_)
        change Shaped symbols limit (.conditional (symbols.symbolAt q).kind) depth t at ht
        rw [hk] at ht
        exact .conditional ht
      · refine Ensures.bind (shapes_run .selection) fun selection q hselection => ?_
        refine shapes_any_bind fun _ q => Ensures.pure ?_
        rintro _ ⟨⟩
        exact .selected hselection
      · exact shapes_some (breaking_shapes symbols limit)
      · exact shapes_some (continuing_shapes symbols limit)
      · exact shapes_some (returning_shapes symbols limit)
      · exact shapes_some (raising_shapes symbols limit)
      · refine Ensures.bind (shapes_run .labelled) fun found q hfound => ?_
        cases found with
        | some found => exact Ensures.pure hfound
        | none => exact expressionStatement_shapes symbols limit

end FrontEnd.Grammar

namespace FrontEnd

variable {symbols : Symbols} {limit depth p q : Nat}

open Grammar in
theorem Rule.givesShape (symbols : Symbols) (limit : Nat) (r : Rule) :
    r.GivesShape symbols limit := by
  cases r with
  | unit => exact unit_shapes symbols limit
  | statement => exact statement_shapes symbols limit
  | labelled => exact labelled_shapes symbols limit
  | function => exact function_shapes symbols limit
  | prototype isExport isExtern => exact prototype_shapes symbols limit isExport isExtern
  | params => exact params_shapes symbols limit
  | record => exact record_shapes symbols limit
  | fields => exact fields_shapes symbols limit
  | enumeration => exact enumeration_shapes symbols limit
  | variants => exact variants_shapes symbols limit
  | declaration => exact declaration_shapes symbols limit
  | modifiers => exact modifiers_shapes symbols limit
  | block label => exact block_shapes symbols limit label
  | statements => exact statements_shapes symbols limit
  | body => exact body_shapes symbols limit
  | conditional => exact conditional_shapes symbols limit
  | loop label => exact loop_shapes symbols limit label
  | whileLoop label => exact whileLoop_shapes symbols limit label
  | selection => exact selection_shapes symbols limit
  | branches => exact branches_shapes symbols limit
  | branch => exact branch_shapes symbols limit
  | items => exact items_shapes symbols limit
  | expression => exact attempted_shapes symbols limit
  | attempts => exact attempts_shapes symbols limit
  | level l => exact level_shapes symbols limit l
  | operands l => exact operands_shapes symbols limit l
  | recovery => exact recovery_shapes symbols limit
  | handlers => exact handlers_shapes symbols limit
  | unary => exact unary_shapes symbols limit
  | operand => exact operand_shapes symbols limit
  | suffixed => exact suffixed_shapes symbols limit
  | suffixes => exact suffixes_shapes symbols limit
  | listed bracket => exact listed_shapes symbols limit bracket
  | primary => exact primary_shapes symbols limit
  | type => exact type_shapes symbols limit
  | innerType => exact innerType_shapes symbols limit

/-- What a rule has read has the shape that the grammar says. -/
theorem Rule.shapes_of_eval {r : Rule} {v : r.Result}
    (h : r.eval symbols limit ⟨p, depth⟩ = .read v ⟨q, depth⟩) :
    r.Shapes symbols limit depth p v q := by
  have hgives := Rule.eval_graded (Rule.givesShape symbols limit) r ⟨p, depth⟩
  rw [h] at hgives
  exact hgives

end FrontEnd
