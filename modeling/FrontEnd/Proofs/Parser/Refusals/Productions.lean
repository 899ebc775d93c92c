import FrontEnd.Proofs.Parser.Openings
import FrontEnd.Proofs.Parser.Parts
import FrontEnd.Proofs.Parser.Refusals

/-!
What each production may be refused. Nearly all of them fail at once where a rule that they
are refused would have found nothing. Statements and assignments then find nothing themselves,
and only the values of `return` and `break` and the clauses of a loop may be left out.
-/

namespace FrontEnd

namespace Script

variable {α β : Type} {symbols : Symbols} {limit depth p : Nat}

/-- Where the script may be refused a rule that finds nothing, it fails for what it expected. -/
def Keen (symbols : Symbols) (limit : Nat) (x : Script α) : Prop :=
  ∀ depth p, x.Spares symbols limit depth p (fun _ _ => False) fun _ _ => True

/-- Or else it finds nothing there. -/
def Wants (symbols : Symbols) (limit : Nat) (x : Script (Option α)) : Prop :=
  ∀ depth p, x.Spares symbols limit depth p (fun v _ => v = none) fun _ _ => True

/-! ## Laws -/

theorem Keen.spares {x : Script α} {lost : α → Nat → Prop} (h : x.Keen symbols limit) :
    x.Spares symbols limit depth p lost fun _ _ => True :=
  (h depth p).mono (fun _ _ => False.elim) fun _ _ => id

theorem Keen.wants {x : Script (Option α)} (h : x.Keen symbols limit) : x.Wants symbols limit :=
  fun _ _ => h.spares

theorem Keen.bind {x : Script α} {f : α → Script β} (hx : x.Keen symbols limit)
    (hf : ∀ v, (f v).Keen symbols limit) : (x >>= f).Keen symbols limit :=
  fun depth p => (spares_bind ..).mpr <|
    (hx depth p).mono (fun _ _ => False.elim) fun v q _ => hf v depth q

/-- Behind a script that is keen a position may be told by what it ensures. -/
theorem Keen.bind_spares {x : Script α} {f : α → Script β} {P : α → Nat → Prop}
    {lost Q : β → Nat → Prop} (hx : x.Keen symbols limit)
    (hensures : x.Ensures (.exact symbols limit) symbols limit depth p P)
    (hf : ∀ v q, P v q → (f v).Spares symbols limit depth q lost Q) :
    (x >>= f).Spares symbols limit depth p lost Q :=
  (spares_bind ..).mpr <| ((hx depth p).and_ensures hensures).mono (fun _ _ => False.elim)
    fun v q h => hf v q h.2

theorem keen_pure (v : α) : (pure v : Script α).Keen symbols limit := fun _ _ => trivial

theorem keen_here : here.Keen symbols limit := fun _ _ => trivial

theorem keen_sight : sight.Keen symbols limit := fun _ _ => trivial

theorem keen_take : (take (done ())).Keen symbols limit := fun _ _ => trivial

theorem keen_take_two : (take (take (done ()))).Keen symbols limit := fun _ _ => trivial

theorem keen_failing (what : Expectation) : (failing what : Script α).Keen symbols limit :=
  fun _ _ => nofun

theorem keen_map {x : Script α} (f : α → β) (hx : x.Keen symbols limit) :
    (f <$> x).Keen symbols limit := hx.bind fun _ => keen_pure _

theorem keen_ite {c : Prop} [Decidable c] {x y : Script α} (hx : x.Keen symbols limit)
    (hy : y.Keen symbols limit) : (if c then x else y).Keen symbols limit := by
  split
  · exact hx
  · exact hy

theorem keen_accept (kind : TokenKind) : (accept kind).Keen symbols limit :=
  fun depth p => keen_ite (c := (symbols.symbolAt p).kind = kind) (x := take (done true))
    (y := done false) (fun _ _ => trivial) (fun _ _ => trivial) depth p

theorem keen_acceptText (kind : TokenKind) : (acceptText kind).Keen symbols limit :=
  fun depth p => keen_ite (c := (symbols.symbolAt p).kind = kind) (x := take (done (some _)))
    (y := done none) (fun _ _ => trivial) (fun _ _ => trivial) depth p

theorem keen_expect (kind : TokenKind) : (expect kind).Keen symbols limit :=
  fun depth p => keen_ite (c := (symbols.symbolAt p).kind = kind) (x := take (done _))
    (y := failing (.token kind)) (fun _ _ => trivial) (keen_failing _) depth p

theorem keen_run {r : Rule} (h : ∀ v, ¬r.Passes v) : (run r).Keen symbols limit :=
  fun _ _ => ⟨fun v hv => absurd hv (h v), fun _ _ _ => trivial⟩

theorem keen_deeper {r : Rule} (h : ∀ v, ¬r.Nothing v) : (deeper r).Keen symbols limit :=
  fun _ _ => ⟨fun v hv => absurd hv (h v), fun _ _ _ _ => trivial⟩

/-- What must be found makes a script keen. -/
theorem keen_require {what : Expectation} {x : Script (Option α)} (hx : x.Wants symbols limit) :
    (require what x).Keen symbols limit := by
  refine fun depth p => (spares_bind ..).mpr ((hx depth p).mono ?_ fun v q _ => ?_)
  · rintro _ _ rfl
    exact ⟨what, _, rfl⟩
  · cases v with
    | none => exact keen_failing what depth q
    | some v => exact trivial

theorem Excused.expect_bind {kind : TokenKind} {f : String → Script β} {lost : β → Prop}
    (h : (symbols.symbolAt p).kind = kind → symbols.LeavesOut p) :
    (expect kind >>= f).Excused symbols p lost := by
  rw [excused_bind]
  change (if (symbols.symbolAt p).kind = kind then take (done _) else failing _).Excused
    symbols p _
  split
  · exact h ‹_›
  · exact ⟨_, _, rfl⟩

theorem Spares.here_bind {f : Nat → Script β} {lost Q : β → Nat → Prop}
    (h : (f p).Spares symbols limit depth p lost Q) :
    (here >>= f).Spares symbols limit depth p lost Q := h

theorem Spares.sight_bind {f : Sight → Script β} {lost Q : β → Nat → Prop}
    (h : (f (symbols.sight p)).Spares symbols limit depth p lost Q) :
    (sight >>= f).Spares symbols limit depth p lost Q := h

theorem Spares.accept_bind {kind : TokenKind} {f : Bool → Script β} {lost Q : β → Nat → Prop}
    (htrue : (symbols.symbolAt p).kind = kind →
      (f true).Spares symbols limit depth (symbols.next p) lost Q)
    (hfalse : (f false).Spares symbols limit depth p lost Q) :
    (accept kind >>= f).Spares symbols limit depth p lost Q := by
  refine (keen_accept kind).bind_spares (P := fun v q => (f v).Spares symbols limit depth q lost Q)
    ?_ fun _ _ => id
  rw [ensures_accept]
  exact ⟨htrue, fun _ => hfalse⟩

theorem Spares.expect_bind {kind : TokenKind} {f : String → Script β} {lost Q : β → Nat → Prop}
    (h : (symbols.symbolAt p).kind = kind →
      (f (symbols.symbolAt p).text).Spares symbols limit depth (symbols.next p) lost Q) :
    (expect kind >>= f).Spares symbols limit depth p lost Q := by
  refine (keen_expect kind).bind_spares (P := fun v q => (f v).Spares symbols limit depth q lost Q)
    ?_ fun _ _ => id
  rw [ensures_expect]
  exact h

end Script

namespace Grammar

open Script

variable {symbols : Symbols} {limit : Nat}

theorem expression_wants : expression.Wants symbols limit :=
  fun _ _ => ⟨fun _ => id, fun _ _ _ _ => trivial⟩

theorem nestedStatement_wants : nestedStatement.Wants symbols limit :=
  fun _ _ => ⟨fun _ => id, fun _ _ _ _ => trivial⟩

theorem assignment_wants : assignment.Wants symbols limit :=
  fun _ _ => ⟨fun _ => id, fun _ _ _ => trivial⟩

theorem keen_expression {what : Expectation} : (require what expression).Keen symbols limit :=
  keen_require expression_wants

theorem keen_type {what : Expectation} : (require what (run .type)).Keen symbols limit :=
  keen_require (keen_run fun _ => id).wants

/-! ## Declarations -/

theorem initializer_keen : initializer.Keen symbols limit :=
  (keen_accept _).bind fun _ =>
    keen_ite (keen_expression.bind fun _ => keen_pure _) (keen_pure _)

theorem function_keen : function.Keen symbols limit := by
  refine keen_here.bind fun token => (keen_accept _).bind fun isExport =>
    (keen_accept _).bind fun isExtern => (keen_run fun _ => id).bind fun signature =>
      (keen_run fun _ => id).bind fun body => ?_
  cases body with
  | none => exact (keen_expect _).bind fun _ => keen_pure _
  | some body => exact keen_pure _

theorem prototype_keen (isExport isExtern : Bool) :
    (prototype isExport isExtern).Keen symbols limit :=
  keen_here.bind fun _ => (keen_expect _).bind fun _ => (keen_acceptText _).bind fun _ =>
    (keen_expect _).bind fun _ => (keen_run fun _ => id).bind fun _ =>
      (keen_expect _).bind fun _ => keen_type.bind fun _ => keen_pure _

theorem params_keen : params.Keen symbols limit := by
  refine keen_here.bind fun token => (keen_run fun _ => id).bind fun type => ?_
  cases type with
  | none => exact keen_pure _
  | some type =>
    refine (keen_accept _).bind fun _ => (keen_expect _).bind fun _ => keen_ite (keen_pure _) ?_
    exact (keen_accept _).bind fun _ =>
      keen_ite ((keen_run fun _ => id).bind fun _ => keen_pure _) (keen_pure _)

theorem recorded_keen (token : Nat) (isExport isUnion : Bool) :
    (recorded token isExport isUnion).Keen symbols limit :=
  (keen_expect _).bind fun _ => (keen_expect _).bind fun _ => (keen_run fun _ => id).bind fun _ =>
    keen_pure _

theorem record_keen : record.Keen symbols limit := by
  refine keen_here.bind fun token => (keen_accept _).bind fun isExport =>
    (keen_accept _).bind fun isUnion => ?_
  cases isUnion with
  | true => exact recorded_keen token isExport true
  | false => exact (keen_expect _).bind fun _ => recorded_keen token isExport false

theorem field_keen : field.Keen symbols limit :=
  keen_here.bind fun _ => keen_type.bind fun _ => (keen_expect _).bind fun _ =>
    initializer_keen.bind fun _ => (keen_expect _).bind fun _ => keen_pure _

theorem fields_keen : fields.Keen symbols limit :=
  (keen_accept _).bind fun _ => keen_ite (keen_pure _) <|
    field_keen.bind fun _ => (keen_run fun _ => id).bind fun _ => keen_pure _

theorem enumeration_keen : enumeration.Keen symbols limit :=
  keen_here.bind fun _ => (keen_accept _).bind fun _ => (keen_expect _).bind fun _ =>
    (keen_expect _).bind fun _ => (keen_expect _).bind fun _ =>
      (keen_run fun _ => id).bind fun _ => keen_pure _

theorem variants_keen : variants.Keen symbols limit := by
  refine keen_here.bind fun _ => (keen_expect _).bind fun _ => initializer_keen.bind fun _ =>
    (keen_accept _).bind fun _ => keen_ite ?_ ((keen_expect _).bind fun _ => keen_pure _)
  exact (keen_accept _).bind fun _ => keen_ite (keen_pure _)
    ((keen_run fun _ => id).bind fun _ => keen_pure _)

theorem modifiers_keen : modifiers.Keen symbols limit := by
  have hmore (f : Bool × Bool → Bool × Bool) :
      (run .modifiers >>= fun more => pure (f more)).Keen symbols limit :=
    (keen_run fun _ => id).bind fun _ => keen_pure _
  exact (keen_accept _).bind fun _ => keen_ite (hmore _) <|
    (keen_accept _).bind fun _ => keen_ite (hmore _) (keen_pure _)

theorem declared_keen (token : Nat) (type : Option Tree) (isExport isMutable isConst : Bool) :
    (declared token type isExport isMutable isConst).Keen symbols limit :=
  (keen_expect _).bind fun _ => initializer_keen.bind fun _ => (keen_expect _).bind fun _ =>
    keen_pure _

theorem modified_keen (token : Nat) (isExport isMutable isConst : Bool) :
    (modified token isExport isMutable isConst).Keen symbols limit := by
  refine keen_ite (fun _ _ => nofun) (keen_sight.bind fun s => ?_)
  refine keen_ite (declared_keen token none isExport isMutable isConst) ?_
  exact (keen_map _ keen_type).bind fun type => declared_keen token type isExport isMutable isConst

theorem declaration_keen : declaration.Keen symbols limit :=
  keen_here.bind fun token => (keen_accept _).bind fun isExport =>
    (keen_run fun _ => id).bind fun found => modified_keen token isExport found.1 found.2

theorem containerIfAny_keen : containerIfAny.Keen symbols limit := by
  have hsome {r : Rule} (h : ∀ v, ¬r.Passes v) (f : r.Result → Tree) :
      (run r >>= fun v => pure (some (f v))).Keen symbols limit :=
    (keen_run h).bind fun _ => keen_pure _
  exact keen_sight.bind fun _ => keen_ite (hsome (r := .function) (fun _ => id) id) <|
    keen_ite (hsome (r := .record) (fun _ => id) id) <|
      keen_ite (hsome (r := .enumeration) (fun _ => id) id) (keen_pure _)

theorem variableIfAny_keen : variableIfAny.Keen symbols limit :=
  keen_sight.bind fun _ =>
    keen_ite ((keen_run fun _ => id).bind fun _ => keen_pure _) (keen_pure _)

/-! ## Operators -/

theorem operandOf_wants (l : Level) : (operandOf l).Wants symbols limit := by
  cases l with
  | assignment => exact expression_wants
  | conjunction | disjunction | comparison | bitwise | shift | sum | product =>
    exact (keen_run fun _ => id).wants

theorem attempted_keen : attempted.Keen symbols limit := by
  refine (keen_run fun _ => id).bind fun tries => (keen_run fun _ => id).bind fun operand => ?_
  cases operand with
  | some operand => exact keen_pure _
  | none => exact keen_ite (keen_pure _) (keen_failing _)

theorem attempts_keen : attempts.Keen symbols limit :=
  keen_here.bind fun _ => (keen_accept _).bind fun _ =>
    keen_ite ((keen_run fun _ => id).bind fun _ => keen_pure _) (keen_pure _)

theorem operands_keen (l : Level) : (operands l).Keen symbols limit := by
  refine keen_sight.bind fun s => ?_
  dsimp only
  split
  · exact keen_pure _
  · refine keen_take.bind fun _ => (keen_require (operandOf_wants l)).bind fun rhs => ?_
    split
    · exact (keen_run fun _ => id).bind fun _ => keen_pure _
    · exact keen_pure _

theorem recovery_keen : recovery.Keen symbols limit := by
  refine (keen_run fun _ => id).bind fun first => ?_
  cases first with
  | none => exact keen_pure _
  | some first => exact (keen_run fun _ => id).bind fun _ => keen_pure _

theorem payload_keen : payload.Keen symbols limit :=
  (keen_accept _).bind fun _ => keen_ite
    ((keen_expect _).bind fun _ => (keen_expect _).bind fun _ => keen_pure _) (keen_pure _)

theorem handlers_keen : handlers.Keen symbols limit := by
  refine keen_here.bind fun token => (keen_accept _).bind fun _ => keen_ite ?_ (keen_pure _)
  refine payload_keen.bind fun name => (keen_run fun _ => id).bind fun block => ?_
  cases block with
  | some block => exact (keen_run fun _ => id).bind fun _ => keen_pure _
  | none =>
    exact (keen_require (keen_run fun _ => id).wants).bind fun _ =>
      (keen_run fun _ => id).bind fun _ => keen_pure _

theorem unary_keen : unary.Keen symbols limit := by
  refine keen_sight.bind fun s => ?_
  split
  · exact keen_take.bind fun _ => (keen_deeper fun _ => id).bind fun _ => keen_pure _
  · refine keen_sight.bind fun _ => keen_ite ?_ (keen_run fun _ => id)
    exact keen_here.bind fun _ => (keen_accept _).bind fun _ =>
      keen_ite ((keen_run fun _ => id).bind fun _ => keen_pure _) (keen_pure _)

theorem operand_keen : operand.Keen symbols limit := keen_require (keen_run fun _ => id).wants

theorem listed_keen (bracket : Bracket) : (listed bracket).Keen symbols limit := by
  refine (keen_accept _).bind fun _ => keen_ite (keen_pure _) <| keen_expression.bind fun item =>
    (keen_accept _).bind fun _ => keen_ite ?_ ((keen_expect _).bind fun _ => keen_pure _)
  exact (keen_run fun _ => id).bind fun _ => keen_pure _

/-! ## Primaries -/

theorem functionValue_keen : functionValue.Keen symbols limit := by
  refine keen_here.bind fun token => (keen_run fun _ => id).bind fun signature =>
    (keen_run fun _ => id).bind fun body => ?_
  cases body <;> exact keen_pure _

theorem primary_keen : primary.Keen symbols limit := by
  refine keen_sight.bind fun s => ?_
  split
  · exact keen_take.bind fun _ => keen_pure _
  split
  · exact functionValue_keen.bind fun _ => keen_pure _
  · exact (keen_run fun _ => id).bind fun _ => keen_pure _
  · exact keen_take.bind fun _ => keen_expression.bind fun _ => (keen_expect _).bind fun _ =>
      keen_pure _
  · exact keen_pure _

theorem suffixed_keen : suffixed.Keen symbols limit := by
  refine (keen_run fun _ => id).bind fun first => ?_
  cases first with
  | none => exact keen_pure _
  | some first => exact (keen_run fun _ => id).bind fun _ => keen_pure _

theorem sentinel_keen : sentinel.Keen symbols limit :=
  (keen_accept _).bind fun _ =>
    keen_ite (keen_expression.bind fun _ => keen_pure _) (keen_pure _)

theorem subscript_keen : subscript.Keen symbols limit := by
  refine keen_expression.bind fun start => (keen_accept _).bind fun _ =>
    keen_ite ?_ ((keen_expect _).bind fun _ => keen_pure _)
  exact keen_expression.bind fun _ => sentinel_keen.bind fun _ => (keen_expect _).bind fun _ =>
    keen_pure _

theorem suffixes_keen : suffixes.Keen symbols limit := by
  refine keen_sight.bind fun s => ?_
  split
  · exact keen_take.bind fun _ => (keen_expect _).bind fun _ =>
      (keen_run fun _ => id).bind fun _ => keen_pure _
  · exact keen_take.bind fun _ => subscript_keen.bind fun _ =>
      (keen_run fun _ => id).bind fun _ => keen_pure _
  · exact keen_take.bind fun _ => (keen_run fun _ => id).bind fun _ =>
      (keen_run fun _ => id).bind fun _ => keen_pure _
  · exact keen_pure _

theorem arraySize_keen : arraySize.Keen symbols limit := by
  refine keen_sight.bind fun s => keen_ite (keen_pure _) (keen_ite ?_ ?_)
  · exact keen_take.bind fun _ => keen_pure _
  · exact keen_expression.bind fun _ => keen_pure _

theorem type_keen : type.Keen symbols limit := by
  refine keen_here.bind fun token => (keen_accept _).bind fun _ => keen_ite ?_ <|
    (keen_accept _).bind fun _ => keen_ite ?_ (keen_run fun _ => id)
  · exact (keen_deeper fun _ => id).bind fun _ => keen_pure _
  · exact arraySize_keen.bind fun _ => sentinel_keen.bind fun _ => (keen_expect _).bind fun _ =>
      (keen_deeper fun _ => id).bind fun _ => keen_pure _

theorem innerType_keen : innerType.Keen symbols limit := keen_type

/-! ## Statements -/

theorem keen_statement {what : Expectation} : (require what nestedStatement).Keen symbols limit :=
  keen_require nestedStatement_wants

theorem unit_keen : unit.Keen symbols limit :=
  keen_sight.bind fun _ => keen_ite (keen_pure _) <|
    keen_statement.bind fun _ => (keen_run fun _ => id).bind fun _ => keen_pure _

theorem block_keen (label : Option String) : (block label).Keen symbols limit :=
  keen_here.bind fun _ => (keen_accept _).bind fun _ =>
    keen_ite ((keen_run fun _ => id).bind fun _ => keen_pure _) (keen_pure _)

theorem statements_keen : statements.Keen symbols limit :=
  (keen_accept _).bind fun _ => keen_ite (keen_pure _) <|
    keen_statement.bind fun _ => (keen_run fun _ => id).bind fun _ => keen_pure _

theorem requiredBlock_keen : requiredBlock.Keen symbols limit :=
  keen_require (keen_run fun _ => id).wants

theorem blockOrAssignment_keen : blockOrAssignment.Keen symbols limit := by
  refine (keen_run fun _ => id).bind fun block => ?_
  cases block with
  | some block => exact keen_pure _
  | none => exact (keen_require assignment_wants).bind fun _ => keen_pure _

theorem body_keen : body.Keen symbols limit := by
  refine blockOrAssignment_keen.bind fun found => ?_
  obtain ⟨body, isBlock⟩ := found
  cases isBlock with
  | true => exact keen_pure _
  | false => exact (keen_expect _).bind fun _ => keen_pure _

theorem deferral_keen : deferral.Keen symbols limit :=
  keen_here.bind fun _ => (keen_expect _).bind fun _ => (keen_run fun _ => id).bind fun _ =>
    keen_pure _

theorem condition_keen : condition.Keen symbols limit :=
  (keen_expect _).bind fun _ => keen_expression.bind fun _ => (keen_expect _).bind fun _ =>
    keen_pure _

theorem branched_keen (token : Nat) : (branched token).Keen symbols limit := by
  refine condition_keen.bind fun condition => (keen_run fun _ => id).bind fun thenBody =>
    (keen_accept _).bind fun _ => keen_ite ?_ (keen_sight.bind fun _ => keen_ite ?_ ?_)
  · exact keen_statement.bind fun _ => keen_pure _
  · exact (keen_run fun _ => id).bind fun _ => keen_pure _
  · exact keen_pure _

theorem conditional_keen : conditional.Keen symbols limit := by
  refine keen_here.bind fun token => (keen_accept _).bind fun chained => ?_
  cases chained with
  | true => exact branched_keen token
  | false => exact (keen_expect _).bind fun _ => branched_keen token

theorem whileLoop_keen (label : Option String) : (whileLoop label).Keen symbols limit :=
  keen_here.bind fun _ => (keen_expect _).bind fun _ => condition_keen.bind fun _ =>
    requiredBlock_keen.bind fun _ => keen_pure _

theorem selection_keen : selection.Keen symbols limit := by
  have hrest (token : Nat) (subject : Tree) : (expect .leftBrace >>= fun _ => run .branches >>=
      fun branches => pure (Tree.node token (.selection subject branches))).Keen symbols limit :=
    (keen_expect _).bind fun _ => (keen_run fun _ => id).bind fun _ => keen_pure _
  refine keen_here.bind fun token => (keen_expect _).bind fun _ =>
    (keen_accept _).bind fun parenthesized => keen_expression.bind fun subject => ?_
  cases parenthesized with
  | true => exact (keen_expect _).bind fun _ => hrest token subject
  | false => exact hrest token subject

theorem branches_keen : branches.Keen symbols limit := by
  refine (keen_run fun _ => id).bind fun branch => (keen_accept _).bind fun _ =>
    keen_ite ?_ ((keen_expect _).bind fun _ => keen_pure _)
  exact (keen_accept _).bind fun _ => keen_ite (keen_pure _)
    ((keen_run fun _ => id).bind fun _ => keen_pure _)

theorem branchMark_keen : branchMark.Keen symbols limit :=
  (keen_accept _).bind fun _ => keen_ite (keen_pure _) <|
    (keen_accept _).bind fun _ => keen_ite (keen_pure _) (keen_failing _)

theorem marked_keen (token : Nat) (items : List (MatchItem Tree)) :
    (marked token items).Keen symbols limit :=
  branchMark_keen.bind fun _ => blockOrAssignment_keen.bind fun _ => keen_pure _

theorem branch_keen : branch.Keen symbols limit := by
  refine keen_here.bind fun token => (keen_accept _).bind fun _ =>
    (keen_accept _).bind fun otherwise => ?_
  cases otherwise with
  | true => exact marked_keen token []
  | false =>
    refine (keen_accept _).bind fun default => ?_
    cases default with
    | true => exact marked_keen token []
    | false => exact Keen.bind (x := run .items) (keen_run fun _ => id) (marked_keen token)

theorem item_keen : item.Keen symbols limit := by
  refine keen_expression.bind fun start => (keen_accept _).bind fun _ => keen_ite ?_ (keen_pure _)
  exact keen_expression.bind fun _ => keen_pure _

theorem items_keen : items.Keen symbols limit :=
  item_keen.bind fun _ => (keen_accept _).bind fun _ =>
    keen_ite ((keen_run fun _ => id).bind fun _ => keen_pure _) (keen_pure _)

theorem jumpLabel_keen : jumpLabel.Keen symbols limit :=
  (keen_accept _).bind fun _ =>
    keen_ite ((keen_expect _).bind fun _ => keen_pure _) (keen_pure _)

theorem continuing_keen : continuing.Keen symbols limit :=
  keen_here.bind fun _ => (keen_expect _).bind fun _ => jumpLabel_keen.bind fun _ =>
    (keen_expect _).bind fun _ => keen_pure _

theorem raising_keen : raising.Keen symbols limit :=
  keen_here.bind fun _ => (keen_expect _).bind fun _ => keen_expression.bind fun _ =>
    (keen_expect _).bind fun _ => keen_pure _

theorem label_keen : label.Keen symbols limit :=
  keen_sight.bind fun _ => keen_ite (keen_take_two.bind fun _ => keen_pure _) (keen_pure _)

theorem loopIfAny_keen (label : Option String) : (loopIfAny label).Keen symbols limit := by
  refine keen_sight.bind fun s => ?_
  split
  · exact (keen_run fun _ => id).bind fun _ => keen_pure _
  · exact (keen_run fun _ => id).bind fun _ => keen_pure _
  · exact keen_pure _

theorem labelled_keen : labelled.Keen symbols limit := by
  refine label_keen.bind fun label => (keen_run fun _ => id).bind fun block => ?_
  cases block with
  | some block => exact keen_pure _
  | none =>
    refine (loopIfAny_keen label).bind fun loop => ?_
    cases loop with
    | some loop => exact keen_pure _
    | none => exact keen_ite (keen_failing _) (keen_pure _)

/-! ## What may be left out -/

variable {depth p : Nat}

/-- An expression before a mark is spared if the mark, standing in its place, tells that it is
left out. -/
theorem expression_bind_spares {β : Type} {kind : TokenKind}
    {f : Option Tree → String → Script β} {lost Q : β → Nat → Prop}
    (hout : (symbols.symbolAt p).kind = kind → symbols.LeavesOut p)
    (hf : ∀ v q, p ≤ q →
      (expect kind >>= f v).Spares symbols limit depth q lost Q) :
    (expression >>= fun v => expect kind >>= f v).Spares symbols limit depth p lost Q := by
  refine ⟨fun _ _ => Excused.expect_bind hout, fun _ v q hread => hf v q ?_⟩
  rcases (Rule.advances_of_eval hread).eq_or_forward with rfl | hforward
  · exact Nat.le_refl q
  · exact Nat.le_of_lt hforward.1

theorem returning_spares {lost : Tree → Nat → Prop} :
    returning.Spares symbols limit depth p lost fun _ _ => True := by
  refine Spares.here_bind (Spares.expect_bind fun hword => ?_)
  rw [Symbols.next_of_kind hword (by decide)]
  refine expression_bind_spares (fun hend => .value (.inl hword) hend) fun v q _ => ?_
  exact ((keen_expect _).bind fun _ => keen_pure _).spares

/-- Behind the label of a `break` its value may be left out. -/
theorem jumpLabel_ensures {C : Contract} (hbreak : (symbols.symbolAt p).kind = .kwBreak) :
    jumpLabel.Ensures C symbols limit depth (p + 1) fun _ q =>
      (symbols.symbolAt q).kind = .semicolon → symbols.LeavesOut q := by
  refine Ensures.accept_bind (fun hcolon => ?_) fun _ => .value (.inr hbreak)
  rw [Symbols.next_of_kind hcolon (by decide)]
  refine Ensures.expect_bind fun hname => ?_
  rw [Symbols.next_of_kind hname (by decide)]
  exact .labelledValue hbreak hcolon hname

theorem breaking_spares {lost : Tree → Nat → Prop} :
    breaking.Spares symbols limit depth p lost fun _ _ => True := by
  refine Spares.here_bind (Spares.expect_bind fun hword => ?_)
  rw [Symbols.next_of_kind hword (by decide)]
  refine jumpLabel_keen.bind_spares (jumpLabel_ensures hword) fun label q hout => ?_
  refine expression_bind_spares hout fun v r _ => ?_
  exact ((keen_expect _).bind fun _ => keen_pure _).spares

/-! ## The header of a loop -/

/-- A variable declaration ends with a semicolon. -/
theorem declaration_ends {v : Tree} {q : Nat}
    (h : Rule.declaration.eval symbols limit ⟨p, depth⟩ = .read v ⟨q, depth⟩) :
    ∃ r, p ≤ r ∧ q = r + 1 ∧ (symbols.symbolAt r).kind = .semicolon := by
  have hforward : p < q := (Rule.advances_of_eval h).1
  have hdeclared {p : Nat} (token : Nat) (type : Option Tree) (isExport isMutable isConst : Bool) :
      (declared token type isExport isMutable isConst).Ensures (.exact symbols limit) symbols limit
        depth p fun _ q => ∃ r, q = r + 1 ∧ (symbols.symbolAt r).kind = .semicolon :=
    Ensures.any_bind (fun _ _ => trivial) fun _ _ => Ensures.any_bind (fun _ _ => trivial)
      fun _ r => Ensures.expect_bind fun hkind =>
        ⟨r, Symbols.next_of_kind hkind (by decide), hkind⟩
  have hmodified {p : Nat} (token : Nat) (isExport isMutable isConst : Bool) :
      (modified token isExport isMutable isConst).Ensures (.exact symbols limit) symbols limit
        depth p fun _ q => ∃ r, q = r + 1 ∧ (symbols.symbolAt r).kind = .semicolon :=
    Ensures.ite (fun _ => trivial) fun _ => Ensures.sight_bind <| Ensures.ite
      (fun _ => hdeclared token none isExport isMutable isConst) fun _ =>
        Ensures.any_bind (fun _ _ => trivial) fun _ _ =>
          hdeclared token _ isExport isMutable isConst
  obtain ⟨r, rfl, hkind⟩ := Rule.holds_of_eval h <| Ensures.any_bind (fun _ _ => trivial)
    fun token _ => Ensures.any_bind (fun _ _ => trivial) fun isExport _ =>
      Ensures.any_bind (fun _ _ => trivial) fun found _ => hmodified token isExport found.1 found.2
  exact ⟨r, by omega, rfl, hkind⟩

theorem variableIfAny_ends :
    variableIfAny.Ensures (.exact symbols limit) symbols limit depth p fun v q =>
      v = none ∧ q = p ∨
        ∃ t r, v = some t ∧ p ≤ r ∧ q = r + 1 ∧ (symbols.symbolAt r).kind = .semicolon := by
  refine Ensures.sight_bind (Ensures.ite (fun _ => ?_) fun _ => .inl ⟨rfl, rfl⟩)
  refine ⟨trivial, fun v q hread => ?_⟩
  obtain ⟨r, hr⟩ := declaration_ends hread
  exact .inr ⟨v, r, rfl, hr⟩

/-- The clauses of a loop are spared behind a semicolon in its header. -/
theorem stepped_spares {start : Nat} {token : Nat} {label : Option String} {init : Option Tree}
    {lost : Tree → Nat → Prop} (hfor : (symbols.symbolAt start).kind = .kwFor)
    (hopen : (symbols.symbolAt (start + 1)).kind = .leftParen) (hlt : start + 1 < p)
    (hinit : (symbols.symbolAt p).kind = .semicolon) :
    (stepped token label init).Spares symbols limit depth (p + 1) lost fun _ _ => True := by
  refine expression_bind_spares (fun hend => .condition hfor hopen hlt hinit hend)
    fun condition q hq => Spares.expect_bind fun hcondition => ?_
  rw [Symbols.next_of_kind hcondition (by decide)]
  refine ⟨fun v hv => Excused.expect_bind fun hend => ?_, fun v r _ => ?_⟩
  · exact .step hfor hopen (Nat.lt_of_lt_of_le hlt (Nat.le_of_succ_le hq)) hcondition hend
  · exact ((keen_expect _).bind fun _ => requiredBlock_keen.bind fun _ => keen_pure _).spares

theorem assignment_goes :
    assignment.Ensures (.exact symbols limit) symbols limit depth p fun _ q => p ≤ q := by
  refine ⟨trivial, fun v q hread => ?_⟩
  rcases (Rule.advances_of_eval hread).eq_or_forward with rfl | hforward
  · exact Nat.le_refl q
  · exact Nat.le_of_lt hforward.1

theorem headed_spares {start token : Nat} {label : Option String} {lost : Tree → Nat → Prop}
    (hfor : (symbols.symbolAt start).kind = .kwFor)
    (hopen : (symbols.symbolAt (start + 1)).kind = .leftParen) :
    (headed token label).Spares symbols limit depth (start + 2) lost fun _ _ => True := by
  have hstepped {p : Nat} (init : Option Tree) (hlt : start + 1 < p)
      (hinit : (symbols.symbolAt p).kind = .semicolon) :
      (stepped token label init).Spares symbols limit depth (symbols.next p) lost
        fun _ _ => True := by
    rw [Symbols.next_of_kind hinit (by decide)]
    exact stepped_spares hfor hopen hlt hinit
  refine Spares.sight_bind ?_
  split
  · exact (keen_take_two.bind fun _ => keen_expression.bind fun _ => (keen_expect _).bind fun _ =>
      requiredBlock_keen.bind fun _ => keen_pure _).spares
  · refine variableIfAny_keen.bind_spares variableIfAny_ends fun init q hends => ?_
    rcases hends with ⟨rfl, rfl⟩ | ⟨t, r, rfl, hle, rfl, hinit⟩
    · refine Spares.accept_bind (hstepped none (Nat.lt_succ_self _)) ?_
      have hensures : (require .expression assignment).Ensures (.exact symbols limit) symbols limit
          depth (start + 2) fun _ q => start + 2 ≤ q :=
        Ensures.require (assignment_goes.mono fun _ _ hle _ _ => hle)
      refine (keen_require assignment_wants).bind_spares hensures fun first q hle => ?_
      refine Spares.accept_bind (hstepped (some first) hle) ?_
      exact ((keen_expect _).bind fun _ => requiredBlock_keen.bind fun _ => keen_pure _).spares
    · exact stepped_spares hfor hopen hle hinit

theorem loop_spares {label : Option String} {lost : Tree → Nat → Prop} :
    (loop label).Spares symbols limit depth p lost fun _ _ => True := by
  refine Spares.here_bind (Spares.expect_bind fun hfor => ?_)
  rw [Symbols.next_of_kind hfor (by decide)]
  have hblock : (run (.block none)).Ensures (.exact symbols limit) symbols limit depth (p + 1)
      fun v q => v = none → q = p + 1 := by
    refine ⟨trivial, fun v q hread hv => ?_⟩
    subst hv
    exact Rule.advances_of_eval hread
  refine Keen.bind_spares (keen_run fun _ => id) hblock fun body q hq => ?_
  cases body with
  | some body => exact trivial
  | none =>
    rw [hq rfl]
    refine Spares.expect_bind fun hopen => ?_
    rw [Symbols.next_of_kind hopen (by decide)]
    exact headed_spares hfor hopen

/-! ## Statements and assignments -/

/-- A level finds nothing where its first operand does. -/
theorem level_spared (l : Level) : (Rule.level l).Spared symbols limit := by
  have hrest : ∀ v, (match v with
      | none => pure none
      | some first => do
        let rest ← run (.operands l)
        return some (rest.foldl (fun lhs (token, op, rhs) => .node token (.binary op lhs rhs))
          first) : Script (Option Tree)).Keen symbols limit
    | none => keen_pure _
    | some _ => (keen_run fun _ => id).bind fun _ => keen_pure _
  intro depth p
  cases l with
  | assignment =>
    refine ⟨fun v hv => ?_, fun _ v q _ => (hrest v).spares⟩
    obtain rfl : v = none := hv
    exact ⟨rfl, rfl⟩
  | _ => exact (Keen.bind (keen_run fun _ => id) hrest).spares

theorem expressionStatement_spares :
    expressionStatement.Spares symbols limit depth p (fun v q => v = none ∧ q = p)
      fun _ _ => True := by
  refine ⟨fun v hv => ?_, fun v q _ => ?_⟩
  · obtain rfl : v = none := hv
    exact ⟨rfl, rfl⟩
  · cases v with
    | none => exact trivial
    | some value => exact ((keen_expect _).bind fun _ => keen_pure _).spares

/-- What is known of the progress of a step is known of its exact runs. -/
theorem ensures_of_progress {α : Type} {x : Script α} {o : Rule} {P : α → Nat → Prop}
    (h : x.Ensures (progress symbols o p) symbols limit depth p P) :
    x.Ensures (.exact symbols limit) symbols limit depth p P :=
  h.weaken (fun _ _ _ => trivial) fun _ _ _ _ _ hread => Rule.advances_of_eval hread

theorem statementAt_spares (kind : TokenKind) :
    (statementAt kind).Spares symbols limit depth p (fun v q => v = none ∧ q = p)
      fun _ _ => True := by
  have hsome {x : Script Tree} (hx : x.Keen symbols limit) :
      (some <$> x).Spares symbols limit depth p (fun v q => v = none ∧ q = p) fun _ _ => True :=
    (keen_map some hx).spares
  have hmap {x : Script Tree}
      (hx : x.Spares symbols limit depth p (fun _ _ => False) fun _ _ => True) :
      (some <$> x).Spares symbols limit depth p (fun v q => v = none ∧ q = p) fun _ _ => True :=
    (spares_bind x _ _ _).mpr (hx.mono (fun _ _ => False.elim) fun _ _ => id)
  unfold statementAt
  split
  · exact hsome deferral_keen
  · exact hsome (keen_run fun _ => id)
  · exact ((keen_run fun _ => id).bind fun _ => (keen_accept _).bind fun _ => keen_pure _).spares
  · exact hmap breaking_spares
  · exact hsome continuing_keen
  · exact hmap returning_spares
  · exact hsome raising_keen
  · have hlabelled : (run .labelled).Ensures (.exact symbols limit) symbols limit depth p
        (symbols.Finds p) := ⟨trivial, fun _ _ => Rule.advances_of_eval⟩
    refine Keen.bind_spares (keen_run fun _ => id) hlabelled fun v q hq => ?_
    cases v with
    | some statement => exact trivial
    | none =>
      obtain rfl : q = p := hq
      exact expressionStatement_spares

/-- A statement finds nothing where its expression does. -/
theorem statement_spared : Rule.statement.Spared symbols limit := by
  intro depth p
  simp only [Rule.script, statement_eq]
  refine containerIfAny_keen.bind_spares (ensures_of_progress (containerIfAny_finds symbols))
    fun v q hq => ?_
  cases v with
  | some declaration => exact trivial
  | none =>
    obtain rfl : q = p := hq
    refine variableIfAny_keen.bind_spares (ensures_of_progress (variableIfAny_finds symbols))
      fun v q' hq => ?_
    cases v with
    | some declaration => exact trivial
    | none =>
      obtain rfl : q' = q := hq
      exact Spares.sight_bind (statementAt_spares _)

end Grammar

open Grammar in
/-- Every production spares what it may be refused. -/
theorem Rule.spared (symbols : Symbols) (limit : Nat) (r : Rule) : r.Spared symbols limit := by
  intro depth p
  cases r with
  | statement => exact statement_spared depth p
  | level l => exact level_spared l depth p
  | loop label => exact loop_spares
  | unit => exact unit_keen.spares
  | labelled => exact labelled_keen.spares
  | function => exact function_keen.spares
  | prototype isExport isExtern => exact (prototype_keen isExport isExtern).spares
  | params => exact params_keen.spares
  | record => exact record_keen.spares
  | fields => exact fields_keen.spares
  | enumeration => exact enumeration_keen.spares
  | variants => exact variants_keen.spares
  | declaration => exact declaration_keen.spares
  | modifiers => exact modifiers_keen.spares
  | block label => exact (block_keen label).spares
  | statements => exact statements_keen.spares
  | body => exact body_keen.spares
  | conditional => exact conditional_keen.spares
  | whileLoop label => exact (whileLoop_keen label).spares
  | selection => exact selection_keen.spares
  | branches => exact branches_keen.spares
  | branch => exact branch_keen.spares
  | items => exact items_keen.spares
  | expression => exact attempted_keen.spares
  | attempts => exact attempts_keen.spares
  | operands l => exact (operands_keen l).spares
  | recovery => exact recovery_keen.spares
  | handlers => exact handlers_keen.spares
  | unary => exact unary_keen.spares
  | operand => exact operand_keen.spares
  | suffixed => exact suffixed_keen.spares
  | suffixes => exact suffixes_keen.spares
  | listed bracket => exact (listed_keen bracket).spares
  | primary => exact primary_keen.spares
  | type => exact type_keen.spares
  | innerType => exact innerType_keen.spares

end FrontEnd
