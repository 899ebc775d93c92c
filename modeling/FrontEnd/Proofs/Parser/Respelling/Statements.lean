import FrontEnd.Proofs.Parser.Begins
import FrontEnd.Proofs.Parser.Parts
import FrontEnd.Proofs.Parser.Respelling.Expressions

/-!
Declarations and statements are read from a respelled source as from the source. Where
`elseif` is two words the rest of a conditional is one level further in, as the statement
behind `else`; a branch of a selection cannot begin there.
-/

namespace FrontEnd.Grammar

open Script

variable {w : Respelling} {limit p : Nat} {read : (r : Rule) → ParseState → Outcome r.Result}

/-! ## Declarations -/

theorem initializer_tracks (hw : w.Follows limit read) :
    Script.Tracks w limit read p (w.place p) initializer initializer
      (Option.map (·.mapTokens w.back)) := by
  refine tracks_bind hw (tracks_accept (by decide)) fun found q => ?_
  cases found with
  | true =>
    refine tracks_bind hw (tracks_require hw (expression_tracks hw)) fun value q => ?_
    exact tracks_pure rfl
  | false => exact tracks_pure rfl

theorem signed_tracks (hw : w.Follows limit read) (token : Nat) (isExport isExtern : Bool) :
    Script.Tracks w limit read p (w.place p) (signed (w.back token) isExport isExtern)
      (signed token isExport isExtern) (·.mapTokens w.back) := by
  refine tracks_bind hw (tracks_run hw (.prototype isExport isExtern) trivial) fun signature q => ?_
  refine tracks_bind hw (tracks_run hw (.block none) trivial) fun body q => ?_
  cases body with
  | some body => exact tracks_pure (by simp [Rule.move])
  | none =>
    refine tracks_bind hw (tracks_expect (by decide)) fun _ q => ?_
    exact tracks_pure rfl

theorem function_tracks (hw : w.Follows limit read) : Rule.function.Tracks w limit read p := by
  refine tracks_bind hw tracks_here fun token q => ?_
  refine tracks_bind hw (tracks_accept (by decide)) fun isExport q => ?_
  refine tracks_bind hw (tracks_accept (by decide)) fun isExtern q => ?_
  exact signed_tracks hw token isExport isExtern

theorem prototype_tracks (hw : w.Follows limit read) (isExport isExtern : Bool) :
    (Rule.prototype isExport isExtern).Tracks w limit read p := by
  refine tracks_bind hw tracks_here fun token q => ?_
  refine tracks_bind hw (tracks_expect (by decide)) fun _ q => ?_
  refine tracks_bind hw (tracks_acceptText (by decide)) fun name q => ?_
  refine tracks_bind hw (tracks_expect (by decide)) fun _ q => ?_
  refine tracks_bind hw (tracks_run hw .params trivial) fun params q => ?_
  refine tracks_bind hw (tracks_expect (by decide)) fun _ q => ?_
  refine tracks_bind hw (tracks_require hw (tracks_run hw .type trivial)) fun result q => ?_
  exact tracks_pure (by simp [Rule.move, Param.move])

theorem params_tracks (hw : w.Follows limit read) : Rule.params.Tracks w limit read p := by
  refine tracks_bind hw tracks_here fun token q => ?_
  refine tracks_bind hw (tracks_run hw .type trivial) fun type q => ?_
  cases type with
  | none => exact tracks_pure rfl
  | some type =>
    refine tracks_bind hw (tracks_accept (by decide)) fun variadic q => ?_
    refine tracks_bind hw (tracks_expect (by decide)) fun name q => ?_
    cases variadic with
    | true => exact tracks_pure rfl
    | false =>
      refine tracks_bind hw (tracks_accept (by decide)) fun more q => ?_
      cases more with
      | true => exact tracks_bind hw (tracks_run hw .params trivial) fun _ _ => tracks_pure rfl
      | false => exact tracks_pure rfl

theorem recorded_tracks (hw : w.Follows limit read) (token : Nat) (isExport isUnion : Bool) :
    Script.Tracks w limit read p (w.place p) (recorded (w.back token) isExport isUnion)
      (recorded token isExport isUnion) (·.mapTokens w.back) := by
  refine tracks_bind hw (tracks_expect (by decide)) fun name q => ?_
  refine tracks_bind hw (tracks_expect (by decide)) fun _ q => ?_
  refine tracks_bind hw (tracks_run hw .fields trivial) fun fields q => ?_
  exact tracks_pure (by simp [Rule.move])

theorem record_tracks (hw : w.Follows limit read) : Rule.record.Tracks w limit read p := by
  refine tracks_bind hw tracks_here fun token q => ?_
  refine tracks_bind hw (tracks_accept (by decide)) fun isExport q => ?_
  refine tracks_bind hw (tracks_accept (by decide)) fun isUnion q => ?_
  cases isUnion with
  | true => exact recorded_tracks hw token isExport true
  | false =>
    refine tracks_bind hw (tracks_expect (by decide)) fun _ q => ?_
    exact recorded_tracks hw token isExport false

theorem field_tracks (hw : w.Follows limit read) :
    Script.Tracks w limit read p (w.place p) field field (·.mapTokens w.back) := by
  refine tracks_bind hw tracks_here fun token q => ?_
  refine tracks_bind hw (tracks_require hw (tracks_run hw .type trivial)) fun type q => ?_
  refine tracks_bind hw (tracks_expect (by decide)) fun name q => ?_
  refine tracks_bind hw (initializer_tracks hw) fun default q => ?_
  refine tracks_bind hw (tracks_expect (by decide)) fun _ q => ?_
  exact tracks_pure (by simp)

theorem fields_tracks (hw : w.Follows limit read) : Rule.fields.Tracks w limit read p := by
  refine tracks_bind hw (tracks_accept (by decide)) fun closed q => ?_
  cases closed with
  | true => exact tracks_pure rfl
  | false =>
    refine tracks_bind hw (field_tracks hw) fun field q => ?_
    refine tracks_bind hw (tracks_run hw .fields trivial) fun fields q => ?_
    exact tracks_pure rfl

theorem enumeration_tracks (hw : w.Follows limit read) :
    Rule.enumeration.Tracks w limit read p := by
  refine tracks_bind hw tracks_here fun token q => ?_
  refine tracks_bind hw (tracks_accept (by decide)) fun isExport q => ?_
  refine tracks_bind hw (tracks_expect (by decide)) fun _ q => ?_
  refine tracks_bind hw (tracks_expect (by decide)) fun name q => ?_
  refine tracks_bind hw (tracks_expect (by decide)) fun _ q => ?_
  refine tracks_bind hw (tracks_run hw .variants trivial) fun variants q => ?_
  exact tracks_pure (by simp [Rule.move, Variant.move])

theorem variants_tracks (hw : w.Follows limit read) : Rule.variants.Tracks w limit read p := by
  refine tracks_bind hw tracks_here fun token q => ?_
  refine tracks_bind hw (tracks_expect (by decide)) fun name q => ?_
  refine tracks_bind hw (initializer_tracks hw) fun value q => ?_
  refine tracks_bind hw (tracks_accept (by decide)) fun more q => ?_
  cases more with
  | true =>
    refine tracks_bind hw (tracks_accept (by decide)) fun closed q => ?_
    cases closed with
    | true => exact tracks_pure rfl
    | false =>
      refine tracks_bind hw (tracks_run hw .variants trivial) fun variants q => ?_
      exact tracks_pure rfl
  | false =>
    refine tracks_bind hw (tracks_expect (by decide)) fun _ q => ?_
    exact tracks_pure rfl

theorem modifiers_tracks (hw : w.Follows limit read) : Rule.modifiers.Tracks w limit read p := by
  refine tracks_bind hw (tracks_accept (by decide)) fun isMutable q => ?_
  cases isMutable with
  | true => exact tracks_bind hw (tracks_run hw .modifiers trivial) fun _ _ => tracks_pure rfl
  | false =>
    refine tracks_bind hw (tracks_accept (by decide)) fun isConst q => ?_
    cases isConst with
    | true => exact tracks_bind hw (tracks_run hw .modifiers trivial) fun _ _ => tracks_pure rfl
    | false => exact tracks_pure rfl

theorem declared_tracks (hw : w.Follows limit read) (token : Nat) (type : Option Tree)
    (isExport isMutable isConst : Bool) :
    Script.Tracks w limit read p (w.place p)
      (declared (w.back token) (type.map (·.mapTokens w.back)) isExport isMutable isConst)
      (declared token type isExport isMutable isConst) (·.mapTokens w.back) := by
  refine tracks_bind hw (tracks_expect (by decide)) fun name q => ?_
  refine tracks_bind hw (initializer_tracks hw) fun init q => ?_
  refine tracks_bind hw (tracks_expect (by decide)) fun _ q => ?_
  exact tracks_pure (by simp)

theorem modified_tracks (hw : w.Follows limit read) (token : Nat)
    (isExport isMutable isConst : Bool) :
    Script.Tracks w limit read p (w.place p) (modified (w.back token) isExport isMutable isConst)
      (modified token isExport isMutable isConst) (·.mapTokens w.back) := by
  simp only [modified]
  split
  · exact tracks_fail
  · apply tracks_sight_bind
    have htype : Script.Tracks w limit read p (w.place p)
        (some <$> require .type (run .type)) (some <$> require .type (run .type))
        (Option.map (·.mapTokens w.back)) :=
      tracks_map hw (tracks_require hw (tracks_run hw .type trivial)) fun _ => rfl
    refine tracks_ite (w.omitsType_iff p) (fun _ => ?_) fun _ => ?_
    · exact declared_tracks hw token none isExport isMutable isConst
    · exact tracks_bind hw htype fun type q => declared_tracks hw token type _ _ _

theorem declaration_tracks (hw : w.Follows limit read) :
    Rule.declaration.Tracks w limit read p := by
  refine tracks_bind hw tracks_here fun token q => ?_
  refine tracks_bind hw (tracks_accept (by decide)) fun isExport q => ?_
  refine tracks_bind hw (tracks_run hw .modifiers trivial) fun found q => ?_
  exact modified_tracks hw token isExport found.1 found.2

/-! ## Statements -/

theorem nestedStatement_tracks (hw : w.Follows limit read) :
    Script.Tracks w limit read p (w.place p) nestedStatement nestedStatement
      (Option.map (·.mapTokens w.back)) := tracks_deeper hw .statement trivial

theorem unit_tracks (hw : w.Follows limit read) : Rule.unit.Tracks w limit read p := by
  apply tracks_sight_bind
  refine tracks_ite (w.kind_iff p (by decide)) (fun _ => tracks_pure rfl) fun _ => ?_
  refine tracks_bind hw (tracks_require hw (nestedStatement_tracks hw)) fun item q => ?_
  refine tracks_bind hw (tracks_run hw .unit trivial) fun rest q => ?_
  exact tracks_pure rfl

theorem block_tracks (hw : w.Follows limit read) (label : Option String) :
    (Rule.block label).Tracks w limit read p := by
  refine tracks_bind hw tracks_here fun token q => ?_
  refine tracks_bind hw (tracks_accept (by decide)) fun found q => ?_
  cases found with
  | true =>
    refine tracks_bind hw (tracks_run hw .statements trivial) fun statements q => ?_
    exact tracks_pure (by simp [Rule.move])
  | false => exact tracks_pure rfl

theorem statements_tracks (hw : w.Follows limit read) : Rule.statements.Tracks w limit read p := by
  refine tracks_bind hw (tracks_accept (by decide)) fun closed q => ?_
  cases closed with
  | true => exact tracks_pure rfl
  | false =>
    refine tracks_bind hw (tracks_require hw (nestedStatement_tracks hw)) fun statement q => ?_
    refine tracks_bind hw (tracks_run hw .statements trivial) fun rest q => ?_
    exact tracks_pure rfl

theorem requiredBlock_tracks (hw : w.Follows limit read) :
    Script.Tracks w limit read p (w.place p) requiredBlock requiredBlock (·.mapTokens w.back) :=
  tracks_require hw (tracks_run hw (.block none) trivial)

theorem blockOrAssignment_tracks (hw : w.Follows limit read) :
    Script.Tracks w limit read p (w.place p) blockOrAssignment blockOrAssignment
      (fun v => (v.1.mapTokens w.back, v.2)) := by
  refine tracks_bind hw (tracks_run hw (.block none) trivial) fun block q => ?_
  cases block with
  | some block => exact tracks_pure rfl
  | none =>
    refine tracks_bind hw (tracks_require hw (assignment_tracks hw)) fun value q => ?_
    exact tracks_pure rfl

theorem body_tracks (hw : w.Follows limit read) : Rule.body.Tracks w limit read p := by
  refine tracks_bind hw (blockOrAssignment_tracks hw) fun found q => ?_
  obtain ⟨body, isBlock⟩ := found
  cases isBlock with
  | true => exact tracks_pure rfl
  | false =>
    refine tracks_bind hw (tracks_expect (by decide)) fun _ q => ?_
    exact tracks_pure rfl

theorem deferral_tracks (hw : w.Follows limit read) :
    Script.Tracks w limit read p (w.place p) deferral deferral (·.mapTokens w.back) := by
  refine tracks_bind hw tracks_here fun token q => ?_
  refine tracks_bind hw (tracks_expect (by decide)) fun _ q => ?_
  refine tracks_bind hw (tracks_run hw .body trivial) fun body q => ?_
  exact tracks_pure (by simp [Rule.move])

theorem condition_tracks (hw : w.Follows limit read) :
    Script.Tracks w limit read p (w.place p) condition condition (·.mapTokens w.back) := by
  refine tracks_bind hw (tracks_expect (by decide)) fun _ q => ?_
  refine tracks_bind hw (tracks_require hw (expression_tracks hw)) fun condition q => ?_
  refine tracks_bind hw (tracks_expect (by decide)) fun _ q => ?_
  exact tracks_pure rfl

/-- A statement at `if` is a conditional, one level further in. -/
theorem nestedStatement_eval_conditional {symbols : Symbols} {d : Nat}
    (hk : (symbols.symbolAt p).kind = .kwIf) (hd : d < limit) :
    (require .statement nestedStatement).eval symbols limit ⟨p, d⟩ =
      (Rule.eval symbols limit .conditional ⟨p, d + 1⟩).leave := by
  have hstatement : Rule.eval symbols limit .statement ⟨p, d + 1⟩ =
      ((run .conditional).eval symbols limit ⟨p, d + 1⟩).andThen fun v t => .read (some v) t :=
    (statement_eval_at hk (by decide)).trans (eval_bind _ _)
  have hnested : nestedStatement.eval symbols limit ⟨p, d⟩ =
      (Rule.eval symbols limit .statement ⟨p, d + 1⟩).leave :=
    (exec_deeper .statement).trans (if_pos hd)
  rw [eval_run] at hstatement
  refine (eval_bind nestedStatement _).trans ?_
  rw [hnested, hstatement]
  cases Rule.eval symbols limit .conditional ⟨p, d + 1⟩ <;> rfl

/-- The rest of a conditional stands behind `else`, where it was behind `elseif`. -/
theorem otherwise_tracks (hw : w.Follows limit read) (h : w.Unfolded p) :
    Script.Tracks w limit read p (w.place p + 1) (run .conditional)
      (require .statement nestedStatement) (·.mapTokens w.back) := by
  intro d d' hd
  rw [exec_run]
  have hle := hd.le
  by_cases hlimit : d' < limit
  · -- Both read a conditional, the other run one level further in.
    rw [nestedStatement_eval_conditional h.conditional hlimit]
    exact (hw.conditional h (.inr ⟨⟨p, h⟩, Nat.le_succ_of_le hle⟩)).leave_target
  · have hfailed : (require .statement nestedStatement).eval w.target limit ⟨w.place p + 1, d'⟩ =
        .failed (.nestedTooDeeply limit) ⟨w.place p + 1, d'⟩ := by
      apply eval_require_failed
      exact (exec_deeper _).trans (if_neg hlimit)
    rw [hfailed]
    have hkeeps := hw.keeps .conditional ⟨p, d⟩
    exact .of_nested ⟨p, h⟩ rfl hkeeps _

theorem branched_tracks (hw : w.Follows limit read) (token : Nat) :
    Script.Tracks w limit read p (w.place p) (branched (w.back token)) (branched token)
      (·.mapTokens w.back) := by
  refine tracks_bind hw (condition_tracks hw) fun condition q => ?_
  refine tracks_bind hw (tracks_run hw .body trivial) fun thenBody q => ?_
  by_cases h : w.Unfolded q
  · -- The source stays before `elseif`, while the other run takes `else`.
    have helse : (w.source.symbolAt q).kind ≠ .kwElse := h.elseif ▸ by decide
    refine tracks_of_exec_eq (q := q) (fun d => exec_bind_of (exec_accept_of_ne helse)) ?_
    refine tracks_of_eval_eq (q := w.target.next (w.place q))
      (fun d => eval_bind_of (eval_accept h.otherwise)) ?_
    rw [Symbols.next_of_kind h.otherwise (by decide)]
    refine tracks_of_exec_eq (q := q) (fun d => exec_sight_ite h.elseif) ?_
    refine tracks_bind hw (otherwise_tracks hw h) fun elseBody q => ?_
    exact tracks_pure (by simp [Rule.move])
  · refine tracks_accept_bind (w.settled_of_not_unfolded h (.inl rfl)) (by decide) ?_ ?_
    · intro _
      refine tracks_bind hw (tracks_require hw (nestedStatement_tracks hw)) fun elseBody q => ?_
      exact tracks_pure (by simp [Rule.move])
    · intro _
      have helseIf := w.settled_of_not_unfolded h (.inr rfl)
      apply tracks_sight_bind
      refine tracks_ite helseIf.iff (fun hk => ?_) fun _ => tracks_pure (by simp [Rule.move])
      refine tracks_bind hw (tracks_run hw .conditional (helseIf.same hk)) fun elseBody q => ?_
      exact tracks_pure (by simp [Rule.move])

theorem conditional_tracks (hw : w.Follows limit read) (h : w.Same p) :
    Rule.conditional.Tracks w limit read p := by
  apply tracks_here_bind
  refine tracks_accept_bind (h.settled .kwElseIf) (by decide) (fun _ => ?_) fun _ => ?_
  · exact branched_tracks hw (w.place p)
  · refine tracks_bind hw (tracks_expect_of (h.settled .kwIf) (by decide)) fun _ q => ?_
    exact branched_tracks hw (w.place p)

/-- Where `elseif` is two words, the conditional begins at the second one. -/
theorem conditional_tracks_unfolded (hw : w.Follows limit read) (h : w.Unfolded p) :
    Script.Tracks w limit read p (w.place p + 1) conditional conditional
      (·.mapTokens w.back) := by
  have hne : (w.target.symbolAt (w.place p + 1)).kind ≠ .kwElseIf := h.conditional ▸ by decide
  have hrest := branched_tracks (p := p + 1) hw (w.place p + 1)
  rw [h.back_succ, h.place_succ] at hrest
  refine tracks_of_exec_eq (q := p + 1) (fun d => ?_) (tracks_of_eval_eq (fun d => ?_) hrest)
  · rw [← Symbols.next_of_kind h.elseif (by decide)]
    exact exec_bind_of (exec_accept h.elseif)
  · rw [← Symbols.next_of_kind h.conditional (by decide)]
    exact (eval_bind_of (eval_accept_of_ne hne)).trans (eval_bind_of (eval_expect h.conditional))

/-! ## Selections -/

theorem selection_tracks (hw : w.Follows limit read) : Rule.selection.Tracks w limit read p := by
  refine tracks_bind hw tracks_here fun token q => ?_
  refine tracks_bind hw (tracks_expect (by decide)) fun _ q => ?_
  refine tracks_bind hw (tracks_accept (by decide)) fun parenthesized q => ?_
  refine tracks_bind hw (tracks_require hw (expression_tracks hw)) fun subject q => ?_
  cases parenthesized with
  | true =>
    refine tracks_bind hw (tracks_expect (by decide)) fun _ q => ?_
    refine tracks_bind hw (tracks_expect (by decide)) fun _ q => ?_
    refine tracks_bind hw (tracks_run hw .branches trivial) fun branches q => ?_
    exact tracks_pure (by simp [Rule.move, MatchBranch.move, MatchItem.move])
  | false =>
    refine tracks_bind hw (tracks_expect (by decide)) fun _ q => ?_
    refine tracks_bind hw (tracks_run hw .branches trivial) fun branches q => ?_
    exact tracks_pure (by simp [Rule.move, MatchBranch.move, MatchItem.move])

theorem branches_tracks (hw : w.Follows limit read) : Rule.branches.Tracks w limit read p := by
  refine tracks_bind hw (tracks_run hw .branch trivial) fun branch q => ?_
  refine tracks_bind hw (tracks_accept (by decide)) fun more q => ?_
  cases more with
  | true =>
    refine tracks_bind hw (tracks_accept (by decide)) fun closed q => ?_
    cases closed with
    | true => exact tracks_pure rfl
    | false => exact tracks_bind hw (tracks_run hw .branches trivial) fun _ _ => tracks_pure rfl
  | false => exact tracks_bind hw (tracks_expect (by decide)) fun _ _ => tracks_pure rfl

theorem branchMark_tracks (hw : w.Follows limit read) :
    Script.Tracks w limit read p (w.place p) branchMark branchMark id := by
  refine tracks_bind hw (tracks_accept (by decide)) fun isColon q => ?_
  cases isColon with
  | true => exact tracks_pure rfl
  | false =>
    refine tracks_bind hw (tracks_accept (by decide)) fun isArrow q => ?_
    cases isArrow with
    | true => exact tracks_pure rfl
    | false => exact tracks_failing

theorem item_tracks (hw : w.Follows limit read) :
    Script.Tracks w limit read p (w.place p) item item (MatchItem.move w.back) := by
  refine tracks_bind hw (tracks_require hw (expression_tracks hw)) fun start q => ?_
  refine tracks_bind hw (tracks_accept (by decide)) fun isRange q => ?_
  cases isRange with
  | true =>
    refine tracks_bind hw (tracks_require hw (expression_tracks hw)) fun stop q => ?_
    exact tracks_pure rfl
  | false => exact tracks_pure rfl

theorem items_tracks (hw : w.Follows limit read) : Rule.items.Tracks w limit read p := by
  refine tracks_bind hw (item_tracks hw) fun first q => ?_
  refine tracks_bind hw (tracks_accept (by decide)) fun more q => ?_
  cases more with
  | true => exact tracks_bind hw (tracks_run hw .items trivial) fun _ _ => tracks_pure rfl
  | false => exact tracks_pure rfl

theorem marked_tracks (hw : w.Follows limit read) (token : Nat) (items : List (MatchItem Tree)) :
    Script.Tracks w limit read p (w.place p)
      (marked (w.back token) (items.map (·.move w.back))) (marked token items)
      (MatchBranch.move w.back) := by
  refine tracks_bind hw (branchMark_tracks hw) fun _ q => ?_
  refine tracks_bind hw (blockOrAssignment_tracks hw) fun found q => ?_
  exact tracks_pure rfl

/-- No branch begins at `elseif`, and behind `else` has to come the mark of the branch. -/
theorem itemized_tracks_unfolded (hw : w.Follows limit read) (h : w.Unfolded p) (token : Nat) :
    Script.Tracks w limit read p (w.place p) (itemized (w.back token)) (itemized token)
      (MatchBranch.move w.back) := by
  have helse : (w.source.symbolAt p).kind ≠ .kwElse := h.elseif ▸ by decide
  have hdefault : (w.source.symbolAt p).kind ≠ .kwDefault := h.elseif ▸ by decide
  have hcolon : (w.target.symbolAt (w.place p + 1)).kind ≠ .colon := h.conditional ▸ by decide
  have harrow : (w.target.symbolAt (w.place p + 1)).kind ≠ .fatArrow := h.conditional ▸ by decide
  refine tracks_of_unread hw (fun d => ?_) fun d => ?_
  · refine Ensures.accept_bind (fun hk => absurd hk helse) fun _ => ?_
    refine Ensures.accept_bind (fun hk => absurd hk hdefault) fun _ => ?_
    refine ⟨trivial, fun items q hitems => ?_⟩
    have hbegins : (w.source.symbolAt p).kind.beginsExpression = true := Rule.begins_of_eval hitems
    rw [h.elseif] at hbegins
    cases hbegins
  · refine ⟨.expected .branchMark .kwIf, ⟨w.place p + 1, d⟩, ?_⟩
    have hmark : branchMark.eval w.target limit ⟨w.place p + 1, d⟩ =
        .failed (.expected .branchMark .kwIf) ⟨w.place p + 1, d⟩ := by
      rw [← h.conditional]
      exact (eval_bind_of (eval_accept_of_ne hcolon)).trans
        (eval_bind_of (eval_accept_of_ne harrow))
    refine (eval_bind_of (eval_accept h.otherwise)).trans ?_
    rw [Symbols.next_of_kind h.otherwise (by decide)]
    have hmarked : (marked token []).eval w.target limit ⟨w.place p + 1, d⟩ =
        .failed (.expected .branchMark .kwIf) ⟨w.place p + 1, d⟩ := eval_bind_failed hmark
    exact hmarked

theorem itemized_tracks (hw : w.Follows limit read) (token : Nat) :
    Script.Tracks w limit read p (w.place p) (itemized (w.back token)) (itemized token)
      (MatchBranch.move w.back) := by
  by_cases h : w.Unfolded p
  · exact itemized_tracks_unfolded hw h token
  · refine tracks_bind hw (tracks_accept_of (w.settled_of_not_unfolded h (.inl rfl))
      (by decide)) fun isElse q => ?_
    cases isElse with
    | true => exact marked_tracks hw token []
    | false =>
      refine tracks_bind hw (tracks_accept (by decide)) fun isDefault q => ?_
      cases isDefault with
      | true => exact marked_tracks hw token []
      | false =>
        refine tracks_bind hw (tracks_run hw .items trivial) fun items q => ?_
        exact marked_tracks hw token items

theorem branch_tracks (hw : w.Follows limit read) : Rule.branch.Tracks w limit read p := by
  refine tracks_bind hw tracks_here fun token q => ?_
  refine tracks_bind hw (tracks_accept (by decide)) fun _ q => ?_
  exact itemized_tracks hw token

/-! ## Loops -/

theorem stepped_tracks (hw : w.Follows limit read) (token : Nat) (label : Option String)
    (init : Option Tree) :
    Script.Tracks w limit read p (w.place p)
      (stepped (w.back token) label (init.map (·.mapTokens w.back))) (stepped token label init)
      (·.mapTokens w.back) := by
  refine tracks_bind hw (expression_tracks hw) fun condition q => ?_
  refine tracks_bind hw (tracks_expect (by decide)) fun _ q => ?_
  refine tracks_bind hw (assignment_tracks hw) fun step q => ?_
  refine tracks_bind hw (tracks_expect (by decide)) fun _ q => ?_
  refine tracks_bind hw (requiredBlock_tracks hw) fun body q => ?_
  exact tracks_pure (by simp)

theorem variableIfAny_tracks (hw : w.Follows limit read) :
    Script.Tracks w limit read p (w.place p) variableIfAny variableIfAny
      (Option.map (·.mapTokens w.back)) := by
  apply tracks_sight_bind
  refine tracks_ite (w.opensVariable_iff p) (fun _ => ?_) fun _ => tracks_pure rfl
  exact tracks_bind hw (tracks_run hw .declaration trivial) fun _ _ => tracks_pure rfl

theorem headed_tracks (hw : w.Follows limit read) (token : Nat) (label : Option String) :
    Script.Tracks w limit read p (w.place p) (headed (w.back token) label) (headed token label)
      (·.mapTokens w.back) := by
  apply tracks_sight_bind
  refine tracks_ite (w.names_iff p (by decide)) (fun h => ?_) fun _ => ?_
  · simp only [Bool.and_eq_true, decide_eq_true_eq] at h
    have hsame : w.Same p := w.same_of_kind (by decide) h.1
    have htext : (w.target.sight (w.place p)).current = (w.source.sight p).current := hsame.symbol
    rw [htext]
    refine tracks_bind hw (tracks_take_both (by decide) (by decide) h) fun _ q => ?_
    refine tracks_bind hw (tracks_require hw (expression_tracks hw)) fun iterable q => ?_
    refine tracks_bind hw (tracks_expect (by decide)) fun _ q => ?_
    refine tracks_bind hw (requiredBlock_tracks hw) fun body q => ?_
    exact tracks_pure (by simp)
  refine tracks_bind hw (variableIfAny_tracks hw) fun init q => ?_
  cases init with
  | some init => exact stepped_tracks hw token label (some init)
  | none =>
    refine tracks_bind hw (tracks_accept (by decide)) fun isEmpty q => ?_
    cases isEmpty with
    | true => exact stepped_tracks hw token label none
    | false =>
      refine tracks_bind hw (tracks_require hw (assignment_tracks hw)) fun first q => ?_
      refine tracks_bind hw (tracks_accept (by decide)) fun isStepped q => ?_
      cases isStepped with
      | true => exact stepped_tracks hw token label (some first)
      | false =>
        refine tracks_bind hw (tracks_expect (by decide)) fun _ q => ?_
        refine tracks_bind hw (requiredBlock_tracks hw) fun body q => ?_
        exact tracks_pure (by simp)

theorem loop_tracks (hw : w.Follows limit read) (label : Option String) (h : w.Same p) :
    (Rule.loop label).Tracks w limit read p := by
  apply tracks_here_bind
  refine tracks_bind hw (tracks_expect_of (h.settled .kwFor) (by decide)) fun _ q => ?_
  refine tracks_bind hw (tracks_run hw (.block none) trivial) fun body q => ?_
  cases body with
  | some body => exact tracks_pure (by simp [Rule.move])
  | none =>
    refine tracks_bind hw (tracks_expect (by decide)) fun _ q => ?_
    exact headed_tracks hw (w.place p) label

theorem whileLoop_tracks (hw : w.Follows limit read) (label : Option String) (h : w.Same p) :
    (Rule.whileLoop label).Tracks w limit read p := by
  apply tracks_here_bind
  refine tracks_bind hw (tracks_expect_of (h.settled .kwWhile) (by decide)) fun _ q => ?_
  refine tracks_bind hw (condition_tracks hw) fun condition q => ?_
  refine tracks_bind hw (requiredBlock_tracks hw) fun body q => ?_
  exact tracks_pure (by simp [Rule.move])

theorem loopIfAny_tracks (hw : w.Follows limit read) (label : Option String) :
    Script.Tracks w limit read p (w.place p) (loopIfAny label) (loopIfAny label)
      (Option.map (·.mapTokens w.back)) := by
  apply tracks_sight_bind
  simp only [Symbols.sight_kind]
  rcases w.loops p with hsame | hlooped | ⟨hsource, htarget⟩
  · rw [hsame.symbol]
    split
    · exact tracks_bind hw (tracks_run hw (.loop label) hsame) fun _ _ => tracks_pure rfl
    · exact tracks_bind hw (tracks_run hw (.whileLoop label) hsame) fun _ _ => tracks_pure rfl
    · exact tracks_pure rfl
  · rw [hlooped.source, hlooped.target]
    exact tracks_bind hw (tracks_looped hw label hlooped) fun _ _ => tracks_pure rfl
  · simp only [List.mem_cons, List.not_mem_nil, or_false, not_or] at hsource htarget
    split
    · exact absurd ‹_› hsource.1
    · exact absurd ‹_› hsource.2
    · split
      · exact absurd ‹_› htarget.1
      · exact absurd ‹_› htarget.2
      · exact tracks_pure rfl

theorem label_tracks (hw : w.Follows limit read) :
    Script.Tracks w limit read p (w.place p) label label id := by
  apply tracks_sight_bind
  refine tracks_ite (w.names_iff p (by decide)) (fun h => ?_) fun _ => tracks_pure rfl
  simp only [Bool.and_eq_true, decide_eq_true_eq] at h
  have hsame : w.Same p := w.same_of_kind (by decide) h.1
  have htext : (w.target.sight (w.place p)).current = (w.source.sight p).current := hsame.symbol
  rw [htext]
  exact tracks_bind hw (tracks_take_both (by decide) (by decide) h) fun _ _ => tracks_pure rfl

theorem labelled_tracks (hw : w.Follows limit read) : Rule.labelled.Tracks w limit read p := by
  refine tracks_bind hw (label_tracks hw) fun label q => ?_
  refine tracks_bind hw (tracks_run hw (.block label) trivial) fun block q => ?_
  cases block with
  | some block => exact tracks_pure rfl
  | none =>
    refine tracks_bind hw (loopIfAny_tracks hw label) fun loop q => ?_
    cases loop with
    | some loop => exact tracks_pure rfl
    | none =>
      cases label with
      | some label => exact tracks_failing
      | none => exact tracks_pure rfl

/-! ## Jumps and statements -/

theorem jumpLabel_tracks (hw : w.Follows limit read) :
    Script.Tracks w limit read p (w.place p) jumpLabel jumpLabel id := by
  refine tracks_bind hw (tracks_accept (by decide)) fun found q => ?_
  cases found with
  | true => exact tracks_bind hw (tracks_expect (by decide)) fun name q => tracks_pure rfl
  | false => exact tracks_pure rfl

theorem breaking_tracks (hw : w.Follows limit read) :
    Script.Tracks w limit read p (w.place p) breaking breaking (·.mapTokens w.back) := by
  refine tracks_bind hw tracks_here fun token q => ?_
  refine tracks_bind hw (tracks_expect (by decide)) fun _ q => ?_
  refine tracks_bind hw (jumpLabel_tracks hw) fun label q => ?_
  refine tracks_bind hw (expression_tracks hw) fun value q => ?_
  refine tracks_bind hw (tracks_expect (by decide)) fun _ q => ?_
  exact tracks_pure (by simp)

theorem continuing_tracks (hw : w.Follows limit read) :
    Script.Tracks w limit read p (w.place p) continuing continuing (·.mapTokens w.back) := by
  refine tracks_bind hw tracks_here fun token q => ?_
  refine tracks_bind hw (tracks_expect (by decide)) fun _ q => ?_
  refine tracks_bind hw (jumpLabel_tracks hw) fun label q => ?_
  refine tracks_bind hw (tracks_expect (by decide)) fun _ q => ?_
  exact tracks_pure (by simp)

theorem returning_tracks (hw : w.Follows limit read) :
    Script.Tracks w limit read p (w.place p) returning returning (·.mapTokens w.back) := by
  refine tracks_bind hw tracks_here fun token q => ?_
  refine tracks_bind hw (tracks_expect (by decide)) fun _ q => ?_
  refine tracks_bind hw (expression_tracks hw) fun value q => ?_
  refine tracks_bind hw (tracks_expect (by decide)) fun _ q => ?_
  exact tracks_pure (by simp)

theorem raising_tracks (hw : w.Follows limit read) :
    Script.Tracks w limit read p (w.place p) raising raising (·.mapTokens w.back) := by
  refine tracks_bind hw tracks_here fun token q => ?_
  refine tracks_bind hw (tracks_expect (by decide)) fun _ q => ?_
  refine tracks_bind hw (tracks_require hw (expression_tracks hw)) fun value q => ?_
  refine tracks_bind hw (tracks_expect (by decide)) fun _ q => ?_
  exact tracks_pure (by simp)

theorem containerIfAny_tracks (hw : w.Follows limit read) :
    Script.Tracks w limit read p (w.place p) containerIfAny containerIfAny
      (Option.map (·.mapTokens w.back)) := by
  apply tracks_sight_bind
  refine tracks_ite (w.opensFunction_iff p) (fun _ => ?_) fun _ => ?_
  · exact tracks_bind hw (tracks_run hw .function trivial) fun _ _ => tracks_pure rfl
  refine tracks_ite (w.opens_iff p (by decide)) (fun _ => ?_) fun _ => ?_
  · exact tracks_bind hw (tracks_run hw .record trivial) fun _ _ => tracks_pure rfl
  refine tracks_ite (w.opens_iff p (by decide)) (fun _ => ?_) fun _ => tracks_pure rfl
  exact tracks_bind hw (tracks_run hw .enumeration trivial) fun _ _ => tracks_pure rfl

theorem expressionStatement_tracks (hw : w.Follows limit read) :
    Script.Tracks w limit read p (w.place p) expressionStatement expressionStatement
      (Option.map (·.mapTokens w.back)) := by
  refine tracks_bind hw (assignment_tracks hw) fun value q => ?_
  cases value with
  | none => exact tracks_pure rfl
  | some value => exact tracks_bind hw (tracks_expect (by decide)) fun _ _ => tracks_pure rfl

/-- No statement of its own begins with a word that is spelled in two ways, so either spelling
is left to the same production. -/
theorem statementAt_tracks (hw : w.Follows limit read) :
    Script.Tracks w limit read p (w.place p) (statementAt (w.source.symbolAt p).kind)
      (statementAt (w.target.symbolAt (w.place p)).kind) (Option.map (·.mapTokens w.back)) := by
  rw [← w.statementAt_eq p]
  unfold statementAt
  split
  · exact tracks_map hw (deferral_tracks hw) fun _ => rfl
  · rename_i hif
    exact tracks_map hw (tracks_run hw .conditional (w.same_of_kind (by decide) hif)) fun _ => rfl
  · refine tracks_bind hw (tracks_run hw .selection trivial) fun selection q => ?_
    exact tracks_bind hw (tracks_accept (by decide)) fun _ _ => tracks_pure rfl
  · exact tracks_map hw (breaking_tracks hw) fun _ => rfl
  · exact tracks_map hw (continuing_tracks hw) fun _ => rfl
  · exact tracks_map hw (returning_tracks hw) fun _ => rfl
  · exact tracks_map hw (raising_tracks hw) fun _ => rfl
  · refine tracks_bind hw (tracks_run hw .labelled trivial) fun statement q => ?_
    cases statement with
    | some statement => exact tracks_pure rfl
    | none => exact expressionStatement_tracks hw

theorem statement_tracks (hw : w.Follows limit read) : Rule.statement.Tracks w limit read p := by
  refine tracks_bind hw (containerIfAny_tracks hw) fun container q => ?_
  cases container with
  | some container => exact tracks_pure rfl
  | none =>
    refine tracks_bind hw (variableIfAny_tracks hw) fun declaration q => ?_
    cases declaration with
    | some declaration => exact tracks_pure rfl
    | none => exact tracks_sight_bind (statementAt_tracks hw)

end FrontEnd.Grammar
