import FrontEnd.Proofs.Parser.Respelling

/-!
Expressions and types are read from a respelled source as from the source. Of what may be
spelled in two ways only `&&` and `||` stand in them, and those are the same operators in
either spelling.
-/

namespace FrontEnd.Grammar

open Script

variable {w : Respelling} {limit p : Nat} {read : (r : Rule) → ParseState → Outcome r.Result}

/-! ## Operators -/

theorem attempted_tracks (hw : w.Follows limit read) : Rule.expression.Tracks w limit read p := by
  refine tracks_bind hw (tracks_run hw .attempts trivial) fun tries q => ?_
  refine tracks_bind hw (tracks_run hw (.level .conjunction) trivial) fun operand q => ?_
  cases operand with
  | none =>
    cases tries with
    | nil => exact tracks_pure rfl
    | cons token tries => exact tracks_failing
  | some operand =>
    refine tracks_pure (congrArg some (Tree.mapTokens_foldr ?_ tries operand))
    simp

theorem attempts_tracks (hw : w.Follows limit read) : Rule.attempts.Tracks w limit read p := by
  refine tracks_bind hw tracks_here fun token q => ?_
  refine tracks_bind hw (tracks_accept (by decide)) fun found q => ?_
  cases found with
  | true => exact tracks_bind hw (tracks_run hw .attempts trivial) fun _ _ => tracks_pure rfl
  | false => exact tracks_pure rfl

theorem expression_tracks (hw : w.Follows limit read) :
    Script.Tracks w limit read p (w.place p) expression expression
      (Option.map (·.mapTokens w.back)) := tracks_deeper hw .expression trivial

theorem assignment_tracks (hw : w.Follows limit read) :
    Script.Tracks w limit read p (w.place p) assignment assignment
      (Option.map (·.mapTokens w.back)) := tracks_run hw (.level .assignment) trivial

theorem operandOf_tracks (hw : w.Follows limit read) (l : Level) :
    Script.Tracks w limit read p (w.place p) (operandOf l) (operandOf l)
      (Option.map (·.mapTokens w.back)) := by
  cases l with
  | assignment => exact expression_tracks hw
  | conjunction => exact tracks_run hw (.level .disjunction) trivial
  | disjunction => exact tracks_run hw (.level .comparison) trivial
  | comparison => exact tracks_run hw .recovery trivial
  | bitwise => exact tracks_run hw (.level .shift) trivial
  | shift => exact tracks_run hw (.level .sum) trivial
  | sum => exact tracks_run hw (.level .product) trivial
  | product => exact tracks_run hw .unary trivial

theorem level_tracks (hw : w.Follows limit read) (l : Level) :
    (Rule.level l).Tracks w limit read p := by
  refine tracks_bind hw (operandOf_tracks hw l) fun first q => ?_
  cases first with
  | none => exact tracks_pure rfl
  | some first =>
    refine tracks_bind hw (tracks_run hw (.operands l) trivial) fun rest q => ?_
    refine tracks_pure (congrArg some (Tree.mapTokens_foldl ?_ rest first))
    simp

/-- The two spellings of an operator are the same operator, at the same place. -/
theorem operands_tracks (hw : w.Follows limit read) (l : Level) :
    (Rule.operands l).Tracks w limit read p := by
  apply tracks_sight_bind
  simp only [Symbols.sight_kind, Symbols.sight_position]
  rw [← w.operator?_eq p l]
  split
  · exact tracks_pure rfl
  · rename_i op hop
    refine tracks_bind hw (tracks_take (Respelling.next_eq_of_operator hop)) fun _ q => ?_
    refine tracks_bind hw (tracks_require hw (operandOf_tracks hw l)) fun rhs q => ?_
    split
    · refine tracks_bind hw (tracks_run hw (.operands l) trivial) fun rest q => ?_
      exact tracks_pure (by simp [Rule.move, w.back_place])
    · exact tracks_pure (by simp [Rule.move, w.back_place])

theorem recovery_tracks (hw : w.Follows limit read) : Rule.recovery.Tracks w limit read p := by
  refine tracks_bind hw (tracks_run hw (.level .bitwise) trivial) fun first q => ?_
  cases first with
  | none => exact tracks_pure rfl
  | some first =>
    refine tracks_bind hw (tracks_run hw .handlers trivial) fun rest q => ?_
    refine tracks_pure (congrArg some (Tree.mapTokens_foldl ?_ rest first))
    simp

theorem payload_tracks (hw : w.Follows limit read) :
    Script.Tracks w limit read p (w.place p) payload payload id := by
  refine tracks_bind hw (tracks_accept (by decide)) fun found q => ?_
  cases found with
  | true =>
    refine tracks_bind hw (tracks_expect (by decide)) fun name q => ?_
    refine tracks_bind hw (tracks_expect (by decide)) fun _ q => ?_
    exact tracks_pure rfl
  | false => exact tracks_pure rfl

theorem handlers_tracks (hw : w.Follows limit read) : Rule.handlers.Tracks w limit read p := by
  refine tracks_bind hw tracks_here fun token q => ?_
  refine tracks_bind hw (tracks_accept (by decide)) fun found q => ?_
  cases found with
  | true =>
    refine tracks_bind hw (payload_tracks hw) fun name q => ?_
    refine tracks_bind hw (tracks_run hw (.block none) trivial) fun block q => ?_
    cases block with
    | some block =>
      refine tracks_bind hw (tracks_pure (g := (·.mapTokens w.back)) rfl) fun rhs q => ?_
      refine tracks_bind hw (tracks_run hw .handlers trivial) fun rest q => ?_
      exact tracks_pure rfl
    | none =>
      have hoperand := tracks_run hw (p := q) (.level .bitwise) trivial
      refine tracks_bind hw (tracks_require hw hoperand) fun rhs q => ?_
      refine tracks_bind hw (tracks_run hw .handlers trivial) fun rest q => ?_
      exact tracks_pure rfl
  | false => exact tracks_pure rfl

theorem elements_tracks (hw : w.Follows limit read) :
    Script.Tracks w limit read p (w.place p) elements elements
      (Option.map (·.mapTokens w.back)) := by
  refine tracks_bind hw tracks_here fun token q => ?_
  refine tracks_bind hw (tracks_accept (by decide)) fun found q => ?_
  cases found with
  | true =>
    refine tracks_bind hw (tracks_run hw (.listed .curly) trivial) fun items q => ?_
    exact tracks_pure (by simp [Rule.move])
  | false => exact tracks_pure rfl

theorem simple_tracks (hw : w.Follows limit read) :
    Script.Tracks w limit read p (w.place p) simple simple
      (Option.map (·.mapTokens w.back)) := by
  apply tracks_sight_bind
  simp only [Symbols.sight_kind]
  refine tracks_ite (w.kind_iff p (by decide)) (fun _ => elements_tracks hw) fun _ => ?_
  exact tracks_run hw .suffixed trivial

theorem unary_tracks (hw : w.Follows limit read) : Rule.unary.Tracks w limit read p := by
  apply tracks_sight_bind
  simp only [Symbols.sight_kind, Symbols.sight_position]
  rw [← w.ofKind?_eq p]
  split
  · rename_i op hop
    have hsame : w.Same p := w.same_of_not_respelled fun h => by
      rw [TokenKind.ofKind?_of_mem_respelled h] at hop
      cases hop
    have hne : (w.source.symbolAt p).kind ≠ .endOfFile := by
      rintro hk
      rw [hk] at hop
      cases hop
    refine tracks_bind hw (tracks_take (hsame.next_eq rfl hne)) fun _ q => ?_
    refine tracks_bind hw (tracks_deeper hw .operand trivial) fun inner q => ?_
    exact tracks_pure (by simp [Rule.move, w.back_place])
  · exact simple_tracks hw

theorem operand_tracks (hw : w.Follows limit read) : Rule.operand.Tracks w limit read p :=
  tracks_require hw (tracks_run hw .unary trivial)

theorem listed_tracks (hw : w.Follows limit read) (bracket : Bracket) :
    (Rule.listed bracket).Tracks w limit read p := by
  have hclosing : bracket.closing.Plain := by cases bracket <;> decide
  refine tracks_bind hw (tracks_accept hclosing) fun closed q => ?_
  cases closed with
  | true => exact tracks_pure rfl
  | false =>
    refine tracks_bind hw (tracks_require hw (expression_tracks hw)) fun item q => ?_
    refine tracks_bind hw (tracks_accept (by decide)) fun more q => ?_
    cases more with
    | true =>
      refine tracks_bind hw (tracks_run hw (.listed bracket) trivial) fun items q => ?_
      exact tracks_pure rfl
    | false =>
      refine tracks_bind hw (tracks_expect hclosing) fun _ q => ?_
      exact tracks_pure rfl

/-! ## Primaries -/

theorem functionValue_tracks (hw : w.Follows limit read) :
    Script.Tracks w limit read p (w.place p) functionValue functionValue
      (·.mapTokens w.back) := by
  refine tracks_bind hw tracks_here fun token q => ?_
  refine tracks_bind hw (tracks_run hw (.prototype false false) trivial) fun signature q => ?_
  refine tracks_bind hw (tracks_run hw (.block none) trivial) fun body q => ?_
  cases body with
  | some body => exact tracks_pure (by simp [Rule.move])
  | none => exact tracks_pure rfl

theorem primary_tracks (hw : w.Follows limit read) : Rule.primary.Tracks w limit read p := by
  apply tracks_sight_bind
  simp only [Symbols.sight_current, Symbols.sight_kind, Symbols.sight_position]
  rw [← w.leaf?_eq p]
  split
  · rename_i form hform
    have hsame : w.Same p := w.same_of_not_respelled fun h => by
      rw [Symbol.leaf?_of_mem_respelled h] at hform
      cases hform
    have hne := kind_ne_endOfFile_of_leaf hform
    refine tracks_bind hw (tracks_take (hsame.next_eq rfl hne)) fun _ q => ?_
    refine tracks_pure ?_
    simp only [Rule.move, Option.map_some, Tree.mapTokens_node, Symbol.leaf?_move hform,
      w.back_place]
  · rename_i hleaf
    split
    · rename_i hfunc
      rw [(w.kind_iff p (by decide)).mp hfunc]
      refine tracks_bind hw (functionValue_tracks hw) fun v q => ?_
      exact tracks_pure rfl
    · rename_i hmatch
      rw [(w.kind_iff p (by decide)).mp hmatch]
      refine tracks_bind hw (tracks_run hw .selection trivial) fun v q => ?_
      exact tracks_pure rfl
    · rename_i hparen
      rw [(w.kind_iff p (by decide)).mp hparen]
      refine tracks_bind hw (tracks_take_plain (by decide) hparen) fun _ q => ?_
      refine tracks_bind hw (tracks_require hw (expression_tracks hw)) fun inner q => ?_
      refine tracks_bind hw (tracks_expect (by decide)) fun _ q => ?_
      exact tracks_pure rfl
    · rename_i hfunc hmatch hparen
      rw [w.kind_iff p (by decide)] at hfunc hmatch hparen
      split
      · contradiction
      · contradiction
      · contradiction
      · exact tracks_pure rfl

theorem suffixed_tracks (hw : w.Follows limit read) : Rule.suffixed.Tracks w limit read p := by
  refine tracks_bind hw (tracks_run hw .primary trivial) fun first q => ?_
  cases first with
  | none => exact tracks_pure rfl
  | some first =>
    refine tracks_bind hw (tracks_run hw .suffixes trivial) fun rest q => ?_
    refine tracks_pure (congrArg some (Tree.mapTokens_foldl ?_ rest first))
    rintro t ⟨token, suffix⟩
    cases suffix <;> simp [Suffix.form, Suffix.move]

theorem sentinel_tracks (hw : w.Follows limit read) :
    Script.Tracks w limit read p (w.place p) sentinel sentinel
      (Option.map (·.mapTokens w.back)) := by
  refine tracks_bind hw (tracks_accept (by decide)) fun found q => ?_
  cases found with
  | true =>
    refine tracks_bind hw (tracks_require hw (expression_tracks hw)) fun value q => ?_
    exact tracks_pure rfl
  | false => exact tracks_pure rfl

theorem subscript_tracks (hw : w.Follows limit read) :
    Script.Tracks w limit read p (w.place p) subscript subscript (Suffix.move w.back) := by
  refine tracks_bind hw (tracks_require hw (expression_tracks hw)) fun start q => ?_
  refine tracks_bind hw (tracks_accept (by decide)) fun sliced q => ?_
  cases sliced with
  | true =>
    refine tracks_bind hw (tracks_require hw (expression_tracks hw)) fun stop q => ?_
    refine tracks_bind hw (sentinel_tracks hw) fun sentinel q => ?_
    refine tracks_bind hw (tracks_expect (by decide)) fun _ q => ?_
    exact tracks_pure rfl
  | false =>
    refine tracks_bind hw (tracks_expect (by decide)) fun _ q => ?_
    exact tracks_pure rfl

theorem suffixes_tracks (hw : w.Follows limit read) : Rule.suffixes.Tracks w limit read p := by
  apply tracks_sight_bind
  simp only [Symbols.sight_kind, Symbols.sight_position]
  split
  · rename_i hdot
    rw [(w.kind_iff p (by decide)).mp hdot]
    refine tracks_bind hw (tracks_take_plain (by decide) hdot) fun _ q => ?_
    refine tracks_bind hw (tracks_expect (by decide)) fun name q => ?_
    refine tracks_bind hw (tracks_run hw .suffixes trivial) fun rest q => ?_
    exact tracks_pure (by simp [Rule.move, Suffix.move, w.back_place])
  · rename_i hbracket
    rw [(w.kind_iff p (by decide)).mp hbracket]
    refine tracks_bind hw (tracks_take_plain (by decide) hbracket) fun _ q => ?_
    refine tracks_bind hw (subscript_tracks hw) fun suffix q => ?_
    refine tracks_bind hw (tracks_run hw .suffixes trivial) fun rest q => ?_
    exact tracks_pure (by simp [Rule.move, w.back_place])
  · rename_i hparen
    rw [(w.kind_iff p (by decide)).mp hparen]
    refine tracks_bind hw (tracks_take_plain (by decide) hparen) fun _ q => ?_
    refine tracks_bind hw (tracks_run hw (.listed .round) trivial) fun args q => ?_
    refine tracks_bind hw (tracks_run hw .suffixes trivial) fun rest q => ?_
    exact tracks_pure (by simp [Rule.move, Suffix.move, w.back_place])
  · rename_i hdot hbracket hparen
    rw [w.kind_iff p (by decide)] at hdot hbracket hparen
    split
    · contradiction
    · contradiction
    · contradiction
    · exact tracks_pure rfl

theorem arraySize_tracks (hw : w.Follows limit read) :
    Script.Tracks w limit read p (w.place p) arraySize arraySize
      (fun v => (v.1, v.2.map (·.mapTokens w.back))) := by
  apply tracks_sight_bind
  refine tracks_ite (w.kind_iff p (by decide)) (fun _ => tracks_pure rfl) fun _ => ?_
  refine tracks_ite (w.infersLength_iff p) (fun h => ?_) fun _ => ?_
  · have hname : (w.source.symbolAt p).kind = .identifier := by
      simp only [Sight.infersLength, Bool.and_eq_true, decide_eq_true_eq] at h
      exact h.1.1
    exact tracks_bind hw (tracks_take_plain (by decide) hname) fun _ _ => tracks_pure rfl
  · refine tracks_bind hw (tracks_require hw (expression_tracks hw)) fun size q => ?_
    exact tracks_pure rfl

theorem type_tracks (hw : w.Follows limit read) : Rule.type.Tracks w limit read p := by
  refine tracks_bind hw tracks_here fun token q => ?_
  refine tracks_bind hw (tracks_accept (by decide)) fun isOptional q => ?_
  cases isOptional with
  | true =>
    refine tracks_bind hw (tracks_deeper hw .innerType trivial) fun child q => ?_
    exact tracks_pure (by simp [Rule.move])
  | false =>
    refine tracks_bind hw (tracks_accept (by decide)) fun isArray q => ?_
    cases isArray with
    | true =>
      refine tracks_bind hw (arraySize_tracks hw) fun v q => ?_
      refine tracks_bind hw (sentinel_tracks hw) fun sentinel q => ?_
      refine tracks_bind hw (tracks_expect (by decide)) fun _ q => ?_
      refine tracks_bind hw (tracks_deeper hw .innerType trivial) fun element q => ?_
      exact tracks_pure (by simp [Rule.move])
    | false => exact tracks_run hw .suffixed trivial

theorem innerType_tracks (hw : w.Follows limit read) : Rule.innerType.Tracks w limit read p :=
  tracks_require hw (tracks_run hw .type trivial)

end FrontEnd.Grammar
