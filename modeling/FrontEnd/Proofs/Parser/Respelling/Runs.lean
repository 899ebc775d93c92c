import FrontEnd.Proofs.Parser.Respelling.Statements

/-!
What the source reads is read from the respelled source. A loop with a condition alone may
begin with either word, since an expression in parentheses begins as none of the other heads
of a loop. By the budget of the run in the source every rule is then followed in the other one.
-/

namespace FrontEnd

namespace Grammar

open Script

/-! ## Loops with a condition -/

section Heads

variable {symbols : Symbols} {limit d p q : Nat} {x : Tree}

/-- What stands in parentheses and is read as an expression is not two names in a row, nor a
name with `in` behind it, and begins no declaration. -/
theorem opens_nothing_of_enclosed
    (h : Rule.eval symbols limit .expression ⟨p, d⟩ = .read (some x) ⟨q, d⟩)
    (hclose : (symbols.symbolAt q).kind = .rightParen) :
    (symbols.symbolAt p).kind ∉ .semicolon :: TokenKind.variableOpeners ∧
      ((symbols.symbolAt p).kind = .identifier →
        (symbols.symbolAt (p + 1)).kind ∉ [TokenKind.identifier, .kwIn]) := by
  constructor
  · have hbegins : (symbols.symbolAt p).kind.beginsExpression = true :=
      Rule.begins_of_eval h rfl
    revert hbegins
    generalize (symbols.symbolAt p).kind = kind
    intro hbegins hmem
    simp only [TokenKind.variableOpeners, List.mem_cons, List.not_mem_nil, or_false] at hmem
    rcases hmem with rfl | rfl | rfl | rfl | rfl | rfl <;> cases hbegins
  · intro hname hnext
    have hplain : (symbols.symbolAt (p + 1)).kind.tightness = 8 ∧
        (symbols.symbolAt (p + 1)).kind ∉ TokenKind.suffixes ∧
        (symbols.symbolAt (p + 1)).kind ≠ .rightParen := by
      revert hnext
      generalize (symbols.symbolAt (p + 1)).kind = kind
      intro hnext
      simp only [List.mem_cons, List.not_mem_nil, or_false] at hnext
      rcases hnext with rfl | rfl <;> decide
    have hobtains : Rule.expression.Obtains symbols limit False d p
        (some (.node p (.identifier (symbols.symbolAt p).text))) (p + 1) :=
      name_obtained (by rw [Symbol.name, ← hname]) hplain.1 hplain.2.1
    have hread := hobtains.eval_eq id
    rw [h] at hread
    cases hread
    exact hplain.2.2 hclose

/-- What is read as an expression up to a closing parenthesis is so read by the rule. -/
theorem enclosed_ensures {α : Type} {f : Tree → String → Script α} {Q : α → Nat → Prop}
    (h : ∀ x q, Rule.eval symbols limit .expression ⟨p, d + 1⟩ = .read (some x) ⟨q, d + 1⟩ →
      (symbols.symbolAt q).kind = .rightParen → (f x (symbols.symbolAt q).text).Ensures
        (.exact symbols limit) symbols limit d (symbols.next q) Q) :
    (require .expression expression >>= fun x => expect .rightParen >>= f x).Ensures
      (.exact symbols limit) symbols limit d p Q := by
  have hread : (require .expression expression).Ensures (.exact symbols limit) symbols limit d p
      fun x q => Rule.eval symbols limit .expression ⟨p, d + 1⟩ = .read (some x) ⟨q, d + 1⟩ := by
    refine Ensures.require fun _ => ⟨trivial, fun v q hv x hx => ?_⟩
    cases hx
    exact hv
  exact hread.bind fun x q hx => Ensures.expect_bind fun hclose => h x q hx hclose

end Heads

variable {w : Respelling} {limit p : Nat} {read : (r : Rule) → ParseState → Outcome r.Result}

/-- Where nothing is read in the source, nothing is asked where `while` is spelled `for`. -/
theorem tracks_of_looped {α β : Type} {p' : Nat} {x : Script α} {y : Script β} {g : β → α}
    (hw : w.Follows limit read) (h : ∃ p, w.Looped p)
    (hx : ∀ d, x.Ensures (.exact w.source limit) w.source limit d p fun _ _ => False) :
    Script.Tracks w limit read p p' x y g := by
  intro d d' _
  rcases hw.unread (hx d) with ⟨cause, s, hs⟩ | hs
  · rw [hs]
    exact .loose h
  · rw [hs]
    exact .exhausted

/-- A condition is read as the first part of the head of a loop, which ends with it. -/
theorem headed_tracks_plain (hw : w.Follows limit read) (hlooped : ∃ p, w.Looped p)
    (hopens : (w.source.symbolAt p).kind ∉ .semicolon :: TokenKind.variableOpeners)
    (hname : (w.source.symbolAt p).kind = .identifier →
      (w.source.symbolAt (p + 1)).kind ∉ [TokenKind.identifier, .kwIn])
    (token : Nat) (label : Option String) :
    Script.Tracks w limit read p (w.place p)
      (require .expression expression >>= fun x => expect .rightParen >>= fun _ =>
        requiredBlock >>= fun body => pure (.node (w.back token) (.loop label (some x) body)))
      (headed token label) (·.mapTokens w.back) := by
  rw [w.mem_iff p (by decide)] at hopens
  have hname' : (w.target.symbolAt (w.place p)).kind = .identifier →
      (w.target.symbolAt (w.place p + 1)).kind ∉ [TokenKind.identifier, .kwIn] := by
    intro hk
    have hk' := (w.kind_iff p (by decide)).mpr hk
    rw [← (w.same_of_kind (by decide) hk').place_succ, ← w.mem_iff (p + 1) (by decide)]
    exact hname hk'
  simp only [List.mem_cons, List.not_mem_nil, or_false, not_or] at hopens hname'
  have hin : ¬((w.target.sight (w.place p)).kind = .identifier &&
      (w.target.sight (w.place p)).next = .kwIn : Bool) = true := by
    simp only [Bool.and_eq_true, decide_eq_true_eq]
    exact fun h => (hname' h.1).2 h.2
  apply tracks_sight_target
  rw [if_neg hin]
  -- The other heads of a loop are tried and not found: no declaration, no semicolon.
  refine tracks_of_eval_eq (fun d => eval_bind_of
    (variableIfAny_none hopens.2 fun hk => (hname' hk).1)) ?_
  refine tracks_of_eval_eq (fun d => eval_bind_of (eval_accept_of_ne hopens.1)) ?_
  simp only [require_bind]
  -- What is left is an assignment, whose first operand is the condition of the source.
  refine tracks_of_eval_eq (fun d => eval_bind_congr ((eval_run _).trans (Rule.eval_eq ..))) ?_
  simp only [Rule.script, level, bind_bind]
  refine tracks_bind hw (expression_tracks hw) fun x q => ?_
  cases x with
  | none => exact tracks_failing
  | some x =>
    by_cases hclose : (w.source.symbolAt q).kind = .rightParen
    · have hclose' := (w.kind_iff q (by decide)).mp hclose
      have hop : Level.operator? .assignment (w.target.symbolAt (w.place q)).kind = none :=
        hclose' ▸ rfl
      have hsemicolon : (w.target.symbolAt (w.place q)).kind ≠ .semicolon := hclose' ▸ by decide
      simp only [Option.map_some, bind_bind]
      refine tracks_of_eval_eq (fun d => eval_bind_of ((eval_run _).trans (operands_stop hop))) ?_
      refine tracks_of_eval_eq (fun d => eval_bind_of (eval_pure _)) ?_
      refine tracks_of_eval_eq (fun d => eval_bind_of (eval_accept_of_ne hsemicolon)) ?_
      refine tracks_bind hw (tracks_expect (by decide)) fun _ q => ?_
      refine tracks_bind hw (requiredBlock_tracks hw) fun body q => ?_
      exact tracks_pure (by simp)
    · refine tracks_of_looped hw hlooped fun d => ?_
      exact Ensures.expect_bind fun hk => absurd hk hclose

theorem headed_tracks_condition (hw : w.Follows limit read) (hlooped : ∃ p, w.Looped p)
    (token : Nat) (label : Option String) :
    Script.Tracks w limit read p (w.place p)
      (require .expression expression >>= fun x => expect .rightParen >>= fun _ =>
        requiredBlock >>= fun body => pure (.node (w.back token) (.loop label (some x) body)))
      (headed token label) (·.mapTokens w.back) := by
  by_cases hopens : (w.source.symbolAt p).kind ∉ .semicolon :: TokenKind.variableOpeners ∧
      ((w.source.symbolAt p).kind = .identifier →
        (w.source.symbolAt (p + 1)).kind ∉ [TokenKind.identifier, .kwIn])
  · exact headed_tracks_plain hw hlooped hopens.1 hopens.2 token label
  · refine tracks_of_looped hw hlooped fun d => enclosed_ensures fun x q hx hclose => ?_
    exact absurd (opens_nothing_of_enclosed hx hclose) hopens

theorem tracks_expect_looped (h : w.Looped p) :
    Script.Tracks w limit read p (w.place p) (expect .kwWhile) (expect .kwFor)
      (fun _ => (w.source.symbolAt p).text) := by
  have hnext : w.target.next (w.place p) = w.place (w.source.next p) := by
    rw [Symbols.next_of_kind h.source (by decide), Symbols.next_of_kind h.target (by decide),
      h.place_succ]
  apply tracks_look
  simp only [Symbols.sight_kind, h.source, h.target, if_true]
  exact tracks_take_of hnext (tracks_pure rfl)

theorem loop_tracks_looped (hw : w.Follows limit read) (label : Option String) (h : w.Looped p) :
    Script.Tracks w limit read p (w.place p) (whileLoop label) (loop label)
      (·.mapTokens w.back) := by
  apply tracks_here_bind
  refine tracks_bind hw (tracks_expect_looped h) fun _ q => ?_
  by_cases hopen : (w.source.symbolAt q).kind = .leftParen
  · have hopen' := (w.kind_iff q (by decide)).mp hopen
    have hbrace : (w.target.symbolAt (w.place q)).kind ≠ .leftBrace := hopen' ▸ by decide
    refine tracks_of_eval_eq (fun d => eval_bind_of (block_none hbrace)) ?_
    simp only [condition, bind_bind]
    refine tracks_bind hw (tracks_expect (by decide)) fun _ q => ?_
    exact headed_tracks_condition hw ⟨p, h⟩ (w.place p) label
  · refine tracks_of_looped hw ⟨p, h⟩ fun d => ?_
    simp only [condition, bind_bind]
    exact Ensures.expect_bind fun hk => absurd hk hopen

end Grammar

/-! ## All rules -/

section Rules

variable {w : Respelling} {limit p d d' : Nat} {read : (r : Rule) → ParseState → Outcome r.Result}

open Grammar in
theorem Rule.tracks (hw : w.Follows limit read) {r : Rule} (hr : w.Admits r p) :
    r.Tracks w limit read p := by
  cases r with
  | unit => exact unit_tracks hw
  | statement => exact statement_tracks hw
  | labelled => exact labelled_tracks hw
  | function => exact function_tracks hw
  | prototype isExport isExtern => exact prototype_tracks hw isExport isExtern
  | params => exact params_tracks hw
  | record => exact record_tracks hw
  | fields => exact fields_tracks hw
  | enumeration => exact enumeration_tracks hw
  | variants => exact variants_tracks hw
  | declaration => exact declaration_tracks hw
  | modifiers => exact modifiers_tracks hw
  | block label => exact block_tracks hw label
  | statements => exact statements_tracks hw
  | body => exact body_tracks hw
  | conditional => exact conditional_tracks hw hr
  | loop label => exact loop_tracks hw label hr
  | whileLoop label => exact whileLoop_tracks hw label hr
  | selection => exact selection_tracks hw
  | branches => exact branches_tracks hw
  | branch => exact branch_tracks hw
  | items => exact items_tracks hw
  | expression => exact attempted_tracks hw
  | attempts => exact attempts_tracks hw
  | level l => exact level_tracks hw l
  | operands l => exact operands_tracks hw l
  | recovery => exact recovery_tracks hw
  | handlers => exact handlers_tracks hw
  | unary => exact unary_tracks hw
  | operand => exact operand_tracks hw
  | suffixed => exact suffixed_tracks hw
  | suffixes => exact suffixes_tracks hw
  | listed bracket => exact listed_tracks hw bracket
  | primary => exact primary_tracks hw
  | type => exact type_tracks hw
  | innerType => exact innerType_tracks hw

/-- With every budget the runs in the source are followed, by induction on the budget. -/
theorem Respelling.follows (w : Respelling) (limit budget : Nat) :
    w.Follows limit (Rule.exec w.source limit budget) := by
  induction budget with
  | zero =>
    refine ⟨fun h => Rule.eval_of_exec h, Rule.exec_keeps w.source limit 0, ?_, ?_, ?_⟩
    · exact fun _ _ _ _ _ _ => .exhausted
    · exact fun _ _ => .exhausted
    · exact fun _ _ _ _ _ _ => .exhausted
  | succ budget ih =>
    refine ⟨fun h => Rule.eval_of_exec h, Rule.exec_keeps w.source limit (budget + 1), ?_, ?_, ?_⟩
    · intro r p d d' hr hd
      rw [Rule.eval_eq]
      exact Rule.tracks ih hr d d' hd
    · intro p d d' h hd
      rw [Rule.eval_eq]
      exact Grammar.conditional_tracks_unfolded ih h d d' hd
    · intro label p d d' h hd
      rw [Rule.eval_eq]
      exact Grammar.loop_tracks_looped ih label h d d' hd

theorem Respelling.matches_unit (w : Respelling) (limit p d : Nat) :
    w.Matches limit (Rule.unit.move w.back) d d (Rule.eval w.source limit .unit ⟨p, d⟩)
      (Rule.eval w.target limit .unit ⟨w.place p, d⟩) :=
  (w.follows limit (budget w.source)).rule .unit trivial (.inl rfl)

/-- What is read in the source is read in the other one, unless it is too deeply nested there. -/
theorem Respelling.unit_of_source {items : List Tree} {q : Nat}
    (h : Rule.eval w.source limit .unit ⟨p, d⟩ = .read items ⟨q, d⟩) :
    (∃ items', Rule.eval w.target limit .unit ⟨w.place p, d⟩ = .read items' ⟨w.place q, d⟩ ∧
        items'.map (·.mapTokens w.back) = items) ∨
      (∃ p, w.Unfolded p) ∧ ∃ t,
        Rule.eval w.target limit .unit ⟨w.place p, d⟩ = .failed (.nestedTooDeeply limit) t := by
  have hmatches := w.matches_unit limit p d
  rw [h] at hmatches
  generalize ho : Rule.eval w.target limit .unit ⟨w.place p, d⟩ = o at hmatches
  cases hmatches with
  | read hitems => exact .inl ⟨_, rfl, hitems⟩
  | nested hunfolded => exact .inr ⟨hunfolded, _, rfl⟩

/-- What is read in the other source is read in the source, unless loops differ. -/
theorem Respelling.unit_of_target (hw : ¬∃ p, w.Looped p) {items : List Tree} {t : ParseState}
    (h : Rule.eval w.target limit .unit ⟨w.place p, d⟩ = .read items t) :
    ∃ q, Rule.eval w.source limit .unit ⟨p, d⟩ =
      .read (items.map (·.mapTokens w.back)) ⟨q, d⟩ := by
  have hmatches := w.matches_unit limit p d
  have hne := Rule.eval_ne_exhausted w.source limit .unit ⟨p, d⟩
  rw [h] at hmatches
  generalize ho : Rule.eval w.source limit .unit ⟨p, d⟩ = o at hmatches hne
  cases hmatches with
  | read hitems =>
    subst hitems
    exact ⟨_, rfl⟩
  | loose hlooped => exact absurd hlooped hw
  | exhausted => exact absurd rfl hne

end Rules

end FrontEnd
