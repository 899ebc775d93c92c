import FrontEnd.Proofs.Parser.Indices
import FrontEnd.Proofs.Parser.Shapes.Statements
import FrontEnd.Proofs.Tree.Paths

/-!
How deep constructs nest in the tree of a source. Whatever is read one level further in
costs a level, so a construct whose parts are all read so, or bear none of its kind, is on
a path no more often than there are levels. The types of functions and the branches that
`elseif` opens are read on the same level and escape the limit.
-/

namespace FrontEnd

/-- Constructs that may stand inside each other. -/
inductive Construct where
  | block | conditional | prototype | selection | elements | operator | typeMark
  deriving DecidableEq, Repr

/-- Whether the layer is of the construct. `try` is no operator here. -/
def Construct.holds {T : Type} : Construct → Form T → Bool
  | .block, .block _ _ => true
  | .conditional, .conditional _ _ _ => true
  | .prototype, .prototype _ _ _ _ _ => true
  | .selection, .selection _ _ => true
  | .elements, .elements _ => true
  | .operator, .unary op _ => op != .attempt
  | .typeMark, .optional _ => true
  | .typeMark, .array _ _ _ _ => true
  | _, _ => false

theorem Construct.holds_mapTokens {T : Type} (k : Construct) (g : Nat → Nat) (form : Form T) :
    k.holds (form.mapTokens g) = k.holds form := by
  cases form <;> simp [Form.mapTokens] <;> cases k <;> rfl

/-- Counts the layers of the construct at the anchors. -/
def Construct.counts (k : Construct) (anchors : Nat → Bool) (x : Nat × Form Unit) : Bool :=
  k.holds x.2 && anchors x.1

/-- By how much a tree of the category, read where no level is left, may exceed the limit. -/
def Category.slack (k : Construct) : Category → Nat
  | .deeper _ | .assignment => 0
  | .block _ | .body => if k = .block then 1 else 0
  | .conditional opener => if k = .conditional ∧ opener = .kwElseIf then 0 else 1
  | _ => 1

section Nesting

variable {symbols : Symbols} {limit depth : Nat} {k : Construct} {anchors : Nat → Bool}

theorem nesting_le_of_deeper {token : Nat} {form : Form Tree} (hd : depth ≤ limit)
    (h : ∀ t ∈ form.children, t.nesting (k.counts anchors) + depth ≤ limit) :
    (Tree.node token form).nesting (k.counts anchors) + depth ≤ limit + 1 := by
  have hle := Tree.nesting_le token hd h
  have hone : (k.counts anchors (token, form.bare)).toNat ≤ 1 := Bool.toNat_le _
  omega

theorem nesting_le_of_other {token n : Nat} {form : Form Tree} (hd : depth ≤ n)
    (hk : k.holds form.bare = false)
    (h : ∀ t ∈ form.children, t.nesting (k.counts anchors) + depth ≤ n) :
    (Tree.node token form).nesting (k.counts anchors) + depth ≤ n := by
  have hle := Tree.nesting_le token hd h
  rw [Construct.counts, hk] at hle
  exact hle

theorem Category.slack_le_one (k : Construct) (c : Category) : c.slack k ≤ 1 := by
  unfold slack
  split <;> first | split <;> omega | omega

theorem Category.slack_body_le (k : Construct) {opener : TokenKind} :
    Category.body.slack k ≤ (Category.conditional opener).slack k := by
  unfold slack
  split <;> split <;> simp_all

/-- A block is the only construct of which a body may have one more. -/
theorem nesting_le_of_block {token : Nat} {label : Option String} {statements : List Tree}
    (hd : depth ≤ limit)
    (h : ∀ t ∈ statements, t.nesting (k.counts anchors) + depth ≤ limit) :
    (Tree.node token (.block label statements)).nesting (k.counts anchors) + depth ≤
      limit + Category.body.slack k := by
  by_cases hk : k = .block
  · rw [Category.slack, if_pos hk]
    exact nesting_le_of_deeper hd h
  · rw [Category.slack, if_neg hk]
    exact nesting_le_of_other hd (by cases k <;> first | rfl | exact absurd rfl hk) h

theorem nesting_le_of_selection {token : Nat} {subject : Tree} {branches : List (MatchBranch Tree)}
    (hd : depth ≤ limit)
    (h : ∀ t ∈ (Form.selection subject branches).children,
      t.nesting (k.counts anchors) + depth ≤ limit + Category.body.slack k) :
    (Tree.node token (.selection subject branches)).nesting (k.counts anchors) + depth ≤
      limit + 1 := by
  by_cases hk : k = .block
  · rw [Category.slack, if_pos hk] at h
    exact nesting_le_of_other (Nat.le_succ_of_le hd) (by rw [hk]; rfl) h
  · rw [Category.slack, if_neg hk] at h
    exact nesting_le_of_deeper hd h

/-- A conditional that `elseif` opens is not counted, for it stands on the level of the one
before it. -/
theorem nesting_le_of_conditional {token : Nat} {opener : TokenKind} {condition thenBody : Tree}
    {elseBody : Option Tree}
    (hanchors : k = .conditional → ∀ i, anchors i = true → (symbols.symbolAt i).kind ≠ .kwElseIf)
    (hopener : (symbols.symbolAt token).kind = opener) (hd : depth ≤ limit)
    (h : ∀ t ∈ (Form.conditional condition thenBody elseBody).children,
      t.nesting (k.counts anchors) + depth ≤ limit + (Category.conditional .kwElseIf).slack k) :
    (Tree.node token (.conditional condition thenBody elseBody)).nesting (k.counts anchors) +
      depth ≤ limit + (Category.conditional opener).slack k := by
  simp only [Category.slack, and_true] at h ⊢
  by_cases hk : k = .conditional
  · simp only [hk, if_true, true_and] at h hanchors ⊢
    split
    · rename_i helse
      have hcount : anchors token = false := by
        cases ha : anchors token with
        | false => rfl
        | true => exact absurd (hopener.trans helse) (hanchors trivial token ha)
      have hle := Tree.nesting_le token hd h
      rw [Construct.counts, hcount, Bool.and_false] at hle
      exact hle
    · exact nesting_le_of_deeper hd h
  · simp only [hk, if_false, false_and] at h ⊢
    exact nesting_le_of_other (Nat.le_succ_of_le hd)
      (by cases k <;> first | rfl | exact absurd rfl hk) h

theorem Symbol.children_of_leaf {s : Symbol} {form : Form Tree} (h : s.leaf? = some form) :
    form.children = [] := by
  unfold leaf? at h
  split at h <;> cases h <;> rfl

/-- Every rule of shapes keeps the count within the levels that are left. -/
theorem Shaped.nesting_le {c : Category} {t : Tree} (hk : k ≠ .prototype)
    (hanchors : k = .conditional → ∀ i, anchors i = true → (symbols.symbolAt i).kind ≠ .kwElseIf)
    (h : Shaped symbols limit c depth t) (hd : depth ≤ limit) :
    t.nesting (k.counts anchors) + depth ≤ limit + c.slack k := by
  have hwide {n : Nat} {c : Category} (h : n ≤ limit + c.slack k) : n ≤ limit + 1 := by
    have hslack := c.slack_le_one k
    omega
  have hother {depth token : Nat} {form : Form Tree} (hd : depth ≤ limit)
      (hk : k.holds form.bare = false)
      (h : ∀ t ∈ form.children, t.nesting (k.counts anchors) + depth ≤ limit + 1) :
      (Tree.node token form).nesting (k.counts anchors) + depth ≤ limit + 1 :=
    nesting_le_of_other (Nat.le_succ_of_le hd) hk h
  induction h with
  | deeper hlt h ih => exact Nat.le_of_succ_le_succ (hwide (ih hlt))
  | leaf h =>
    refine nesting_le_of_deeper hd fun t ht => ?_
    rw [Symbol.children_of_leaf h] at ht
    cases ht
  | enclosed h ih | unmarked h ih | marked h ih | signature h ih | declared h ih
  | declaredSignature _ h ih | labelled h ih | conditional h ih | declares h ih | assigns h ih
  | performed h ih | selected h ih => exact hwide (ih hd)
  | unassigned h ih | bodyBlock h ih => exact ih hd
  | bodyAssignment h ih => exact Nat.le_trans (ih hd) (Nat.le_add_right limit _)
  -- layers that are of no construct, or of one that is not counted
  | function ht hbody iht ihbody =>
    refine hother hd (by cases k <;> rfl) ?_
    simpa [Form.children] using ⟨hwide (iht hd), hwide (ihbody hd)⟩
  | access h ih =>
    refine hother hd (by cases k <;> rfl) ?_
    simpa [Form.children] using hwide (ih hd)
  | index h hp ih ihp =>
    refine hother hd (by cases k <;> rfl) ?_
    simpa [Form.children] using ⟨hwide (ih hd), hwide (ihp hd)⟩
  | slice h hstart hstop hsentinel ih ihstart ihstop ihsentinel =>
    refine hother hd (by cases k <;> rfl) ?_
    simpa [Form.children] using ⟨hwide (ih hd), hwide (ihstart hd), hwide (ihstop hd),
      fun t ht => hwide (ihsentinel t ht hd)⟩
  | call h hargs ih ihargs =>
    refine hother hd (by cases k <;> rfl) ?_
    simpa [Form.children] using ⟨hwide (ih hd), fun t ht => hwide (ihargs t ht hd)⟩
  | attempt h ih =>
    refine hother hd (by cases k <;> rfl) ?_
    simpa [Form.children] using hwide (ih hd)
  | recovery hl hr ihl ihr | recoveryBlock hl hr ihl ihr | binary _ _ hl hr ihl ihr =>
    refine hother hd (by cases k <;> rfl) ?_
    simpa [Form.children] using ⟨hwide (ihl hd), hwide (ihr hd)⟩
  | assignment hop hl hr ihl ihr =>
    refine nesting_le_of_other hd (by cases k <;> rfl) ?_
    simpa [Form.children] using ⟨ihl hd, ihr hd⟩
  | prototype hparams hlast hresult ihparams ihresult =>
    refine hother hd (by cases k <;> first | rfl | exact absurd rfl hk) fun t ht => ?_
    rcases List.mem_append.mp ht with ht | ht
    · obtain ⟨p, hp, rfl⟩ := List.mem_map.mp ht
      exact hwide (ihparams p hp hd)
    · obtain rfl := List.mem_singleton.mp ht
      exact hwide (ihresult hd)
  | field htype hdefault ihtype ihdefault =>
    refine hother hd (by cases k <;> rfl) ?_
    simpa [Form.children] using ⟨hwide (ihtype hd), fun t ht => hwide (ihdefault t ht hd)⟩
  | flagged _ _ htype hinit ihtype ihinit =>
    refine hother hd (by cases k <;> rfl) fun t ht => ?_
    rcases List.mem_append.mp ht with ht | ht
    · exact hwide (ihtype t (Option.mem_toList.mp ht) hd)
    · exact hwide (ihinit t (Option.mem_toList.mp ht) hd)
  | typed htype hinit ihtype ihinit | named htype hinit ihtype ihinit =>
    refine hother hd (by cases k <;> rfl) ?_
    simpa [Form.children] using ⟨hwide (ihtype hd), fun t ht => hwide (ihinit t ht hd)⟩
  | declaredFunction _ ht hbody iht ihbody =>
    refine hother hd (by cases k <;> rfl) ?_
    simpa [Form.children] using ⟨hwide (iht hd), hwide (ihbody hd)⟩
  | record h ih => exact hother hd (by cases k <;> rfl) fun t ht => hwide (ih t ht hd)
  | enumeration _ h ih =>
    refine hother hd (by cases k <;> rfl) fun t ht => ?_
    obtain ⟨v, hv, ht⟩ := List.mem_flatMap.mp ht
    exact hwide (ih v hv t (Option.mem_toList.mp ht) hd)
  | whileLoop hcondition hbody ihcondition ihbody =>
    refine hother hd (by cases k <;> rfl) ?_
    simpa [Form.children] using ⟨hwide (ihcondition hd), hwide (ihbody hd)⟩
  | loop _ hcondition hbody ihcondition ihbody =>
    refine hother hd (by cases k <;> rfl) fun t ht => ?_
    rcases List.mem_append.mp ht with ht | ht
    · exact hwide (ihcondition t (Option.mem_toList.mp ht) hd)
    · obtain rfl := List.mem_singleton.mp ht
      exact hwide (ihbody hd)
  | steppedLoop hinit hcondition hstep hbody ihinit ihcondition ihstep ihbody =>
    refine hother hd (by cases k <;> rfl) fun t ht => ?_
    simp only [Form.children, List.append_assoc, List.mem_append, Option.mem_toList,
      List.mem_singleton] at ht
    rcases ht with ht | ht | ht | rfl
    · exact hwide (ihinit t ht hd)
    · exact hwide (ihcondition t ht hd)
    · exact hwide (ihstep t ht hd)
    · exact hwide (ihbody hd)
  | eachLoop hiterable hbody ihiterable ihbody =>
    refine hother hd (by cases k <;> rfl) ?_
    simpa [Form.children] using ⟨hwide (ihiterable hd), hwide (ihbody hd)⟩
  | deferral h ih =>
    refine hother hd (by cases k <;> rfl) ?_
    simpa [Form.children] using hwide (ih hd)
  | breaking h ih | returning h ih =>
    refine hother hd (by cases k <;> rfl) fun t ht => ?_
    exact hwide (ih t (Option.mem_toList.mp ht) hd)
  | continuing => exact hother hd (by cases k <;> rfl) (List.forall_mem_nil _)
  | raising h ih =>
    refine hother hd (by cases k <;> rfl) ?_
    simpa [Form.children] using hwide (ih hd)
  -- layers whose parts are all read one level further in
  | elements h ih => exact nesting_le_of_deeper hd fun t ht => ih t ht hd
  | unary h ih | optional h ih | slices h ih =>
    exact nesting_le_of_deeper hd (List.forall_mem_singleton.mpr (ih hd))
  | inferred hsentinel h ihsentinel ih =>
    refine nesting_le_of_deeper hd fun t ht => ?_
    simp only [Form.children, Option.toList_none, List.nil_append, List.mem_append,
      Option.mem_toList, List.mem_singleton] at ht
    rcases ht with ht | rfl
    · exact ihsentinel t ht hd
    · exact ih hd
  | sized hsize hsentinel h ihsize ihsentinel ih =>
    refine nesting_le_of_deeper hd fun t ht => ?_
    simp only [Form.children, Option.toList_some, List.mem_append, Option.mem_toList,
      List.mem_singleton] at ht
    rcases ht with (rfl | ht) | rfl
    · exact ihsize hd
    · exact ihsentinel t ht hd
    · exact ih hd
  -- layers with a body that is read on the same level
  | block h ih => exact nesting_le_of_block hd fun t ht => ih t ht hd
  | selection hsubject _ hitems hbodies ihsubject ihitems ihbodies =>
    refine nesting_le_of_selection hd fun t ht => ?_
    simp only [Form.children, List.mem_cons, List.mem_flatMap, MatchBranch.children,
      List.mem_append, List.not_mem_nil, or_false] at ht
    rcases ht with rfl | ⟨b, hb, ⟨i, hi, ht⟩ | rfl⟩
    · exact Nat.le_trans (ihsubject hd) (Nat.le_add_right limit _)
    · exact Nat.le_trans (ihitems b hb i hi t ht hd) (Nat.le_add_right limit _)
    · exact ihbodies b hb hd
  | branch hopener hcondition hthen helse ihcondition ihthen ihelse =>
    refine nesting_le_of_conditional hanchors hopener hd fun t ht => ?_
    simp only [Form.children, List.mem_append, List.mem_cons, List.not_mem_nil, or_false,
      Option.mem_toList] at ht
    rcases ht with (rfl | rfl) | ht
    · exact Nat.le_trans (ihcondition hd) (Nat.le_add_right limit _)
    · exact Nat.le_trans (ihthen hd) (Nat.add_le_add_left (Category.slack_body_le k) limit)
    · exact Nat.le_trans (ihelse t ht hd) (Nat.le_add_right limit _)
  | chain hopener hcondition hthen helse ihcondition ihthen ihelse =>
    refine nesting_le_of_conditional hanchors hopener hd fun t ht => ?_
    simp only [Form.children, List.mem_append, List.mem_cons, List.not_mem_nil, or_false,
      Option.mem_toList, Option.some.injEq] at ht
    rcases ht with (rfl | rfl) | rfl
    · exact Nat.le_trans (ihcondition hd) (Nat.le_add_right limit _)
    · exact Nat.le_trans (ihthen hd) (Nat.add_le_add_left (Category.slack_body_le k) limit)
    · exact ihelse hd

end Nesting

/-! ## The trees of sources -/

namespace TokenStream

/-- The kind of the token at an index. -/
def kindAt (s : TokenStream) (i : Nat) : TokenKind := (s.body[i]?.map (·.kind)).getD .endOfFile

/-- The anchor of a position has the kind of the symbol that stands there. -/
theorem kindAt_tokenAt (s : TokenStream) (i : Nat) :
    s.kindAt ((Cursor.start s).tokenAt i).2 = (s.symbols.symbolAt i).kind := by
  unfold kindAt Cursor.tokenAt symbols Symbols.symbolAt
  rw [List.getElem?_toArray, List.getElem?_map]
  cases h : s.significant[i]? with
  | none => simp [h, Cursor.start, Symbol.last]
  | some x =>
    obtain ⟨t, j⟩ := x
    simp [h, Cursor.start, (getElem?_of_significant h).1, Token.symbol]

end TokenStream

/-- No path of the tree of a source bears more of a construct than there are levels. Types of
functions are left out, and conditionals that `elseif` opens are not counted. -/
theorem parse_nesting {s : TokenStream} {root : Tree} {path : List (Nat × Form Unit)}
    (h : parse s = .ok root) (hpath : root.Path path) :
    (∀ k ∈ [Construct.block, .selection, .elements, .operator, .typeMark],
      path.countP (fun x => k.holds x.2) ≤ nestingLimit) ∧
      path.countP (fun x => Construct.conditional.holds x.2 && s.kindAt x.1 != .kwElseIf) ≤
        nestingLimit := by
  obtain ⟨items, q, hunit, rfl⟩ := TokenStream.eval_of_parse h
  have hitems := Rule.shapes_of_eval hunit
  have hroot {k : Construct} (hk : k ≠ .prototype) {anchors : Nat → Bool}
      (hanchors : k = .conditional → ∀ i, anchors i = true → s.kindAt i ≠ .kwElseIf) :
      path.countP (k.counts anchors) ≤ nestingLimit := by
    refine Nat.le_trans hpath.countP_le ?_
    rw [Tree.nesting_mapTokens]
    have hmoved : (fun x : Nat × Form Unit => k.counts anchors
        (((Cursor.start s).tokenAt x.1).2, x.2.mapTokens fun i => ((Cursor.start s).tokenAt i).2)) =
        k.counts fun i => anchors ((Cursor.start s).tokenAt i).2 := by
      funext x
      rw [Construct.counts, Construct.holds_mapTokens]
      rfl
    rw [hmoved]
    refine nesting_le_of_other (Nat.zero_le _) (by cases k <;> rfl) fun t ht => ?_
    refine (hitems t ht).nesting_le hk (fun hconditional i hi => ?_) (Nat.zero_le _)
    rw [← TokenStream.kindAt_tokenAt]
    exact hanchors hconditional _ hi
  constructor
  · intro k hk
    have hcount := @hroot k (by rintro rfl; simp at hk) (fun _ => true) (by rintro rfl; simp at hk)
    have hall : k.counts (fun _ => true) = fun x => k.holds x.2 := by
      funext x
      exact Bool.and_true _
    rwa [hall] at hcount
  · refine @hroot .conditional nofun (fun i => s.kindAt i != .kwElseIf) fun _ i hi => ?_
    simpa using hi

theorem parse_nesting_of_operators : ∃ root path,
    parse (lex "x = -!y;" "a.hz") = .ok root ∧ root.Path path ∧
      path.countP (fun x => Construct.operator.holds x.2) = 2 ∧
      (∀ k ∈ [Construct.block, .selection, .elements, .operator, .typeMark],
        path.countP (fun x => k.holds x.2) ≤ nestingLimit) ∧
      path.countP (fun x => Construct.conditional.holds x.2 &&
        (lex "x = -!y;" "a.hz").kindAt x.1 != .kwElseIf) ≤ nestingLimit := by
  have hnesting : (parse (lex "x = -!y;" "a.hz")).toOption.map
      (Tree.nesting fun x => Construct.operator.holds x.2) = some 2 := by decide +kernel
  cases h : parse (lex "x = -!y;" "a.hz") with
  | error fault =>
    rw [h] at hnesting
    cases hnesting
  | ok root =>
    rw [h] at hnesting
    obtain ⟨path, hpath, hcount⟩ := root.exists_path fun x => Construct.operator.holds x.2
    obtain ⟨hall, hconditional⟩ := parse_nesting h hpath
    exact ⟨root, path, rfl, hpath, hcount.trans (Option.some.inj hnesting), hall, hconditional⟩

end FrontEnd
