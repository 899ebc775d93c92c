import FrontEnd.Proofs.Parser.Concatenation

/-!
Lists of parameters. Where a function is declared without a body, what stands between its
parentheses is a list as the grammar has it, every type in it being read by itself. Or it is
such a list and one comma more: behind a comma the list goes on, and where no type begins it
ends without asking for one.
-/

namespace FrontEnd

/-! ## The grammar -/

/-- Whichever `p` symbols are before them, and with none behind them, the symbols are read as a
type to the last one, on the level of nesting of a declaration. -/
def TypeAt (p : Nat) (list : List Symbol) (t : Tree) : Prop :=
  ∀ before : List Symbol, before.length = p →
    Rule.eval (before ++ list).toArray nestingLimit .type ⟨p, 1⟩ =
      .read (some t) ⟨p + list.length, 1⟩

/-- Type ELLIPSIS? IDENTIFIER, behind `p` symbols -/
inductive ParamAt (p : Nat) : List Symbol → Param Tree → Prop
  | plain {type : List Symbol} {t : Tree} {name : Symbol} (htype : TypeAt p type t)
      (hname : name.kind = .identifier) : ParamAt p (type ++ [name]) ⟨p, name.text, t, false⟩
  | variadic {type : List Symbol} {t : Tree} {mark name : Symbol} (htype : TypeAt p type t)
      (hmark : mark.kind = .ellipsis) (hname : name.kind = .identifier) :
      ParamAt p (type ++ [mark, name]) ⟨p, name.text, t, true⟩

/-- Param (COMMA Param)*, behind `p` symbols, where only the last one may be variadic -/
inductive ParamsAt : Nat → List Symbol → List (Param Tree) → Prop
  | last {p : Nat} {list : List Symbol} {x : Param Tree} (h : ParamAt p list x) :
      ParamsAt p list [x]
  | cons {p : Nat} {list rest : List Symbol} {comma : Symbol} {x : Param Tree}
      {xs : List (Param Tree)} (h : ParamAt p list x) (hplain : x.variadic = false)
      (hcomma : comma.kind = .comma) (hrest : ParamsAt (p + list.length + 1) rest xs) :
      ParamsAt p (list ++ comma :: rest) (x :: xs)

theorem ParamAt.kind_getLast {p : Nat} {list : List Symbol} {x : Param Tree}
    (h : ParamAt p list x) : list.getLast?.map (·.kind) = some .identifier := by
  cases h with
  | plain htype hname => simp [hname]
  | variadic htype hmark hname => simp [hname]

/-- A list of parameters ends with a name. -/
theorem ParamsAt.kind_getLast {p : Nat} {list : List Symbol} {xs : List (Param Tree)}
    (h : ParamsAt p list xs) : list.getLast?.map (·.kind) = some .identifier := by
  induction h with
  | last h => exact h.kind_getLast
  | cons h hplain hcomma hrest ih =>
    rename_i list rest comma x xs
    cases rest with
    | nil => cases ih
    | cons a rest => simpa [List.getLast?_append, List.getLast?_cons_cons] using ih

/-! ## Parts of a source -/

namespace Symbols

variable {symbols : Symbols} {p q r : Nat}

/-- The symbols from `p` up to `q`. -/
def between (symbols : Symbols) (p q : Nat) : List Symbol := (symbols.extract p q).toList

theorem length_between (hq : q ≤ symbols.size) : (symbols.between p q).length = q - p := by
  rw [between, Array.length_toList, Array.size_extract, Nat.min_eq_left hq]

theorem getElem?_between (hp : p ≤ r) (hr : r < q) (hq : q ≤ symbols.size) :
    (symbols.between p q)[r - p]? = some (symbols.symbolAt r) := by
  have hlt : r < symbols.size := Nat.lt_of_lt_of_le hr hq
  rw [between, Array.getElem?_toList, Array.getElem?_extract_of_lt (by omega)]
  simp [symbolAt, Nat.add_sub_cancel' hp, hlt]

theorem between_append (hp : p ≤ r) (hr : r ≤ q) :
    symbols.between p q = symbols.between p r ++ symbols.between r q := by
  rw [between, between, between, ← Array.toList_append, Array.extract_append_extract,
    Nat.min_eq_left hp, Nat.max_eq_right hr]

theorem between_succ (h : r < symbols.size) :
    symbols.between r (r + 1) = [symbols.symbolAt r] := by
  rw [between, Array.extract_succ_right (Nat.lt_succ_self r) h,
    Array.extract_empty_of_stop_le_start (Nat.le_refl r)]
  simp [symbolAt, h]

end Symbols

/-! ## Types by themselves -/

section Alone

variable {symbols : Symbols} {p q : Nat} {before : List Symbol} {t : Tree}

theorem add_length_between (h : symbols.Forward p q) :
    p + (symbols.between p q).length = q := by
  rw [Symbols.length_between h.2]
  exact Nat.add_sub_cancel' (Nat.le_of_lt h.1)

theorem size_alone (h : symbols.Forward before.length q) :
    (before ++ symbols.between before.length q).toArray.size = q := by
  rw [List.size_toArray, List.length_append, add_length_between h]

/-- A part of a source, where the source ends with it and has some other symbols before it. -/
def alone (h : symbols.Forward before.length q) : Passage where
  source := symbols
  target := (before ++ symbols.between before.length q).toArray
  start := before.length
  stop := q
  shift := 0
  extra := 0
  move := id
  same r hr hq := by
    rw [Nat.add_zero, Symbols.symbolAt, List.getElem?_toArray, List.getElem?_append_right hr,
      Symbols.getElem?_between hr hq h.2]
    rfl
  source_le := h.2
  target_le := Nat.le_of_eq (size_alone h).symm
  move_eq _ _ _ := rfl

theorem alone_ends (h : symbols.Forward before.length q) : (alone h).EndsOperand := by
  have hbehind : (alone h).behind = .endOfFile :=
    Symbols.kind_of_size_le (Nat.le_of_eq (size_alone h))
  constructor <;> rw [hbehind]
  · intro l
    cases l <;> rfl
  · decide
  · decide
  · rintro ⟨⟩

/-- What is read as a type up to some symbol is one by itself. -/
theorem typeAt_of_eval
    (h : Rule.eval symbols nestingLimit .type ⟨p, 1⟩ = .read (some t) ⟨q, 1⟩) :
    TypeAt p (symbols.between p q) t := by
  rintro before rfl
  have hforward : symbols.Forward before.length q :=
    Symbols.Finds.forward (Rule.advances_of_eval h) rfl
  have hobtained := (alone hforward).obtains h (Nat.le_refl _) (Nat.le_refl q)
    (fun _ => ⟨rfl, alone_ends hforward⟩) trivial
  rw [add_length_between hforward, ← t.mapTokens_id]
  exact hobtained.eval_eq (Nat.lt_irrefl 0)

end Alone

def Tree.IsName (t : Tree) : Prop := ∃ token name, t = .node token (.identifier name)

namespace Grammar

open Script

variable {symbols : Symbols} {limit depth p q : Nat}

/-! ## What is read as a list -/

/-- How a list of parameters is read from `p` on, parameter by parameter. -/
inductive ParamsRead (symbols : Symbols) (p : Nat) : List (Param Tree) → Nat → Prop
  | none : ParamsRead symbols p [] p
  | last {x : Param Tree} {r : Nat} (h : ParamAt p (symbols.between p r) x) :
      ParamsRead symbols p [x] r
  | cons {x : Param Tree} {xs : List (Param Tree)} {r q : Nat} (hp : p ≤ r)
      (h : ParamAt p (symbols.between p r) x) (hplain : x.variadic = false)
      (hcomma : (symbols.symbolAt r).kind = .comma)
      (hrest : Rule.eval symbols nestingLimit .params ⟨r + 1, 1⟩ = .read xs ⟨q, 1⟩) :
      ParamsRead symbols p (x :: xs) q

theorem between_snoc {r : Nat} {kind : TokenKind} (hp : p ≤ r)
    (h : (symbols.symbolAt r).kind = kind) (hk : kind ≠ .endOfFile) :
    symbols.between p (r + 1) = symbols.between p r ++ [symbols.symbolAt r] := by
  have hr : r < symbols.size := Symbols.lt_size_of_kind (by rwa [h])
  rw [Symbols.between_append hp (Nat.le_succ r), Symbols.between_succ hr]

theorem params_inverts {xs : List (Param Tree)}
    (h : Rule.eval symbols nestingLimit .params ⟨p, 1⟩ = .read xs ⟨q, 1⟩) :
    ParamsRead symbols p xs q := by
  refine Rule.holds_of_eval (Q := ParamsRead symbols p) h
    (Ensures.here_bind ⟨trivial, fun v r hv => ?_⟩)
  cases v with
  | none =>
    obtain rfl : r = p := Rule.advances_of_eval hv
    exact .none
  | some t =>
    have htype := typeAt_of_eval hv
    have hle : p ≤ r := (Rule.advances_of_eval hv).le
    refine Ensures.accept_bind (fun hmark => ?_) fun _ => ?_
    · rw [Symbols.next_of_kind hmark (by decide)]
      refine Ensures.expect_bind fun hname => ?_
      rw [Symbols.next_of_kind hname (by decide)]
      have hparam := ParamAt.variadic htype hmark hname
      rw [List.append_cons, ← between_snoc hle hmark (by decide),
        ← between_snoc (Nat.le_succ_of_le hle) hname (by decide)] at hparam
      exact .last hparam
    · refine Ensures.expect_bind fun hname => ?_
      rw [Symbols.next_of_kind hname (by decide)]
      have hparam := ParamAt.plain htype hname
      rw [← between_snoc hle hname (by decide)] at hparam
      refine Ensures.accept_bind (fun hcomma => ?_) fun _ => .last hparam
      rw [Symbols.next_of_kind hcomma (by decide)]
      exact ⟨trivial, fun rest q hrest =>
        .cons (Nat.le_succ_of_le hle) hparam rfl hcomma hrest⟩

/-- A list that is read is one of the grammar, with nothing or with a comma behind it, unless
it is empty. -/
theorem paramsAt_of_eval {xs : List (Param Tree)}
    (h : Rule.eval symbols nestingLimit .params ⟨p, 1⟩ = .read xs ⟨q, 1⟩) :
    xs = [] ∧ q = p ∨ ParamsAt p (symbols.between p q) xs ∨
      ∃ r, p ≤ r ∧ q = r + 1 ∧ (symbols.symbolAt r).kind = .comma ∧
        ParamsAt p (symbols.between p r) xs ∧ ∀ x ∈ xs, x.variadic = false := by
  induction xs generalizing p with
  | nil =>
    cases params_inverts h
    exact .inl ⟨rfl, rfl⟩
  | cons x xs ih =>
    cases params_inverts h with
    | last hparam => exact .inr (.inl (.last hparam))
    | @cons _ _ r _ hp hparam hplain hcomma hrest =>
      have hr : r < symbols.size := Symbols.lt_size_of_kind (by rw [hcomma]; decide)
      have hplace : p + (symbols.between p r).length + 1 = r + 1 := by
        rw [Symbols.length_between (Nat.le_of_lt hr)]
        omega
      -- the comma and what is behind it
      have hsplit {m : Nat} (hm : r + 1 ≤ m) : symbols.between p m =
          symbols.between p r ++ symbols.symbolAt r :: symbols.between (r + 1) m := by
        rw [Symbols.between_append (Nat.le_succ_of_le hp) hm, between_snoc hp hcomma (by decide),
          List.append_assoc, List.singleton_append]
      rcases ih hrest with ⟨rfl, rfl⟩ | hlist | ⟨m, hm, rfl, hend, hlist, hall⟩
      · exact .inr (.inr ⟨r, hp, rfl, hcomma, .last hparam, List.forall_mem_singleton.mpr hplain⟩)
      · have hle : r + 1 ≤ q := (Rule.advances_of_eval hrest).le
        rw [← hplace] at hlist
        refine .inr (.inl ?_)
        rw [hsplit hle, ← hplace]
        exact .cons hparam hplain hcomma hlist
      · rw [← hplace] at hlist
        refine .inr (.inr ⟨m, by omega, rfl, hend, ?_, List.forall_mem_cons.mpr ⟨hplain, hall⟩⟩)
        rw [hsplit hm, ← hplace]
        exact .cons hparam hplain hcomma hlist

/-! ## The declaration -/

/-- How a signature with a name is read from `p` on. -/
inductive SignatureRead (symbols : Symbols) (limit depth p : Nat) : Tree → Nat → Prop
  | intro {params : List (Param Tree)} {result : Tree} {r q : Nat}
      (hparams : Rule.eval symbols limit .params ⟨p + 3, depth⟩ = .read params ⟨r, depth⟩)
      (hclose : (symbols.symbolAt r).kind = .rightParen)
      (hresult : Rule.eval symbols limit .type ⟨r + 1, depth⟩ = .read (some result) ⟨q, depth⟩) :
      SignatureRead symbols limit depth p (.node p
        (.prototype (some (symbols.symbolAt (p + 1)).text) params result false false)) q

theorem prototype_inverts {t : Tree} (hname : (symbols.symbolAt (p + 1)).kind = .identifier)
    (h : Rule.eval symbols limit (.prototype false false) ⟨p, depth⟩ = .read t ⟨q, depth⟩) :
    SignatureRead symbols limit depth p t q := by
  refine Rule.holds_of_eval (Q := SignatureRead symbols limit depth p) h
    (Ensures.here_bind (Ensures.expect_bind fun hfunc => ?_))
  rw [Symbols.next_of_kind hfunc (by decide), ensures_bind, ensures_acceptText]
  refine ⟨fun _ => ?_, fun hne => absurd hname hne⟩
  rw [Symbols.next_of_kind hname (by decide)]
  refine Ensures.expect_bind fun hopen => ?_
  rw [Symbols.next_of_kind hopen (by decide)]
  refine ⟨trivial, fun params r hparams => Ensures.expect_bind fun hclose => ?_⟩
  rw [Symbols.next_of_kind hclose (by decide), ensures_bind, ensures_require]
  refine ⟨trivial, fun v q hv t ht => ?_⟩
  subst ht
  exact .intro hparams hclose hv

/-- How a function is read from `p` on, with a body or without one. -/
inductive FunctionRead (symbols : Symbols) (limit depth p : Nat) : Tree → Nat → Prop
  | defined {signature body : Tree} {q : Nat} :
      FunctionRead symbols limit depth p (.node p (.function signature body)) q
  | declared {t : Tree} {r : Nat}
      (hsignature : Rule.eval symbols limit (.prototype false false) ⟨p, depth⟩ =
        .read t ⟨r, depth⟩)
      (hsemicolon : (symbols.symbolAt r).kind = .semicolon) :
      FunctionRead symbols limit depth p t (r + 1)

theorem function_inverts {t : Tree} (hfunc : (symbols.symbolAt p).kind = .kwFunc)
    (h : Rule.eval symbols limit .function ⟨p, depth⟩ = .read t ⟨q, depth⟩) :
    FunctionRead symbols limit depth p t q := by
  have hother {kind : TokenKind} (hk : kind ≠ .kwFunc) (hkind : (symbols.symbolAt p).kind = kind) :
      False := hk (hkind.symm.trans hfunc)
  refine Rule.holds_of_eval (Q := FunctionRead symbols limit depth p) h (Ensures.here_bind ?_)
  refine Ensures.accept_bind (fun hkind => (hother (by decide) hkind).elim) fun _ => ?_
  refine Ensures.accept_bind (fun hkind => (hother (by decide) hkind).elim) fun _ => ?_
  refine ⟨trivial, fun signature r hsignature => ⟨trivial, fun body m hbody => ?_⟩⟩
  cases body with
  | some body => exact .defined
  | none =>
    obtain rfl : m = r := Rule.advances_of_eval hbody
    refine Ensures.expect_bind fun hsemicolon => ?_
    rw [Symbols.next_of_kind hsemicolon (by decide)]
    exact .declared hsignature hsemicolon

/-- A statement that begins with `func` is a function. -/
theorem statement_inverts {t : Tree} (hfunc : (symbols.symbolAt p).kind = .kwFunc)
    (h : Rule.eval symbols limit .statement ⟨p, depth⟩ = .read (some t) ⟨q, depth⟩) :
    FunctionRead symbols limit depth p t q := by
  have hopens : (symbols.sight p).opensFunction = true := by
    rw [Sight.opensFunction, Sight.opens, Symbols.sight_kind, hfunc]
    rfl
  let Q (v : Option Tree) (q : Nat) : Prop := ∀ t, v = some t →
    FunctionRead symbols limit depth p t q
  refine Rule.holds_of_eval (Q := Q) h ?_ t rfl
  simp only [Rule.script, statement, containerIfAny]
  rw [ensures_bind, ensures_bind, ensures_sight, if_pos hopens]
  refine ⟨trivial, fun t q hread u hu => ?_⟩
  cases hu
  exact function_inverts hfunc hread

/-! ## Names -/

/-- If it is a name that is read, then it is one symbol, or there is a parenthesis at its end. -/
def NameRead (symbols : Symbols) (p : Nat) (v : Option Tree) (q : Nat) : Prop :=
  ∀ t, v = some t → t.IsName → q = p + 1 ∨ ∃ r, q = r + 1 ∧ (symbols.symbolAt r).kind = .rightParen

theorem nameRead_of_not {t : Tree} (h : ¬t.IsName) : NameRead symbols p (some t) q := by
  rintro t ⟨⟩ hname
  exact absurd hname h

theorem allows_exact (r : Rule) (p : Nat) : (Contract.exact symbols limit).allows r p := trivial

theorem prototype_reads {isExport isExtern : Bool} {t : Tree}
    (h : Rule.eval symbols limit (.prototype isExport isExtern) ⟨p, depth⟩ =
      .read t ⟨q, depth⟩) : ¬t.IsName := by
  refine Rule.holds_of_eval (Q := fun (t : Tree) _ => ¬t.IsName) h (Ensures.here_bind ?_)
  refine Ensures.any_bind allows_exact fun _ _ => Ensures.any_bind allows_exact fun _ _ => ?_
  refine Ensures.any_bind allows_exact fun _ _ => Ensures.any_bind allows_exact fun _ _ => ?_
  refine Ensures.any_bind allows_exact fun _ _ => Ensures.any_bind allows_exact fun _ _ => ?_
  exact nofun

theorem functionValue_reads : functionValue.Ensures (.exact symbols limit) symbols limit depth p
    fun t _ => ¬t.IsName := by
  refine Ensures.here_bind ⟨trivial, fun signature r hsignature => ⟨trivial, fun body q _ => ?_⟩⟩
  cases body with
  | some body => exact nofun
  | none => exact prototype_reads hsignature

theorem selection_reads {t : Tree}
    (h : Rule.eval symbols limit .selection ⟨p, depth⟩ = .read t ⟨q, depth⟩) : ¬t.IsName := by
  refine Rule.holds_of_eval (Q := fun (t : Tree) _ => ¬t.IsName) h (Ensures.here_bind ?_)
  refine Ensures.any_bind allows_exact fun _ _ => Ensures.any_bind allows_exact fun _ _ => ?_
  refine Ensures.any_bind allows_exact fun subject _ => ?_
  have hrest (p' : Nat) : (expect .leftBrace >>= fun _ => run .branches >>= fun branches =>
      pure (Tree.node p (.selection subject branches))).Ensures (.exact symbols limit) symbols
        limit depth p' fun t _ => ¬t.IsName :=
    Ensures.any_bind allows_exact fun _ _ => Ensures.any_bind allows_exact fun _ _ => nofun
  exact Ensures.ite (fun _ => Ensures.any_bind allows_exact fun _ q => hrest q) fun _ => hrest _

theorem primary_name {v : Option Tree}
    (h : Rule.eval symbols limit .primary ⟨p, depth⟩ = .read v ⟨q, depth⟩) :
    NameRead symbols p v q := by
  refine Rule.holds_of_eval (Q := NameRead symbols p) h (Ensures.sight_bind ?_)
  simp only [Symbols.sight_current, Symbols.sight_kind]
  split
  · rename_i form hleaf
    refine Ensures.take_bind ?_
    rw [Symbols.next_eq (kind_ne_endOfFile_of_leaf hleaf)]
    exact fun _ _ _ => .inl rfl
  · split
    · exact functionValue_reads.bind fun t r ht => nameRead_of_not ht
    · refine ⟨trivial, fun t q hread => ?_⟩
      exact nameRead_of_not (selection_reads hread)
    · refine Ensures.take_bind (Ensures.any_bind allows_exact fun inner r => ?_)
      refine Ensures.expect_bind fun hclose => ?_
      rw [Symbols.next_of_kind hclose (by decide)]
      exact fun _ _ _ => .inr ⟨r, rfl, hclose⟩
    · exact nofun

theorem suffixes_inverts_nil
    (h : Rule.eval symbols limit .suffixes ⟨p, depth⟩ = .read [] ⟨q, depth⟩) : q = p := by
  refine Rule.holds_of_eval (Q := fun v q => v = [] → q = p) h (Ensures.sight_bind ?_) rfl
  simp only [Symbols.sight_kind]
  have hsuffix {β : Type} (p' : Nat) (x : Script β) (f : β → Nat × Suffix) : (x >>= fun v =>
      run .suffixes >>= fun rest => pure (f v :: rest)).Ensures (.exact symbols limit) symbols limit
        depth p' fun v q => v = [] → q = p :=
    Ensures.any_bind allows_exact fun _ _ => Ensures.any_bind allows_exact fun _ _ => nofun
  split
  · exact Ensures.take_bind (hsuffix ..)
  · exact Ensures.take_bind (hsuffix ..)
  · exact Ensures.take_bind (hsuffix ..)
  · exact fun _ => rfl

/-- What has something behind it is no name. -/
theorem eq_nil_of_isName {rest : List (Nat × Suffix)} {first : Tree}
    (h : (attach rest first).IsName) : rest = [] := by
  rcases List.eq_nil_or_concat rest with hnil | ⟨front, ⟨token, suffix⟩, rfl⟩
  · exact hnil
  · obtain ⟨_, _, h⟩ := h
    rw [attach, List.concat_eq_append, List.foldl_append] at h
    cases suffix <;> cases h

theorem suffixed_name {v : Option Tree}
    (h : Rule.eval symbols limit .suffixed ⟨p, depth⟩ = .read v ⟨q, depth⟩) :
    NameRead symbols p v q := by
  refine Rule.holds_of_eval (Q := NameRead symbols p) h ⟨trivial, fun first r hfirst => ?_⟩
  cases first with
  | none => exact nofun
  | some first =>
    refine ⟨trivial, fun rest m hrest => ?_⟩
    rintro t ⟨⟩ hname
    obtain rfl := eq_nil_of_isName hname
    obtain rfl := suffixes_inverts_nil hrest
    exact primary_name hfirst first rfl hname

theorem type_name {v : Option Tree}
    (h : Rule.eval symbols limit .type ⟨p, depth⟩ = .read v ⟨q, depth⟩) :
    NameRead symbols p v q := by
  refine Rule.holds_of_eval (Q := NameRead symbols p) h (Ensures.here_bind ?_)
  refine Ensures.accept_bind (fun _ => ?_) fun _ => Ensures.accept_bind (fun _ => ?_) fun _ => ?_
  · exact Ensures.any_bind allows_exact fun _ _ => nameRead_of_not nofun
  · refine Ensures.any_bind allows_exact fun _ _ => Ensures.any_bind allows_exact fun _ _ => ?_
    refine Ensures.any_bind allows_exact fun _ _ => Ensures.any_bind allows_exact fun _ _ => ?_
    exact nameRead_of_not nofun
  · exact ⟨trivial, fun v q hv => suffixed_name hv⟩

end Grammar

/-! ## Sources -/

theorem Tree.isName_of_mapTokens {g : Nat → Nat} {t : Tree} {token : Nat} {name : String}
    (h : t.mapTokens g = .node token (.identifier name)) : t.IsName := by
  obtain ⟨place, form⟩ := t
  rw [mapTokens_node] at h
  cases form <;> cases h
  exact ⟨place, name, rfl⟩

/-- `func f ( list ) T ;`, as parsing sees it -/
def TokenStream.Declares (s : TokenStream) (f : String) (list : List Symbol) (T : String) : Prop :=
  s.symbols.toList = [.word .kwFunc, .name f, .word .leftParen] ++
    (list ++ [.word .rightParen, .name T, .word .semicolon])

namespace TokenStream.Declares

variable {s : TokenStream} {f T : String} {list : List Symbol}

theorem stand (h : s.Declares f list T) :
    s.symbols.Stand 0 ([.word .kwFunc, .name f, .word .leftParen] ++
      (list ++ [.word .rightParen, .name T, .word .semicolon])) := h

theorem behind (h : s.Declares f list T) : s.symbols.Stand (3 + list.length)
    [.word .rightParen, .name T, .word .semicolon] := by
  have hstand := h.stand.append.append
  rwa [Nat.zero_add] at hstand

theorem size (h : s.Declares f list T) : s.symbols.size = list.length + 6 := by
  have hlength := congrArg List.length h
  simpa using hlength

theorem between (h : s.Declares f list T) : s.symbols.between 3 (3 + list.length) = list := by
  rw [Symbols.between, Array.toList_extract, h]
  simp

/-- The end of the source is where it has no more symbols. -/
theorem size_le (h : s.Declares f list T) (hend : ∀ a ∈ list, a.kind ≠ .endOfFile) (p : Nat)
    (hp : (s.symbols.symbolAt p).kind = .endOfFile) : s.symbols.size ≤ p := by
  have hkinds : ∀ a ∈ s.symbols.toList, a.kind ≠ .endOfFile := by
    rw [h]
    simpa [Symbol.word, Symbol.name, or_imp, forall_and] using hend
  rcases Nat.lt_or_ge p s.symbols.size with hlt | hle
  · exact absurd hp (hkinds _ (by simp [Symbols.symbolAt, hlt]))
  · exact hle

open Grammar in
/-- The declaration is read as the only item, its parameters up to the last parenthesis. -/
theorem params_of_eval (h : s.Declares f list T) {t : Tree} {q : Nat} {g : Nat → Nat}
    {token result : Nat} {name : Option String} {params : List (Param Tree)}
    {isExport isExtern : Bool}
    (hread : Rule.eval s.symbols nestingLimit .statement ⟨0, 1⟩ = .read (some t) ⟨q, 1⟩)
    (hq : q = s.symbols.size)
    (ht : t.mapTokens g = .node token (.prototype name params (.node result (.identifier T))
      isExport isExtern)) :
    ∃ xs, params = xs.map (·.move g) ∧
      Rule.eval s.symbols nestingLimit .params ⟨3, 1⟩ = .read xs ⟨3 + list.length, 1⟩ := by
  have hname : (s.symbols.symbolAt 1).kind = .identifier := h.stand.tail.kind
  have hresult : (s.symbols.symbolAt (3 + list.length + 1)).kind = .identifier :=
    h.behind.tail.kind
  cases statement_inverts h.stand.kind hread with
  | defined => cases ht
  | @declared _ m hsignature hsemicolon =>
    cases prototype_inverts hname hsignature with
    | @intro xs u r _ hparams hclose htype =>
      rw [Tree.mapTokens_prototype] at ht
      simp only [Tree.node.injEq, Form.prototype.injEq] at ht
      obtain ⟨-, -, rfl, hu, -⟩ := ht
      refine ⟨xs, rfl, ?_⟩
      rw [h.size] at hq
      -- in front of the semicolon stands no parenthesis, so the result is the name there
      rcases type_name htype u rfl (Tree.isName_of_mapTokens hu) with hm | ⟨k, hk, hkind⟩
      · obtain rfl : r = 3 + list.length := by omega
        exact hparams
      · obtain rfl : k = 3 + list.length + 1 := by omega
        cases hresult.symm.trans hkind

end TokenStream.Declares

/-- If `func f ( list ) T ;` parses as one function prototype that gives `T`, then the list is
empty, or parameters of the grammar, or such with a comma behind them, of which none is variadic.
These are the parameters of the prototype. -/
theorem parse_params {s : TokenStream} {f T : String} {list : List Symbol}
    {root token result : Nat} {name : Option String} {params : List (Param Tree)}
    {isExport isExtern : Bool} (hdeclares : s.Declares f list T)
    (hend : ∀ a ∈ list, a.kind ≠ .endOfFile)
    (hparse : parse s = .ok (.node root (.root [.node token (.prototype name params
      (.node result (.identifier T)) isExport isExtern)]))) :
    ∃ xs, params = xs.map (·.move fun p => ((Cursor.start s).tokenAt p).2) ∧
      (list = [] ∧ xs = [] ∨ ParamsAt 3 list xs ∨
        ∃ front comma, list = front ++ [comma] ∧ comma.kind = .comma ∧ ParamsAt 3 front xs ∧
          ∀ x ∈ xs, x.variadic = false) := by
  obtain ⟨items, hunit, hroot⟩ :=
    TokenStream.eval_size_of_parse (hdeclares.size_le hend) hparse
  obtain ⟨-, hitems⟩ := Tree.node.inj hroot
  cases items with
  | nil => cases hitems
  | cons t items =>
    obtain rfl : items = [] := by
      cases items with
      | nil => rfl
      | cons u items => simp at hitems
    simp only [List.map_cons, List.map_nil, Form.root.injEq, List.cons.injEq, and_true] at hitems
    obtain ⟨q, hstatement, hrest⟩ := Grammar.unit_inverts hunit
    have hle : q ≤ s.symbols.size := (Rule.advances_of_eval hrest).le
    have hsize := hdeclares.size_le hend q (Grammar.unit_inverts_nil hrest)
    obtain ⟨xs, hparams, hread⟩ :=
      hdeclares.params_of_eval hstatement (Nat.le_antisymm hle hsize) hitems.symm
    refine ⟨xs, hparams, ?_⟩
    rcases Grammar.paramsAt_of_eval hread with ⟨hnil, hempty⟩ | hlist |
      ⟨r, hr, hstop, hcomma, hfront, hall⟩
    · exact .inl ⟨List.length_eq_zero_iff.mp (by omega), hnil⟩
    · rw [hdeclares.between] at hlist
      exact .inr (.inl hlist)
    · refine .inr (.inr ⟨_, s.symbols.symbolAt r, ?_, hcomma, hfront, hall⟩)
      rw [← hdeclares.between, hstop]
      exact Grammar.between_snoc hr hcomma (by decide)

/-- A type with a mark before it, and a variadic parameter at the end. -/
theorem parse_params_of_variadic : ∃ s list params xs,
    s = lex "func f(?int a, x... b) T;" "a.hz" ∧
      list = [.word .question, .name "int", .name "a", .word .comma, .name "x", .word .ellipsis,
        .name "b"] ∧
      params = [⟨3, "a", .node 3 (.optional (.node 4 (.identifier "int"))), false⟩,
        ⟨7, "b", .node 7 (.identifier "x"), true⟩] ∧
      s.Declares "f" list "T" ∧ (∀ a ∈ list, a.kind ≠ .endOfFile) ∧
      parse s = .ok (.node 0 (.root [.node 0 (.prototype (some "f") params
        (.node 11 (.identifier "T")) false false)])) ∧
      params = xs.map (·.move fun p => ((Cursor.start s).tokenAt p).2) ∧ ParamsAt 3 list xs := by
  have hdeclares : (lex "func f(?int a, x... b) T;" "a.hz").Declares "f" [.word .question,
      .name "int", .name "a", .word .comma, .name "x", .word .ellipsis, .name "b"] "T" := by
    unfold TokenStream.Declares
    decide +kernel
  have hparse : parse (lex "func f(?int a, x... b) T;" "a.hz") = .ok (.node 0 (.root [.node 0
      (.prototype (some "f") [⟨3, "a", .node 3 (.optional (.node 4 (.identifier "int"))), false⟩,
        ⟨7, "b", .node 7 (.identifier "x"), true⟩] (.node 11 (.identifier "T")) false
        false)])) := by rfl
  obtain ⟨xs, hparams, ⟨hnil, -⟩ | hlist | ⟨front, comma, hcomma, hkind, -⟩⟩ :=
    parse_params hdeclares (by decide) hparse
  · cases hnil
  · exact ⟨_, _, _, xs, rfl, rfl, rfl, hdeclares, by decide, hparse, hparams, hlist⟩
  · have hlast := congrArg (fun list => list.getLast?.map (·.kind)) hcomma
    simp [hkind] at hlast
    cases hlast

/-- No list of parameters ends with a comma, but this one is read. -/
theorem parse_params_of_comma : ∃ s list,
    s = lex "func f(int a,) int;" "a.hz" ∧ list = [.name "int", .name "a", .word .comma] ∧
      s.Declares "f" list "int" ∧
      parse s = .ok (.node 0 (.root [.node 0 (.prototype (some "f")
        [⟨3, "a", .node 3 (.identifier "int"), false⟩] (.node 7 (.identifier "int")) false
        false)])) ∧
      list ≠ [] ∧ ∀ p xs, ¬ParamsAt p list xs := by
  refine ⟨_, _, rfl, rfl, ?_, by rfl, List.cons_ne_nil _ _, fun p xs hlist => ?_⟩
  · unfold TokenStream.Declares
    decide +kernel
  · have hlast := hlist.kind_getLast
    revert hlast
    decide

end FrontEnd
