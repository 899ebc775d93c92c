import FrontEnd.Proofs.Parser.Rows
import FrontEnd.Proofs.Parser.Steps

/-!
Levels read rows as their reference trees. Each level reads, behind an operand, the
links that are its own or tighter ones, and grouping them to the left splits them at
the rightmost of the loosest.
-/

namespace FrontEnd.Grammar

open Script

variable {symbols : Symbols} {limit p q depth : Nat} {first stop : Symbol} {links : List Link}

/-! ## Operands -/

theorem primary_reads (h : Row symbols p first links stop) :
    Rule.eval symbols limit .primary ⟨p, depth⟩ =
      .read (some (reference p first [])) ⟨p + 1, depth⟩ := by
  obtain ⟨form, hform⟩ := Option.isSome_iff_exists.mp h.operand
  rw [Rule.eval_eq]
  simp only [Rule.script, primary]
  rw [eval_bind_of eval_sight]
  simp only [Symbols.sight_current, h.symbolAt, hform]
  rw [eval_bind_of eval_take]
  simp only [h.next, reference_nil hform]
  rfl

theorem suffixes_reads (h : Tail symbols q links stop) :
    Rule.eval symbols limit .suffixes ⟨q, depth⟩ = .read [] ⟨q, depth⟩ := by
  have hends := h.endsOperand
  rw [Rule.eval_eq]
  simp only [Rule.script, suffixes]
  rw [eval_bind_of eval_sight]
  simp only [Symbols.sight_kind]
  split
  · rename_i hk
    rw [hk] at hends
    cases hends
  · rename_i hk
    rw [hk] at hends
    cases hends
  · rename_i hk
    rw [hk] at hends
    cases hends
  · rfl

theorem suffixed_reads (h : Row symbols p first links stop) :
    Rule.eval symbols limit .suffixed ⟨p, depth⟩ =
      .read (some (reference p first [])) ⟨p + 1, depth⟩ := by
  rw [Rule.eval_eq]
  simp only [Rule.script, suffixed]
  rw [eval_bind_of ((eval_run _).trans (primary_reads h))]
  simp only
  rw [eval_bind_of ((eval_run _).trans (suffixes_reads h.tail))]
  rfl

theorem unary_reads (h : Row symbols p first links stop) :
    Rule.eval symbols limit .unary ⟨p, depth⟩ =
      .read (some (reference p first [])) ⟨p + 1, depth⟩ := by
  have hunary := (Symbol.leaf_kind h.operand).1
  have hbrace := h.kind_ne (k := .leftBrace) (by decide)
  rw [h.symbolAt] at hbrace
  rw [Rule.eval_eq]
  simp only [Rule.script, unary]
  rw [eval_bind_of eval_sight]
  simp only [Symbols.sight_kind, h.symbolAt, hunary, simple]
  rw [eval_bind_of eval_sight]
  simp only [Symbols.sight_kind, h.symbolAt, if_neg hbrace]
  rw [eval_run, suffixed_reads h]

/-! ## Levels -/

/-- What reads operators of a tightness and of all greater ones. -/
def climbing : Nat → Script (Option Tree)
  | 0 => run (.level .conjunction)
  | 1 => run (.level .disjunction)
  | 2 => run (.level .comparison)
  | 3 => run .recovery
  | 4 => run (.level .bitwise)
  | 5 => run (.level .shift)
  | 6 => run (.level .sum)
  | 7 => run (.level .product)
  | _ => run .unary

variable {l : Level}

theorem operandOf_eq (hl : l ≠ .assignment) : operandOf l = climbing (l.tightness + 1) := by
  cases l <;> first | rfl | exact absurd rfl hl

theorem climbing_level (hl : l ≠ .assignment) : climbing l.tightness = run (.level l) := by
  cases l <;> first | rfl | exact absurd rfl hl

/-- Operators of the tightness read a row up to where the level stops, as its
reference tree. -/
def Reads (symbols : Symbols) (limit t : Nat) : Prop :=
  ∀ (depth : Nat) ⦃p : Nat⦄ ⦃first stop : Symbol⦄ ⦃links : List Link⦄,
    Row symbols p first links stop →
      (climbing t).eval symbols limit ⟨p, depth⟩ =
        .read (some (reference p first (Link.taken t false links)))
          ⟨p + 1 + 2 * (Link.taken t false links).length, depth⟩

/-- From the reference tree of a row that ends before `q`, grouping makes that of the
row with the links added. -/
def Groups (t q : Nat) (links : List Link) (group : Tree → Tree) : Prop :=
  ∀ p first left, q = p + 1 + 2 * left.length → (∀ o ∈ left, t ≤ o.tightness) →
    group (reference p first left) = reference p first (left ++ links)

theorem Groups.nil {t : Nat} : Groups t q [] id := by
  intro p first left hq hl
  rw [List.append_nil]
  rfl

theorem Groups.cons {t : Nat} {o : Link} {right rest : List Link} {group : Tree → Tree}
    (ho : o.tightness = t) (hr : ∀ o' ∈ right, t < o'.tightness)
    (h : Groups t (q + 2 + 2 * right.length) rest group) :
    Groups t q (o :: (right ++ rest)) fun lhs =>
      group (.node q (o.form lhs (reference (q + 1) o.operand right))) := by
  intro p first left hq hl
  have hlink : reference p first (left ++ o :: right) =
      .node q (o.form (reference p first left) (reference (q + 1) o.operand right)) := by
    rw [reference_append (by rwa [ho]) (by rwa [ho])]
    have hp : p + 2 * left.length + 1 = q := by omega
    have hp' : p + 2 * left.length + 2 = q + 1 := by omega
    rw [hp, hp']
  have hlength : q + 2 + 2 * right.length = p + 1 + 2 * (left ++ o :: right).length := by
    rw [List.length_append, List.length_cons]
    omega
  have hle : ∀ o' ∈ left ++ o :: right, t ≤ o'.tightness := by
    intro o' ho'
    rcases List.mem_append.mp ho' with h' | h'
    · exact hl o' h'
    · rcases List.mem_cons.mp h' with rfl | h'
      · exact Nat.le_of_eq ho.symm
      · exact Nat.le_of_lt (hr o' h')
  have hgroup := h p first (left ++ o :: right) hlength hle
  rw [hlink] at hgroup
  rw [List.append_assoc] at hgroup
  exact hgroup

/-- The script reads the links and nothing behind them, and what it gives groups them. -/
def ReadsLinks {α : Type} (symbols : Symbols) (limit depth t q : Nat) (links : List Link)
    (x : Script α) (group : α → Tree → Tree) : Prop :=
  ∃ v, x.eval symbols limit ⟨q, depth⟩ = .read v ⟨q + 2 * links.length, depth⟩ ∧
    Groups t q links (group v)

/-- A script that reads a link, what stands behind it on the next tighter level and then
as another script does, reads the links of both. -/
theorem ReadsLinks.cons {α : Type} {t : Nat} {o : Link} {right last : List Link}
    {x y : Script α} {group : α → Tree → Tree} (ho : o.tightness = t)
    (hr : ∀ o' ∈ right, t < o'.tightness)
    (hlast : ReadsLinks symbols limit depth t (q + 2 + 2 * right.length) last y group)
    (hstep : ∀ rest s, y.eval symbols limit ⟨q + 2 + 2 * right.length, depth⟩ = .read rest s →
      ∃ v, x.eval symbols limit ⟨q, depth⟩ = .read v s ∧
        group v = fun lhs => group rest
          (.node q (o.form lhs (reference (q + 1) o.operand right)))) :
    ReadsLinks symbols limit depth t q (o :: (right ++ last)) x group := by
  obtain ⟨rest, hrest, hgroups⟩ := hlast
  have hlength : q + 2 + 2 * right.length + 2 * last.length =
      q + 2 * (o :: (right ++ last)).length := by
    rw [List.length_cons, List.length_append]
    omega
  rw [hlength] at hrest
  obtain ⟨v, hread, hgroup⟩ := hstep rest _ hrest
  have hcons := Groups.cons ho hr hgroups
  rw [← hgroup] at hcons
  exact ⟨v, hread, hcons⟩

/-- A level whose rest reads the links of its own reads rows. -/
theorem reads_of_links {α : Type} {t : Nat} {x : Script α} {group : α → Tree → Tree}
    (h : Reads symbols limit (t + 1))
    (hlinks : ∀ {q stop links} (depth : Nat), Tail symbols q links stop →
      ReadsLinks symbols limit depth t q (Link.more t links) x group)
    (hscript : ∀ s, (climbing t).eval symbols limit s =
      (climbing (t + 1) >>= fun
        | none => pure none
        | some first => x >>= fun rest => pure (some (group rest first))).eval symbols limit s) :
    Reads symbols limit t := by
  intro depth p first stop links hrow
  have htail := hrow.tail.drop_taken (t + 1) false
  obtain ⟨rest, hrest, hgroups⟩ := hlinks depth htail
  rw [hscript, eval_bind_of (h depth hrow)]
  simp only
  rw [eval_bind_of hrest, eval_pure,
    hgroups p first _ rfl fun o ho => Nat.le_of_succ_le (Link.le_of_mem_taken ho),
    ← Link.taken_succ (fun _ => rfl)]
  have hlength := congrArg List.length (Link.taken_succ (t := t) (fun _ => rfl) links)
  rw [List.length_append] at hlength
  rw [hlength, Nat.mul_add, Nat.add_assoc]

def groupOperands (rest : List (Nat × BinaryOp × Tree)) (first : Tree) : Tree :=
  rest.foldl (fun lhs (token, op, rhs) => .node token (.binary op lhs rhs)) first

theorem operands_stop (hop : l.operator? (symbols.symbolAt q).kind = none) :
    Rule.eval symbols limit (.operands l) ⟨q, depth⟩ = .read [] ⟨q, depth⟩ := by
  rw [Rule.eval_eq]
  simp only [Rule.script, operands]
  rw [eval_bind_of eval_sight]
  simp only [Symbols.sight_kind, hop]
  rfl

theorem operands_step {op : BinaryOp} {rhs : Tree} {rest : List (Nat × BinaryOp × Tree)}
    {t t' : ParseState} (hop : l.operator? (symbols.symbolAt q).kind = some op)
    (hrhs : (operandOf l).eval symbols limit ⟨symbols.next q, depth⟩ = .read (some rhs) t)
    (hrest : (if l.chains then run (.operands l) else pure []).eval symbols limit t =
      .read rest t') :
    Rule.eval symbols limit (.operands l) ⟨q, depth⟩ = .read ((q, op, rhs) :: rest) t' := by
  rw [Rule.eval_eq]
  simp only [Rule.script, operands]
  rw [eval_bind_of eval_sight]
  simp only [Symbols.sight_kind, hop]
  rw [eval_bind_of eval_take, eval_bind_of (eval_require hrhs)]
  by_cases hc : l.chains = true
  · rw [if_pos hc] at hrest
    rw [if_pos hc, eval_bind_of hrest]
    rfl
  · rw [if_neg hc] at hrest
    rw [if_neg hc]
    cases hrest
    rfl

theorem operands_cons {o : Link} {right last : List Link} (hl : l ≠ .assignment)
    (htail : Tail symbols q (o :: links) stop) (ho : o.tightness = l.tightness)
    (hr : ∀ o' ∈ right, l.tightness < o'.tightness)
    (hrhs : (operandOf l).eval symbols limit ⟨q + 1, depth⟩ =
      .read (some (reference (q + 1) o.operand right)) ⟨q + 2 + 2 * right.length, depth⟩)
    (hlast : ReadsLinks symbols limit depth l.tightness (q + 2 + 2 * right.length) last
      (if l.chains then run (.operands l) else pure []) groupOperands) :
    ReadsLinks symbols limit depth l.tightness q (o :: (right ++ last)) (run (.operands l))
      groupOperands := by
  have hcatch : o.operator.kind ≠ .kwCatch := by
    intro hk
    have hthree := TokenKind.tightness_eq_three.mpr hk
    have ht : l.tightness = 3 := ho.symm.trans hthree
    cases l <;> cases ht
  obtain ⟨op, hbinary⟩ :=
    TokenKind.binary?_isSome (htail.sound o List.mem_cons_self).operator hcatch
  have hop : l.operator? (symbols.symbolAt q).kind = some op := by
    rw [htail.symbolAt_cons, Level.operator?_eq hl, ← hbinary]
    exact if_pos ho
  rw [← htail.next] at hrhs
  apply ReadsLinks.cons ho hr hlast
  intro rest s hrest
  refine ⟨_, (eval_run _).trans (operands_step hop hrhs hrest), ?_⟩
  simp only [Link.form, hbinary, ← htail.next]
  rfl

theorem operands_reads (hl : l ≠ .assignment) (h : Reads symbols limit (l.tightness + 1))
    (depth : Nat) (htail : Tail symbols q links stop) :
    ReadsLinks symbols limit depth l.tightness q (Link.more l.tightness links)
      (run (.operands l)) groupOperands := by
  induction hn : links.length using Nat.strongRecOn generalizing links q with
  | ind n ih =>
    cases links with
    | nil =>
      have hop : l.operator? (symbols.symbolAt q).kind = none := by
        rw [htail.symbolAt_nil, htail.stops, Level.operator?_eq hl]
        split <;> rfl
      exact ⟨[], (eval_run _).trans (operands_stop hop), Groups.nil⟩
    | cons o links =>
      by_cases ho : o.tightness = l.tightness
      · have hrow := htail.row
        have hlast := hrow.tail.drop_taken (l.tightness + 1) false
        rw [Link.more_of_eq ho]
        refine operands_cons hl htail ho (fun o' => Link.le_of_mem_taken)
          (operandOf_eq hl ▸ h depth hrow) ?_
        rw [Level.chains_eq hl]
        by_cases ht : l.tightness = 2
        · rw [if_pos ht, if_neg (by simp [ht])]
          exact ⟨[], rfl, Groups.nil⟩
        · rw [if_neg ht, if_pos (by simp [ht])]
          refine ih _ ?_ hlast rfl
          rw [← hn, List.length_drop, List.length_cons]
          omega
      · have hop : l.operator? (symbols.symbolAt q).kind = none := by
          rw [htail.symbolAt_cons, Level.operator?_eq hl]
          exact if_neg ho
        rw [Link.more_of_ne ho]
        exact ⟨[], (eval_run _).trans (operands_stop hop), Groups.nil⟩

theorem level_reads (hl : l ≠ .assignment) (h : Reads symbols limit (l.tightness + 1)) :
    Reads symbols limit l.tightness := by
  refine reads_of_links h (operands_reads hl h) fun s => ?_
  rw [climbing_level hl, eval_run, Rule.eval_eq, ← operandOf_eq hl]
  rfl

/-! ## Recovery -/

def groupHandlers (rest : List (Nat × Option String × Tree)) (first : Tree) : Tree :=
  rest.foldl (fun lhs (token, name, rhs) => .node token (.recovery lhs name rhs)) first

theorem handlers_stop (hk : (symbols.symbolAt q).kind ≠ .kwCatch) :
    Rule.eval symbols limit .handlers ⟨q, depth⟩ = .read [] ⟨q, depth⟩ := by
  rw [Rule.eval_eq]
  simp only [Rule.script, handlers]
  rw [eval_bind_of eval_here, eval_bind_of (eval_accept_of_ne hk)]
  rfl

theorem block_none {label : Option String} {s : ParseState}
    (hk : (symbols.symbolAt s.position).kind ≠ .leftBrace) :
    (run (.block label)).eval symbols limit s = .read none s := by
  rw [eval_run, Rule.eval_eq]
  simp only [Rule.script, block]
  rw [eval_bind_of eval_here, eval_bind_of (eval_accept_of_ne hk)]
  rfl

theorem payload_none {s : ParseState} (hk : (symbols.symbolAt s.position).kind ≠ .pipe) :
    payload.eval symbols limit s = .read none s := by
  simp only [payload]
  rw [eval_bind_of (eval_accept_of_ne hk)]
  rfl

theorem handlers_step {rhs : Tree} {rest : List (Nat × Option String × Tree)} {t t' : ParseState}
    (hk : (symbols.symbolAt q).kind = .kwCatch)
    (hpipe : (symbols.symbolAt (symbols.next q)).kind ≠ .pipe)
    (hbrace : (symbols.symbolAt (symbols.next q)).kind ≠ .leftBrace)
    (hrhs : (run (.level .bitwise)).eval symbols limit ⟨symbols.next q, depth⟩ =
      .read (some rhs) t)
    (hrest : (run .handlers).eval symbols limit t = .read rest t') :
    Rule.eval symbols limit .handlers ⟨q, depth⟩ = .read ((q, none, rhs) :: rest) t' := by
  rw [Rule.eval_eq]
  simp only [Rule.script, handlers]
  rw [eval_bind_of eval_here, eval_bind_of (eval_accept hk)]
  simp only [if_true]
  rw [eval_bind_of (payload_none hpipe), eval_bind_of (block_none hbrace)]
  simp only
  rw [eval_bind_of (eval_require hrhs), eval_bind_of hrest]
  rfl

theorem handlers_cons {o : Link} {right last : List Link}
    (htail : Tail symbols q (o :: links) stop) (ho : o.tightness = 3)
    (hr : ∀ o' ∈ right, 3 < o'.tightness)
    (hrhs : (run (.level .bitwise)).eval symbols limit ⟨q + 1, depth⟩ =
      .read (some (reference (q + 1) o.operand right)) ⟨q + 2 + 2 * right.length, depth⟩)
    (hlast : ReadsLinks symbols limit depth 3 (q + 2 + 2 * right.length) last (run .handlers)
      groupHandlers) :
    ReadsLinks symbols limit depth 3 q (o :: (right ++ last)) (run .handlers) groupHandlers := by
  have hoperator : o.operator.kind = .kwCatch := TokenKind.tightness_eq_three.mp ho
  have hcatch : (symbols.symbolAt q).kind = .kwCatch := by rw [htail.symbolAt_cons, hoperator]
  have hbrace := htail.row.kind_ne (k := .leftBrace) (by decide)
  have hpipe := htail.row.kind_ne (k := .pipe) (by decide)
  rw [← htail.next] at hbrace hpipe
  rw [← htail.next] at hrhs
  apply ReadsLinks.cons ho hr hlast
  intro rest s hrest
  refine ⟨_, (eval_run _).trans (handlers_step hcatch hpipe hbrace hrhs hrest), ?_⟩
  simp only [Link.form, hoperator, ← htail.next]
  rfl

theorem handlers_reads (h : Reads symbols limit 4) (depth : Nat)
    (htail : Tail symbols q links stop) :
    ReadsLinks symbols limit depth 3 q (Link.more 3 links) (run .handlers) groupHandlers := by
  induction hn : links.length using Nat.strongRecOn generalizing links q with
  | ind n ih =>
    cases links with
    | nil =>
      have hk : (symbols.symbolAt q).kind ≠ .kwCatch := by
        rw [htail.symbolAt_nil, htail.stops]
        decide
      exact ⟨[], (eval_run _).trans (handlers_stop hk), Groups.nil⟩
    | cons o links =>
      by_cases ho : o.tightness = 3
      · have hrow := htail.row
        have hlast := hrow.tail.drop_taken 4 false
        rw [Link.more_of_eq ho, if_neg (by decide)]
        refine handlers_cons htail ho (fun o' => Link.le_of_mem_taken) (h depth hrow) ?_
        refine ih _ ?_ hlast rfl
        rw [← hn, List.length_drop, List.length_cons]
        omega
      · have hk : (symbols.symbolAt q).kind ≠ .kwCatch := by
          intro hk
          rw [htail.symbolAt_cons] at hk
          exact ho (TokenKind.tightness_eq_three.mpr hk)
        rw [Link.more_of_ne ho]
        exact ⟨[], (eval_run _).trans (handlers_stop hk), Groups.nil⟩

theorem recovery_reads (h : Reads symbols limit 4) : Reads symbols limit 3 := by
  refine reads_of_links h (handlers_reads h) fun s => ?_
  change (run .recovery).eval symbols limit s = _
  rw [eval_run, Rule.eval_eq]
  rfl

/-- No link of a row binds tighter than an operand. -/
theorem operand_reads : Reads symbols limit 8 := by
  intro depth p first stop links hrow
  have htaken : Link.taken 8 false links = [] := by
    cases links with
    | nil => rfl
    | cons o links => rw [Link.taken, if_pos (.inl (hrow.tail.sound o List.mem_cons_self).operator)]
  rw [htaken]
  exact (eval_run _).trans (unary_reads hrow)

/-- The loosest level reads rows. -/
theorem conjunction_reads : Reads symbols limit 0 := by
  have hproduct : Reads symbols limit 7 := level_reads (l := .product) (by decide) operand_reads
  have hsum : Reads symbols limit 6 := level_reads (l := .sum) (by decide) hproduct
  have hshift : Reads symbols limit 5 := level_reads (l := .shift) (by decide) hsum
  have hbitwise : Reads symbols limit 4 := level_reads (l := .bitwise) (by decide) hshift
  have hrecovery : Reads symbols limit 3 := recovery_reads hbitwise
  have hcomparison : Reads symbols limit 2 := level_reads (l := .comparison) (by decide) hrecovery
  have hdisjunction : Reads symbols limit 1 :=
    level_reads (l := .disjunction) (by decide) hcomparison
  exact level_reads (l := .conjunction) (by decide) hdisjunction

end FrontEnd.Grammar
