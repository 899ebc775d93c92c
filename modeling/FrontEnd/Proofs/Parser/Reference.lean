import FrontEnd.Parser.Grammar.Primaries

/-!
Rows of operands with binary operators between them, and the tree that a row stands
for: the row is split at the rightmost of its loosest operators, and so are the two
parts. Comparisons may not stand in a row.
-/

namespace FrontEnd

/-- How tightly a binary operator binds, and more than any for all other kinds. -/
def TokenKind.tightness : TokenKind → Nat
  | .andAnd | .kwAnd => 0
  | .orOr | .kwOr => 1
  | .equal | .notEqual | .less | .greater | .lessEqual | .greaterEqual => 2
  | .kwCatch => 3
  | .ampersand | .pipe | .caret | .andNot | .kwOrElse => 4
  | .shiftLeft | .shiftRight => 5
  | .plus | .minus => 6
  | .star | .slash | .percent => 7
  | _ => 8

def TokenKind.binary? : TokenKind → Option BinaryOp
  | .andAnd | .kwAnd => some .boolAnd
  | .orOr | .kwOr => some .boolOr
  | .equal => some .equal
  | .notEqual => some .notEqual
  | .less => some .less
  | .greater => some .greater
  | .lessEqual => some .lessEqual
  | .greaterEqual => some .greaterEqual
  | .ampersand => some .bitAnd
  | .pipe => some .bitOr
  | .caret => some .bitXor
  | .andNot => some .bitAndNot
  | .kwOrElse => some .orElse
  | .shiftLeft => some .shiftLeft
  | .shiftRight => some .shiftRight
  | .plus => some .add
  | .minus => some .subtract
  | .star => some .multiply
  | .slash => some .divide
  | .percent => some .modulo
  | _ => none

theorem TokenKind.binary?_isSome {k : TokenKind} (h : k.tightness < 8) (hk : k ≠ .kwCatch) :
    ∃ op, k.binary? = some op := by
  apply Option.isSome_iff_exists.mp
  cases k <;> first | rfl | exact absurd rfl hk | exact absurd h (by decide)

theorem TokenKind.tightness_eq_three {k : TokenKind} : k.tightness = 3 ↔ k = .kwCatch := by
  cases k <;> decide

/-- How tightly the operators of a level bind. Assignments stand in no row. -/
def Level.tightness : Level → Nat
  | .assignment => 9
  | .conjunction => 0
  | .disjunction => 1
  | .comparison => 2
  | .bitwise => 4
  | .shift => 5
  | .sum => 6
  | .product => 7

/-- The operators of a level are all of its band. -/
theorem Level.operator?_eq_table (l : Level) (k : TokenKind) : l.operator? k = l.table k := by
  cases l <;> cases k <;> rfl

theorem Level.operator?_eq {l : Level} (hl : l ≠ .assignment) (k : TokenKind) :
    l.operator? k = if k.tightness = l.tightness then k.binary? else none := by
  rw [operator?_eq_table]
  cases l <;> first | exact absurd rfl hl | cases k <;> rfl

theorem Level.chains_eq {l : Level} (hl : l ≠ .assignment) :
    l.chains = decide (l.tightness ≠ 2) := by
  cases l <;> first | rfl | exact absurd rfl hl

/-- An operator and the operand behind it. -/
structure Link where
  operator : Symbol
  operand : Symbol
  deriving DecidableEq, Repr

namespace Link

def tightness (o : Link) : Nat := o.operator.kind.tightness

/-- What an operator makes of the trees on its two sides. -/
def form (o : Link) (lhs rhs : Tree) : Form Tree :=
  match o.operator.kind.binary? with
  | some op => .binary op lhs rhs
  | none => .recovery lhs none rhs

/-- The links before and behind the rightmost of the loosest operators. -/
def split? : List Link → Option (List Link × Link × List Link)
  | [] => none
  | o :: rest =>
    match split? rest with
    | none => some ([], o, [])
    | some (left, m, right) =>
      if m.tightness ≤ o.tightness then some (o :: left, m, right) else some ([], o, rest)

theorem eq_nil_of_split? {links : List Link} (h : split? links = none) : links = [] := by
  cases links with
  | nil => rfl
  | cons o rest =>
    rw [split?] at h
    split at h
    · cases h
    · split at h <;> cases h

/-- A split is at the operator that is no tighter than those on its left and looser
than those on its right. -/
theorem loosest_of_split? {links left right : List Link} {m : Link}
    (h : split? links = some (left, m, right)) : left ++ m :: right = links ∧
      (∀ o ∈ left, m.tightness ≤ o.tightness) ∧ ∀ o ∈ right, m.tightness < o.tightness := by
  induction links generalizing left m right with
  | nil => cases h
  | cons o rest ih =>
    rw [split?] at h
    split at h
    · rename_i hrest
      cases h
      rw [eq_nil_of_split? hrest]
      exact ⟨rfl, by simp, by simp⟩
    · rename_i left' m' right' hrest
      obtain ⟨happend, hl, hr⟩ := ih hrest
      split at h
      · rename_i hle
        cases h
        exact ⟨congrArg (o :: ·) happend, List.forall_mem_cons.mpr ⟨hle, hl⟩, hr⟩
      · rename_i hlt
        cases h
        refine ⟨rfl, by simp, fun o' ho' => ?_⟩
        rw [← happend] at ho'
        rcases List.mem_append.mp ho' with h' | h'
        · have hle := hl o' h'
          omega
        · rcases List.mem_cons.mp h' with rfl | h'
          · omega
          · have hgt := hr o' h'
            omega

/-- There is no other operator to split at. -/
theorem split?_of_loosest {left right : List Link} {m : Link}
    (hl : ∀ o ∈ left, m.tightness ≤ o.tightness) (hr : ∀ o ∈ right, m.tightness < o.tightness) :
    split? (left ++ m :: right) = some (left, m, right) := by
  induction left with
  | nil =>
    rw [List.nil_append, split?]
    cases h : split? right with
    | none => rw [eq_nil_of_split? h]
    | some found =>
      obtain ⟨left', m', right'⟩ := found
      have hm := hr m' (by simp [← (loosest_of_split? h).1])
      have hgt : ¬m'.tightness ≤ m.tightness := by omega
      simp only [if_neg hgt]
  | cons o left ih =>
    have ho := hl o List.mem_cons_self
    have hrest := ih fun o' h' => hl o' (List.mem_cons_of_mem o h')
    rw [List.cons_append, split?, hrest]
    simp only [if_pos ho]

end Link

/-- The tree of an operand that stands at `p`, with links behind it. -/
def reference (p : Nat) (first : Symbol) (links : List Link) : Tree :=
  match h : Link.split? links with
  | none => .node p (first.leaf?.getD .nil)
  | some (left, o, right) =>
    .node (p + 2 * left.length + 1)
      (o.form (reference p first left) (reference (p + 2 * left.length + 2) o.operand right))
termination_by links.length
decreasing_by
  all_goals
    have := congrArg List.length (Link.loosest_of_split? h).1
    simp at this
    omega

theorem reference_nil {p : Nat} {first : Symbol} {form : Form Tree}
    (h : first.leaf? = some form) : reference p first [] = .node p form := by
  rw [reference]
  simp [Link.split?, h]

theorem reference_append {p : Nat} {first : Symbol} {left right : List Link} {o : Link}
    (hl : ∀ o' ∈ left, o.tightness ≤ o'.tightness)
    (hr : ∀ o' ∈ right, o.tightness < o'.tightness) :
    reference p first (left ++ o :: right) =
      .node (p + 2 * left.length + 1) (o.form (reference p first left)
        (reference (p + 2 * left.length + 2) o.operand right)) := by
  rw [reference]
  have h := Link.split?_of_loosest hl hr
  split
  · rename_i hn
    rw [h] at hn
    cases hn
  · rename_i hs
    rw [h] at hs
    cases hs
    rfl

/-! ## What a level reads -/

namespace Link

/-- Whether a comparison stands before what follows the link, with none of the two
loosest operators between. -/
def after (seen : Bool) (o : Link) : Bool :=
  if o.tightness ≤ 1 then false else seen || o.tightness = 2

/-- The links that a level reads behind its first operand. -/
def taken (t : Nat) : (seen : Bool) → List Link → List Link
  | _, [] => []
  | seen, o :: rest =>
    if o.tightness < t ∨ seen = true ∧ o.tightness = 2 then []
    else o :: taken t (o.after seen) rest

/-- The links that a level reads behind an operand of the next tighter level. -/
def more (t : Nat) : List Link → List Link
  | [] => []
  | o :: rest => if o.tightness = t then o :: taken (if t = 2 then 3 else t) false rest else []

variable {t : Nat} {seen : Bool} {links : List Link}

theorem taken_append_drop (t : Nat) (seen : Bool) (links : List Link) :
    taken t seen links ++ links.drop (taken t seen links).length = links := by
  induction links generalizing seen with
  | nil => rfl
  | cons o rest ih =>
    rw [taken]
    split
    · rfl
    · simpa using ih (o.after seen)

theorem le_of_mem_taken {o : Link} (h : o ∈ taken t seen links) : t ≤ o.tightness := by
  induction links generalizing seen with
  | nil => cases h
  | cons o' rest ih =>
    rw [taken] at h
    split at h
    · cases h
    · rename_i ho
      rcases List.mem_cons.mp h with rfl | h
      · omega
      · exact ih h

/-- A level tighter than comparisons does not care about them. -/
theorem taken_seen (ht : 3 ≤ t) (seen seen' : Bool) (links : List Link) :
    taken t seen links = taken t seen' links := by
  induction links generalizing seen seen' with
  | nil => rfl
  | cons o rest ih =>
    rw [taken, taken, ih (o.after seen) (o.after seen')]
    by_cases ho : o.tightness < t
    · rw [if_pos (.inl ho), if_pos (.inl ho)]
    · rw [if_neg (by omega), if_neg (by omega)]

/-- Behind a comparison the level of comparisons reads as the next one does. -/
theorem taken_two (links : List Link) : taken 2 true links = taken 3 false links := by
  induction links with
  | nil => rfl
  | cons o rest ih =>
    rw [taken, taken]
    by_cases ho : o.tightness < 3
    · rw [if_pos (by simp; omega), if_pos (.inl ho)]
    · have hs (seen : Bool) : o.after seen = seen := by
        rw [after, if_neg (by omega)]
        simp
        omega
      rw [if_neg (by simp; omega), if_neg (by simp; omega), hs, hs, ih]

theorem taken_after {o : Link} (ho : o.tightness = t) (seen : Bool) (rest : List Link) :
    taken t (o.after seen) rest = taken (if t = 2 then 3 else t) false rest := by
  by_cases ht : t = 2
  · have hs : o.after seen = true := by simp [after, ho, ht]
    rw [if_pos ht, hs, ht, taken_two]
  · rw [if_neg ht]
    by_cases hle : t ≤ 1
    · have hs : o.after seen = false := by rw [after, if_pos (by omega)]
      rw [hs]
    · exact taken_seen (by omega) _ _ rest

/-- A level reads what the next tighter one does and goes on at an operator of its own. -/
theorem taken_succ (hs : t = 2 → seen = false) (links : List Link) :
    taken t seen links =
      taken (t + 1) seen links ++ more t (links.drop (taken (t + 1) seen links).length) := by
  induction links generalizing seen with
  | nil => rfl
  | cons o rest ih =>
    rw [taken, taken]
    by_cases hclash : seen = true ∧ o.tightness = 2
    · have hne : o.tightness ≠ t := by
        rintro rfl
        rw [hs hclash.2] at hclash
        cases hclash.1
      rw [if_pos (.inr hclash), if_pos (.inr hclash)]
      simp [more, hne]
    · rcases Nat.lt_trichotomy o.tightness t with ho | ho | ho
      · have hne : o.tightness ≠ t := by omega
        rw [if_pos (.inl ho), if_pos (.inl (by omega))]
        simp [more, hne]
      · rw [if_neg (not_or_intro (by omega) hclash), if_pos (.inl (by omega)),
          taken_after ho]
        simp [more, ho]
      · have hafter : t = 2 → o.after seen = false := by
          intro ht
          rw [after, hs ht, if_neg (by omega)]
          simp
          omega
        rw [if_neg (not_or_intro (by omega) hclash),
          if_neg (not_or_intro (by omega) hclash)]
        simpa using ih hafter

theorem more_of_ne {o : Link} (ho : o.tightness ≠ t) (rest : List Link) :
    more t (o :: rest) = [] := by
  rw [more, if_neg ho]

/-- Behind an operator of a level stand the links of the next tighter level, and then
the level goes on unless its operators are comparisons. -/
theorem more_of_eq {o : Link} (ho : o.tightness = t) (rest : List Link) :
    more t (o :: rest) = o :: (taken (t + 1) false rest ++
      if t = 2 then [] else more t (rest.drop (taken (t + 1) false rest).length)) := by
  rw [more, if_pos ho]
  by_cases ht : t = 2
  · rw [if_pos ht, if_pos ht, List.append_nil, ht]
  · rw [if_neg ht, if_neg ht, taken_succ (fun _ => rfl)]

/-! ## Comparisons in a row -/

/-- The operator at `i` is a comparison. -/
def comparesAt (links : List Link) (i : Nat) : Prop := ∃ o, links[i]? = some o ∧ o.tightness = 2

/-- Comparison `i` stands in a row with an earlier one: no operator of the two loosest
levels is between them. -/
def Clashes (links : List Link) (i : Nat) : Prop :=
  comparesAt links i ∧ ∃ j < i, comparesAt links j ∧
    ∀ k o, j < k → k < i → links[k]? = some o → 2 ≤ o.tightness

/-- The same where a comparison may stand before the links. -/
def ClashesBehind (seen : Bool) (links : List Link) (i : Nat) : Prop :=
  comparesAt links i ∧ (seen = true ∧ (∀ k o, k < i → links[k]? = some o → 2 ≤ o.tightness) ∨
    ∃ j < i, comparesAt links j ∧ ∀ k o, j < k → k < i → links[k]? = some o → 2 ≤ o.tightness)

theorem clashesBehind_false {i : Nat} : ClashesBehind false links i ↔ Clashes links i := by
  simp [ClashesBehind, Clashes]

theorem comparesAt_succ {o : Link} {rest : List Link} {i : Nat} :
    comparesAt (o :: rest) (i + 1) ↔ comparesAt rest i := by
  simp [comparesAt]

theorem comparesAt_zero {o : Link} {rest : List Link} :
    comparesAt (o :: rest) 0 ↔ o.tightness = 2 := by
  simp [comparesAt]

theorem clashesBehind_zero {o : Link} {rest : List Link} :
    ClashesBehind seen (o :: rest) 0 ↔ seen = true ∧ o.tightness = 2 := by
  simp [ClashesBehind, comparesAt_zero, and_comm]

theorem clashesBehind_succ {o : Link} {rest : List Link} {i : Nat} :
    ClashesBehind seen (o :: rest) (i + 1) ↔ ClashesBehind (o.after seen) rest i := by
  unfold ClashesBehind
  rw [comparesAt_succ]
  apply and_congr_right
  intro _
  have hafter : o.after seen = true ↔ 2 ≤ o.tightness ∧ (seen = true ∨ o.tightness = 2) := by
    unfold after
    split
    · simp
      omega
    · simp
      omega
  rw [hafter]
  constructor
  · rintro (⟨hseen, hall⟩ | ⟨j, hj, hcompares, hall⟩)
    · refine .inl ⟨⟨hall 0 o (by omega) rfl, .inl hseen⟩, fun k o' hk h' => ?_⟩
      exact hall (k + 1) o' (by omega) h'
    · cases j with
      | zero =>
        have ho := comparesAt_zero.mp hcompares
        refine .inl ⟨⟨by omega, .inr ho⟩, fun k o' hk h' => ?_⟩
        exact hall (k + 1) o' (by omega) (by omega) h'
      | succ j =>
        refine .inr ⟨j, by omega, comparesAt_succ.mp hcompares, fun k o' hjk hk h' => ?_⟩
        exact hall (k + 1) o' (by omega) (by omega) h'
  · rintro (⟨⟨ho, hseen | htwo⟩, hall⟩ | ⟨j, hj, hcompares, hall⟩)
    · refine .inl ⟨hseen, fun k o' hk h' => ?_⟩
      cases k with
      | zero =>
        cases h'
        exact ho
      | succ k => exact hall k o' (by omega) h'
    · refine .inr ⟨0, by omega, comparesAt_zero.mpr htwo, fun k o' hpos hk h' => ?_⟩
      cases k with
      | zero => omega
      | succ k => exact hall k o' (by omega) h'
    · refine .inr ⟨j + 1, by omega, comparesAt_succ.mpr hcompares, fun k o' hjk hk h' => ?_⟩
      cases k with
      | zero => omega
      | succ k => exact hall k o' (by omega) (by omega) h'

/-- The loosest level stops at the first comparison that stands in a row with another. -/
theorem clashes_taken (seen : Bool) (links : List Link) :
    (∀ i, ClashesBehind seen links i → (taken 0 seen links).length ≤ i) ∧
      ((taken 0 seen links).length < links.length →
        ClashesBehind seen links (taken 0 seen links).length) := by
  induction links generalizing seen with
  | nil => exact ⟨fun _ _ => Nat.zero_le _, fun h => absurd h (Nat.lt_irrefl _)⟩
  | cons o rest ih =>
    rw [taken]
    by_cases hclash : seen = true ∧ o.tightness = 2
    · rw [if_pos (.inr hclash)]
      exact ⟨fun _ _ => Nat.zero_le _, fun _ => clashesBehind_zero.mpr hclash⟩
    · rw [if_neg (not_or_intro (by omega) hclash)]
      obtain ⟨hle, hlt⟩ := ih (o.after seen)
      constructor
      · intro i hi
        cases i with
        | zero => exact absurd (clashesBehind_zero.mp hi) hclash
        | succ i => exact Nat.succ_le_succ (hle i (clashesBehind_succ.mp hi))
      · intro h
        exact clashesBehind_succ.mpr (hlt (Nat.lt_of_succ_lt_succ h))

theorem taken_eq_self (h : ∀ i, ¬Clashes links i) : taken 0 false links = links := by
  have happend := taken_append_drop 0 false links
  obtain ⟨-, hlt⟩ := clashes_taken false links
  have hlength : links.length ≤ (taken 0 false links).length := by
    apply Nat.le_of_not_lt
    intro hl
    exact h _ (clashesBehind_false.mp (hlt hl))
  rwa [List.drop_eq_nil_of_le hlength, List.append_nil] at happend

theorem length_taken_le {i : Nat} (hi : Clashes links i) : (taken 0 false links).length ≤ i :=
  (clashes_taken false links).1 i (clashesBehind_false.mpr hi)

theorem length_taken_lt {i : Nat} (hi : Clashes links i) :
    (taken 0 false links).length < links.length := by
  obtain ⟨o, ho, -⟩ := hi.1
  obtain ⟨hlt, -⟩ := List.getElem?_eq_some_iff.mp ho
  exact Nat.lt_of_le_of_lt (length_taken_le hi) hlt

theorem length_taken_eq {i : Nat} (hi : Clashes links i) (hfirst : ∀ j < i, ¬Clashes links j) :
    (taken 0 false links).length = i := by
  apply Nat.le_antisymm (length_taken_le hi)
  apply Nat.le_of_not_lt
  intro hlt
  have hclash := (clashes_taken false links).2 (length_taken_lt hi)
  exact hfirst _ hlt (clashesBehind_false.mp hclash)

end Link

end FrontEnd
