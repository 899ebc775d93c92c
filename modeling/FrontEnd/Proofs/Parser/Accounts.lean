import FrontEnd.Proofs.Lexer.Spelling
import FrontEnd.Proofs.Parser.Eval
import FrontEnd.Proofs.Tree.Names
import FrontEnd.Token.Stream

/-!
Keeping account of names. A script that was handed some names and reads on from a
position accounts for them if the names of what it gives are those handed to it
and those between the two positions, in order. Steps that read no name, steps that
read one and rules are put together by `accounts_bind`.
-/

namespace FrontEnd

namespace Symbols

/-- The names among the symbols from a position on. -/
def namesFrom (symbols : Symbols) (p : Nat) : List Symbol :=
  (symbols.toList.drop p).filter (·.kind.isName)

variable {symbols : Symbols} {p : Nat}

theorem namesFrom_eq_nil (h : symbols.size ≤ p) : symbols.namesFrom p = [] := by
  unfold namesFrom
  rw [List.drop_eq_nil_of_le (by simpa using h), List.filter_nil]

theorem namesFrom_of_lt (h : p < symbols.size) :
    symbols.namesFrom p =
      [symbols.symbolAt p].filter (·.kind.isName) ++ symbols.namesFrom (symbols.next p) := by
  have hnext : symbols.next p = p + 1 := by simp [next, h]
  have hat : symbols.symbolAt p = symbols.toList[p] := by simp [symbolAt, h]
  unfold namesFrom
  rw [hnext, hat, ← List.filter_append, List.singleton_append,
    ← List.drop_eq_getElem_cons (by simpa using h)]

/-- A symbol that is no name leaves the names as they are. -/
theorem namesFrom_next (h : (symbols.symbolAt p).kind.isName = false) :
    symbols.namesFrom p = symbols.namesFrom (symbols.next p) := by
  by_cases hp : p < symbols.size
  · rw [namesFrom_of_lt hp]
    simp [h]
  · simp [next, hp]

theorem namesFrom_cons (h : (symbols.symbolAt p).kind.isName = true) :
    symbols.namesFrom p = symbols.symbolAt p :: symbols.namesFrom (symbols.next p) := by
  have hp : p < symbols.size := by
    apply lt_size_of_kind
    intro he
    rw [he] at h
    cases h
  rw [namesFrom_of_lt hp]
  simp [h]

theorem namesFrom_identifier (h : (symbols.symbolAt p).kind = .identifier) :
    symbols.namesFrom p =
      .name (symbols.symbolAt p).text :: symbols.namesFrom (symbols.next p) := by
  have hat : symbols.symbolAt p = .name (symbols.symbolAt p).text := by
    rw [Symbol.name, ← h]
  rw [namesFrom_cons (by rw [h]; rfl), ← hat]

end Symbols

/-! ## What rules account for -/

@[simp] def Suffix.names : Suffix → List Symbol
  | .access name => [.name name]
  | .index position => position.names
  | .slice start stop sentinel => start.names ++ stop.names ++ (sentinel.map Tree.names).getD []
  | .call args => (args.map Tree.names).flatten

/-- The names that the rule was handed and puts into its tree. -/
@[simp] def Rule.given : Rule → List Symbol
  | .block label | .loop label | .whileLoop label => labelNames label
  | _ => []

/-- The names of what the rule gives. A block that does not begin leaves the label as it was. -/
@[simp] def Rule.names : (r : Rule) → r.Result → List Symbol
  | .unit, v | .fields, v | .statements, v | .listed _, v => (v.map Tree.names).flatten
  | .statement, v | .labelled, v | .expression, v | .level _, v | .recovery, v | .unary, v
  | .suffixed, v | .primary, v | .type, v => (v.map Tree.names).getD []
  | .block label, v => (v.map Tree.names).getD (labelNames label)
  | .function, v | .prototype _ _, v | .record, v | .enumeration, v | .declaration, v | .body, v
  | .conditional, v | .loop _, v | .whileLoop _, v | .selection, v | .operand, v
  | .innerType, v => v.names
  | .params, v => v.flatMap fun p => (p.map Tree.names).names
  | .variants, v => v.flatMap fun x => (x.map Tree.names).names
  | .modifiers, _ | .attempts, _ => []
  | .branches, v => v.flatMap fun b => (b.map Tree.names).names
  | .branch, v => (v.map Tree.names).names
  | .items, v => v.flatMap fun i => (i.map Tree.names).names
  | .operands _, v => v.flatMap fun x => x.2.2.names
  | .handlers, v => v.flatMap fun x => labelNames x.2.1 ++ x.2.2.names
  | .suffixes, v => v.flatMap fun x => x.2.names

/-- What is said of every rule: no name is lost, added or moved. -/
def account (symbols : Symbols) : Contract :=
  .free fun r p v q => r.given ++ symbols.namesFrom p = r.names v ++ symbols.namesFrom q

namespace Script

variable {α β : Type} {symbols : Symbols} {p : Nat} {front : List Symbol}

/-- Handed the names `front` at `p`, the script gives them and those it reads. -/
def Accounts (symbols : Symbols) (p : Nat) (x : Script α) (front : List Symbol)
    (names : α → List Symbol) : Prop :=
  ∀ limit depth, x.Ensures (account symbols) symbols limit depth p fun v q =>
    front ++ symbols.namesFrom p = names v ++ symbols.namesFrom q

/-- What a script reads comes behind what it was handed. -/
theorem Accounts.behind {x : Script α} {f : α → List Symbol} (h : Accounts symbols p x [] f)
    (front : List Symbol) : Accounts symbols p x front fun v => front ++ f v := by
  intro limit depth
  refine (h limit depth).mono fun v q hv => ?_
  rw [List.nil_append] at hv
  rw [hv, List.append_assoc]

theorem accounts_bind_of {x : Script α} {f : α → List Symbol} {g : α → Script β}
    {names : β → List Symbol} (hx : Accounts symbols p x front f)
    (hg : ∀ v q, Accounts symbols q (g v) (f v) names) :
    Accounts symbols p (x >>= g) front names := by
  intro limit depth
  rw [ensures_bind]
  refine (hx limit depth).mono fun v q hv => ?_
  rw [hv]
  exact hg v q limit depth

theorem accounts_bind {x : Script α} {f : α → List Symbol} {g : α → Script β}
    {names : β → List Symbol} (hx : Accounts symbols p x [] f)
    (hg : ∀ v q, Accounts symbols q (g v) (front ++ f v) names) :
    Accounts symbols p (x >>= g) front names :=
  accounts_bind_of (hx.behind front) hg

theorem accounts_pure {v : α} {names : α → List Symbol} (h : names v = front) :
    Accounts symbols p (pure v) front names := by
  intro limit depth
  rw [ensures_pure, h]

theorem accounts_pure_bind {v : α} {g : α → Script β} {names : β → List Symbol}
    (h : Accounts symbols p (g v) front names) :
    Accounts symbols p (pure v >>= g) front names := h

theorem accounts_map {x : Script α} {f : α → List Symbol} {g : α → β} {names : β → List Symbol}
    (hx : Accounts symbols p x front f) (hg : ∀ v, names (g v) = f v) :
    Accounts symbols p (g <$> x) front names := by
  intro limit depth
  rw [ensures_map]
  refine (hx limit depth).mono fun v q hv => ?_
  rw [hg, hv]

theorem accounts_fail {cause : Cause} {names : α → List Symbol} :
    Accounts symbols p (fail cause) front names := fun _ _ => trivial

theorem accounts_failing {what : Expectation} {names : α → List Symbol} :
    Accounts symbols p (failing what) front names := fun _ _ => trivial

theorem accounts_run (r : Rule) : Accounts symbols p (run r) r.given r.names :=
  fun _ _ => ⟨trivial, fun _ _ h => h⟩

theorem accounts_deeper (r : Rule) : Accounts symbols p (deeper r) r.given r.names :=
  fun _ _ _ => ⟨trivial, fun _ _ h => h⟩

theorem accounts_sight : Accounts symbols p sight [] fun _ => [] := fun _ _ => rfl

theorem accounts_here : Accounts symbols p here [] fun _ => [] := fun _ _ => rfl

/-- What was seen at `p` may be used at `p`. -/
theorem accounts_sight_bind {g : Sight → Script α} {names : α → List Symbol}
    (h : Accounts symbols p (g (symbols.sight p)) front names) :
    Accounts symbols p (sight >>= g) front names := h

theorem accounts_take (h : (symbols.symbolAt p).kind.isName = false) :
    Accounts symbols p (take (done ())) [] fun _ => [] := by
  intro limit depth
  rw [ensures_take, ensures_done, Symbols.namesFrom_next h]

theorem accounts_take_name (h : (symbols.symbolAt p).kind.isName = true) :
    Accounts symbols p (take (done ())) [] fun _ => [symbols.symbolAt p] := by
  intro limit depth
  rw [ensures_take, ensures_done, Symbols.namesFrom_cons h]
  rfl

/-- A name and a mark behind it. -/
theorem accounts_take_both (h : (symbols.symbolAt p).kind = .identifier)
    (hnext : (symbols.symbolAt (p + 1)).kind.isName = false) :
    Accounts symbols p (take (take (done ()))) [] fun _ => [.name (symbols.symbolAt p).text] := by
  intro limit depth
  have hp : symbols.next p = p + 1 := Symbols.next_eq (by rw [h]; decide)
  rw [ensures_take, ensures_take, ensures_done, Symbols.namesFrom_identifier h, hp,
    Symbols.namesFrom_next hnext]
  rfl

theorem accounts_accept {kind : TokenKind} (hk : kind.isName = false) :
    Accounts symbols p (accept kind) [] fun _ => [] := by
  intro limit depth
  rw [ensures_accept]
  exact ⟨fun h => by rw [Symbols.namesFrom_next (by rw [h, hk])], fun _ => rfl⟩

theorem accounts_acceptText : Accounts symbols p (acceptText .identifier) [] labelNames := by
  intro limit depth
  rw [ensures_acceptText]
  exact ⟨fun h => Symbols.namesFrom_identifier h, fun _ => rfl⟩

theorem accounts_expect {kind : TokenKind} (hk : kind.isName = false) :
    Accounts symbols p (expect kind) [] fun _ => [] := by
  intro limit depth
  rw [ensures_expect]
  exact fun h => by rw [Symbols.namesFrom_next (by rw [h, hk])]

theorem accounts_expect_name :
    Accounts symbols p (expect .identifier) [] fun text => [.name text] := by
  intro limit depth
  rw [ensures_expect]
  exact fun h => Symbols.namesFrom_identifier h

theorem accounts_require {what : Expectation} {x : Script (Option Tree)}
    (hx : Accounts symbols p x front fun v => (v.map Tree.names).getD []) :
    Accounts symbols p (require what x) front Tree.names := by
  intro limit depth
  rw [ensures_require]
  refine (hx limit depth).mono fun v q hv t ht => ?_
  subst ht
  exact hv

end Script

/-! ## Productions -/

/-- Words with a meaning of their own are spelled as their kind is named. -/
def Symbols.Regular (symbols : Symbols) : Prop :=
  ∀ p, (symbols.symbolAt p).kind.isFixed = true →
    (symbols.symbolAt p).text = (symbols.symbolAt p).kind.name

/-- The script of the rule keeps the account of names. -/
def Rule.Accounts (symbols : Symbols) (r : Rule) : Prop :=
  ∀ p, Script.Accounts symbols p r.script r.given r.names

end FrontEnd
