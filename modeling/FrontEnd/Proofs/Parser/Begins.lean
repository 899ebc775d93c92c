import FrontEnd.Proofs.Parser.Accounts.Expressions
import FrontEnd.Proofs.Tree.Anchors

/-!
What productions begin with. Of every rule the kinds are told that may stand where it found
something, as far as anchors depend on them; what a script reads behind its first step
does not matter here.
-/

namespace FrontEnd

/-- What stands at a position where the rule has read a value up to another. -/
def Rule.Begins (symbols : Symbols) : (r : Rule) → Nat → r.Result → Nat → Prop
  | .prototype isExport isExtern, p, v, _ => (symbols.symbolAt p).kind = .kwFunc ∧
    v.opener = if isExport then .kwExport else if isExtern then .kwExtern else .kwFunc
  | .modifiers, p, v, q =>
    v = (false, false) ∧ q = p ∨ v.1 = true ∧ (symbols.symbolAt p).kind = .kwMutable ∨
      v.2 = true ∧ (symbols.symbolAt p).kind = .kwConst
  | .attempts, p, v, q =>
    v = [] ∧ q = p ∨ (symbols.symbolAt p).kind = .kwTry
  | .primary, p, v, _ | .suffixed, p, v, _ =>
    v.isSome = true → (symbols.symbolAt p).kind.beginsOperand = true
  | .type, p, v, _ => v.isSome = true → (symbols.symbolAt p).kind.beginsType = true
  | .unary, p, v, _ | .level _, p, v, _ | .recovery, p, v, _ | .expression, p, v, _ =>
    v.isSome = true → (symbols.symbolAt p).kind.beginsExpression = true
  | .items, p, _, _ => (symbols.symbolAt p).kind.beginsExpression = true
  | _, _, _, _ => True

/-- The contract that all rules begin as they have to. -/
def beginnings (symbols : Symbols) : Contract := .free (Rule.Begins symbols)

namespace Script

variable {α β : Type} {symbols : Symbols} {limit depth p : Nat}

/-- What a script gives, where the rules that it calls begin as they have to. -/
def Begins (symbols : Symbols) (limit depth p : Nat) (x : Script α) (Q : α → Nat → Prop) : Prop :=
  x.Ensures (beginnings symbols) symbols limit depth p Q

theorem begins_any {x : Script α} {Q : α → Nat → Prop} (h : ∀ v q, Q v q) :
    Begins symbols limit depth p x Q :=
  (ensures_any (fun _ _ => trivial) x).mono fun v q _ => h v q

theorem begins_any_bind {x : Script α} {f : α → Script β} {Q : β → Nat → Prop}
    (hf : ∀ v q, Begins symbols limit depth q (f v) Q) :
    Begins symbols limit depth p (x >>= f) Q := Ensures.any_bind (fun _ _ => trivial) hf

theorem begins_run (r : Rule) :
    Begins symbols limit depth p (run r) (r.Begins symbols p) := ⟨trivial, fun _ _ h => h⟩

theorem begins_deeper (r : Rule) :
    Begins symbols limit depth p (deeper r) (r.Begins symbols p) :=
  fun _ => ⟨trivial, fun _ _ h => h⟩

theorem begins_require {what : Expectation} {x : Script (Option α)} {P : Prop}
    (hx : Begins symbols limit depth p x fun v _ => v.isSome = true → P) :
    Begins symbols limit depth p (require what x) fun _ _ => P := by
  refine Ensures.require (hx.mono fun v q hv t ht => hv ?_)
  rw [ht]
  rfl

/-- An option that is found only if the first step finds one. -/
theorem begins_bind_option {γ : Type} {x : Script (Option α)} {f : Option α → Script (Option γ)}
    {P : Prop} (hx : Begins symbols limit depth p x fun v _ => v.isSome = true → P)
    (hf : ∀ q, Begins symbols limit depth q (f none) fun v _ => v.isSome = true → P) :
    Begins symbols limit depth p (x >>= f) fun v _ => v.isSome = true → P := by
  refine Ensures.bind hx fun v q hv => ?_
  cases v with
  | none => exact hf q
  | some v => exact begins_any fun _ _ _ => hv rfl

end Script

/-- The script of the rule begins as the rule has to. -/
def Rule.BeginsWell (symbols : Symbols) (limit : Nat) (r : Rule) : Prop :=
  ∀ depth p, Script.Begins symbols limit depth p r.script (r.Begins symbols p)

namespace Grammar

open Script

variable (symbols : Symbols) (limit : Nat) {depth p : Nat}

theorem prototype_begins (isExport isExtern : Bool) :
    (Rule.prototype isExport isExtern).BeginsWell symbols limit := by
  intro depth p
  refine Ensures.here_bind (Ensures.expect_bind fun h => ?_)
  refine begins_any_bind fun name q => begins_any_bind fun _ q => begins_any_bind fun params q =>
    begins_any_bind fun _ q => begins_any_bind fun result q => ?_
  exact ⟨h, rfl⟩

theorem modifiers_begins : Rule.modifiers.BeginsWell symbols limit := by
  intro depth p
  refine Ensures.accept_bind (fun hmutable => ?_) fun _ =>
    Ensures.accept_bind (fun hconst => ?_) fun _ => ?_
  · exact (begins_run .modifiers).bind fun _ _ _ => .inr (.inl ⟨rfl, hmutable⟩)
  · exact (begins_run .modifiers).bind fun _ _ _ => .inr (.inr ⟨rfl, hconst⟩)
  · exact .inl ⟨rfl, rfl⟩

theorem attempts_begins : Rule.attempts.BeginsWell symbols limit := by
  intro depth p
  refine Ensures.here_bind (Ensures.accept_bind (fun htry => ?_) fun _ => .inl ⟨rfl, rfl⟩)
  exact Ensures.bind (begins_run .attempts) fun _ _ _ => .inr htry

theorem attempted_begins : Rule.expression.BeginsWell symbols limit := by
  intro depth p
  refine Ensures.bind (begins_run .attempts) fun tries q htries => ?_
  rcases htries with ⟨rfl, rfl⟩ | htry
  · exact begins_bind_option (begins_run (.level .conjunction)) fun _ => nofun
  · refine begins_any fun _ _ _ => ?_
    rw [htry]
    rfl

theorem operandOf_begins (l : Level) :
    Begins symbols limit depth p (operandOf l) fun v _ =>
      v.isSome = true → (symbols.symbolAt p).kind.beginsExpression = true := by
  cases l with
  | assignment => exact begins_deeper .expression
  | conjunction => exact begins_run (.level .disjunction)
  | disjunction => exact begins_run (.level .comparison)
  | comparison => exact begins_run .recovery
  | bitwise => exact begins_run (.level .shift)
  | shift => exact begins_run (.level .sum)
  | sum => exact begins_run (.level .product)
  | product => exact begins_run .unary

theorem level_begins (l : Level) : (Rule.level l).BeginsWell symbols limit :=
  fun _ _ => begins_bind_option (operandOf_begins symbols limit l) fun _ => nofun

theorem recovery_begins : Rule.recovery.BeginsWell symbols limit :=
  fun _ _ => begins_bind_option (begins_run (.level .bitwise)) fun _ => nofun

theorem unary_begins : Rule.unary.BeginsWell symbols limit := by
  intro depth p
  refine Ensures.sight_bind ?_
  split
  · rename_i op h
    refine begins_any fun _ _ _ => ?_
    rw [Symbols.sight_kind] at h
    rw [TokenKind.beginsExpression, h]
    simp
  refine Ensures.sight_bind (Ensures.ite (fun h => ?_) fun _ => ?_)
  · refine begins_any fun _ _ _ => ?_
    rw [← Symbols.sight_kind, h]
    rfl
  · refine (begins_run .suffixed).mono fun v q hv hsome => ?_
    rw [TokenKind.beginsExpression, hv hsome]
    rfl

theorem beginsOperand_of_leaf {s : Symbol} {form : Form Tree} (h : s.leaf? = some form) :
    s.kind.beginsOperand = true := by
  rw [TokenKind.beginsOperand, isName_of_leaf h, Bool.true_or]

theorem primary_begins : Rule.primary.BeginsWell symbols limit := by
  intro depth p
  have hkind {k : TokenKind} (h : (symbols.sight p).kind = k) (hk : k.beginsOperand = true) :
      (symbols.symbolAt p).kind.beginsOperand = true := by
    rwa [← Symbols.sight_kind, h]
  refine Ensures.sight_bind ?_
  split
  · rename_i form h
    exact begins_any fun _ _ _ => beginsOperand_of_leaf h
  · split
    · rename_i h
      exact begins_any fun _ _ _ => hkind h rfl
    · rename_i h
      exact begins_any fun _ _ _ => hkind h rfl
    · rename_i h
      exact begins_any fun _ _ _ => hkind h rfl
    · exact nofun

theorem suffixed_begins : Rule.suffixed.BeginsWell symbols limit :=
  fun _ _ => begins_bind_option (begins_run .primary) fun _ => nofun

theorem type_begins : Rule.type.BeginsWell symbols limit := by
  intro depth p
  have hmark {k : TokenKind} (h : (symbols.symbolAt p).kind = k) (hk : k.beginsType = true) :
      (symbols.symbolAt p).kind.beginsType = true := by
    rwa [h]
  refine Ensures.here_bind (Ensures.accept_bind (fun h => ?_) fun _ =>
    Ensures.accept_bind (fun h => ?_) fun _ => ?_)
  · exact begins_any fun _ _ _ => hmark h rfl
  · exact begins_any fun _ _ _ => hmark h rfl
  · refine (begins_run .suffixed).mono fun v q hv hsome => ?_
    rw [TokenKind.beginsType, hv hsome]
    rfl

theorem items_begins : Rule.items.BeginsWell symbols limit := by
  intro depth p
  have hitem : Begins symbols limit depth p item fun _ _ =>
      (symbols.symbolAt p).kind.beginsExpression = true :=
    Ensures.bind (begins_require (begins_deeper .expression)) fun _ _ h => begins_any fun _ _ => h
  exact Ensures.bind hitem fun _ _ h => begins_any fun _ _ => h

end Grammar

open Grammar in
theorem Rule.begins (symbols : Symbols) (limit : Nat) (r : Rule) : r.BeginsWell symbols limit := by
  cases r with
  | prototype isExport isExtern => exact prototype_begins symbols limit isExport isExtern
  | modifiers => exact modifiers_begins symbols limit
  | attempts => exact attempts_begins symbols limit
  | expression => exact attempted_begins symbols limit
  | level l => exact level_begins symbols limit l
  | recovery => exact recovery_begins symbols limit
  | unary => exact unary_begins symbols limit
  | primary => exact primary_begins symbols limit
  | suffixed => exact suffixed_begins symbols limit
  | type => exact type_begins symbols limit
  | items => exact items_begins symbols limit
  | _ => exact fun _ _ => Script.begins_any fun _ _ => trivial

theorem Rule.begins_of_eval {symbols : Symbols} {limit depth p q : Nat} {r : Rule} {v : r.Result}
    (h : r.eval symbols limit ⟨p, depth⟩ = .read v ⟨q, depth⟩) : r.Begins symbols p v q := by
  have hgives := Rule.eval_reads (Rule.begins symbols limit) r ⟨p, depth⟩
  rw [h] at hgives
  exact hgives

end FrontEnd
