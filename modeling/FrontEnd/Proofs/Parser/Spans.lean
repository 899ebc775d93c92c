import FrontEnd.Proofs.Parser.Begins
import FrontEnd.Proofs.Tree.Spans

/-!
What rules read spans what they have read. The limbs of what a rule gives follow each other
from where it began to where it ended; operators and suffixes, which are told before they
have their operands, span with them what is read. The laws lead a chain of limbs through
the steps of a script.
-/

namespace FrontEnd

/-- What stands at a position has the property. -/
def Symbols.Tells (symbols : Symbols) (P : Symbol → Prop) (p : Nat) : Prop :=
  P (symbols.symbolAt p)

namespace Rule

/-- The limbs that the rule gives. -/
@[simp] def limbs : (r : Rule) → r.Result → List (Limb Tree)
  | .unit, v | .fields, v | .statements, v | .listed _, v => v.map .child
  | .statement, v | .labelled, v | .expression, v | .level _, v | .recovery, v | .unary, v
  | .suffixed, v | .primary, v | .type, v | .block _, v => v.toList.map .child
  | .function, v | .prototype _ _, v | .record, v | .enumeration, v | .declaration, v | .body, v
  | .conditional, v | .loop _, v | .whileLoop _, v | .selection, v | .operand, v
  | .innerType, v => [.child v]
  | .params, v => v.map .param
  | .variants, v => v.map .variant
  | .branches, v => v.map .branch
  | .branch, v => [.branch v]
  | .items, v => v.flatMap fun i => i.children.map .child
  | .modifiers, _ | .attempts, _ | .operands _, _ | .handlers, _ | .suffixes, _ => []

/-- Where an operand spans what was read before or is read behind, it does so with what the
rule gives. -/
def Folds (symbols : Symbols) : (r : Rule) → Nat → r.Result → Nat → Prop
  | .attempts, p, v, q => ∀ t r, Tree.Spans symbols.Tells q t r →
    Tree.Spans symbols.Tells p
      (v.foldr (fun token inner => .node token (.unary .attempt inner)) t) r
  | .operands _, p, v, q => ∀ t k, Tree.Spans symbols.Tells k t p →
    Tree.Spans symbols.Tells k
      (v.foldl (fun lhs (token, op, rhs) => .node token (.binary op lhs rhs)) t) q
  | .handlers, p, v, q => ∀ t k, Tree.Spans symbols.Tells k t p →
    Tree.Spans symbols.Tells k
      (v.foldl (fun lhs (token, name, rhs) => .node token (.recovery lhs name rhs)) t) q
  | .suffixes, p, v, q => ∀ t k, Tree.Spans symbols.Tells k t p →
    Tree.Spans symbols.Tells k
      (v.foldl (fun target (token, suffix) => .node token (suffix.form target)) t) q
  | _, _, _, _ => True

/-- What the rule read from a position up to another spans it. -/
structure Spans (symbols : Symbols) (r : Rule) (p : Nat) (v : r.Result) (q : Nat) : Prop where
  begins : r.Begins symbols p v q
  chain : Limb.Chain symbols.Tells p (r.limbs v) q
  folds : r.Folds symbols p v q

end Rule

/-- The contract that what rules read spans what they have read. -/
def spanning (symbols : Symbols) : Contract := .free (Rule.Spans symbols)

namespace Script

variable {α β : Type} {symbols : Symbols} {limit depth p a : Nat} {front : List (Limb Tree)}

/-- What a script gives, where what rules read spans what they have read. -/
def Spans (symbols : Symbols) (limit depth p : Nat) (x : Script α) (Q : α → Nat → Prop) : Prop :=
  x.Ensures (spanning symbols) symbols limit depth p Q

/-- The limbs of what a script gives follow each other from its beginning to its end. -/
def Chains (symbols : Symbols) (limit depth p : Nat) (x : Script α)
    (limbs : α → List (Limb Tree)) : Prop :=
  Spans symbols limit depth p x fun v q => Limb.Chain symbols.Tells p (limbs v) q

theorem spans_run (r : Rule) :
    Spans symbols limit depth p (run r) (r.Spans symbols p) := ⟨trivial, fun _ _ h => h⟩

theorem spans_deeper (r : Rule) :
    Spans symbols limit depth p (deeper r) (r.Spans symbols p) :=
  fun _ => ⟨trivial, fun _ _ h => h⟩

theorem chains_run (r : Rule) : Chains symbols limit depth p (run r) r.limbs :=
  (spans_run r).mono fun _ _ h => h.chain

theorem chains_deeper (r : Rule) : Chains symbols limit depth p (deeper r) r.limbs :=
  (spans_deeper r).mono fun _ _ h => h.chain

theorem chains_require {what : Expectation} {x : Script (Option Tree)}
    (hx : Chains symbols limit depth p x fun v => v.toList.map .child) :
    Chains symbols limit depth p (require what x) fun t => [.child t] := by
  refine Ensures.require (hx.mono fun v q hv t ht => ?_)
  subst ht
  exact hv

/-- No script goes back. -/
theorem spans_onward (x : Script α) :
    Spans symbols limit depth p x fun _ q => p ≤ q := by
  have hle {m : Nat} (hm : p ≤ m) : Spans symbols limit depth m x fun _ q => p ≤ q := by
    unfold Spans
    induction x generalizing m with
    | done value => exact hm
    | fail cause => trivial
    | look next ih => exact ih _ hm
    | take next ih => exact ih (Nat.le_trans hm (symbols.le_next m))
    | call r next ih => exact ⟨trivial, fun v q h => ih v (Nat.le_trans hm h.chain.le)⟩
    | nest r next ih => exact fun _ => ⟨trivial, fun v q h => ih v (Nat.le_trans hm h.chain.le)⟩
  exact hle (Nat.le_refl p)

/-- What a script gives continues a chain. -/
theorem chains_bind {x : Script α} {f : α → Script β} {limbs : α → List (Limb Tree)}
    {Q : β → Nat → Prop} (h : Limb.Chain symbols.Tells a front p)
    (hx : Chains symbols limit depth p x limbs)
    (hf : ∀ v q, Limb.Chain symbols.Tells a (front ++ limbs v) q →
      Spans symbols limit depth q (f v) Q) :
    Spans symbols limit depth p (x >>= f) Q :=
  Ensures.bind hx fun v q hv => hf v q (h.append hv)

/-- What reads no tree leaves a chain as it is. -/
theorem chains_skip {x : Script α} {f : α → Script β} {Q : β → Nat → Prop}
    (h : Limb.Chain symbols.Tells a front p)
    (hf : ∀ v q, Limb.Chain symbols.Tells a front q → Spans symbols limit depth q (f v) Q) :
    Spans symbols limit depth p (x >>= f) Q :=
  Ensures.bind (spans_onward x) fun v q hq => hf v q (h.mono_right hq)

end Script

/-- The script of the rule gives a chain of the rule's limbs. -/
def Rule.Chains (symbols : Symbols) (limit : Nat) (r : Rule) : Prop :=
  ∀ depth p, Script.Chains symbols limit depth p r.script r.limbs

/-! ## Layers over chains -/

namespace Limb.Chain

variable {symbols : Symbols} {form : Form Tree} {front : List (Limb Tree)} {k q : Nat}

/-- Behind a symbol a chain begins. -/
theorem behind {kind : TokenKind} (h : (symbols.symbolAt k).kind = kind)
    (hk : kind ≠ .endOfFile) : Chain symbols.Tells (k + 1) [] (symbols.next k) := by
  rw [Symbols.next_of_kind h hk]
  exact nil (k + 1)

/-- A layer over its limbs, which is anchored before them. -/
theorem node_of_lt (h : Chain symbols.Tells k front q) (hlt : k < q) (hlimbs : form.limbs = front)
    (htrails : form.trails = false) (hfits : form.Fits (symbols.symbolAt k)) :
    Chain symbols.Tells k [.child (.node k form)] q := by
  subst hlimbs
  exact chain_child.mpr (Tree.spans_of_chain htrails hfits h hlt)

theorem node (h : Chain symbols.Tells (k + 1) front q) (hlimbs : form.limbs = front)
    (htrails : form.trails = false) (hfits : form.Fits (symbols.symbolAt k)) :
    Chain symbols.Tells k [.child (.node k form)] q :=
  (h.mono_left (Nat.le_succ k)).node_of_lt h.le hlimbs htrails hfits

/-- A layer that is anchored where its limbs begin. -/
theorem node_of_first (h : Chain symbols.Tells k front q) (hlimbs : form.limbs = front)
    (hne : front ≠ []) (htrails : form.trails = false)
    (hfits : form.Fits (symbols.symbolAt k)) :
    Chain symbols.Tells k [.child (.node k form)] q :=
  h.node_of_lt (h.lt hne) hlimbs htrails hfits

end Limb.Chain

end FrontEnd
