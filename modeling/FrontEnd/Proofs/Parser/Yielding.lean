import FrontEnd.Proofs.Parser.Openings
import FrontEnd.Proofs.Tree.Moving
import FrontEnd.Proofs.Tree.Printing

/-!
What scripts yield on a list of symbols before a rest. Where the symbols stand is left
open, and of what is read a property is told, so that anchors need not be known; a run may
also be rejected for its nesting. The laws follow the list from its front.
-/

namespace FrontEnd

@[simp] theorem Symbol.word_kind (kind : TokenKind) : (Symbol.word kind).kind = kind := rfl

@[simp] theorem Symbol.name_kind (text : String) : (Symbol.name text).kind = .identifier := rfl

@[simp] theorem Symbol.name_text (text : String) : (Symbol.name text).text = text := rfl

/-- What is seen at the front of a list, but for the position. -/
def Sight.front (list : List Symbol) : Sight := ⟨0, list.head?.getD .last, kindOf list.tail⟩

theorem Sight.front_kind (list : List Symbol) : (Sight.front list).kind = kindOf list := rfl

theorem Sight.front_next (list : List Symbol) : (Sight.front list).next = kindOf list.tail := rfl

variable (symbols : Symbols) (limit : Nat)

/-- Wherever the list stands before the rest, the script reads it and gives what satisfies `Q`. -/
def Script.Yields {α : Type} (x : Script α) (list rest : List Symbol) (Q : α → Prop) : Prop :=
  ∀ depth p, symbols.Stand p (list ++ rest) →
    ∃ v, Q v ∧ x.Obtains symbols limit True depth p v (p + list.length)

/-- The same of a rule. -/
def Rule.Yields (r : Rule) (list rest : List Symbol) (Q : r.Result → Prop) : Prop :=
  r.script.Yields symbols limit list rest Q

namespace Script

variable {α β : Type} {symbols : Symbols} {limit : Nat} {a b : Symbol}
  {list rest : List Symbol} {kind : TokenKind}

theorem Yields.mono {x : Script α} {Q Q' : α → Prop} (h : x.Yields symbols limit list rest Q)
    (hQ : ∀ v, Q v → Q' v) : x.Yields symbols limit list rest Q' := by
  intro depth p hstand
  obtain ⟨v, hv, hx⟩ := h depth p hstand
  exact ⟨v, hQ v hv, hx⟩

theorem yields_bind {l : List Symbol} {x : Script α} {f : α → Script β} {P : α → Prop}
    {Q : β → Prop} (hx : x.Yields symbols limit l (list ++ rest) P)
    (hf : ∀ v, P v → (f v).Yields symbols limit list rest Q) :
    (x >>= f).Yields symbols limit (l ++ list) rest Q := by
  intro depth p hstand
  rw [List.append_assoc] at hstand
  obtain ⟨v, hv, hread⟩ := hx depth p hstand
  obtain ⟨w, hw, hnext⟩ := hf v hv depth _ hstand.append
  rw [Nat.add_assoc, ← List.length_append] at hnext
  exact ⟨w, hw, obtains_bind hread hnext⟩

/-- What reads nothing leaves the list to what follows. -/
theorem yields_nil_bind {x : Script α} {f : α → Script β} {P : α → Prop} {Q : β → Prop}
    (hx : x.Yields symbols limit [] (list ++ rest) P)
    (hf : ∀ v, P v → (f v).Yields symbols limit list rest Q) :
    (x >>= f).Yields symbols limit list rest Q := yields_bind hx hf

/-- What reads the list to its end. -/
theorem yields_all_bind {x : Script α} {f : α → Script β} {P : α → Prop} {Q : β → Prop}
    (hx : x.Yields symbols limit list rest P)
    (hf : ∀ v, P v → (f v).Yields symbols limit [] rest Q) :
    (x >>= f).Yields symbols limit list rest Q := by
  have hx' : x.Yields symbols limit list ([] ++ rest) P := hx
  have hbind := yields_bind hx' hf
  rwa [List.append_nil] at hbind

theorem yields_pure {v : α} {Q : α → Prop} (h : Q v) :
    (pure v : Script α).Yields symbols limit [] rest Q :=
  fun _ _ _ => ⟨v, h, obtains_pure v⟩

theorem yields_pure_bind {v : α} {f : α → Script β} {Q : β → Prop}
    (h : (f v).Yields symbols limit list rest Q) :
    (pure v >>= f).Yields symbols limit list rest Q := h

theorem yields_map {x : Script α} {f : α → β} {P : α → Prop} {Q : β → Prop}
    (hx : x.Yields symbols limit list rest P) (hf : ∀ v, P v → Q (f v)) :
    (f <$> x).Yields symbols limit list rest Q := by
  intro depth p hstand
  obtain ⟨v, hv, hread⟩ := hx depth p hstand
  exact ⟨f v, hf v hv, obtains_map hread⟩

theorem yields_run {r : Rule} {Q : r.Result → Prop} (h : r.Yields symbols limit list rest Q) :
    (run r).Yields symbols limit list rest Q := by
  intro depth p hstand
  obtain ⟨v, hv, hread⟩ := h depth p hstand
  exact ⟨v, hv, obtains_run hread⟩

theorem yields_deeper {r : Rule} {Q : r.Result → Prop} (h : r.Yields symbols limit list rest Q) :
    (deeper r).Yields symbols limit list rest Q := by
  intro depth p hstand
  obtain ⟨v, hv, hread⟩ := h (depth + 1) p hstand
  exact ⟨v, hv, obtains_deeper (.inr trivial) hread⟩

theorem yields_require {what : Expectation} {x : Script (Option α)} {Q : α → Prop}
    (h : x.Yields symbols limit list rest fun v => ∃ u, v = some u ∧ Q u) :
    (require what x).Yields symbols limit list rest Q := by
  intro depth p hstand
  obtain ⟨_, ⟨u, rfl, hu⟩, hread⟩ := h depth p hstand
  exact ⟨u, hu, obtains_require hread⟩

theorem yields_here_bind {f : Nat → Script β} {Q : β → Prop}
    (h : ∀ p, (f p).Yields symbols limit list rest Q) :
    (here >>= f).Yields symbols limit list rest Q := by
  intro depth p hstand
  obtain ⟨v, hv, hread⟩ := h p depth p hstand
  exact ⟨v, hv, obtains_bind obtains_here hread⟩

/-- What a script sees is the front of the list, and of the rest where the list is short. -/
theorem yields_sight_bind {f : Sight → Script β} {Q : β → Prop}
    (h : ∀ s : Sight, s.current = (list ++ rest).head?.getD .last →
      s.next = kindOf (list ++ rest).tail → (f s).Yields symbols limit list rest Q) :
    (sight >>= f).Yields symbols limit list rest Q := by
  intro depth p hstand
  have hcurrent : (symbols.sight p).current = (list ++ rest).head?.getD .last := by
    rw [Symbols.sight_current]
    cases hl : list ++ rest with
    | nil => rw [hl] at hstand; exact hstand.symbolAt_nil
    | cons a l => rw [hl] at hstand; exact hstand.symbolAt
  have hnext : (symbols.sight p).next = kindOf (list ++ rest).tail := by
    rw [Symbols.sight_next, hstand.kind_next]
  obtain ⟨v, hv, hread⟩ := h (symbols.sight p) hcurrent hnext depth p hstand
  exact ⟨v, hv, obtains_bind obtains_sight hread⟩

/-- Of what a script sees, all but the position is told by the lists. -/
theorem yields_front_bind {f : Sight → Script β} {Q : β → Prop}
    (h : ∀ p,
      (f { Sight.front (list ++ rest) with position := p }).Yields symbols limit list rest Q) :
    (sight >>= f).Yields symbols limit list rest Q := by
  refine yields_sight_bind fun s hcurrent hnext => ?_
  obtain ⟨p, current, next⟩ := s
  obtain rfl : current = _ := hcurrent
  obtain rfl : next = _ := hnext
  exact h p

/-- A symbol taken, and what is read behind it. -/
theorem yields_cons {x : Script α} {f : α → Script β} {v : α} {Q : β → Prop}
    (hx : ∀ depth p, symbols.Stand p (a :: (list ++ rest)) →
      x.Obtains symbols limit True depth p v (symbols.next p))
    (hf : (f v).Yields symbols limit list rest Q) :
    (x >>= f).Yields symbols limit (a :: list) rest Q := by
  intro depth p hstand
  have hread := hx depth p hstand
  rw [hstand.next] at hread
  obtain ⟨w, hw, hnext⟩ := hf depth (p + 1) hstand.tail
  rw [List.length_cons, Nat.add_comm list.length, ← Nat.add_assoc]
  exact ⟨w, hw, obtains_bind hread hnext⟩

theorem yields_take_bind {f : Unit → Script β} {Q : β → Prop}
    (hf : (f ()).Yields symbols limit list rest Q) :
    (take (done ()) >>= f).Yields symbols limit (a :: list) rest Q :=
  yields_cons (fun _ _ _ => obtains_take rfl) hf

theorem yields_take_two_bind {f : Unit → Script β} {Q : β → Prop}
    (hf : (f ()).Yields symbols limit list rest Q) :
    (take (take (done ())) >>= f).Yields symbols limit (a :: b :: list) rest Q :=
  yields_take_bind (f := fun _ => take (done ()) >>= f) (yields_take_bind hf)

theorem yields_expect_bind {f : String → Script β} {Q : β → Prop} (h : a.kind = kind)
    (hf : (f a.text).Yields symbols limit list rest Q) :
    (expect kind >>= f).Yields symbols limit (a :: list) rest Q := by
  refine yields_cons (fun depth p hstand => ?_) hf
  have hread : (expect kind).Obtains symbols limit True depth p _ _ :=
    obtains_expect (hstand.kind.trans h) rfl
  rwa [hstand.symbolAt] at hread

theorem yields_accept_bind {f : Bool → Script β} {Q : β → Prop} (h : a.kind = kind)
    (hf : (f true).Yields symbols limit list rest Q) :
    (accept kind >>= f).Yields symbols limit (a :: list) rest Q :=
  yields_cons (fun _ _ hstand => obtains_accept (hstand.kind.trans h) rfl) hf

theorem yields_skip_bind {f : Bool → Script β} {Q : β → Prop} (h : kindOf (list ++ rest) ≠ kind)
    (hf : (f false).Yields symbols limit list rest Q) :
    (accept kind >>= f).Yields symbols limit list rest Q := by
  intro depth p hstand
  obtain ⟨v, hv, hread⟩ := hf depth p hstand
  exact ⟨v, hv, obtains_bind (obtains_accept_of_ne fun hk => h (hstand.kind.symm.trans hk)) hread⟩

/-- A word that may stand before the list. -/
theorem yields_flag_bind {present : Bool} {f : Bool → Script β} {Q : β → Prop}
    (h : kindOf (list ++ rest) ≠ kind) (hf : (f present).Yields symbols limit list rest Q) :
    (accept kind >>= f).Yields symbols limit (flag present kind ++ list) rest Q := by
  cases present with
  | false => exact yields_skip_bind h hf
  | true => exact yields_accept_bind rfl hf

/-- A name that may stand before the list. -/
theorem yields_name_bind {name : Option String} {f : Option String → Script β} {Q : β → Prop}
    (h : kindOf (list ++ rest) ≠ .identifier)
    (hf : (f name).Yields symbols limit list rest Q) :
    (acceptText .identifier >>= f).Yields symbols limit (labelNames name ++ list) rest Q := by
  cases name with
  | none =>
    intro depth p hstand
    obtain ⟨v, hv, hread⟩ := hf depth p hstand
    have hskip : (acceptText .identifier).Obtains symbols limit True depth p none p :=
      obtains_acceptText_of_ne fun hk => h (hstand.kind.symm.trans hk)
    exact ⟨v, hv, obtains_bind hskip hread⟩
  | some text =>
    refine yields_cons (fun depth p hstand => ?_) hf
    have hread : (acceptText .identifier).Obtains symbols limit True depth p _ _ :=
      obtains_acceptText hstand.kind rfl
    rwa [hstand.symbolAt] at hread

theorem yields_ite_true {c : Prop} [Decidable c] {x y : Script α} {Q : α → Prop} (hc : c)
    (h : x.Yields symbols limit list rest Q) :
    (if c then x else y).Yields symbols limit list rest Q := by
  rwa [if_pos hc]

theorem yields_ite_false {c : Prop} [Decidable c] {x y : Script α} {Q : α → Prop} (hc : ¬c)
    (h : y.Yields symbols limit list rest Q) :
    (if c then x else y).Yields symbols limit list rest Q := by
  rwa [if_neg hc]

end Script

/-! ## Trees up to their anchors -/

/-- The tree without its anchors. -/
def Tree.unanchored (t : Tree) : Tree := t.mapTokens fun _ => 0

@[simp] theorem Tree.unanchored_node (token : Nat) (form : Form Tree) :
    (Tree.node token form).unanchored =
      .node 0 ((form.map Tree.unanchored).mapTokens fun _ => 0) := mapTokens_node _ _ _

def Param.unanchored (p : Param Tree) : Param Tree :=
  ⟨0, p.name, p.type.unanchored, p.variadic⟩

def Variant.unanchored (v : Variant Tree) : Variant Tree :=
  ⟨0, v.name, v.value.map Tree.unanchored⟩

def MatchItem.unanchored (i : MatchItem Tree) : MatchItem Tree := i.map Tree.unanchored

def MatchBranch.unanchored (b : MatchBranch Tree) : MatchBranch Tree :=
  ⟨0, b.items.map MatchItem.unanchored, b.body.unanchored⟩

/-- The tree, but for its anchors. -/
def Tree.Like (t u : Tree) : Prop := u.unanchored = t.unanchored

/-- Some tree that is as given, but for its anchors. -/
def Tree.SomeLike (t : Tree) (v : Option Tree) : Prop := ∃ u, v = some u ∧ t.Like u

end FrontEnd
