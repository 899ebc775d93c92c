import FrontEnd.Proofs.Parser.Bounds

/-!
Contracts of productions. A contract says of every rule where it may be called and
what it tells when it has read something; `Ensures` is the weakest precondition of
a script under a contract, and its rules below execute a script symbolically. What
a script ensures holds of its runs, if the rules that it calls keep the contract
(`exec_gives`).
-/

namespace FrontEnd

structure Contract where
  allows : Rule → Nat → Prop
  /-- What it means that the rule, called at a depth and a position, read a value up to another. -/
  reads : (depth : Nat) → (r : Rule) → Nat → r.Result → Nat → Prop

namespace Script

variable {α β : Type}

/-- At `p` the script calls rules only as the contract allows, and what it reads
satisfies `Q` where it ends. -/
def Ensures (C : Contract) (symbols : Symbols) (limit depth : Nat) :
    Script α → Nat → (α → Nat → Prop) → Prop
  | .done value, p, Q => Q value p
  | .fail _, _, _ => True
  | .look next, p, Q => (next (symbols.sight p)).Ensures C symbols limit depth p Q
  | .take next, p, Q => next.Ensures C symbols limit depth (symbols.next p) Q
  | .call r next, p, Q =>
    C.allows r p ∧ ∀ v q, C.reads depth r p v q → (next v).Ensures C symbols limit depth q Q
  | .nest r next, p, Q =>
    depth < limit →
      C.allows r p ∧ ∀ v q, C.reads (depth + 1) r p v q → (next v).Ensures C symbols limit depth q Q

section Rules

variable {C : Contract} {symbols : Symbols} {limit depth p : Nat}

theorem Ensures.mono {x : Script α} {Q Q' : α → Nat → Prop}
    (h : x.Ensures C symbols limit depth p Q) (hQ : ∀ v q, Q v q → Q' v q) :
    x.Ensures C symbols limit depth p Q' := by
  induction x generalizing p with
  | done value => exact hQ value p h
  | fail cause => trivial
  | look next ih => exact ih _ h
  | take next ih => exact ih h
  | call r next ih => exact ⟨h.1, fun v q hr => ih v (h.2 v q hr)⟩
  | nest r next ih => exact fun hd => ⟨(h hd).1, fun v q hr => ih v ((h hd).2 v q hr)⟩

/-- A script ensures more where the rules that it calls tell more. -/
theorem Ensures.weaken {C' : Contract} {x : Script α} {Q : α → Nat → Prop}
    (hallows : ∀ r p, C.allows r p → C'.allows r p)
    (hreads : ∀ depth r p v q, C'.reads depth r p v q → C.reads depth r p v q)
    (h : x.Ensures C symbols limit depth p Q) : x.Ensures C' symbols limit depth p Q := by
  induction x generalizing p with
  | done value => exact h
  | fail cause => trivial
  | look next ih => exact ih _ h
  | take next ih => exact ih h
  | call r next ih =>
    exact ⟨hallows r p h.1, fun v q hr => ih v (h.2 v q (hreads depth r p v q hr))⟩
  | nest r next ih =>
    exact fun hd => ⟨hallows r p (h hd).1, fun v q hr =>
      ih v ((h hd).2 v q (hreads (depth + 1) r p v q hr))⟩

theorem Ensures.and {x : Script α} {Q Q' : α → Nat → Prop}
    (h : x.Ensures C symbols limit depth p Q) (h' : x.Ensures C symbols limit depth p Q') :
    x.Ensures C symbols limit depth p fun v q => Q v q ∧ Q' v q := by
  induction x generalizing p with
  | done value => exact ⟨h, h'⟩
  | fail cause => trivial
  | look next ih => exact ih _ h h'
  | take next ih => exact ih h h'
  | call r next ih => exact ⟨h.1, fun v q hr => ih v (h.2 v q hr) (h'.2 v q hr)⟩
  | nest r next ih =>
    exact fun hd => ⟨(h hd).1, fun v q hr => ih v ((h hd).2 v q hr) ((h' hd).2 v q hr)⟩

/-- What a script reads need not matter. -/
theorem ensures_any (hC : ∀ r p, C.allows r p) (x : Script α) :
    x.Ensures C symbols limit depth p fun _ _ => True := by
  induction x generalizing p with
  | done value => trivial
  | fail cause => trivial
  | look next ih => exact ih _
  | take next ih => exact ih
  | call r next ih => exact ⟨hC r p, fun v q _ => ih v⟩
  | nest r next ih => exact fun _ => ⟨hC r p, fun v q _ => ih v⟩

@[simp] theorem ensures_bind (x : Script α) (f : α → Script β) (Q : β → Nat → Prop) :
    (x >>= f).Ensures C symbols limit depth p Q ↔
      x.Ensures C symbols limit depth p fun v q => (f v).Ensures C symbols limit depth q Q := by
  change (x.bind f).Ensures C symbols limit depth p Q ↔ _
  induction x generalizing p with
  | done value => rfl
  | fail cause => rfl
  | look next ih => exact ih _
  | take next ih => exact ih
  | call r next ih => simp only [bind, Ensures, ih]
  | nest r next ih => simp only [bind, Ensures, ih]

@[simp] theorem ensures_pure (v : α) (Q : α → Nat → Prop) :
    (pure v : Script α).Ensures C symbols limit depth p Q ↔ Q v p := Iff.rfl

@[simp] theorem ensures_done (v : α) (Q : α → Nat → Prop) :
    (done v).Ensures C symbols limit depth p Q ↔ Q v p := Iff.rfl

@[simp] theorem ensures_map (f : α → β) (x : Script α) (Q : β → Nat → Prop) :
    (f <$> x).Ensures C symbols limit depth p Q ↔
      x.Ensures C symbols limit depth p fun v q => Q (f v) q := by
  change (x >>= fun v => pure (f v)).Ensures C symbols limit depth p Q ↔ _
  rw [ensures_bind]
  rfl

@[simp] theorem ensures_ite (c : Prop) [Decidable c] (x y : Script α) (Q : α → Nat → Prop) :
    (if c then x else y).Ensures C symbols limit depth p Q ↔
      (c → x.Ensures C symbols limit depth p Q) ∧ (¬c → y.Ensures C symbols limit depth p Q) := by
  split <;> simp_all

@[simp] theorem ensures_fail (cause : Cause) (Q : α → Nat → Prop) :
    (fail cause : Script α).Ensures C symbols limit depth p Q ↔ True := Iff.rfl

@[simp] theorem ensures_failing (what : Expectation) (Q : α → Nat → Prop) :
    (failing what : Script α).Ensures C symbols limit depth p Q ↔ True := Iff.rfl

@[simp] theorem ensures_take (x : Script α) (Q : α → Nat → Prop) :
    (take x).Ensures C symbols limit depth p Q ↔
      x.Ensures C symbols limit depth (symbols.next p) Q := Iff.rfl

@[simp] theorem ensures_call (r : Rule) (next : r.Result → Script α) (Q : α → Nat → Prop) :
    (call r next).Ensures C symbols limit depth p Q ↔
      C.allows r p ∧
        ∀ v q, C.reads depth r p v q → (next v).Ensures C symbols limit depth q Q := Iff.rfl

@[simp] theorem ensures_nest (r : Rule) (next : r.Result → Script α) (Q : α → Nat → Prop) :
    (nest r next).Ensures C symbols limit depth p Q ↔
      (depth < limit → C.allows r p ∧
        ∀ v q, C.reads (depth + 1) r p v q → (next v).Ensures C symbols limit depth q Q) := Iff.rfl

@[simp] theorem ensures_sight (Q : Sight → Nat → Prop) :
    sight.Ensures C symbols limit depth p Q ↔ Q (symbols.sight p) p := Iff.rfl

@[simp] theorem ensures_here (Q : Nat → Nat → Prop) :
    here.Ensures C symbols limit depth p Q ↔ Q p p := Iff.rfl

@[simp] theorem ensures_accept (kind : TokenKind) (Q : Bool → Nat → Prop) :
    (accept kind).Ensures C symbols limit depth p Q ↔
      ((symbols.symbolAt p).kind = kind → Q true (symbols.next p)) ∧
        ((symbols.symbolAt p).kind ≠ kind → Q false p) := by
  change (if (symbols.symbolAt p).kind = kind then take (done true) else done false).Ensures
    C symbols limit depth p Q ↔ _
  rw [ensures_ite]
  rfl

@[simp] theorem ensures_acceptText (kind : TokenKind) (Q : Option String → Nat → Prop) :
    (acceptText kind).Ensures C symbols limit depth p Q ↔
      ((symbols.symbolAt p).kind = kind → Q (some (symbols.symbolAt p).text) (symbols.next p)) ∧
        ((symbols.symbolAt p).kind ≠ kind → Q none p) := by
  change (if (symbols.symbolAt p).kind = kind then take (done _) else done none).Ensures
    C symbols limit depth p Q ↔ _
  rw [ensures_ite]
  rfl

@[simp] theorem ensures_expect (kind : TokenKind) (Q : String → Nat → Prop) :
    (expect kind).Ensures C symbols limit depth p Q ↔
      ((symbols.symbolAt p).kind = kind → Q (symbols.symbolAt p).text (symbols.next p)) := by
  change (if (symbols.symbolAt p).kind = kind then take (done _) else failing _).Ensures
    C symbols limit depth p Q ↔ _
  rw [ensures_ite]
  simp

@[simp] theorem ensures_require (what : Expectation) (x : Script (Option α))
    (Q : α → Nat → Prop) :
    (require what x).Ensures C symbols limit depth p Q ↔
      x.Ensures C symbols limit depth p fun v q => ∀ t, v = some t → Q t q := by
  change (x >>= _).Ensures C symbols limit depth p Q ↔ _
  rw [ensures_bind]
  apply iff_of_eq
  congr 1
  funext v q
  cases v <;> simp

/-! Read forward, the rules leave to show what is said of the rest of a script. -/

theorem Ensures.bind {x : Script α} {f : α → Script β} {P : α → Nat → Prop} {Q : β → Nat → Prop}
    (hx : x.Ensures C symbols limit depth p P)
    (hf : ∀ v q, P v q → (f v).Ensures C symbols limit depth q Q) :
    (x >>= f).Ensures C symbols limit depth p Q := (ensures_bind x f Q).mpr (hx.mono hf)

theorem Ensures.map {x : Script α} {f : α → β} {P : α → Nat → Prop} {Q : β → Nat → Prop}
    (hx : x.Ensures C symbols limit depth p P) (hf : ∀ v q, P v q → Q (f v) q) :
    (f <$> x).Ensures C symbols limit depth p Q := (ensures_map f x Q).mpr (hx.mono hf)

/-- Where all calls are allowed, it need not matter what a step reads. -/
theorem Ensures.any_bind (hC : ∀ r p, C.allows r p) {x : Script α} {f : α → Script β}
    {Q : β → Nat → Prop} (hf : ∀ v q, (f v).Ensures C symbols limit depth q Q) :
    (x >>= f).Ensures C symbols limit depth p Q := (ensures_any hC x).bind fun v q _ => hf v q

theorem Ensures.pure {v : α} {Q : α → Nat → Prop} (h : Q v p) :
    (Pure.pure v : Script α).Ensures C symbols limit depth p Q := h

theorem Ensures.pure_bind {v : α} {f : α → Script β} {Q : β → Nat → Prop}
    (h : (f v).Ensures C symbols limit depth p Q) :
    (Pure.pure v >>= f).Ensures C symbols limit depth p Q := h

theorem Ensures.failing {what : Expectation} {Q : α → Nat → Prop} :
    (Script.failing what : Script α).Ensures C symbols limit depth p Q := trivial

theorem Ensures.ite {c : Prop} [Decidable c] {x y : Script α} {Q : α → Nat → Prop}
    (htrue : c → x.Ensures C symbols limit depth p Q)
    (hfalse : ¬c → y.Ensures C symbols limit depth p Q) :
    (if c then x else y).Ensures C symbols limit depth p Q :=
  (ensures_ite c x y Q).mpr ⟨htrue, hfalse⟩

theorem Ensures.here_bind {f : Nat → Script β} {Q : β → Nat → Prop}
    (h : (f p).Ensures C symbols limit depth p Q) :
    (here >>= f).Ensures C symbols limit depth p Q := h

/-- What was seen at a place may be used there. -/
theorem Ensures.sight_bind {f : Sight → Script β} {Q : β → Nat → Prop}
    (h : (f (symbols.sight p)).Ensures C symbols limit depth p Q) :
    (sight >>= f).Ensures C symbols limit depth p Q := h

theorem Ensures.take_bind {f : Unit → Script β} {Q : β → Nat → Prop}
    (h : (f ()).Ensures C symbols limit depth (symbols.next p) Q) :
    (Script.take (Script.done ()) >>= f).Ensures C symbols limit depth p Q := h

theorem Ensures.accept_bind {kind : TokenKind} {f : Bool → Script β} {Q : β → Nat → Prop}
    (htrue : (symbols.symbolAt p).kind = kind →
      (f true).Ensures C symbols limit depth (symbols.next p) Q)
    (hfalse : (symbols.symbolAt p).kind ≠ kind → (f false).Ensures C symbols limit depth p Q) :
    (accept kind >>= f).Ensures C symbols limit depth p Q := by
  rw [ensures_bind, ensures_accept]
  exact ⟨htrue, hfalse⟩

theorem Ensures.expect_bind {kind : TokenKind} {f : String → Script β} {Q : β → Nat → Prop}
    (h : (symbols.symbolAt p).kind = kind →
      (f (symbols.symbolAt p).text).Ensures C symbols limit depth (symbols.next p) Q) :
    (expect kind >>= f).Ensures C symbols limit depth p Q := by
  rw [ensures_bind, ensures_expect]
  exact h

theorem Ensures.require {what : Expectation} {x : Script (Option α)} {Q : α → Nat → Prop}
    (hx : x.Ensures C symbols limit depth p fun v q => ∀ t ∈ v, Q t q) :
    (Script.require what x).Ensures C symbols limit depth p Q := (ensures_require what x Q).mpr hx

end Rules

end Script

/-- If the outcome is that something was read, it satisfies `Q`; `X` tells whether
the budget may have been too small. -/
def Outcome.Gives {α : Type} (Q : α → Nat → Prop) (X : Prop) : Outcome α → Prop
  | .read value t => Q value t.position
  | .failed _ _ => True
  | .exhausted => X

theorem Outcome.Gives.andThen {α β : Type} {symbols : Symbols} {s : ParseState} {o : Outcome α}
    {f : α → ParseState → Outcome β} {P : α → Nat → Prop} {Q : β → Nat → Prop} {X : Prop}
    (h : o.Gives P X) (hkeeps : o.Keeps symbols s)
    (hf : ∀ v t, t.depth = s.depth → P v t.position → (f v t).Gives Q X) :
    (o.andThen f).Gives Q X := by
  cases o with
  | read value t => exact hf value t hkeeps.2.2 h
  | failed cause t => trivial
  | exhausted => exact h

theorem Outcome.Gives.leave {α : Type} {o : Outcome α} {P : α → Nat → Prop} {X : Prop}
    (h : o.Gives P X) : o.leave.Gives P X := by
  cases o <;> exact h

/-- A contract that rules keep where it lets them be called is kept by a script. -/
theorem Script.exec_gives {α : Type} {C : Contract} {symbols : Symbols} {limit : Nat} {X : Prop}
    {read : (r : Rule) → ParseState → Outcome r.Result}
    (hkeeps : ∀ r s, (read r s).Keeps symbols s)
    (hread : ∀ r s, C.allows r s.position →
      (read r s).Gives (C.reads s.depth r s.position) X)
    {x : Script α} {Q : α → Nat → Prop} {s : ParseState}
    (hx : x.Ensures C symbols limit s.depth s.position Q) :
    (x.exec symbols limit read s).Gives Q X := by
  induction x generalizing s with
  | done value => exact hx
  | fail cause => trivial
  | look next ih => exact ih _ hx
  | take next ih => exact ih hx
  | call r next ih =>
    obtain ⟨hallows, hnext⟩ := hx
    apply (hread r s hallows).andThen (hkeeps r s)
    intro v t hd hv
    apply ih v
    rw [hd]
    exact hnext v t.position hv
  | nest r next ih =>
    rw [exec]
    split
    · rename_i hd
      obtain ⟨hallows, hnext⟩ := hx hd
      apply (hread r s.inner hallows).leave.andThen (hkeeps r s.inner).leave
      intro v t hd hv
      apply ih v
      rw [hd]
      exact hnext v t.position hv
    · trivial

end FrontEnd
