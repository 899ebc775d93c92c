import Mathlib.Data.List.Forall2
import FrontEnd.Proofs.Parser.Anchors
import FrontEnd.Proofs.Parser.Regular
import FrontEnd.Proofs.Parser.Respelling.Runs
import FrontEnd.Proofs.Parser.Respelling.Unfolding
import FrontEnd.Proofs.Parser.Units

/-!
Sources in different spellings have the same tree. Operators and loops may be spelled either
way; where every `elseif` is spelled `else if` the anchors are moved, and the source may be
nested too deeply, but for that it has the same tree.
-/

namespace FrontEnd

/-- Symbols that are the same, or two spellings of the same. -/
def Symbol.Respells (a b : Symbol) : Prop := b = a ∨ a.kind.Respells b.kind

instance (a b : Symbol) : Decidable (a.Respells b) := inferInstanceAs (Decidable (_ ∨ _))

namespace TokenStream

/-- The same tokens, where some operators or loops may be spelled differently. -/
def Respells (s s' : TokenStream) : Prop :=
  List.Forall₂ Symbol.Respells (s.body.map (·.symbol)) (s'.body.map (·.symbol))

instance (s s' : TokenStream) : Decidable (s.Respells s') :=
  inferInstanceAs (Decidable (List.Forall₂ _ _ _))

/-- The same tokens, where every `elseif` is spelled `else if`. -/
def Unfolds (s s' : TokenStream) : Prop :=
  s'.body.map (·.symbol) = (s.body.map (·.symbol)).flatMap Symbol.unfolded

instance (s s' : TokenStream) : Decidable (s.Unfolds s') := inferInstanceAs (Decidable (_ = _))

/-- The index of a token in the other source. For `elseif` it is that of the second word. -/
def unfoldedIndex (s : TokenStream) (i : Nat) : Nat :=
  i + (s.body.take (i + 1)).countP (·.kind = .kwElseIf)

end TokenStream

/-! ## Anchors -/

section Anchors

variable {a b : Symbol} {k : Nat}

/-- At `elseif` only a conditional is anchored, which is not anchored at `else`. -/
theorem Form.places_eq_nil_of_fits {form : Form Tree} (ha : form.Fits a) (hb : form.Fits b)
    (helseIf : a.kind = .kwElseIf) (helse : b.kind = .kwElse) : form.places = [] := by
  obtain ⟨kind, text⟩ := a
  obtain ⟨kind', text'⟩ := b
  obtain rfl : kind = .kwElseIf := helseIf
  obtain rfl : kind' = .kwElse := helse
  cases form with
  | root => rfl
  | conditional => simp [Form.Fits] at hb
  | field | call | access | index | slice | array | optional | recovery | unary | selection
  | deferral | returning | raising | breaking | continuing | block | elements | prototype | nil
  | unreachable | identifier | rune | builtin | steppedLoop | eachLoop => cases ha
  | integer text base => cases base <;> cases ha
  | string text form => cases form <;> cases ha
  | float text imaginary => cases imaginary <;> cases ha
  | bool value => cases value <;> cases ha
  | loop label condition => cases condition <;> simp [Form.Fits] at ha
  | binary op =>
    obtain ⟨l, hl⟩ := ha
    cases l <;> cases hl
  | record name isExport isUnion => cases isExport <;> cases isUnion <;> cases ha
  | enumeration name isExport => cases isExport <;> cases ha
  | declaration name type init isExport isMutable isConst =>
    cases isExport <;> cases isMutable <;> cases isConst <;> simp [Form.Fits] at ha
    cases ha
  | function signature =>
    obtain ⟨token, signature⟩ := signature
    cases signature with
    | prototype name params result isExport isExtern =>
      cases isExport <;> cases isExtern <;> cases ha
    | _ => cases ha

theorem Limb.kind_ne_of_fits {limb : Limb Tree} (htoken : k ∈ limb.token?) (ha : limb.Fits a) :
    a.kind ≠ .kwElseIf := by
  rintro hk
  cases limb with
  | child t => cases htoken
  | param p =>
    rw [Limb.Fits, hk] at ha
    cases ha
  | variant v =>
    rw [Limb.Fits] at ha
    rw [ha] at hk
    cases hk
  | branch b =>
    rw [Limb.Fits, hk] at ha
    cases ha

/-- The statements of a source are anchored as they have to be. -/
theorem Grammar.unit_anchored {symbols : Symbols} {limit : Nat} {items : List Tree}
    {q : ParseState} {t : ParseState} (h : Rule.eval symbols limit .unit q = .read items t) :
    ∀ item ∈ items, item.Anchored symbols.Tells := by
  intro item hitem
  have hchain := (Rule.spans_of_eval symbols limit h).chain
  exact (Limb.spans_child.mp (hchain.spans _ (List.mem_map_of_mem hitem))).anchored

variable {w : Respelling}

theorem Form.move_mem_limbs {form : Form Tree} {limb : Limb Tree} (f : Nat → Nat)
    (h : limb ∈ form.limbs) :
    limb.move f ∈ ((form.map (·.mapTokens f)).mapTokens f).limbs := by
  rw [Form.limbs_move]
  exact List.mem_map_of_mem h

theorem Form.mapTokens_mem_children {form : Form Tree} {t : Tree} (f : Nat → Nat)
    (h : t ∈ form.children) :
    t.mapTokens f ∈ ((form.map (·.mapTokens f)).mapTokens f).children := by
  rw [Form.children_mapTokens, Form.children_map]
  exact List.mem_map_of_mem h

/-- What stands in a slot of a regular tree has a place. -/
theorem Tree.Regular.places_ne_nil {token : Nat} {form : Form Tree} {t : Tree}
    (h : (Tree.node token form).Regular) (ht : t ∈ form.children) : t.layer.places ≠ [] := by
  rw [← Form.map_slots] at ht
  obtain ⟨x, hx, rfl⟩ := List.mem_map.mp ht
  exact List.ne_nil_of_mem ((h token form .here).2 x hx)

/-- Nothing in the other source is anchored at an `else` that is the first word of `elseif`. -/
theorem Respelling.anchors_apart {t : Tree} (hplaces : t.layer.places ≠ []) (hregular : t.Regular)
    (htarget : t.Anchored w.target.Tells) (hsource : (t.mapTokens w.back).Anchored w.source.Tells) :
    ∀ k ∈ t.anchors, ¬(w.Unfolded (w.back k) ∧ w.place (w.back k) = k) := by
  induction t using Tree.induct with
  | h token form ih =>
    rw [Tree.mapTokens_node] at hsource
    have hnode := hsource _ _ .here
    have hnode' := htarget token form .here
    rintro k hk ⟨hunfolded, hplace⟩
    rcases Tree.mem_anchors_node.mp hk with rfl | ⟨limb, hlimb, hk⟩
    · have hfits := hnode.fits
      rw [Form.fits_move] at hfits
      refine hplaces (Form.places_eq_nil_of_fits hfits hnode'.fits hunfolded.elseif ?_)
      rw [← hplace]
      exact hunfolded.otherwise
    · rcases Limb.mem_anchors.mp hk with hk | ⟨t, ht, hk⟩
      · have hfits := (hnode.limbs _ (Form.move_mem_limbs w.back hlimb)).fits (w.back k) (by
          rw [Limb.token?_move, hk]
          rfl)
        rw [Limb.fits_move] at hfits
        exact Limb.kind_ne_of_fits hk hfits hunfolded.elseif
      · have hchild : t ∈ form.children := by
          rw [← Form.children_limbs]
          exact List.mem_flatMap.mpr ⟨limb, hlimb, ht⟩
        have hmoved := Form.mapTokens_mem_children w.back hchild
        exact ih t hchild (hregular.places_ne_nil hchild) (Tree.Everywhere.of_mem hregular hchild)
          (Tree.Everywhere.of_mem htarget hchild) (Tree.Everywhere.of_mem hsource hmoved) k hk
          ⟨hunfolded, hplace⟩

end Anchors

/-! ## Streams -/

section Streams

variable {s s' : TokenStream} {w : Respelling} {root : Tree}

theorem TokenStream.illegal?_eq_none_iff :
    s.illegal? = none ↔ ¬∃ p, (s.symbols.symbolAt p).kind = .illegal := by
  constructor
  · rintro h ⟨p, hp⟩
    have hlt : p < s.symbols.size := Symbols.lt_size_of_kind (by rw [hp]; decide)
    obtain ⟨t, ht, hsymbol⟩ := exists_of_lt_size hlt
    have hnone := List.find?_eq_none.mp h t (List.mem_reverse.mpr (List.mem_append_left _ ht))
    rw [hsymbol] at hp
    exact hnone (beq_iff_eq.mpr hp)
  · intro h
    refine illegal?_eq_none fun a ha hk => h ?_
    obtain ⟨p, hp⟩ := List.mem_iff_getElem?.mp ha
    refine ⟨p, ?_⟩
    rw [Symbols.symbolAt, ← Array.getElem?_toList, hp]
    exact hk

/-- The trees of two spellings of a source. The items that are read in the other one go back to
those that are read in the source. -/
def Respelling.Agrees (w : Respelling) (s s' : TokenStream) (root root' : Tree) : Prop :=
  ∃ items q q',
    Rule.eval w.source nestingLimit .unit ⟨0, 0⟩ =
      .read (items.map (·.mapTokens w.back)) ⟨q, 0⟩ ∧
    Rule.eval w.target nestingLimit .unit ⟨0, 0⟩ = .read items ⟨q', 0⟩ ∧
    root = (Tree.node 0 (.root (items.map (·.mapTokens w.back)))).mapTokens
      (fun i => ((Cursor.start s).tokenAt i).2) ∧
    root' = (Tree.node 0 (.root items)).mapTokens fun i => ((Cursor.start s').tokenAt i).2

variable (hs : w.source = s.symbols) (hs' : w.target = s'.symbols)

include hs hs' in
theorem Respelling.illegal?_iff : s.illegal? = none ↔ s'.illegal? = none := by
  rw [TokenStream.illegal?_eq_none_iff, TokenStream.illegal?_eq_none_iff, ← hs, ← hs',
    w.exists_illegal_iff]

variable (hzero : w.place 0 = 0)

include hs hs' hzero

theorem Respelling.parse_of_source {root : Tree} (h : parse s = .ok root) :
    (∃ root', parse s' = .ok root' ∧ w.Agrees s s' root root') ∨
      (∃ p, w.Unfolded p) ∧ ∃ place, parse s' =
        .error ⟨.structural, (Cause.nestedTooDeeply nestingLimit).message, place⟩ := by
  have hlegal : s'.illegal? = none :=
    (Respelling.illegal?_iff hs hs').mp (TokenStream.illegal?_of_parse h)
  obtain ⟨items, q, hunit, rfl⟩ := TokenStream.eval_of_parse h
  rw [← hs] at hunit
  rcases w.unit_of_source hunit with ⟨items', hread, rfl⟩ | ⟨hunfolded, t, hfailed⟩
  · rw [hzero] at hread
    have hparse := hread
    rw [hs'] at hparse
    exact .inl ⟨_, Cursor.parseWithin_of_read (c := Cursor.start s') hlegal hparse, items', _, _,
      hunit, hread, rfl, rfl⟩
  · rw [hzero, hs'] at hfailed
    exact .inr ⟨hunfolded, _, Cursor.parseWithin_of_failed (c := Cursor.start s') hlegal hfailed⟩

theorem Respelling.parse_of_target (hw : ¬∃ p, w.Looped p) {root' : Tree}
    (h : parse s' = .ok root') : ∃ root, parse s = .ok root ∧ w.Agrees s s' root root' := by
  have hlegal : s.illegal? = none :=
    (Respelling.illegal?_iff hs hs').mpr (TokenStream.illegal?_of_parse h)
  obtain ⟨items, q, hunit, rfl⟩ := TokenStream.eval_of_parse h
  rw [← hs'] at hunit
  have hplace : Rule.eval w.target nestingLimit .unit ⟨w.place 0, 0⟩ = .read items ⟨q, 0⟩ := by
    rw [hzero, hunit]
  obtain ⟨q', hread⟩ := Respelling.unit_of_target hw hplace
  have hparse := hread
  rw [hs] at hparse
  exact ⟨_, Cursor.parseWithin_of_read (c := Cursor.start s) hlegal hparse, items, q', q, hread,
    hunit, rfl, rfl⟩

end Streams

/-! ## Operators and loops -/

section Respells

variable {s s' : TokenStream}

theorem Symbol.Respells.isTrivia_eq {a b : Symbol} (h : a.Respells b) :
    a.kind.isTrivia = b.kind.isTrivia := by
  rcases h with rfl | h
  · rfl
  · have hplain {k : TokenKind} (hk : k ∈ TokenKind.respelled) : k.isTrivia = false := by
      revert k
      decide
    rw [hplain h.mem.1, hplain h.mem.2]

/-- Symbols at the same place in lists, and behind their ends. -/
theorem Symbol.Respells.getD {l l' : List Symbol} (h : List.Forall₂ Symbol.Respells l l')
    (p : Nat) : (l[p]?.getD .last).Respells (l'[p]?.getD .last) := by
  induction h generalizing p with
  | nil => exact .inl rfl
  | cons hab _ ih =>
    cases p with
    | zero => exact hab
    | succ p => exact ih p

theorem significantIndices_eq_of_respells {l l' : List Symbol}
    (h : List.Forall₂ Symbol.Respells l l') (n : Nat) :
    significantIndices n l = significantIndices n l' := by
  induction h generalizing n with
  | nil => rfl
  | cons hab _ ih =>
    have htail := ih (n + 1)
    simp only [significantIndices, List.zipIdx_cons, List.filter_cons, hab.isTrivia_eq] at htail ⊢
    split <;> simp [htail]

namespace TokenStream.Respells

theorem symbols (h : s.Respells s') :
    List.Forall₂ Symbol.Respells s.symbols.toList s'.symbols.toList := by
  rw [symbols_toList_eq, symbols_toList_eq]
  refine List.rel_filter (fun a b hab => ?_) h
  simp [hab.isTrivia_eq]

theorem symbolAt (h : s.Respells s') (p : Nat) :
    (s.symbols.symbolAt p).Respells (s'.symbols.symbolAt p) := by
  have hsymbols := Symbol.Respells.getD h.symbols p
  rwa [Array.getElem?_toList, Array.getElem?_toList] at hsymbols

/-- The other spellings are the same in number and place. -/
theorem tokenAt_eq (h : s.Respells s') (i : Nat) :
    ((Cursor.start s).tokenAt i).2 = ((Cursor.start s').tokenAt i).2 := by
  have hlength := List.Forall₂.length_eq h
  rw [List.length_map, List.length_map] at hlength
  rw [TokenStream.tokenAt_eq, TokenStream.tokenAt_eq, significantIndices_eq_of_respells h, hlength]

def respelling (h : s.Respells s') : Respelling where
  source := s.symbols
  target := s'.symbols
  place := id
  back := id
  back_place _ := rfl
  cases p := .inl ⟨h.symbolAt p, rfl⟩
  covers _ := .inl rfl

theorem parse_eq (h : s.Respells s') {root : Tree} (hroot : parse s = .ok root) :
    parse s' = .ok root := by
  have hparse := Respelling.parse_of_source (w := h.respelling) rfl rfl rfl hroot
  rcases hparse with ⟨root', hroot', items, q, q', -, -, rfl, rfl⟩ | ⟨⟨p, hp⟩, -⟩
  · rw [hroot']
    have htokens : (fun i => ((Cursor.start s').tokenAt i).2) =
        fun i => ((Cursor.start s).tokenAt i).2 := funext fun i => (h.tokenAt_eq i).symm
    rw [htokens]
    simp [respelling, Tree.mapTokens_mapTokens]
  · have hsucc := hp.place_succ
    change p + 1 = p + 2 at hsucc
    omega

end TokenStream.Respells

end Respells

/-! ## Conditionals -/

section Unfolds

variable {s s' : TokenStream}

namespace TokenStream.Unfolds

theorem symbols (h : s.Unfolds s') :
    s'.symbols.toList = s.symbols.toList.flatMap Symbol.unfolded := by
  rw [symbols_toList_eq, symbols_toList_eq, h, Unfolding.filter_flatMap]

/-- What stands where a symbol begins. -/
theorem symbolAt_place (h : s.Unfolds s') (p : Nat) :
    (s.symbols.symbolAt p).kind ≠ .kwElseIf ∧
        s'.symbols.symbolAt (Unfolding.place s.symbols.toList p) = s.symbols.symbolAt p ∨
      (s.symbols.symbolAt p).kind = .kwElseIf ∧
        (s'.symbols.symbolAt (Unfolding.place s.symbols.toList p)).kind = .kwElse ∧
        (s'.symbols.symbolAt (Unfolding.place s.symbols.toList p + 1)).kind = .kwIf := by
  have hstand : s'.symbols.Stand (Unfolding.place s.symbols.toList p)
      ((s.symbols.toList.drop p).flatMap Symbol.unfolded) := by
    rw [Symbols.Stand, h.symbols, Unfolding.drop_place]
  have hsource : s.symbols.Stand p (s.symbols.toList.drop p) := rfl
  generalize s.symbols.toList.drop p = list at hstand hsource
  cases list with
  | nil =>
    rw [hstand.symbolAt_nil, hsource.symbolAt_nil]
    exact .inl ⟨by decide, rfl⟩
  | cons a list =>
    rw [hsource.symbolAt]
    rw [List.flatMap_cons] at hstand
    by_cases hk : a.kind = .kwElseIf
    · rw [Symbol.unfolded_of_elseIf hk] at hstand
      refine .inr ⟨hk, ?_, ?_⟩
      · rw [Symbols.Stand.symbolAt hstand]
      · rw [Symbols.Stand.symbolAt (Symbols.Stand.tail hstand)]
    · rw [Symbol.unfolded_of_ne hk] at hstand
      exact .inl ⟨hk, Symbols.Stand.symbolAt hstand⟩

theorem shift_eq (p : Nat) : Unfolding.shift s.symbols.toList p =
    Unfolding.place s.symbols.toList p +
      if (s.symbols.symbolAt p).kind = .kwElseIf then 1 else 0 := by
  rw [Unfolding.shift_eq, Array.getElem?_toList]
  rfl

/-- How far it is from there to where the next one begins. -/
theorem place_cases (h : s.Unfolds s') (p : Nat) :
    (s.symbols.symbolAt p).kind ≠ .kwElseIf ∧
        s'.symbols.symbolAt (Unfolding.place s.symbols.toList p) = s.symbols.symbolAt p ∧
        Unfolding.place s.symbols.toList (p + 1) = Unfolding.place s.symbols.toList p + 1 ∨
      (s.symbols.symbolAt p).kind = .kwElseIf ∧
        (s'.symbols.symbolAt (Unfolding.place s.symbols.toList p)).kind = .kwElse ∧
        (s'.symbols.symbolAt (Unfolding.place s.symbols.toList p + 1)).kind = .kwIf ∧
        Unfolding.place s.symbols.toList (p + 1) = Unfolding.place s.symbols.toList p + 2 ∧
        Unfolding.back s.symbols.toList (Unfolding.place s.symbols.toList p + 1) = p := by
  have hsucc := Unfolding.place_succ s.symbols.toList p
  have hback := Unfolding.back_shift s.symbols.toList p
  rw [shift_eq] at hsucc hback
  rcases h.symbolAt_place p with ⟨hk, hsymbol⟩ | ⟨hk, helse, hif⟩
  · rw [if_neg hk] at hsucc
    exact .inl ⟨hk, hsymbol, hsucc⟩
  · rw [if_pos hk] at hsucc hback
    exact .inr ⟨hk, helse, hif, hsucc, hback⟩

def respelling (h : s.Unfolds s') : Respelling where
  source := s.symbols
  target := s'.symbols
  place := Unfolding.place s.symbols.toList
  back := Unfolding.back s.symbols.toList
  back_place := Unfolding.back_place s.symbols.toList
  cases p := (h.place_cases p).imp_left fun ⟨_, hsymbol, hsucc⟩ => ⟨.inl hsymbol, hsucc⟩
  covers k := by
    rcases Unfolding.place_or_shift s.symbols.toList k with hplace | hshift
    · exact .inl hplace
    · rw [shift_eq] at hshift
      rcases h.symbolAt_place (Unfolding.back s.symbols.toList k) with ⟨hk, -⟩ | ⟨hk, -, hif⟩
      · rw [if_neg hk] at hshift
        exact .inl hshift
      · rw [if_pos hk] at hshift
        rw [hshift] at hif
        exact .inr ⟨hk, hif, hshift⟩

theorem not_looped (h : s.Unfolds s') : ¬∃ p, h.respelling.Looped p := by
  rintro ⟨p, hp⟩
  have hsource : (s.symbols.symbolAt p).kind = .kwWhile := hp.source
  have htarget : (s'.symbols.symbolAt (Unfolding.place s.symbols.toList p)).kind = .kwFor :=
    hp.target
  rcases h.symbolAt_place p with ⟨-, hsymbol⟩ | ⟨hk, -⟩
  · rw [hsymbol, hsource] at htarget
    cases htarget
  · rw [hsource] at hk
    cases hk

theorem unfolded (h : s.Unfolds s') {p : Nat} (hk : (s.symbols.symbolAt p).kind = .kwElseIf) :
    h.respelling.Unfolded p := by
  rcases h.place_cases p with ⟨hne, -⟩ | ⟨-, helse, hif, hsucc, hback⟩
  · exact absurd hk hne
  · exact ⟨hk, helse, hif, hsucc, hback⟩

/-- An anchor that is not the first word of `elseif` is where its symbol is shifted to. -/
theorem shift_back (h : s.Unfolds s') {k : Nat}
    (hk : ¬(h.respelling.Unfolded (h.respelling.back k) ∧
      h.respelling.place (h.respelling.back k) = k)) :
    Unfolding.shift s.symbols.toList (Unfolding.back s.symbols.toList k) = k := by
  rcases Unfolding.place_or_shift s.symbols.toList k with hplace | hshift
  · rw [shift_eq, hplace]
    by_cases helseIf : (s.symbols.symbolAt (Unfolding.back s.symbols.toList k)).kind = .kwElseIf
    · exact absurd ⟨h.unfolded helseIf, hplace⟩ hk
    · rw [if_neg helseIf, Nat.add_zero]
  · exact hshift

theorem unfoldedIndex_eq (s : TokenStream) (i : Nat) :
    s.unfoldedIndex i = Unfolding.shift (s.body.map (·.symbol)) i := by
  rw [unfoldedIndex, Unfolding.shift, Unfolding.elseIfs, ← List.map_take, List.countP_map]
  rfl

/-- Where symbols are shifted to, so are the indices of their tokens. -/
theorem tokenAt_shift (h : s.Unfolds s') (p : Nat) :
    ((Cursor.start s').tokenAt (Unfolding.shift s.symbols.toList p)).2 =
      s.unfoldedIndex ((Cursor.start s).tokenAt p).2 := by
  have hindex := Unfolding.index_shift (s.body.map (·.symbol)) p
  rw [← symbols_toList_eq, ← h, Unfolding.index, Unfolding.index, List.length_map,
    List.length_map] at hindex
  rw [TokenStream.tokenAt_eq, TokenStream.tokenAt_eq, unfoldedIndex_eq, hindex]

/-- The trees of a source and of the unfolded one are the same but for the shift. -/
theorem root_eq (h : s.Unfolds s') {root root' : Tree}
    (hroot : h.respelling.Agrees s s' root root') : root' = root.mapTokens s.unfoldedIndex := by
  obtain ⟨items, q, q', hsource, htarget, rfl, rfl⟩ := hroot
  have hfills := Rule.shapes_of_eval htarget
  have hanchored := Grammar.unit_anchored htarget
  have hanchored' := List.forall_mem_map.mp (Grammar.unit_anchored hsource)
  have hitems : items.map (·.mapTokens fun i => ((Cursor.start s').tokenAt i).2) =
      (items.map (·.mapTokens h.respelling.back)).map
        (·.mapTokens fun i => s.unfoldedIndex ((Cursor.start s).tokenAt i).2) := by
    rw [List.map_map]
    refine List.map_congr_left fun item hitem => ?_
    -- Anchors go forth as they went back unless they are at an `else`, where none is.
    have hfilled := (hfills item hitem).filled .statement (by decide)
    have hapart := h.respelling.anchors_apart (List.ne_nil_of_mem hfilled.place) hfilled.regular
      (hanchored item hitem) (hanchored' item hitem)
    rw [Function.comp, Tree.mapTokens_mapTokens]
    refine Tree.mapTokens_congr fun k hk => ?_
    rw [Function.comp, ← h.tokenAt_shift]
    exact congrArg (fun i => ((Cursor.start s').tokenAt i).2) (h.shift_back (hapart k hk)).symm
  have hfirst : (s.symbols.symbolAt 0).kind ∉ [TokenKind.semicolon, .kwElse, .kwElseIf] :=
    Grammar.unit_kind_not_mem (by decide) hsource
  have hzero : Unfolding.shift s.symbols.toList 0 = 0 := by
    have hne : (s.symbols.symbolAt 0).kind ≠ .kwElseIf := fun hk => hfirst (by simp [hk])
    rw [shift_eq, if_neg hne]
    rfl
  have htoken := h.tokenAt_shift 0
  rw [hzero] at htoken
  rw [Tree.mapTokens_mapTokens, Tree.mapTokens_node, Tree.mapTokens_node]
  simp only [Form.map, Form.mapTokens, Function.comp_def, htoken]
  exact congrArg (fun items => Tree.node _ (.root items)) hitems

theorem parse_of_source (h : s.Unfolds s') {root : Tree} (hroot : parse s = .ok root) :
    parse s' = .ok (root.mapTokens s.unfoldedIndex) ∨ ∃ place, parse s' =
      .error ⟨.structural, (Cause.nestedTooDeeply nestingLimit).message, place⟩ := by
  have hparse := Respelling.parse_of_source (w := h.respelling) rfl rfl rfl hroot
  rcases hparse with ⟨root', hroot', hagrees⟩ | ⟨-, hnested⟩
  · rw [h.root_eq hagrees] at hroot'
    exact .inl hroot'
  · exact .inr hnested

theorem parse_of_target (h : s.Unfolds s') {root' : Tree} (hroot : parse s' = .ok root') :
    ∃ root, parse s = .ok root ∧ root' = root.mapTokens s.unfoldedIndex := by
  obtain ⟨root, hparse, hagrees⟩ :=
    Respelling.parse_of_target (w := h.respelling) rfl rfl rfl h.not_looped hroot
  exact ⟨root, hparse, h.root_eq hagrees⟩

end TokenStream.Unfolds

end Unfolds

/-- Sources in different spellings are parsed alike: with other words for operators and loops
to the same tree, and with `else if` for `elseif` to the tree with its anchors moved, unless the
source is then nested too deeply. What is parsed with `else if` is parsed with `elseif`. -/
theorem parse_spellings (s s' : TokenStream) :
    (s.Respells s' → ∀ root, parse s = .ok root → parse s' = .ok root) ∧
      (s.Unfolds s' →
        (∀ root, parse s = .ok root → parse s' = .ok (root.mapTokens s.unfoldedIndex) ∨
          ∃ place, parse s' =
            .error ⟨.structural, (Cause.nestedTooDeeply nestingLimit).message, place⟩) ∧
        ∀ root', parse s' = .ok root' →
          ∃ root, parse s = .ok root ∧ root' = root.mapTokens s.unfoldedIndex) :=
  ⟨fun h _ hroot => h.parse_eq hroot, fun h =>
    ⟨fun _ hroot => h.parse_of_source hroot, fun _ hroot => h.parse_of_target hroot⟩⟩

/-- A loop with a condition, and a chain of two conditionals, in both spellings. -/
theorem parse_spellings_of_chain :
    (∃ root, parse (lex "while (a && b) {}" "a.hz") = .ok root ∧
      parse (lex "for (a and b) {}" "a.hz") = .ok root) ∧
    ∃ root, parse (lex "if (a) b; elseif (c) d;" "a.hz") = .ok root ∧
      parse (lex "if (a) b; else if (c) d;" "a.hz") =
        .ok (root.mapTokens (lex "if (a) b; elseif (c) d;" "a.hz").unfoldedIndex) := by
  have hrespells : (lex "while (a && b) {}" "a.hz").Respells (lex "for (a and b) {}" "a.hz") := by
    decide +kernel
  have hunfolds : (lex "if (a) b; elseif (c) d;" "a.hz").Unfolds
      (lex "if (a) b; else if (c) d;" "a.hz") := by decide +kernel
  have hloop : (parse (lex "while (a && b) {}" "a.hz")).toOption.isSome = true := by
    decide +kernel
  have hchain : (parse (lex "if (a) b; else if (c) d;" "a.hz")).toOption.isSome = true := by
    decide +kernel
  constructor
  · cases h : parse (lex "while (a && b) {}" "a.hz") with
    | error fault =>
      rw [h] at hloop
      cases hloop
    | ok root => exact ⟨root, rfl, (parse_spellings _ _).1 hrespells root h⟩
  · cases h : parse (lex "if (a) b; else if (c) d;" "a.hz") with
    | error fault =>
      rw [h] at hchain
      cases hchain
    | ok root' =>
      obtain ⟨hforth, hback⟩ := (parse_spellings _ _).2 hunfolds
      obtain ⟨root, hroot, -⟩ := hback root' h
      rcases hforth root hroot with hread | ⟨place, hnested⟩
      · exact ⟨root, hroot, h.symm.trans hread⟩
      · rw [h] at hnested
        cases hnested

end FrontEnd
