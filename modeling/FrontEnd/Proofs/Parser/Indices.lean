import FrontEnd.Proofs.Parser.Faults

/-!
Where the symbols of a stream stand among its tokens. Comments are counted and are no
symbols, so a symbol's index is not its position; indices of parts of a stream are put
together here.
-/

namespace FrontEnd

/-- The indices of the symbols that are no comments, counted from `n` on. -/
def significantIndices (n : Nat) (list : List Symbol) : List Nat :=
  ((list.zipIdx n).filter fun x => !x.1.kind.isTrivia).map (·.2)

section Indices

variable (n k : Nat) (list rest : List Symbol)

theorem significantIndices_append : significantIndices n (list ++ rest) =
    significantIndices n list ++ significantIndices (n + list.length) rest := by
  simp [significantIndices, List.zipIdx_append]

theorem significantIndices_cons {a : Symbol} (h : a.kind.isTrivia = false) :
    significantIndices n (a :: list) = n :: significantIndices (n + 1) list := by
  simp [significantIndices, List.zipIdx_cons, h]

theorem significantIndices_of_plain (h : ∀ a ∈ list, a.kind.isTrivia = false) :
    significantIndices n list = List.range' n list.length := by
  induction list generalizing n with
  | nil => rfl
  | cons a list ih =>
    obtain ⟨ha, hlist⟩ := List.forall_mem_cons.mp h
    rw [significantIndices_cons n list ha, ih (n + 1) hlist]
    rfl

theorem significantIndices_add :
    significantIndices (n + k) list = (significantIndices n list).map (· + k) := by
  induction list generalizing n with
  | nil => rfl
  | cons a list ih =>
    have htail := ih (n + 1)
    rw [Nat.add_right_comm] at htail
    simp only [significantIndices, List.zipIdx_cons, List.filter_cons] at htail ⊢
    split
    · simp only [List.map_cons, htail]
    · exact htail

theorem length_significantIndices : (significantIndices n list).length =
    (list.filter (!·.kind.isTrivia)).length := by
  induction list generalizing n with
  | nil => rfl
  | cons a list ih =>
    have htail := ih (n + 1)
    simp only [significantIndices, List.zipIdx_cons, List.filter_cons] at htail ⊢
    split
    · simpa using htail
    · exact htail

end Indices

namespace TokenStream

variable {s : TokenStream}

theorem symbols_toList_eq (s : TokenStream) :
    s.symbols.toList = (s.body.map (·.symbol)).filter (!·.kind.isTrivia) := by
  rw [symbols_toList, List.filter_map]
  rfl

theorem length_indices (s : TokenStream) :
    (significantIndices 0 (s.body.map (·.symbol))).length = s.symbols.size := by
  rw [length_significantIndices, ← symbols_toList_eq, Array.length_toList]

theorem tokenAt_eq (s : TokenStream) (i : Nat) : ((Cursor.start s).tokenAt i).2 =
    (significantIndices 0 (s.body.map (·.symbol)))[i]?.getD s.body.length := by
  have hmap : significantIndices 0 (s.body.map (·.symbol)) = s.significant.map (·.2) := by
    rw [significantIndices, List.zipIdx_map, List.filter_map, List.map_map]
    rfl
  rw [hmap, List.getElem?_map, Cursor.tokenAt, Cursor.start]
  cases s.significant[i]? <;> rfl

/-- The token that a cursor sees at a position stands at its index and is no comment. -/
theorem getElem?_tokenAt (s : TokenStream) (i : Nat) :
    s.tokens[((Cursor.start s).tokenAt i).2]? = some ((Cursor.start s).tokenAt i).1 ∧
      ((Cursor.start s).tokenAt i).1.kind.isTrivia = false := by
  unfold Cursor.tokenAt tokens
  cases h : s.significant[i]? with
  | none =>
    rw [Cursor.start, h]
    exact ⟨List.getElem?_concat_length, rfl⟩
  | some found =>
    obtain ⟨t, j⟩ := found
    obtain ⟨hbody, htrivia⟩ := getElem?_of_significant h
    have hlt : j < s.body.length := (List.getElem?_eq_some_iff.mp hbody).1
    rw [Cursor.start, h]
    exact ⟨(List.getElem?_append_left hlt).trans hbody, htrivia⟩

/-- Indices are in the order of the positions, up to that of the last token. -/
theorem tokenAt_lt {i j : Nat} (hij : i < j) (hj : j ≤ s.symbols.size) :
    ((Cursor.start s).tokenAt i).2 < ((Cursor.start s).tokenAt j).2 := by
  have hpairwise : s.significant.Pairwise fun a b => a.2 < b.2 := by
    refine List.Pairwise.filter _ ?_
    rw [← List.pairwise_map, List.zipIdx_map_snd]
    exact List.pairwise_lt_range'
  rw [← Cursor.length_significant] at hj
  have hi : i < s.significant.length := Nat.lt_of_lt_of_le hij hj
  have hfirst : (Cursor.start s).tokenAt i = s.significant[i] := by
    simp [Cursor.tokenAt, Cursor.start, hi]
  rw [hfirst]
  rcases Nat.eq_or_lt_of_le hj with rfl | hlt
  · have hlast : (Cursor.start s).tokenAt s.significant.length = (s.last, s.body.length) := by
      simp [Cursor.tokenAt, Cursor.start]
    rw [hlast]
    have hbody := (getElem?_of_significant (List.getElem?_eq_getElem hi)).1
    exact (List.getElem?_eq_some_iff.mp hbody).1
  · have hsecond : (Cursor.start s).tokenAt j = s.significant[j] := by
      simp [Cursor.tokenAt, Cursor.start, hlt]
    rw [hsecond]
    exact List.pairwise_iff_getElem.mp hpairwise i j hi hlt hij

theorem illegal?_of_parse {root : Tree} (h : FrontEnd.parse s = .ok root) :
    s.illegal? = none := by
  cases hi : s.illegal? with
  | none => rfl
  | some t =>
    rw [FrontEnd.parse, Cursor.parse, Cursor.parseWithin_of_illegal hi] at h
    cases h

/-- A source that has a tree has no token that is illegal. -/
theorem kind_ne_illegal_of_parse {root : Tree} (h : FrontEnd.parse s = .ok root) {t : Token}
    (ht : t ∈ s.body) : t.kind ≠ .illegal := by
  intro hk
  have hnone := List.find?_eq_none.mp (illegal?_of_parse h) t
    (List.mem_reverse.mpr (List.mem_append_left _ ht))
  simp [hk] at hnone

/-- The tree of a stream is that of its symbols, anchored at the tokens. -/
theorem eval_of_parse {root : Tree} (h : FrontEnd.parse s = .ok root) :
    ∃ items q, Rule.eval s.symbols nestingLimit .unit ⟨0, 0⟩ = .read items ⟨q, 0⟩ ∧
      root = (Tree.node 0 (.root items)).mapTokens fun i => ((Cursor.start s).tokenAt i).2 := by
  obtain ⟨items, ⟨q, depth⟩, -, ho, -⟩ := Cursor.parseWithin_eq_ok h
  change Rule.eval s.symbols nestingLimit .unit ⟨0, 0⟩ = _ at ho
  have hkeeps := Rule.eval_keeps s.symbols nestingLimit .unit ⟨0, 0⟩
  rw [ho] at hkeeps
  obtain rfl : depth = 0 := hkeeps.2.2
  have hread := Cursor.parseWithin_of_read (c := Cursor.start s) (illegal?_of_parse h) ho
  have hroot := h.symm.trans hread
  cases hroot
  exact ⟨items, q, ho, rfl⟩

end TokenStream

end FrontEnd
