import FrontEnd.Proofs.Parser.Indices
import FrontEnd.Proofs.Parser.Names
import FrontEnd.Proofs.Parser.Units

/-!
Sources one behind the other. The last statement of a source that is read ends there also
where another source follows, since no statement begins with what could carry it on: the
items of both are those of the one and then those of the other.
-/

namespace FrontEnd

namespace TokenStream

/-- The tokens of a stream without its end, and behind them those of another. -/
def append (s t : TokenStream) : TokenStream where
  fileName := s.fileName
  body := s.body ++ t.body
  stop := t.stop
  warnings := s.warnings ++ t.warnings

theorem tokens_append (s t : TokenStream) : (s.append t).tokens = s.body ++ t.tokens :=
  List.append_assoc _ _ _

variable {s t : TokenStream} {p : Nat}

theorem symbols_append (s t : TokenStream) : (s.append t).symbols = s.symbols ++ t.symbols := by
  apply Array.ext'
  rw [Array.toList_append]
  simp only [symbols_toList_eq, append, List.map_append, List.filter_append]

theorem symbolAt_append_left (h : p < s.symbols.size) :
    (s.append t).symbols.symbolAt p = s.symbols.symbolAt p := by
  rw [symbols_append, Symbols.symbolAt, Array.getElem?_append_left h]
  rfl

theorem symbolAt_append_right (s t : TokenStream) (p : Nat) :
    (s.append t).symbols.symbolAt (p + s.symbols.size) = t.symbols.symbolAt p := by
  rw [symbols_append, Symbols.symbolAt, Array.getElem?_append_right (Nat.le_add_left _ _),
    Nat.add_sub_cancel]
  rfl

theorem significantIndices_append_body (s t : TokenStream) :
    significantIndices 0 ((s.append t).body.map (·.symbol)) =
      significantIndices 0 (s.body.map (·.symbol)) ++
        (significantIndices 0 (t.body.map (·.symbol))).map (· + s.body.length) := by
  rw [append, List.map_append, significantIndices_append, significantIndices_add,
    List.length_map]

theorem tokenAt_append_left (h : p < s.symbols.size) :
    ((Cursor.start (s.append t)).tokenAt p).2 = ((Cursor.start s).tokenAt p).2 := by
  rw [← length_indices] at h
  rw [tokenAt_eq, tokenAt_eq, significantIndices_append_body, List.getElem?_append_left h,
    List.getElem?_eq_getElem h]
  rfl

theorem tokenAt_append_right (s t : TokenStream) (p : Nat) :
    ((Cursor.start (s.append t)).tokenAt (p + s.symbols.size)).2 =
      ((Cursor.start t).tokenAt p).2 + s.body.length := by
  rw [tokenAt_eq, tokenAt_eq, significantIndices_append_body, ← length_indices,
    List.getElem?_append_right (Nat.le_add_left _ _), Nat.add_sub_cancel, List.getElem?_map]
  cases (significantIndices 0 (t.body.map (·.symbol)))[p]? with
  | none => simp [append, Nat.add_comm]
  | some i => rfl

theorem illegal?_append {x y : Tree} (hs : FrontEnd.parse s = .ok x)
    (ht : FrontEnd.parse t = .ok y) : (s.append t).illegal? = none := by
  have hs' := illegal?_of_parse hs
  have ht' := illegal?_of_parse ht
  rw [illegal?, List.find?_eq_none] at hs' ht' ⊢
  intro token htoken
  rw [tokens_append, List.mem_reverse, List.mem_append] at htoken
  rcases htoken with htoken | htoken
  · exact hs' token (List.mem_reverse.mpr (List.mem_append_left _ htoken))
  · exact ht' token (List.mem_reverse.mpr htoken)

/-- The first stream where the second one follows. -/
def former (s t : TokenStream) : Passage where
  source := s.symbols
  target := (s.append t).symbols
  start := 0
  stop := s.symbols.size
  shift := 0
  extra := 0
  move := id
  same _ _ hp := symbolAt_append_left hp
  source_le := Nat.le_refl _
  target_le := by simp [symbols_append]
  move_eq _ _ _ := rfl

/-- The second stream where the first one is before it. -/
def latter (s t : TokenStream) : Passage where
  source := t.symbols
  target := (s.append t).symbols
  start := 0
  stop := t.symbols.size
  shift := s.symbols.size
  extra := 0
  move := (· + s.symbols.size)
  same p _ _ := symbolAt_append_right s t p
  source_le := Nat.le_refl _
  target_le := by simp [symbols_append, Nat.add_comm]
  move_eq _ _ _ := rfl

/-- A stream is read up to its end, if no symbol before it tells the end. -/
theorem eval_size_of_parse (hend : ∀ p, (s.symbols.symbolAt p).kind = .endOfFile →
    s.symbols.size ≤ p) {root : Tree} (h : FrontEnd.parse s = .ok root) :
    ∃ items, Rule.eval s.symbols nestingLimit .unit ⟨0, 0⟩ = .read items ⟨s.symbols.size, 0⟩ ∧
      root = .node ((Cursor.start s).tokenAt 0).2
        (.root (items.map (·.mapTokens fun i => ((Cursor.start s).tokenAt i).2))) := by
  obtain ⟨items, q, hunit, hroot⟩ := eval_of_parse h
  have hends := unit_ends s.symbols nestingLimit ⟨0, 0⟩
  have hkeeps := Rule.eval_keeps s.symbols nestingLimit .unit ⟨0, 0⟩
  rw [hunit] at hends hkeeps
  obtain rfl : q = s.symbols.size :=
    Nat.le_antisymm (hkeeps.2.1 (Nat.zero_le _)) (hend q hends)
  exact ⟨items, hunit, hroot.trans (by simp)⟩

/-- What both streams are read as, the one behind the other. -/
theorem unit_append {xs ys : List Tree}
    (hs : Rule.eval s.symbols nestingLimit .unit ⟨0, 0⟩ = .read xs ⟨s.symbols.size, 0⟩)
    (ht : Rule.eval t.symbols nestingLimit .unit ⟨0, 0⟩ = .read ys ⟨t.symbols.size, 0⟩) :
    Rule.eval (s.append t).symbols nestingLimit .unit ⟨0, 0⟩ =
      .read (xs ++ ys.map (·.mapTokens (· + s.symbols.size)))
        ⟨t.symbols.size + s.symbols.size, 0⟩ := by
  have hend : (t.symbols.symbolAt t.symbols.size).kind = .endOfFile :=
    Symbols.kind_of_size_le (Nat.le_refl _)
  have hlatter : (latter s t).behind = .endOfFile :=
    (congrArg Symbol.kind (symbolAt_append_right s t t.symbols.size)).trans hend
  have hformer : (former s t).behind = (t.symbols.symbolAt 0).kind := by
    have hbehind := congrArg Symbol.kind (symbolAt_append_right s t 0)
    rwa [Nat.zero_add] at hbehind
  have hends : (latter s t).EndsStatement := by
    constructor <;> rw [hlatter] <;> decide
  have hends' : (former s t).EndsStatement := by
    have hstart := Grammar.unit_kind_not_mem (by decide) ht
    simp only [List.mem_cons, List.not_mem_nil, or_false, not_or] at hstart
    exact ⟨hformer ▸ hstart.1, hformer ▸ hstart.2.1, hformer ▸ hstart.2.2⟩
  have hdepth : 0 + 0 < nestingLimit := by decide
  have hys : Rule.unit.Obtains (s.append t).symbols nestingLimit (0 < 0) 0
      (0 + s.symbols.size) (ys.map (·.mapTokens (· + s.symbols.size)) ++ [])
      (t.symbols.size + s.symbols.size) :=
    Grammar.unit_carried hends (.inl hdepth) ht (Nat.le_refl 0) (Grammar.unit_obtained_nil hlatter)
  rw [List.append_nil, Nat.zero_add] at hys
  have hxs : Rule.unit.Obtains (s.append t).symbols nestingLimit (0 < 0) 0 0
      (xs.map (·.mapTokens id) ++ ys.map (·.mapTokens (· + s.symbols.size)))
      (t.symbols.size + s.symbols.size) :=
    Grammar.unit_carried hends' (.inl hdepth) hs (Nat.le_refl 0) hys
  have hid : xs.map (·.mapTokens id) = xs := Grammar.unit_mapTokens_eq hdepth hs fun _ _ _ => rfl
  rw [hid] at hxs
  exact hxs.eval_eq (Nat.lt_irrefl 0)

theorem parse_append_of (hs : ∀ p, (s.symbols.symbolAt p).kind = .endOfFile → s.symbols.size ≤ p)
    (ht : ∀ p, (t.symbols.symbolAt p).kind = .endOfFile → t.symbols.size ≤ p) {x y : Tree}
    (hx : FrontEnd.parse s = .ok x) (hy : FrontEnd.parse t = .ok y) :
    ∃ i j k xs ys, x = .node i (.root xs) ∧ y = .node j (.root ys) ∧
      FrontEnd.parse (s.append t) =
        .ok (.node k (.root (xs ++ ys.map (·.mapTokens (· + s.body.length))))) := by
  obtain ⟨xs, hxs, rfl⟩ := eval_size_of_parse hs hx
  obtain ⟨ys, hys, rfl⟩ := eval_size_of_parse ht hy
  have hread := Cursor.parseWithin_of_read (c := Cursor.start (s.append t))
    (illegal?_append hx hy) (unit_append hxs hys)
  refine ⟨_, _, ((Cursor.start (s.append t)).tokenAt 0).2, _, _, rfl, rfl, hread.trans ?_⟩
  have hfirst := Grammar.unit_mapTokens_congr (by decide) hxs
    fun i _ hi => tokenAt_append_left (t := t) hi
  have hsecond : (fun i => ((Cursor.start (s.append t)).tokenAt i).2) ∘ (· + s.symbols.size) =
      (· + s.body.length) ∘ fun i => ((Cursor.start t).tokenAt i).2 :=
    funext fun i => tokenAt_append_right s t i
  simp only [Tree.mapTokens_node, Form.map, Form.mapTokens, List.map_append, List.map_map,
    Function.comp_def, Tree.mapTokens_mapTokens, hfirst]
  simp only [Function.comp_def] at hsecond
  rw [hsecond]
  rfl

end TokenStream

/-- Where two sources have trees, the tokens of the one, its end left out, and those of the
other behind them have a tree whose items are those of both, the latter moved by as many
tokens as stand before them. -/
theorem parse_append (source fileName source' fileName' : String) {x y : Tree}
    (hx : parse (lex source fileName) = .ok x) (hy : parse (lex source' fileName') = .ok y) :
    ∃ i j k xs ys, x = .node i (.root xs) ∧ y = .node j (.root ys) ∧
      parse ((lex source fileName).append (lex source' fileName')) =
        .ok (.node k (.root (xs ++
          ys.map (·.mapTokens (· + (lex source fileName).body.length))))) :=
  TokenStream.parse_append_of (fun _ => lex_size_le) (fun _ => lex_size_le) hx hy

theorem parse_append_of_comments :
    let s := lex "match a { else: b = 1 } // c" "d.hz"
    let t := lex "/* e */ f();" "d.hz"
    s.body.length = 10 ∧ ∃ i j k xs ys, parse s = .ok (.node i (.root xs)) ∧
      parse t = .ok (.node j (.root ys)) ∧
        parse (s.append t) = .ok (.node k (.root (xs ++ ys.map (·.mapTokens (· + 10))))) := by
  intro s t
  have hlength : s.body.length = 10 := by decide +kernel
  have hs : (parse s).isOk = true := by decide +kernel
  have ht : (parse t).isOk = true := by decide +kernel
  cases hx : parse s with
  | error fault =>
    rw [hx] at hs
    cases hs
  | ok x =>
    cases hy : parse t with
    | error fault =>
      rw [hy] at ht
      cases ht
    | ok y =>
      obtain ⟨i, j, k, xs, ys, rfl, rfl, hparse⟩ := parse_append _ _ _ _ hx hy
      rw [← hlength]
      exact ⟨rfl, i, j, k, xs, ys, rfl, rfl, hparse⟩

end FrontEnd
