import FrontEnd.Proofs.Lexer.Truncation
import FrontEnd.Proofs.Parser.Probing
import FrontEnd.Proofs.Parser.Steps

/-!
Faults of parsing. A fault of the tokens stops parsing before it begins, a fault of
structure is reported where the cursor then stands, outside of all nesting, and the
parser has none of its own: where it looks for a label it puts back only a name that
it has just taken.
-/

namespace FrontEnd

/-- A source has one token at most that tells of a fault. -/
theorem lex_illegal? {source fileName : String} {t : Token}
    (h : t ∈ (lex source fileName).tokens) (ht : t.kind = .illegal) :
    (lex source fileName).illegal? = some t := by
  rcases List.mem_append.mp h with hbody | hlast
  · have hbody := body_of_illegal hbody ht
    have hlegal : (lex source fileName).last.kind ≠ .illegal := nofun
    unfold TokenStream.illegal? TokenStream.tokens
    rw [hbody]
    simp [ht, hlegal]
  · rw [List.mem_singleton.mp hlast] at ht
    cases ht

namespace Cursor

variable {c : Cursor} {limit : Nat}

theorem length_significant (s : TokenStream) : s.significant.length = s.symbols.size := by
  simp [TokenStream.symbols]

/-- What parsing sees where the cursor stands is the current token. -/
theorem symbolAt_eq (c : Cursor) (p : Nat) :
    c.stream.symbols.symbolAt p = (c.tokenAt p).1.symbol := by
  unfold Symbols.symbolAt TokenStream.symbols tokenAt
  rw [List.getElem?_toArray, List.getElem?_map]
  cases c.stream.significant[p]? <;> rfl

theorem current_symbol (c : Cursor) : c.stream.symbols.symbolAt c.position = c.current.symbol :=
  c.symbolAt_eq c.position

/-- The cursor never stands on a comment. -/
theorem current_mem (c : Cursor) :
    c.current ∈ c.stream.tokens ∧ c.current.kind.isTrivia = false := by
  unfold current tokenAt
  cases h : c.stream.significant[c.position]? with
  | none => exact ⟨List.mem_append_right _ List.mem_cons_self, rfl⟩
  | some found =>
    obtain ⟨t, i⟩ := found
    obtain ⟨hbody, htrivia⟩ := TokenStream.getElem?_of_significant h
    exact ⟨List.mem_append_left _ (List.mem_of_getElem? hbody), htrivia⟩

/-! ## Labels -/

/-- The label that begins at the cursor, read with what a cursor can do: a name is
taken, and put back unless a colon follows it. -/
def label (c : Cursor) : Except Fault (Option String × Cursor) :=
  match c.takeKind .identifier with
  | none => .ok (none, c)
  | some (name, named) =>
    match named.takeKind .colon with
    | some (_, marked) => .ok (some name.text, marked)
    | none => named.retreat.map fun back => (none, back)

/-- A token of a kind that does not end the stream is taken exactly if it stands there. -/
theorem takeKind_eq (kind : TokenKind) (hk : kind ≠ .endOfFile) (c : Cursor) :
    c.takeKind kind =
      if (c.stream.symbols.symbolAt c.position).kind = kind then
        some (c.current, ⟨c.stream, c.position + 1, c.depth⟩)
      else none := by
  have hkind : (c.stream.symbols.symbolAt c.position).kind = c.current.kind := by
    rw [c.current_symbol]
    rfl
  unfold takeKind
  rw [hkind]
  split
  · rename_i h
    have hlt : c.position < c.stream.symbols.size :=
      Symbols.lt_size_of_kind (by rw [hkind, h]; exact hk)
    have hend : c.atEnd = false := by
      simpa [atEnd, length_significant] using hlt
    simp [take, hend]
  · rfl

/-- Behind a token just taken there is one to put back. -/
theorem retreat_of_takeKind {kind : TokenKind} {t : Token} {c' : Cursor}
    (h : c.takeKind kind = some (t, c')) : c'.retreat = .ok c := by
  unfold takeKind at h
  split at h
  · unfold take at h
    split at h
    · cases h
    · cases h
      rfl
  · cases h

/-- Looking ahead for a label is as good as taking and putting back, which never fails. -/
theorem label_eq (limit : Nat) (c : Cursor) :
    ∃ found t, Grammar.label.eval c.stream.symbols limit c.state = .read found t ∧
      c.label = .ok (found, ⟨c.stream, t.position, t.depth⟩) := by
  let symbols := c.stream.symbols
  have hsight : Grammar.label.eval symbols limit c.state = _ :=
    Script.eval_bind_of Script.eval_sight
  rw [hsight]
  have hname := takeKind_eq .identifier (by decide) c
  unfold label
  by_cases hi : (symbols.symbolAt c.position).kind = .identifier
  · have htake : c.takeKind .identifier =
        some (c.current, ⟨c.stream, c.position + 1, c.depth⟩) := by
      rw [hname, if_pos hi]
    have hback := retreat_of_takeKind htake
    have hcolon := takeKind_eq .colon (by decide)
      ⟨c.stream, c.position + 1, c.depth⟩
    rw [htake]
    dsimp only
    rw [hcolon]
    by_cases hc : (symbols.symbolAt (c.position + 1)).kind = .colon
    · have hp : symbols.next c.position = c.position + 1 := Symbols.next_eq (by rw [hi]; decide)
      have hp' : symbols.next (c.position + 1) = c.position + 2 :=
        Symbols.next_eq (by rw [hc]; decide)
      have htext : (symbols.symbolAt c.position).text = c.current.text := by
        rw [c.current_symbol]
        rfl
      rw [if_pos (by simp [state, hi, hc]), if_pos hc]
      refine ⟨some (symbols.symbolAt c.position).text,
        ⟨symbols.next (symbols.next c.position), c.depth⟩, rfl, ?_⟩
      simp [hp, hp', htext]
    · rw [if_neg (by simp [state, hc]), if_neg hc]
      refine ⟨none, c.state, rfl, ?_⟩
      simp only [hback]
      rfl
  · rw [if_neg (by simp [state, hi]), hname, if_neg hi]
    exact ⟨none, c.state, rfl, rfl⟩

/-! ## Faults of structure -/

theorem parseWithin_of_illegal {t : Token} (h : c.stream.illegal? = some t) :
    c.parseWithin limit = (.error ⟨.lexical, t.text, t.location⟩, c) := by
  unfold parseWithin
  rw [h]

/-- Where no token tells of a fault, parsing fails with the cursor on the token in the way. -/
theorem parseWithin_structural {fault : Fault} (hi : c.stream.illegal? = none)
    (h : (c.parseWithin limit).1 = .error fault) :
    fault.kind = .structural ∧ fault.location = (c.parseWithin limit).2.current.location := by
  unfold parseWithin at h ⊢
  rw [hi] at h ⊢
  cases ho : readUnit limit c.stream.symbols ⟨c.position, c.depth⟩ with
  | read items t =>
    rw [ho] at h
    cases h
  | failed cause t =>
    rw [ho] at h
    cases h
    exact ⟨rfl, rfl⟩
  | exhausted => exact absurd ho (Rule.eval_ne_exhausted _ _ _ _)

theorem parseWithin_stream (limit : Nat) (c : Cursor) :
    (c.parseWithin limit).2.stream = c.stream := by
  unfold parseWithin
  cases c.stream.illegal? with
  | some t => rfl
  | none =>
    cases readUnit limit c.stream.symbols ⟨c.position, c.depth⟩ <;> rfl

/-- From every cursor position, parsing fails for the tokens exactly if one of them
tells of a fault, and then with that token and without moving. All other faults are of
structure and stand where the cursor does, on a token that is no comment. The cursor
is then as deep in nesting as before. No fault is one of the parser itself: labels,
which alone put tokens back, are read without one. -/
theorem parse_faults (source fileName : String) (c : Cursor) (hs : c.stream = lex source fileName)
    (hp : c.position ≤ c.stream.symbols.size) :
    (∀ t ∈ c.stream.tokens, t.kind = .illegal →
      c.parse = (.error ⟨.lexical, t.text, t.location⟩, c)) ∧
    ((∃ fault, c.parse.1 = .error fault ∧ fault.kind = .lexical) ↔
      ∃ t ∈ c.stream.tokens, t.kind = .illegal) ∧
    (∀ fault, c.parse.1 = .error fault → fault.kind ≠ .internal) ∧
    (∀ fault, c.parse.1 = .error fault → fault.kind = .structural →
      fault.location = c.parse.2.current.location) ∧
    c.parse.2.stream = c.stream ∧ c.parse.2.depth = c.depth ∧
    c.parse.2.current ∈ c.stream.tokens ∧ c.parse.2.current.kind.isTrivia = false ∧
    ∀ c' : Cursor, ∃ found back, c'.label = .ok (found, back) ∧
      Grammar.label.eval c'.stream.symbols nestingLimit c'.state = .read found back.state := by
  obtain ⟨hinternal, -, hdepth⟩ := c.parseWithin_keeps nestingLimit hp
  have hstream := c.parseWithin_stream nestingLimit
  have hcurrent := c.parse.2.current_mem
  have hillegal (t : Token) (ht : t ∈ c.stream.tokens) (hk : t.kind = .illegal) :
      c.parse = (.error ⟨.lexical, t.text, t.location⟩, c) := by
    apply parseWithin_of_illegal
    rw [hs] at ht ⊢
    exact lex_illegal? ht hk
  refine ⟨hillegal, ⟨?_, ?_⟩, hinternal, ?_, hstream, hdepth, ?_, hcurrent.2, ?_⟩
  · rintro ⟨fault, hfault, hkind⟩
    cases hi : c.stream.illegal? with
    | none =>
      obtain ⟨hstructural, -⟩ := parseWithin_structural hi hfault
      rw [hkind] at hstructural
      cases hstructural
    | some t =>
      have hfound := List.mem_of_find?_eq_some hi
      exact ⟨t, List.mem_reverse.mp hfound, by simpa using List.find?_some hi⟩
  · rintro ⟨t, ht, hk⟩
    exact ⟨_, congrArg Prod.fst (hillegal t ht hk), rfl⟩
  · intro fault hfault hkind
    cases hi : c.stream.illegal? with
    | none => exact (parseWithin_structural hi hfault).2
    | some t =>
      rw [parse, parseWithin_of_illegal hi] at hfault
      cases hfault
      cases hkind
  · rw [← hstream]
    exact hcurrent.1
  · intro c'
    obtain ⟨found, t, heval, hlabel⟩ := label_eq nestingLimit c'
    exact ⟨found, _, hlabel, heval⟩

/-- The third token of this source that is no comment opens a call that lacks an argument. -/
theorem parse_faults_at_semicolon :
    let c : Cursor := ⟨lex "a; // b\nf(;" "f.hz", 2, 0⟩
    c.position ≤ c.stream.symbols.size ∧
      ∃ fault, c.parse.1 = .error fault ∧ fault.kind = .structural ∧
        fault.location = c.parse.2.current.location ∧ fault.location.line = 2 ∧
        c.parse.2.position = 4 ∧ c.parse.2.depth = 0 := by
  intro c
  have hp : c.position ≤ c.stream.symbols.size := by decide +kernel
  have hposition : c.parse.2.position = 4 := by decide +kernel
  have hline : c.parse.2.current.location.line = 2 := by decide +kernel
  have herror : c.parse.1.isOk = false := by decide +kernel
  obtain ⟨-, hlexical, hinternal, hlocation, -, hdepth, -⟩ := parse_faults _ _ c rfl hp
  cases hfault : c.parse.1 with
  | ok root =>
    rw [hfault] at herror
    cases herror
  | error fault =>
    have hkind : fault.kind = .structural := by
      cases hk : fault.kind with
      | structural => rfl
      | internal => exact absurd hk (hinternal fault hfault)
      | lexical =>
        obtain ⟨t, ht, htk⟩ := hlexical.mp ⟨fault, hfault, hk⟩
        have hlegal : ∀ t ∈ c.stream.tokens, t.kind ≠ .illegal := by decide +kernel
        exact absurd htk (hlegal t ht)
    have hat := hlocation fault hfault hkind
    exact ⟨hp, fault, rfl, hkind, hat, by rw [hat, hline], hposition, hdepth⟩

end Cursor

end FrontEnd
