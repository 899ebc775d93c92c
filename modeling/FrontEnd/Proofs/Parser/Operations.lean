import FrontEnd.Proofs.Parser.Layout
import FrontEnd.Proofs.Parser.Names

/-!
Runs of operations on one cursor. Whatever was done with it, failed parses included, a cursor
stands on a token of the stream that is no comment, outside of all nesting. Taking a token
leads to the very next such token, and putting it back leads to where it was.
-/

namespace FrontEnd

namespace TokenStream

variable {s : TokenStream}

/-- The token at `j` is the first one behind `i` that is no comment. -/
def Follows (s : TokenStream) (i j : Nat) : Prop :=
  i < j ∧ (∃ t, s.tokens[j]? = some t ∧ t.kind.isTrivia = false) ∧
    ∀ k t, i < k → k < j → s.tokens[k]? = some t → t.kind.isTrivia = true

/-- No token before `i` is anything but a comment. -/
def IsFirst (s : TokenStream) (i : Nat) : Prop :=
  ∀ k t, k < i → s.tokens[k]? = some t → t.kind.isTrivia = true

theorem rank_lt {i j : Nat} {t : Token} (h : s.tokens[i]? = some t)
    (ht : t.kind.isTrivia = false) (hij : i < j) : s.rank i < s.rank j := by
  have hsucc : s.rank (i + 1) = s.rank i + 1 := by
    rw [rank, List.take_add_one, h, List.countP_append]
    simp [rank, ht]
  have hle : s.rank (i + 1) ≤ s.rank j :=
    ((s.tokens.take_sublist_take_left hij)).countP_le
  omega

/-- Up to the end, indices of neighbouring positions have comments between them only. -/
theorem follows_tokenAt {p : Nat} (hp : p < s.symbols.size) :
    s.Follows ((Cursor.start s).tokenAt p).2 ((Cursor.start s).tokenAt (p + 1)).2 := by
  refine ⟨tokenAt_lt (Nat.lt_succ_self p) hp, ⟨_, s.getElem?_tokenAt (p + 1)⟩, ?_⟩
  intro k t hk hk' ht
  cases htrivia : t.kind.isTrivia with
  | true => rfl
  | false =>
    -- Its rank would be between those of the two.
    have hbehind := rank_lt (s.getElem?_tokenAt p).1 (s.getElem?_tokenAt p).2 hk
    have hbefore := rank_lt ht htrivia hk'
    rw [rank_tokenAt] at hbehind hbefore
    omega

theorem isFirst_tokenAt_iff {p : Nat} (hp : p ≤ s.symbols.size) :
    s.IsFirst ((Cursor.start s).tokenAt p).2 ↔ p = 0 := by
  constructor
  · intro hfirst
    rcases Nat.eq_zero_or_pos p with hzero | hpos
    · exact hzero
    · have htrivia := hfirst _ _ (tokenAt_lt hpos hp) (s.getElem?_tokenAt 0).1
      rw [(s.getElem?_tokenAt 0).2] at htrivia
      cases htrivia
  · rintro rfl k t hk ht
    cases htrivia : t.kind.isTrivia with
    | true => rfl
    | false =>
      have hlt := rank_lt ht htrivia hk
      rw [rank_tokenAt] at hlt
      omega

end TokenStream

namespace Cursor

/-- What may be asked of a cursor. -/
inductive Operation where
  | current | next | take
  | takeKind (kind : TokenKind)
  | expect (kind : TokenKind)
  | retreat | parse
  deriving DecidableEq, Repr

inductive Answer where
  | nothing | done
  | token (t : Token)
  | tree (root : Tree)
  | fault (f : Fault)

namespace Answer

def ofToken? (t : Option Token) : Answer := (t.map token).getD nothing

/-- Nothing was taken, or the operation was refused. -/
def Fails (a : Answer) : Prop := a = nothing ∨ ∃ f, a = fault f

end Answer

/-- The answer to an operation, and the cursor behind it. Where an operation gives no cursor,
it is the same as before. -/
def perform (c : Cursor) : Operation → Answer × Cursor
  | .current => (.token c.current, c)
  | .next => (.ofToken? c.next?, c)
  | .take => (.ofToken? (c.take.map (·.1)), (c.take.map (·.2)).getD c)
  | .takeKind kind =>
    (.ofToken? ((c.takeKind kind).map (·.1)), ((c.takeKind kind).map (·.2)).getD c)
  | .expect kind =>
    match c.expect kind with
    | .ok (t, behind) => (.token t, behind)
    | .error f => (.fault f, c)
  | .retreat =>
    match c.retreat with
    | .ok before => (.done, before)
    | .error f => (.fault f, c)
  | .parse =>
    match c.parse with
    | (.ok root, behind) => (.tree root, behind)
    | (.error f, stopped) => (.fault f, stopped)

/-- The cursor behind several operations, one after the other. -/
def run (c : Cursor) (operations : List Operation) : Cursor :=
  operations.foldl (fun c o => (c.perform o).2) c

/-- The operation takes the current token if its kind is one of these. -/
inductive Operation.Takes : Operation → (TokenKind → Prop) → Prop where
  | take : Takes .take fun _ => True
  | takeKind (kind : TokenKind) : Takes (.takeKind kind) (· = kind)
  | expect (kind : TokenKind) : Takes (.expect kind) (· = kind)

/-- The cursor stands on a token of the stream, outside of all nesting. -/
structure Stands (s : TokenStream) (c : Cursor) : Prop where
  stream_eq : c.stream = s
  depth_eq : c.depth = 0
  position_le : c.position ≤ s.symbols.size

namespace Stands

variable {s : TokenStream} {c : Cursor}

/-- Where the cursor stands there is a token, and it is no comment. -/
theorem getElem?_index (h : c.Stands s) :
    s.tokens[c.index]? = some c.current ∧ c.current.kind.isTrivia = false := by
  obtain rfl := h.stream_eq
  exact c.stream.getElem?_tokenAt c.position

theorem atEnd_iff (h : c.Stands s) : c.atEnd = true ↔ c.position = s.symbols.size := by
  have hle := h.position_le
  rw [atEnd, decide_eq_true_eq, h.stream_eq, length_significant]
  omega

theorem isFirst_iff (h : c.Stands s) : s.IsFirst c.index ↔ c.position = 0 := by
  obtain rfl := h.stream_eq
  exact TokenStream.isFirst_tokenAt_iff h.position_le

theorem follows {behind : Cursor} (h : c.Stands s) (hb : behind.Stands s)
    (hp : behind.position = c.position + 1) : s.Follows c.index behind.index := by
  have hle := hb.position_le
  have hfollows := TokenStream.follows_tokenAt (s := s) (p := c.position) (by omega)
  rw [← hp] at hfollows
  rw [index, index, tokenAt, tokenAt, h.stream_eq, hb.stream_eq]
  exact hfollows

theorem index_le {behind : Cursor} (h : c.Stands s) (hb : behind.Stands s)
    (hp : c.position ≤ behind.position) : c.index ≤ behind.index := by
  rw [index, index, tokenAt, tokenAt, h.stream_eq, hb.stream_eq]
  rcases Nat.eq_or_lt_of_le hp with heq | hlt
  · exact Nat.le_of_eq (congrArg (fun p => ((start s).tokenAt p).2) heq)
  · exact Nat.le_of_lt (TokenStream.tokenAt_lt hlt hb.position_le)

/-! ## Each operation -/

theorem current_kind_iff (h : c.Stands s) (hs : ∀ t ∈ s.body, t.kind ≠ .endOfFile) :
    c.current.kind = .endOfFile ↔ c.atEnd = true := by
  obtain rfl := h.stream_eq
  rw [h.atEnd_iff]
  have hle := h.position_le
  have hkind : (c.stream.symbols.symbolAt c.position).kind = c.current.kind :=
    congrArg Symbol.kind c.current_symbol
  rw [← hkind]
  refine ⟨fun hend => ?_, fun hend => Symbols.kind_of_size_le (Nat.le_of_eq hend.symm)⟩
  rcases Nat.eq_or_lt_of_le hle with heq | hlt
  · exact heq
  · obtain ⟨t, ht, hsymbol⟩ := TokenStream.exists_of_lt_size hlt
    rw [hsymbol] at hend
    exact absurd hend (hs t ht)

end Stands

/-- The cursor behind the current token. -/
def behind (c : Cursor) : Cursor := ⟨c.stream, c.position + 1, c.depth⟩

section Performing

variable {s : TokenStream} {c : Cursor} {o : Operation} {kinds : TokenKind → Prop}

theorem perform_of_takes (ho : o.Takes kinds) (hk : kinds c.current.kind)
    (hend : c.atEnd = false) : c.perform o = (.token c.current, c.behind) := by
  cases ho with
  | take => simp [perform, take, hend, Answer.ofToken?, behind]
  | takeKind kind => simp [perform, takeKind, take, hk, hend, Answer.ofToken?, behind]
  | expect kind => simp [perform, expect, takeKind, take, hk, hend, behind]

theorem perform_of_refuses (ho : o.Takes kinds) (h : ¬kinds c.current.kind ∨ c.atEnd = true) :
    ∃ a, a.Fails ∧ c.perform o = (a, c) := by
  have hnone (kind : TokenKind) (h : ¬c.current.kind = kind ∨ c.atEnd = true) :
      c.takeKind kind = none := by
    unfold takeKind take
    rcases h with h | h <;> simp [h]
  cases ho with
  | take =>
    have hend : c.atEnd = true := h.resolve_left fun hk => hk trivial
    exact ⟨.nothing, .inl rfl, by simp [perform, take, hend, Answer.ofToken?]⟩
  | takeKind kind =>
    exact ⟨.nothing, .inl rfl, by simp [perform, hnone kind h, Answer.ofToken?]⟩
  | expect kind =>
    have hrefused : ∃ f, c.expect kind = .error f := by
      unfold expect
      rw [hnone kind h]
      exact ⟨_, rfl⟩
    obtain ⟨f, hf⟩ := hrefused
    exact ⟨.fault f, .inr ⟨f, rfl⟩, by simp only [perform, hf]⟩

theorem perform_retreat_behind (c : Cursor) : c.behind.perform .retreat = (.done, c) := rfl

theorem perform_retreat_of_zero (h : c.position = 0) :
    ∃ f, c.perform .retreat = (.fault f, c) := by
  unfold perform retreat
  rw [h]
  exact ⟨_, rfl⟩

theorem perform_retreat_of_succ {p : Nat} (h : c.position = p + 1) :
    c.perform .retreat = (.done, ⟨c.stream, p, c.depth⟩) := by
  unfold perform retreat
  rw [h]

theorem perform_parse (c : Cursor) : (c.perform .parse).2 = c.parse.2 ∧
    (∀ root, (c.perform .parse).1 = .tree root ↔ c.parse.1 = .ok root) ∧
    ∀ f, (c.perform .parse).1 = .fault f ↔ c.parse.1 = .error f := by
  unfold perform
  obtain ⟨f | root, stopped⟩ := c.parse <;> simp

theorem position_le_parse (c : Cursor) : c.position ≤ c.parse.2.position := by
  have hkeeps := Rule.eval_keeps c.stream.symbols nestingLimit .unit c.state
  change (readUnit nestingLimit c.stream.symbols ⟨c.position, c.depth⟩).Keeps _ c.state at hkeeps
  unfold parse parseWithin
  cases c.stream.illegal? with
  | some t => exact Nat.le_refl _
  | none =>
    cases ho : readUnit nestingLimit c.stream.symbols ⟨c.position, c.depth⟩ with
    | read items t | failed cause t =>
      rw [ho] at hkeeps
      exact hkeeps.1
    | exhausted => exact Nat.le_refl _

/-- Where parsing has succeeded it has come to the end. -/
theorem kind_of_parse {root : Tree} (h : c.parse.1 = .ok root) :
    c.parse.2.current.kind = .endOfFile := by
  have hends := unit_ends c.stream.symbols nestingLimit ⟨c.position, c.depth⟩
  change (readUnit nestingLimit c.stream.symbols ⟨c.position, c.depth⟩).Gives _ False at hends
  unfold parse parseWithin at h ⊢
  cases hi : c.stream.illegal? with
  | some t =>
    rw [hi] at h
    cases h
  | none =>
    rw [hi] at h
    cases ho : readUnit nestingLimit c.stream.symbols ⟨c.position, c.depth⟩ with
    | read items t =>
      rw [ho] at hends
      let stopped : Cursor := ⟨c.stream, t.position, t.depth⟩
      exact (congrArg Symbol.kind stopped.current_symbol).symm.trans hends
    | failed cause t =>
      rw [ho] at h
      cases h
    | exhausted =>
      rw [ho] at h
      cases h

/-! ## Runs of operations -/

theorem Stands.parse (h : c.Stands s) : c.parse.2.Stands s := by
  obtain rfl := h.stream_eq
  obtain ⟨-, hposition, hdepth⟩ := c.parseWithin_keeps nestingLimit h.position_le
  exact ⟨c.parseWithin_stream nestingLimit, hdepth.trans h.depth_eq, hposition⟩

theorem Stands.behind (h : c.Stands s) (hend : c.atEnd = false) : c.behind.Stands s := by
  have hle := h.position_le
  have hne : c.position ≠ s.symbols.size := by
    rw [Ne, ← h.atEnd_iff, hend]
    exact Bool.false_ne_true
  exact ⟨h.stream_eq, h.depth_eq, Nat.lt_of_le_of_ne hle hne⟩

theorem Stands.perform_taking (h : c.Stands s) {o : Operation} {kinds : TokenKind → Prop}
    (ho : o.Takes kinds) : (c.perform o).2.Stands s := by
  by_cases hk : kinds c.current.kind ∧ c.atEnd = false
  · rw [perform_of_takes ho hk.1 hk.2]
    exact h.behind hk.2
  · have hrefused : ¬kinds c.current.kind ∨ c.atEnd = true := by
      by_cases hkind : kinds c.current.kind
      · exact .inr (by simpa [hkind] using hk)
      · exact .inl hkind
    obtain ⟨a, -, ha⟩ := perform_of_refuses ho hrefused
    rw [ha]
    exact h

/-- No operation leads away from the tokens of the stream or into nesting. -/
theorem Stands.perform (h : c.Stands s) (o : Operation) : (c.perform o).2.Stands s := by
  cases o with
  | current | next => exact h
  | take => exact h.perform_taking .take
  | takeKind kind => exact h.perform_taking (.takeKind kind)
  | expect kind => exact h.perform_taking (.expect kind)
  | retreat =>
    cases hp : c.position with
    | zero =>
      obtain ⟨f, hf⟩ := perform_retreat_of_zero hp
      rw [hf]
      exact h
    | succ p =>
      have hle := h.position_le
      rw [perform_retreat_of_succ hp]
      exact ⟨h.stream_eq, h.depth_eq, by simp only; omega⟩
  | parse =>
    rw [c.perform_parse.1]
    exact h.parse

theorem Stands.run (h : c.Stands s) (operations : List Operation) :
    (c.run operations).Stands s := by
  induction operations generalizing c with
  | nil => exact h
  | cons o operations ih => exact ih (h.perform o)

end Performing

/-- Whatever was done with a cursor on a source, it stands on a token that is no comment, outside
of all nesting. What takes a token leads to the very next such token and can be undone, or it
fails and changes nothing. Only at the end is there nothing to take, only at the first token
nothing to put back. Parsing does not go back, and with success it has come to the end. -/
theorem run_stands (source fileName : String) (operations : List Operation) :
    let s := lex source fileName
    let c := (start s).run operations
    (c.stream = s ∧ c.depth = 0 ∧ s.tokens[c.index]? = some c.current ∧
      c.current.kind.isTrivia = false) ∧
    (∀ o kinds, o.Takes kinds → kinds c.current.kind → c.current.kind ≠ .endOfFile →
      ∃ behind, c.perform o = (.token c.current, behind) ∧ s.Follows c.index behind.index ∧
        behind.perform .retreat = (.done, c)) ∧
    (∀ o kinds, o.Takes kinds → ¬(kinds c.current.kind ∧ c.current.kind ≠ .endOfFile) →
      ∃ a, a.Fails ∧ c.perform o = (a, c)) ∧
    (c.current.kind = .endOfFile → c.perform .next = (.nothing, c)) ∧
    (c.current.kind ≠ .endOfFile → ∃ t j, c.perform .next = (.token t, c) ∧
      s.Follows c.index j ∧ s.tokens[j]? = some t) ∧
    (s.IsFirst c.index → ∃ f, c.perform .retreat = (.fault f, c)) ∧
    (¬s.IsFirst c.index → ∃ before, c.perform .retreat = (.done, before) ∧
      s.Follows before.index c.index) ∧
    (∀ f, (c.perform .parse).1 = .fault f → f.kind = .lexical → (c.perform .parse).2 = c) ∧
    (∀ root, (c.perform .parse).1 = .tree root →
      (c.perform .parse).2.current.kind = .endOfFile) ∧
    c.index ≤ (c.perform .parse).2.index := by
  intro s c
  have hstart : (start s).Stands s := ⟨rfl, rfl, Nat.zero_le _⟩
  have h : c.Stands s := hstart.run operations
  have hend := h.current_kind_iff fun t => kind_ne_endOfFile_of_mem
  have hatEnd (hk : c.current.kind ≠ .endOfFile) : c.atEnd = false := by
    rwa [Ne, hend, Bool.not_eq_true] at hk
  obtain ⟨hparse, htree, hfault⟩ := c.perform_parse
  refine ⟨⟨h.stream_eq, h.depth_eq, h.getElem?_index⟩, fun o kinds ho hk hkind => ?_,
    fun o kinds ho hno => ?_, fun hkind => ?_, fun hkind => ?_, fun hfirst => ?_, fun hfirst => ?_,
    fun f hf hlexical => ?_, fun root hroot => ?_, ?_⟩
  · exact ⟨c.behind, perform_of_takes ho hk (hatEnd hkind),
      h.follows (h.behind (hatEnd hkind)) rfl, c.perform_retreat_behind⟩
  · refine perform_of_refuses ho ?_
    rw [← hend]
    by_cases hk : kinds c.current.kind
    · exact .inr (Decidable.not_not.mp fun hkind => hno ⟨hk, hkind⟩)
    · exact .inl hk
  · simp [perform, next?, hend.mp hkind, Answer.ofToken?]
  · have hbehind := h.behind (hatEnd hkind)
    refine ⟨c.behind.current, c.behind.index, ?_, h.follows hbehind rfl, hbehind.getElem?_index.1⟩
    simp only [perform, next?, hatEnd hkind, Answer.ofToken?]
    rfl
  · exact perform_retreat_of_zero (h.isFirst_iff.mp hfirst)
  · obtain ⟨p, hp⟩ := Nat.exists_eq_succ_of_ne_zero (mt h.isFirst_iff.mpr hfirst)
    have hbefore := h.perform .retreat
    rw [perform_retreat_of_succ hp] at hbefore
    exact ⟨_, perform_retreat_of_succ hp, hbefore.follows h hp⟩
  · rw [hparse]
    cases hi : c.stream.illegal? with
    | some t => exact congrArg Prod.snd (parseWithin_of_illegal hi)
    | none =>
      obtain ⟨hstructural, -⟩ := parseWithin_structural hi ((hfault f).mp hf)
      rw [hlexical] at hstructural
      cases hstructural
  · rw [hparse]
    exact kind_of_parse ((htree root).mp hroot)
  · rw [hparse]
    exact h.index_le h.parse c.position_le_parse

/-- A parse that fails inside of a call, and a token put back from where it stopped. -/
theorem run_stands_of_parse :
    let s := lex "a; // b\nf(;" "f.hz"
    let c := (start s).run [.take, .take, .parse, .retreat]
    c.depth = 0 ∧ c.current.kind = .leftParen ∧
      (∃ a, a.Fails ∧ c.perform (.expect .comma) = (a, c)) ∧
      ∃ behind, c.perform (.expect .leftParen) = (.token c.current, behind) ∧
        s.Follows c.index behind.index ∧ behind.perform .retreat = (.done, c) := by
  intro s c
  have hkind : c.current.kind = .leftParen := by decide +kernel
  obtain ⟨⟨-, hdepth, -⟩, htakes, hrefuses, -⟩ :=
    run_stands "a; // b\nf(;" "f.hz" [.take, .take, .parse, .retreat]
  have hcomma : ¬(c.current.kind = .comma ∧ c.current.kind ≠ .endOfFile) := by
    rw [hkind]
    decide
  have hend : c.current.kind ≠ .endOfFile := by
    rw [hkind]
    decide
  exact ⟨hdepth, hkind, hrefuses _ _ (.expect .comma) hcomma,
    htakes _ _ (.expect .leftParen) hkind hend⟩

end Cursor

end FrontEnd
