import FrontEnd.Proofs.Parser.Openings
import FrontEnd.Proofs.Tree.Moving

/-!
Runs over two spellings of a source. Where one has `&&` the other may have `and`, where one
has `elseif` the other may have `else if`, and what the productions read in the one they
read in the other, at the same places and with anchors that go back to the same symbols.
`Script.Tracks` says so of a script: both runs go on step by step, one beside the other, until
the run in the source ends. The other one may then be nested more deeply, as `else if` is.
-/

namespace FrontEnd

namespace TokenKind

/-- What may be spelled as what. -/
def spellings : List (TokenKind × TokenKind) :=
  [(.andAnd, .kwAnd), (.kwAnd, .andAnd), (.orOr, .kwOr), (.kwOr, .orOr), (.kwWhile, .kwFor)]

/-- The first kind may be spelled as the second one. -/
def Respells (k k' : TokenKind) : Prop := (k, k') ∈ spellings

instance (k k' : TokenKind) : Decidable (k.Respells k') := inferInstanceAs (Decidable (_ ∈ _))

/-- The kinds that a respelling may bring in or take out. -/
def respelled : List TokenKind :=
  [.andAnd, .kwAnd, .orOr, .kwOr, .kwWhile, .kwFor, .kwElseIf, .kwElse]

/-- The kinds of symbols that can be taken and are spelled in one way. -/
def Plain (k : TokenKind) : Prop := k ∉ .endOfFile :: respelled

instance (k : TokenKind) : Decidable k.Plain := inferInstanceAs (Decidable (_ ∉ _))

theorem Plain.ne {k : TokenKind} (h : k.Plain) : k ≠ .endOfFile :=
  fun he => h (he ▸ List.mem_cons_self)

theorem Respells.mem {k k' : TokenKind} (h : k.Respells k') : k ∈ respelled ∧ k' ∈ respelled := by
  have hall : ∀ x ∈ spellings, x.1 ∈ respelled ∧ x.2 ∈ respelled := by decide
  exact hall _ h

theorem Respells.not_mem {k k' : TokenKind} (h : k.Respells k') :
    k ∉ [kwElse, kwElseIf] ∧ k' ∉ [kwElse, kwElseIf] := by
  have hall : ∀ x ∈ spellings, x.1 ∉ [kwElse, kwElseIf] ∧ x.2 ∉ [kwElse, kwElseIf] := by decide
  exact hall _ h

/-- Operators that are spelled in two ways are one operator. -/
theorem Respells.operator?_eq {k k' : TokenKind} (h : k.Respells k') (l : Level) :
    l.operator? k = l.operator? k' := by
  have hall : ∀ x ∈ spellings, l.operator? x.1 = l.operator? x.2 := by cases l <;> decide
  exact hall _ h

theorem Respells.loops {k k' : TokenKind} (h : k.Respells k') : (k, k') = (kwWhile, kwFor) ∨
    k ∉ [kwFor, kwWhile] ∧ k' ∉ [kwFor, kwWhile] := by
  have hall : ∀ x ∈ spellings, x = (kwWhile, kwFor) ∨
      x.1 ∉ [kwFor, kwWhile] ∧ x.2 ∉ [kwFor, kwWhile] := by decide
  exact hall _ h

theorem ofKind?_of_mem_respelled {k : TokenKind} (h : k ∈ respelled) :
    UnaryOp.ofKind? k = none := by
  revert k
  decide

end TokenKind

theorem Symbol.leaf?_of_mem_respelled {s : Symbol} (h : s.kind ∈ TokenKind.respelled) :
    s.leaf? = none := by
  obtain ⟨kind, text⟩ := s
  cases kind <;> first | rfl | simp [TokenKind.respelled] at h

theorem Grammar.statementAt_of_mem_respelled {k : TokenKind} (h : k ∈ TokenKind.respelled) :
    statementAt k = statementAt .identifier := by
  cases k <;> first | rfl | simp [TokenKind.respelled] at h

/-- Two sources that differ in spelling. The symbol at a position of the source is at its
place in the other one, and `back` leads from there to the position. Places follow each other
as the positions do, with one more in between where `elseif` is two words, and there are no
others. -/
structure Respelling where
  source : Symbols
  target : Symbols
  place : Nat → Nat
  back : Nat → Nat
  back_place : ∀ p, back (place p) = p
  cases : ∀ p,
    ((target.symbolAt (place p) = source.symbolAt p ∨
        (source.symbolAt p).kind.Respells (target.symbolAt (place p)).kind) ∧
      place (p + 1) = place p + 1) ∨
    ((source.symbolAt p).kind = .kwElseIf ∧ (target.symbolAt (place p)).kind = .kwElse ∧
      (target.symbolAt (place p + 1)).kind = .kwIf ∧ place (p + 1) = place p + 2 ∧
      back (place p + 1) = p)
  covers : ∀ k, place (back k) = k ∨ (source.symbolAt (back k)).kind = .kwElseIf ∧
    (target.symbolAt k).kind = .kwIf ∧ place (back k) + 1 = k

namespace Respelling

variable (w : Respelling)

/-- The symbol is spelled as it is in the source. -/
structure Same (p : Nat) : Prop where
  symbol : w.target.symbolAt (w.place p) = w.source.symbolAt p
  place_succ : w.place (p + 1) = w.place p + 1

/-- The symbol is `elseif`, spelled as two words. -/
structure Unfolded (p : Nat) : Prop where
  elseif : (w.source.symbolAt p).kind = .kwElseIf
  otherwise : (w.target.symbolAt (w.place p)).kind = .kwElse
  conditional : (w.target.symbolAt (w.place p + 1)).kind = .kwIf
  place_succ : w.place (p + 1) = w.place p + 2
  back_succ : w.back (w.place p + 1) = p

/-- The symbol is `while`, spelled `for`. -/
structure Looped (p : Nat) : Prop where
  source : (w.source.symbolAt p).kind = .kwWhile
  target : (w.target.symbolAt (w.place p)).kind = .kwFor
  place_succ : w.place (p + 1) = w.place p + 1

/-- How deep the run in the other source may be. -/
def Deepens (d d' : Nat) : Prop := d = d' ∨ (∃ p, w.Unfolded p) ∧ d ≤ d'

/-- How the run in the other source ends, if the run in the source ends the first way. What
it reads goes back to what was read in the source. -/
inductive Matches {α β : Type} (limit : Nat) (g : β → α) (d d' : Nat) :
    Outcome α → Outcome β → Prop where
  | read {v : α} {u : β} {q : Nat} (h : g u = v) :
    Matches limit g d d' (.read v ⟨q, d⟩) (.read u ⟨w.place q, d'⟩)
  | nested {v : α} {q : Nat} {t : ParseState} (h : ∃ p, w.Unfolded p) :
    Matches limit g d d' (.read v ⟨q, d⟩) (.failed (.nestedTooDeeply limit) t)
  | failed {cause cause' : Cause} {s t : ParseState} :
    Matches limit g d d' (.failed cause s) (.failed cause' t)
  | loose {cause : Cause} {s : ParseState} {o : Outcome β} (h : ∃ p, w.Looped p) :
    Matches limit g d d' (.failed cause s) o
  | exhausted {o : Outcome β} : Matches limit g d d' .exhausted o

/-- Loops and branches are compared where they begin with the same word. -/
def Admits : Rule → Nat → Prop
  | .conditional, p | .loop _, p | .whileLoop _, p => w.Same p
  | _, _ => True

/-- The runs of rules in the source that are matched by those in the other one. -/
structure Follows (limit : Nat) (read : (r : Rule) → ParseState → Outcome r.Result) : Prop where
  exact : ∀ {r : Rule} {s t : ParseState} {v : r.Result}, read r s = .read v t →
    r.eval w.source limit s = .read v t
  keeps : ∀ r s, (read r s).Keeps w.source s
  rule : ∀ (r : Rule) {p d d' : Nat}, w.Admits r p → w.Deepens d d' →
    w.Matches limit (r.move w.back) d d' (read r ⟨p, d⟩) (r.eval w.target limit ⟨w.place p, d'⟩)
  conditional : ∀ {p d d' : Nat}, w.Unfolded p → w.Deepens d d' →
    w.Matches limit (Tree.mapTokens w.back) d d' (read .conditional ⟨p, d⟩)
      (Rule.eval w.target limit .conditional ⟨w.place p + 1, d'⟩)
  loop : ∀ (label : Option String) {p d d' : Nat}, w.Looped p → w.Deepens d d' →
    w.Matches limit (Tree.mapTokens w.back) d d' (read (.whileLoop label) ⟨p, d⟩)
      (Rule.eval w.target limit (.loop label) ⟨w.place p, d'⟩)

end Respelling

/-- The run of `x` in the source, the rules being run by `read`, is matched by that of `y` in
the other source. -/
def Script.Tracks {α β : Type} (w : Respelling) (limit : Nat)
    (read : (r : Rule) → ParseState → Outcome r.Result) (p p' : Nat) (x : Script α)
    (y : Script β) (g : β → α) : Prop :=
  ∀ d d', w.Deepens d d' → w.Matches limit g d d' (x.exec w.source limit read ⟨p, d⟩)
    (y.eval w.target limit ⟨p', d'⟩)

/-- The script of the rule tracks itself. -/
def Rule.Tracks (w : Respelling) (limit : Nat)
    (read : (r : Rule) → ParseState → Outcome r.Result) (r : Rule) (p : Nat) : Prop :=
  Script.Tracks w limit read p (w.place p) r.script r.script (r.move w.back)

namespace Respelling

variable {w : Respelling} {limit p d d' : Nat} {kind : TokenKind}

/-! ## Symbols -/

theorem view (w : Respelling) (p : Nat) : w.Same p ∨ w.Unfolded p ∨
    (w.source.symbolAt p).kind.Respells (w.target.symbolAt (w.place p)).kind ∧
      w.place (p + 1) = w.place p + 1 := by
  rcases w.cases p with ⟨h | h, hsucc⟩ | ⟨h, h', hif, hsucc, hback⟩
  · exact .inl ⟨h, hsucc⟩
  · exact .inr (.inr ⟨h, hsucc⟩)
  · exact .inr (.inl ⟨h, h', hif, hsucc, hback⟩)

/-- Where the spelling differs, kinds are respelled. -/
theorem same_or_respelled (w : Respelling) (p : Nat) : w.Same p ∨
    (w.source.symbolAt p).kind ∈ TokenKind.respelled ∧
      (w.target.symbolAt (w.place p)).kind ∈ TokenKind.respelled := by
  rcases w.view p with h | h | ⟨h, -⟩
  · exact .inl h
  · rw [h.elseif, h.otherwise]
    exact .inr (by decide)
  · exact .inr h.mem

theorem same_of_not_respelled (w : Respelling)
    (h : (w.source.symbolAt p).kind ∉ TokenKind.respelled) : w.Same p := by
  rcases w.same_or_respelled p with hsame | ⟨hmem, -⟩
  · exact hsame
  · exact absurd hmem h

theorem same_of_kind (w : Respelling) (hk : kind ∉ TokenKind.respelled)
    (h : (w.source.symbolAt p).kind = kind) : w.Same p :=
  w.same_of_not_respelled (h ▸ hk)

/-- A kind that is not respelled stands in both sources or in none. -/
theorem kind_iff (w : Respelling) (p : Nat) (hk : kind ∉ TokenKind.respelled) :
    (w.source.symbolAt p).kind = kind ↔ (w.target.symbolAt (w.place p)).kind = kind := by
  rcases w.same_or_respelled p with hsame | ⟨hmem, hmem'⟩
  · rw [hsame.symbol]
  · exact ⟨fun h => absurd (h ▸ hmem) hk, fun h => absurd (h ▸ hmem') hk⟩

theorem operator?_eq (w : Respelling) (p : Nat) (l : Level) :
    l.operator? (w.source.symbolAt p).kind = l.operator? (w.target.symbolAt (w.place p)).kind := by
  rcases w.view p with h | h | ⟨h, -⟩
  · rw [h.symbol]
  · rw [h.elseif, h.otherwise]
    cases l <;> rfl
  · exact h.operator?_eq l

theorem ofKind?_eq (w : Respelling) (p : Nat) : UnaryOp.ofKind? (w.source.symbolAt p).kind =
    UnaryOp.ofKind? (w.target.symbolAt (w.place p)).kind := by
  rcases w.same_or_respelled p with h | ⟨h, h'⟩
  · rw [h.symbol]
  · rw [TokenKind.ofKind?_of_mem_respelled h, TokenKind.ofKind?_of_mem_respelled h']

theorem leaf?_eq (w : Respelling) (p : Nat) :
    (w.source.symbolAt p).leaf? = (w.target.symbolAt (w.place p)).leaf? := by
  rcases w.same_or_respelled p with h | ⟨h, h'⟩
  · rw [h.symbol]
  · rw [Symbol.leaf?_of_mem_respelled h, Symbol.leaf?_of_mem_respelled h']

theorem statementAt_eq (w : Respelling) (p : Nat) :
    Grammar.statementAt (w.source.symbolAt p).kind =
      Grammar.statementAt (w.target.symbolAt (w.place p)).kind := by
  rcases w.same_or_respelled p with h | ⟨h, h'⟩
  · rw [h.symbol]
  · rw [Grammar.statementAt_of_mem_respelled h, Grammar.statementAt_of_mem_respelled h']

theorem Same.next_eq (h : w.Same p) (hkind : (w.source.symbolAt p).kind = kind)
    (hk : kind ≠ .endOfFile) : w.target.next (w.place p) = w.place (w.source.next p) := by
  have hkind' : (w.target.symbolAt (w.place p)).kind = kind := by rw [h.symbol, hkind]
  rw [Symbols.next_of_kind hkind hk, h.place_succ, Symbols.next_of_kind hkind' hk]

/-- Operators are one symbol each, in either spelling. -/
theorem next_eq_of_operator {l : Level} {op : BinaryOp}
    (h : l.operator? (w.source.symbolAt p).kind = some op) :
    w.target.next (w.place p) = w.place (w.source.next p) := by
  have h' : l.operator? (w.target.symbolAt (w.place p)).kind = some op := by
    rw [← w.operator?_eq, h]
  have hsucc : w.place (p + 1) = w.place p + 1 := by
    rcases w.view p with hsame | hunfolded | ⟨-, hsucc⟩
    · exact hsame.place_succ
    · rw [hunfolded.elseif] at h
      cases l <;> cases h
    · exact hsucc
  rw [Symbols.next_eq (Grammar.kind_ne_endOfFile_of_operator h), hsucc,
    Symbols.next_eq (Grammar.kind_ne_endOfFile_of_operator h')]

/-- A symbol of the kind stands in both sources or in none, and is spelled the same. -/
structure Settled (w : Respelling) (kind : TokenKind) (p : Nat) : Prop where
  iff : (w.source.symbolAt p).kind = kind ↔ (w.target.symbolAt (w.place p)).kind = kind
  same : (w.source.symbolAt p).kind = kind → w.Same p

theorem settled (w : Respelling) (p : Nat) (hk : kind ∉ TokenKind.respelled) :
    w.Settled kind p := ⟨w.kind_iff p hk, w.same_of_kind hk⟩

theorem settled_of_plain (w : Respelling) (p : Nat) (hk : kind.Plain) : w.Settled kind p :=
  w.settled p fun h => hk (List.mem_cons_of_mem _ h)

theorem next_eq_of_plain (w : Respelling) (hk : kind.Plain)
    (h : (w.source.symbolAt p).kind = kind) :
    w.target.next (w.place p) = w.place (w.source.next p) :=
  ((w.settled_of_plain p hk).same h).next_eq h hk.ne

theorem Same.settled (h : w.Same p) (kind : TokenKind) : w.Settled kind p :=
  ⟨by rw [h.symbol], fun _ => h⟩

/-- Where `elseif` is not two words, it stands in both sources or in none, and so does `else`. -/
theorem settled_of_not_unfolded (h : ¬w.Unfolded p) (hk : kind = .kwElse ∨ kind = .kwElseIf) :
    w.Settled kind p := by
  rcases w.view p with hsame | hunfolded | ⟨hspelled, -⟩
  · exact hsame.settled kind
  · exact absurd hunfolded h
  · have hmem : kind ∈ [TokenKind.kwElse, .kwElseIf] := by
      rcases hk with rfl | rfl <;> decide
    obtain ⟨hsource, htarget⟩ := hspelled.not_mem
    have hne : (w.source.symbolAt p).kind ≠ kind := fun h => hsource (h ▸ hmem)
    have hne' : (w.target.symbolAt (w.place p)).kind ≠ kind := fun h => htarget (h ▸ hmem)
    exact ⟨⟨fun h => absurd h hne, fun h => absurd h hne'⟩, fun h => absurd h hne⟩

/-- A loop begins with the same word, or `while` is spelled `for`; or there is none in either
source. -/
theorem loops (w : Respelling) (p : Nat) : w.Same p ∨ w.Looped p ∨
    (w.source.symbolAt p).kind ∉ [TokenKind.kwFor, .kwWhile] ∧
      (w.target.symbolAt (w.place p)).kind ∉ [TokenKind.kwFor, .kwWhile] := by
  rcases w.view p with hsame | hunfolded | ⟨hspelled, hsucc⟩
  · exact .inl hsame
  · rw [hunfolded.elseif, hunfolded.otherwise]
    exact .inr (.inr (by decide))
  · rcases hspelled.loops with hloop | hnone
    · obtain ⟨hsource, htarget⟩ := Prod.mk.inj hloop
      exact .inr (.inl ⟨hsource, htarget, hsucc⟩)
    · exact .inr (.inr hnone)

/-- No respelling makes up for what cannot be read, nor spoils anything. -/
theorem exists_illegal_iff (w : Respelling) :
    (∃ k, (w.target.symbolAt k).kind = .illegal) ↔ ∃ p, (w.source.symbolAt p).kind = .illegal := by
  constructor
  · rintro ⟨k, hk⟩
    rcases w.covers k with hplace | ⟨-, hif, -⟩
    · rw [← hplace] at hk
      exact ⟨_, (w.kind_iff _ (by decide)).mpr hk⟩
    · rw [hif] at hk
      cases hk
  · rintro ⟨p, hp⟩
    exact ⟨_, (w.kind_iff p (by decide)).mp hp⟩

/-! Pairs of symbols, by which productions tell statements apart. -/

theorem pair_iff (w : Respelling) (p : Nat) {k k' : TokenKind} (hk : k ∉ TokenKind.respelled)
    (hk' : k' ∉ TokenKind.respelled) :
    (w.source.symbolAt p).kind = k ∧ (w.source.symbolAt (p + 1)).kind = k' ↔
      (w.target.symbolAt (w.place p)).kind = k ∧ (w.target.symbolAt (w.place p + 1)).kind = k' := by
  rw [← w.kind_iff p hk, and_congr_right_iff]
  intro h
  rw [← (w.same_of_kind hk h).place_succ]
  exact w.kind_iff (p + 1) hk'

theorem mem_iff (w : Respelling) (p : Nat) {words : List TokenKind}
    (hwords : ∀ k ∈ words, k ∉ TokenKind.respelled) :
    (w.source.symbolAt p).kind ∈ words ↔ (w.target.symbolAt (w.place p)).kind ∈ words := by
  constructor
  · intro h
    rwa [(w.kind_iff p (hwords _ h)).mp rfl]
  · intro h
    rwa [(w.kind_iff p (hwords _ h)).mpr rfl]

/-- A name with a certain symbol behind it. -/
theorem names_iff (w : Respelling) (p : Nat) (hk : kind ∉ TokenKind.respelled) :
    ((w.source.sight p).kind = .identifier && (w.source.sight p).next = kind : Bool) = true ↔
      ((w.target.sight (w.place p)).kind = .identifier &&
        (w.target.sight (w.place p)).next = kind : Bool) = true := by
  simp only [Bool.and_eq_true, decide_eq_true_eq]
  exact w.pair_iff p (by decide) hk

theorem opens_iff (w : Respelling) (p : Nat) {words : List TokenKind}
    (hwords : ∀ k ∈ words, k ∉ TokenKind.respelled) :
    (w.source.sight p).opens words = true ↔
      (w.target.sight (w.place p)).opens words = true := by
  have hexport : TokenKind.kwExport ∉ TokenKind.respelled := by decide
  simp only [Sight.opens, Bool.or_eq_true, Bool.and_eq_true, decide_eq_true_eq,
    List.contains_iff_mem]
  refine or_congr (w.mem_iff p hwords) ⟨fun h => ?_, fun h => ?_⟩
  · obtain ⟨hkind, hnext⟩ := (w.pair_iff p hexport (hwords _ h.2)).mp ⟨h.1, rfl⟩
    exact ⟨hkind, (congrArg (· ∈ words) hnext).mpr h.2⟩
  · obtain ⟨hkind, hnext⟩ := (w.pair_iff p hexport (hwords _ h.2)).mpr ⟨h.1, rfl⟩
    exact ⟨hkind, (congrArg (· ∈ words) hnext).mpr h.2⟩

theorem opensFunction_iff (w : Respelling) (p : Nat) : (w.source.sight p).opensFunction = true ↔
    (w.target.sight (w.place p)).opensFunction = true := by
  simp only [Sight.opensFunction, Bool.or_eq_true, Bool.and_eq_true, decide_eq_true_eq]
  exact or_congr (w.opens_iff p (by decide)) (w.pair_iff p (by decide) (by decide))

theorem opensVariable_iff (w : Respelling) (p : Nat) : (w.source.sight p).opensVariable = true ↔
    (w.target.sight (w.place p)).opensVariable = true := by
  simp only [Sight.opensVariable, Bool.or_eq_true, Bool.and_eq_true, decide_eq_true_eq,
    List.contains_iff_mem]
  exact or_congr (w.mem_iff p (by decide)) (w.pair_iff p (by decide) (by decide))

theorem omitsType_iff (w : Respelling) (p : Nat) : (w.source.sight p).omitsType = true ↔
    (w.target.sight (w.place p)).omitsType = true := by
  simp only [Sight.omitsType, Bool.or_eq_true, Bool.and_eq_true, decide_eq_true_eq, and_or_left]
  exact or_congr (w.pair_iff p (by decide) (by decide)) (w.pair_iff p (by decide) (by decide))

theorem infersLength_iff (w : Respelling) (p : Nat) : (w.source.sight p).infersLength = true ↔
    (w.target.sight (w.place p)).infersLength = true := by
  simp only [Sight.infersLength, Bool.and_eq_true, Bool.or_eq_true, decide_eq_true_eq]
  simp only [Symbols.sight_kind, Symbols.sight_current, Symbols.sight_next]
  by_cases h : (w.source.symbolAt p).kind = .identifier
  · have hsame := w.same_of_kind (by decide) h
    have hbracket : (w.source.symbolAt (p + 1)).kind = .rightBracket ↔ _ :=
      w.kind_iff (p + 1) (by decide)
    have hcolon : (w.source.symbolAt (p + 1)).kind = .colon ↔ _ := w.kind_iff (p + 1) (by decide)
    rw [hsame.place_succ] at hbracket hcolon
    rw [hsame.symbol, hbracket, hcolon]
  · have h' := mt (w.kind_iff p (by decide)).mpr h
    simp only [h, h', false_and]

theorem Deepens.le (h : w.Deepens d d') : d ≤ d' := h.elim Nat.le_of_eq And.right

theorem Deepens.succ (h : w.Deepens d d') : w.Deepens (d + 1) (d' + 1) := by
  rcases h with rfl | ⟨h, hle⟩
  · exact .inl rfl
  · exact .inr ⟨h, Nat.succ_le_succ hle⟩

/-! ## Outcomes -/

namespace Matches

variable {α β γ δ : Type} {g : β → α} {h : δ → γ} {o : Outcome α} {o' : Outcome β}

/-- Where the other run is rejected for its nesting, nothing else is asked. -/
theorem of_nested (hw : ∃ p, w.Unfolded p) {s : ParseState} (hd : s.depth = d)
    (hkeeps : o.Keeps w.source s) (t : ParseState) :
    w.Matches limit g d d' o (.failed (.nestedTooDeeply limit) t) := by
  cases o with
  | read v r =>
    obtain ⟨q, depth⟩ := r
    obtain rfl : depth = d := hkeeps.2.2.trans hd
    exact .nested hw
  | failed cause r => exact .failed
  | exhausted => exact .exhausted

theorem andThen {f : α → ParseState → Outcome γ} {f' : β → ParseState → Outcome δ}
    (ho : w.Matches limit g d d' o o')
    (hf : ∀ u q, w.Matches limit h d d' (f (g u) ⟨q, d⟩) (f' u ⟨w.place q, d'⟩))
    (hkeeps : ∀ v q, (f v ⟨q, d⟩).Keeps w.source ⟨q, d⟩) :
    w.Matches limit h d d' (o.andThen f) (o'.andThen f') := by
  cases ho with
  | read hg =>
    subst hg
    exact hf _ _
  | nested hw => exact of_nested hw rfl (hkeeps _ _) _
  | failed => exact .failed
  | loose hw => exact .loose hw
  | exhausted => exact .exhausted

theorem leave (ho : w.Matches limit g (d + 1) (d' + 1) o o') :
    w.Matches limit g d d' o.leave o'.leave := by
  cases ho with
  | read hg => exact .read hg
  | nested hw => exact .nested hw
  | failed => exact .failed
  | loose hw => exact .loose hw
  | exhausted => exact .exhausted

/-- Only the run in the other source was one level further in. -/
theorem leave_target (ho : w.Matches limit g d (d' + 1) o o') :
    w.Matches limit g d d' o o'.leave := by
  cases ho with
  | read hg => exact .read hg
  | nested hw => exact .nested hw
  | failed => exact .failed
  | loose hw => exact .loose hw
  | exhausted => exact .exhausted

end Matches

end Respelling

/-! ## Steps -/

/-- What a script ensures of exact runs holds of what it reads in the source. -/
theorem Respelling.Follows.gives {α : Type} {w : Respelling} {limit p d : Nat}
    {read : (r : Rule) → ParseState → Outcome r.Result} {x : Script α} {Q : α → Nat → Prop}
    (hw : w.Follows limit read)
    (hx : x.Ensures (.exact w.source limit) w.source limit d p Q) :
    (x.exec w.source limit read ⟨p, d⟩).Gives Q True := by
  refine Script.exec_gives hw.keeps (fun r s _ => ?_) hx
  have hkeeps := hw.keeps r s
  cases ho : read r s with
  | read v t =>
    rw [ho] at hkeeps
    obtain ⟨position, depth⟩ := t
    obtain rfl : depth = s.depth := hkeeps.2.2
    exact hw.exact ho
  | failed cause t => trivial
  | exhausted => trivial

/-- A script that cannot be read in the source fails there. -/
theorem Respelling.Follows.unread {α : Type} {w : Respelling} {limit p d : Nat}
    {read : (r : Rule) → ParseState → Outcome r.Result} {x : Script α}
    (hw : w.Follows limit read)
    (hx : x.Ensures (.exact w.source limit) w.source limit d p fun _ _ => False) :
    (∃ cause s, x.exec w.source limit read ⟨p, d⟩ = .failed cause s) ∨
      x.exec w.source limit read ⟨p, d⟩ = .exhausted := by
  have hgives := hw.gives hx
  cases ho : x.exec w.source limit read ⟨p, d⟩ with
  | read v s =>
    rw [ho] at hgives
    exact hgives.elim
  | failed cause s => exact .inl ⟨cause, s, rfl⟩
  | exhausted => exact .inr rfl

namespace Script

section Calls

variable {symbols : Symbols} {limit : Nat} {read : (r : Rule) → ParseState → Outcome r.Result}
  {s : ParseState}

theorem exec_run (r : Rule) : (run r).exec symbols limit read s = read r s := by
  change (read r s).andThen .read = _
  cases read r s <;> rfl

theorem exec_deeper (r : Rule) : (deeper r).exec symbols limit read s =
    if s.depth < limit then (read r s.inner).leave else .failed (.nestedTooDeeply limit) s := by
  change (if _ then (read r s.inner).leave.andThen .read else _) = _
  cases read r s.inner <;> rfl

theorem exec_sight_ite {α : Type} {c : Sight → Prop} [DecidablePred c] {x y : Sight → Script α}
    (h : c (symbols.sight s.position)) :
    (sight >>= fun v => if c v then x v else y v).exec symbols limit read s =
      (x (symbols.sight s.position)).exec symbols limit read s := by
  change (if c (symbols.sight s.position) then _ else _ : Script α).exec symbols limit read s = _
  rw [if_pos h]

end Calls

variable {α β γ δ : Type} {w : Respelling} {limit p p' : Nat}
  {read : (r : Rule) → ParseState → Outcome r.Result} {kind : TokenKind}

theorem tracks_pure {v : α} {u : β} {g : β → α} (h : g u = v) :
    Tracks w limit read p (w.place p) (pure v) (pure u) g := fun _ _ _ => .read h

theorem tracks_fail {cause cause' : Cause} {g : β → α} :
    Tracks w limit read p p' (fail cause) (fail cause') g := fun _ _ _ => .failed

theorem tracks_failing {what what' : Expectation} {g : β → α} :
    Tracks w limit read p p' (failing what) (failing what') g := fun _ _ _ => .failed

/-- The run in the source goes on from somewhere else. -/
theorem tracks_of_exec_eq {q : Nat} {x x' : Script α} {y : Script β} {g : β → α}
    (h : ∀ d, x.exec w.source limit read ⟨p, d⟩ = x'.exec w.source limit read ⟨q, d⟩)
    (hx : Tracks w limit read q p' x' y g) : Tracks w limit read p p' x y g := by
  intro d d' hd
  rw [h]
  exact hx d d' hd

/-- The run in the other source goes on from somewhere else. -/
theorem tracks_of_eval_eq {q : Nat} {x : Script α} {y y' : Script β} {g : β → α}
    (h : ∀ d, y.eval w.target limit ⟨p', d⟩ = y'.eval w.target limit ⟨q, d⟩)
    (hy : Tracks w limit read p q x y' g) : Tracks w limit read p p' x y g := by
  intro d d' hd
  rw [h]
  exact hy d d' hd

theorem tracks_here : Tracks w limit read p (w.place p) here here w.back :=
  fun _ _ _ => .read (w.back_place p)

/-- What follows is anchored where it begins. -/
theorem tracks_here_bind {f : Nat → Script α} {f' : Nat → Script β} {g : β → α}
    (h : Tracks w limit read p (w.place p) (f (w.back (w.place p))) (f' (w.place p)) g) :
    Tracks w limit read p (w.place p) (here >>= f) (here >>= f') g := by
  rw [w.back_place] at h
  exact h

/-- Nothing is read in the source, and the run in the other one fails. -/
theorem tracks_of_unread (hw : w.Follows limit read) {x : Script α} {y : Script β} {g : β → α}
    (hx : ∀ d, x.Ensures (.exact w.source limit) w.source limit d p fun _ _ => False)
    (hy : ∀ d, ∃ cause t, y.eval w.target limit ⟨p', d⟩ = .failed cause t) :
    Tracks w limit read p p' x y g := by
  intro d d' _
  obtain ⟨cause, t, ht⟩ := hy d'
  rw [ht]
  rcases hw.unread (hx d) with ⟨cause, s, hs⟩ | hs
  · rw [hs]
    exact .failed
  · rw [hs]
    exact .exhausted

theorem tracks_bind (hw : w.Follows limit read) {x : Script α} {y : Script β} {g : β → α}
    {f : α → Script γ} {f' : β → Script δ} {h : δ → γ} (hx : Tracks w limit read p p' x y g)
    (hf : ∀ u q, Tracks w limit read q (w.place q) (f (g u)) (f' u) h) :
    Tracks w limit read p p' (x >>= f) (y >>= f') h := by
  intro d d' hd
  rw [exec_bind, eval_bind]
  exact (hx d d' hd).andThen (fun u q => hf u q d d' hd)
    fun v q => (f v).exec_keeps w.source limit hw.keeps ⟨q, d⟩

theorem tracks_map (hw : w.Follows limit read) {x : Script α} {y : Script β} {g : β → α}
    {f : α → γ} {f' : β → δ} {h : δ → γ} (hx : Tracks w limit read p p' x y g)
    (hf : ∀ u, h (f' u) = f (g u)) : Tracks w limit read p p' (f <$> x) (f' <$> y) h :=
  tracks_bind hw hx fun u _ => tracks_pure (hf u)

theorem tracks_ite {c c' : Prop} [Decidable c] [Decidable c'] {x x' : Script α}
    {y y' : Script β} {g : β → α} (hc : c ↔ c')
    (htrue : c → Tracks w limit read p p' x y g)
    (hfalse : ¬c → Tracks w limit read p p' x' y' g) :
    Tracks w limit read p p' (if c then x else x') (if c' then y else y') g := by
  by_cases h : c
  · rw [if_pos h, if_pos (hc.mp h)]
    exact htrue h
  · rw [if_neg h, if_neg (mt hc.mpr h)]
    exact hfalse h

theorem tracks_sight_bind {f : Sight → Script α} {f' : Sight → Script β} {g : β → α}
    (h : Tracks w limit read p p' (f (w.source.sight p)) (f' (w.target.sight p')) g) :
    Tracks w limit read p p' (sight >>= f) (sight >>= f') g := h

/-- Only in the other source the symbol is looked at. -/
theorem tracks_sight_target {x : Script α} {f : Sight → Script β} {g : β → α}
    (h : Tracks w limit read p p' x (f (w.target.sight p')) g) :
    Tracks w limit read p p' x (sight >>= f) g := h

theorem tracks_look {f : Sight → Script α} {f' : Sight → Script β} {g : β → α}
    (h : Tracks w limit read p p' (f (w.source.sight p)) (f' (w.target.sight p')) g) :
    Tracks w limit read p p' (look f) (look f') g := h

theorem tracks_take_of {x : Script α} {y : Script β} {g : β → α}
    (h : w.target.next (w.place p) = w.place (w.source.next p))
    (hx : Tracks w limit read (w.source.next p) (w.place (w.source.next p)) x y g) :
    Tracks w limit read p (w.place p) (take x) (take y) g := by
  intro d d' hd
  change w.Matches limit g d d' (x.exec w.source limit read ⟨w.source.next p, d⟩)
    (y.eval w.target limit ⟨w.target.next (w.place p), d'⟩)
  rw [h]
  exact hx d d' hd

theorem tracks_take (h : w.target.next (w.place p) = w.place (w.source.next p)) :
    Tracks w limit read p (w.place p) (take (done ())) (take (done ())) id :=
  tracks_take_of h (tracks_pure rfl)

/-- A symbol that is spelled in one way. -/
theorem tracks_take_plain (hk : kind.Plain) (h : (w.source.symbolAt p).kind = kind) :
    Tracks w limit read p (w.place p) (take (done ())) (take (done ())) id :=
  tracks_take (w.next_eq_of_plain hk h)

/-- Two such symbols in a row. -/
theorem tracks_take_both {k k' : TokenKind} (hk : k.Plain) (hk' : k'.Plain)
    (h : (w.source.symbolAt p).kind = k ∧ (w.source.symbolAt (p + 1)).kind = k') :
    Tracks w limit read p (w.place p) (take (take (done ()))) (take (take (done ()))) id := by
  refine tracks_take_of (w.next_eq_of_plain hk h.1) ?_
  rw [Symbols.next_of_kind h.1 hk.ne]
  exact tracks_take_plain hk' h.2

theorem tracks_accept_of (h : w.Settled kind p) (hk : kind ≠ .endOfFile) :
    Tracks w limit read p (w.place p) (accept kind) (accept kind) id :=
  tracks_look (tracks_ite h.iff
    (fun hkind => tracks_take_of ((h.same hkind).next_eq hkind hk) (tracks_pure rfl))
    fun _ => tracks_pure rfl)

theorem tracks_acceptText_of (h : w.Settled kind p) (hk : kind ≠ .endOfFile) :
    Tracks w limit read p (w.place p) (acceptText kind) (acceptText kind) id :=
  tracks_look (tracks_ite h.iff
    (fun hkind => tracks_take_of ((h.same hkind).next_eq hkind hk)
      (tracks_pure (congrArg (fun s : Symbol => some s.text) (h.same hkind).symbol)))
    fun _ => tracks_pure rfl)

/-- What follows a word that may stand here knows whether it did. -/
theorem tracks_accept_bind (h : w.Settled kind p) (hk : kind ≠ .endOfFile)
    {f : Bool → Script α} {f' : Bool → Script β} {g : β → α}
    (htrue : (w.source.symbolAt p).kind = kind → Tracks w limit read (w.source.next p)
      (w.place (w.source.next p)) (f true) (f' true) g)
    (hfalse : (w.source.symbolAt p).kind ≠ kind →
      Tracks w limit read p (w.place p) (f false) (f' false) g) :
    Tracks w limit read p (w.place p) (accept kind >>= f) (accept kind >>= f') g := by
  by_cases hkind : (w.source.symbolAt p).kind = kind
  · have hnext := (h.same hkind).next_eq hkind hk
    refine tracks_of_exec_eq (q := w.source.next p)
      (fun d => exec_bind_of (exec_accept hkind)) ?_
    refine tracks_of_eval_eq (q := w.target.next (w.place p))
      (fun d => eval_bind_of (eval_accept (h.iff.mp hkind))) ?_
    rw [hnext]
    exact htrue hkind
  · refine tracks_of_exec_eq (fun d => exec_bind_of (exec_accept_of_ne hkind)) ?_
    refine tracks_of_eval_eq
      (fun d => eval_bind_of (eval_accept_of_ne (mt h.iff.mpr hkind))) ?_
    exact hfalse hkind

theorem tracks_expect_of (h : w.Settled kind p) (hk : kind ≠ .endOfFile) :
    Tracks w limit read p (w.place p) (expect kind) (expect kind) id :=
  tracks_look (tracks_ite h.iff
    (fun hkind => tracks_take_of ((h.same hkind).next_eq hkind hk)
      (tracks_pure (congrArg Symbol.text (h.same hkind).symbol)))
    fun _ => tracks_failing)

theorem tracks_accept (hk : kind.Plain) :
    Tracks w limit read p (w.place p) (accept kind) (accept kind) id :=
  tracks_accept_of (w.settled_of_plain p hk) hk.ne

theorem tracks_acceptText (hk : kind.Plain) :
    Tracks w limit read p (w.place p) (acceptText kind) (acceptText kind) id :=
  tracks_acceptText_of (w.settled_of_plain p hk) hk.ne

theorem tracks_expect (hk : kind.Plain) :
    Tracks w limit read p (w.place p) (expect kind) (expect kind) id :=
  tracks_expect_of (w.settled_of_plain p hk) hk.ne

theorem tracks_require (hw : w.Follows limit read) {what : Expectation} {x : Script (Option α)}
    {y : Script (Option β)} {g : β → α} (hx : Tracks w limit read p p' x y (Option.map g)) :
    Tracks w limit read p p' (require what x) (require what y) g := by
  refine tracks_bind hw hx fun u q => ?_
  cases u with
  | none => exact tracks_failing
  | some u => exact tracks_pure rfl

theorem tracks_run (hw : w.Follows limit read) (r : Rule) (hr : w.Admits r p) :
    Tracks w limit read p (w.place p) (run r) (run r) (r.move w.back) := by
  intro d d' hd
  rw [exec_run, eval_run]
  exact hw.rule r hr hd

/-- A loop that is spelled differently. -/
theorem tracks_looped (hw : w.Follows limit read) (label : Option String) (h : w.Looped p) :
    Tracks w limit read p (w.place p) (run (.whileLoop label)) (run (.loop label))
      (·.mapTokens w.back) := by
  intro d d' hd
  rw [exec_run, eval_run]
  exact hw.loop label h hd

/-- One level further in. The other run may be too deep where the run in the source is not. -/
theorem tracks_deeper (hw : w.Follows limit read) (r : Rule) (hr : w.Admits r p) :
    Tracks w limit read p (w.place p) (deeper r) (deeper r) (r.move w.back) := by
  intro d d' hd
  have hle := hd.le
  rw [exec_deeper, Script.eval, exec_deeper]
  by_cases hlimit : d' < limit
  · rw [if_pos hlimit, if_pos (Nat.lt_of_le_of_lt hle hlimit)]
    exact (hw.rule r hr hd.succ).leave
  · rw [if_neg hlimit]
    by_cases hsource : d < limit
    · -- Only with `else if` the other run can be deeper, and its failure is then allowed.
      rw [if_pos hsource]
      rcases hd with rfl | ⟨hunfolded, -⟩
      · exact absurd hsource hlimit
      · have hkeeps := hw.keeps r (ParseState.inner ⟨p, d⟩)
        exact .of_nested hunfolded rfl hkeeps.leave _
    · rw [if_neg hsource]
      exact .failed

end Script

end FrontEnd
