import FrontEnd.Proofs.Lexer.Warnings

/-!
What stands where a token starts. A token is read from the text behind its start alone; the
tokens behind it are read from where its own text ends, and behind a fault there are none.
-/

namespace FrontEnd

/-- What a text begins with: a token, behind which `rest` is left to read, or a fault. -/
inductive Lead where
  | token (kind : TokenKind) (text rest : List Char)
  | fault (cause : LexicalError)
  deriving DecidableEq, Repr

def Piece.lead? (x : Piece) : Option Lead :=
  match x.reading with
  | .token kind text => some (.token kind text x.rest)
  | .fault cause => some (.fault cause)
  | _ => none

/-- The token of the source is the one that the lead tells. Reading then goes on with what is
left, and a fault ends it. -/
inductive Token.IsLead (source fileName : String) (t : Token) : Lead → Prop where
  | token {front : List Token} {kind : TokenKind} {text rest : List Char} {m : Nat}
    (hkind : t.kind = kind) (htext : t.text = String.ofList text)
    (hrest : source.toList.drop m = rest)
    (hbody : (lex source fileName).body = front ++ t :: tokensFrom fileName source.toList m) :
    IsLead source fileName t (.token kind text rest)
  | fault {front : List Token} {cause : LexicalError} (hkind : t.kind = .illegal)
    (htext : t.text = cause.message) (hbody : (lex source fileName).body = front ++ [t]) :
    IsLead source fileName t (.fault cause)

section Starts

variable {source : List Char} {n m : Nat} {c : Char} {cs : List Char} {fileName : String}
  {t : Token}

/-- A piece that gives a token is one, or a fault. -/
theorem Piece.lead_of_token? {p : Place} {x : Piece} (h : x.token? fileName p = some t) :
    (∃ kind text, x.reading = .token kind text ∧ t.kind = kind ∧ t.text = String.ofList text) ∨
      ∃ cause, x.reading = .fault cause ∧ t.kind = .illegal ∧ t.text = cause.message := by
  unfold token? at h
  split at h
  · rename_i kind text hread
    cases h
    exact .inl ⟨kind, text, hread, rfl, rfl⟩
  · rename_i cause hread
    cases h
    exact .inr ⟨cause, hread, rfl, rfl⟩
  · cases h

/-- A token read behind a boundary is read where it stands. -/
theorem exists_first_of_mem {offset : Nat} (hn : n ≤ source.length)
    (h : (offset, t) ∈ offsetsFrom fileName source n) :
    ∃ k c cs front, k ≤ source.length ∧ source.drop k = c :: cs ∧
      offset = byteLength (source.take k) ∧
      (Piece.first c cs).token? fileName (.boundary source k) = some t ∧
      tokensFrom fileName source n = front ++ tokensFrom fileName source k := by
  induction n using piecesFrom_induct source with
  | hnil n hdrop =>
    rw [offsetsFrom, piecesFrom_nil hdrop] at h
    cases h
  | hfault n c cs hdrop hf =>
    rw [offsetsFrom_step (piecesFrom_fault hdrop hf)] at h
    obtain ⟨hread, hoffset⟩ : (Piece.first c cs).token? fileName (.boundary source n) = some t ∧
        byteLength (source.take n) = offset := by
      simpa using h
    exact ⟨n, c, cs, [], hn, hdrop, hoffset.symm, hread, rfl⟩
  | hcons n c cs hdrop hf ih =>
    obtain ⟨⟨hlt, hle, hrest⟩, hpieces⟩ := piecesFrom_cons hdrop rfl hf
    have hstep : tokensFrom fileName source n =
        ((Piece.first c cs).token? fileName (.boundary source n)).toList ++
          tokensFrom fileName source (n + (Piece.first c cs).lexeme.length) :=
      tokensFrom_step hpieces
    rw [offsetsFrom_step hpieces] at h
    rcases List.mem_append.mp h with h | h
    · obtain ⟨hread, hoffset⟩ : (Piece.first c cs).token? fileName (.boundary source n) = some t ∧
          byteLength (source.take n) = offset := by
        simpa using h
      exact ⟨n, c, cs, [], hn, hdrop, hoffset.symm, hread, rfl⟩
    · obtain ⟨k, d, ds, front, hk, hdrop', hoffset, hread, hfront⟩ := ih hle h
      refine ⟨k, d, ds, ((Piece.first c cs).token? fileName (.boundary source n)).toList ++ front,
        hk, hdrop', hoffset, hread, ?_⟩
      rw [hstep, List.append_assoc, ← hfront]

end Starts

section Sources

variable {source fileName : String} {n : Nat} {c : Char} {cs : List Char} {t : Token}

theorem Token.IsAt.mem_bodyOffsets (h : t.IsAt source fileName n)
    (ht : t ∈ (lex source fileName).body) :
    (byteLength (source.toList.take n), t) ∈ bodyOffsets source fileName := by
  rcases List.mem_append.mp h with h | h
  · exact h
  · have hkind := kind_ne_endOfFile_of_mem ht
    rw [(Prod.mk.inj (List.mem_singleton.mp h)).2] at hkind
    exact absurd rfl hkind

/-- A token is what the text begins with that stands where the token starts. -/
theorem Token.isLead (ht : t ∈ (lex source fileName).body) (hat : t.IsAt source fileName n)
    (htext : source.toList.drop n = c :: cs) :
    ∃ lead, (Piece.first c cs).lead? = some lead ∧ t.IsLead source fileName lead := by
  have hbody := (lex_pieces source fileName).1
  have hmem := hat.mem_bodyOffsets ht
  rw [bodyOffsets_pieces] at hmem
  obtain ⟨k, d, ds, front, hk, hdrop, hoffset, hread, hfront⟩ :=
    exists_first_of_mem (opening_length_le _) hmem
  have hn : n ≤ source.toList.length := by
    rcases Nat.le_total n source.toList.length with hle | hle
    · exact hle
    · rw [List.drop_eq_nil_iff.mpr hle] at htext
      cases htext
  obtain rfl : n = k := eq_of_byteLength_take hn hk hoffset
  obtain ⟨rfl, rfl⟩ := List.cons.inj (htext.symm.trans hdrop)
  rw [hfront] at hbody
  rcases Piece.lead_of_token? hread with ⟨kind, text, hr, hkind, hname⟩ | ⟨cause, hr, hkind, hname⟩
  · obtain ⟨⟨-, -, hrest⟩, hpieces⟩ := piecesFrom_cons htext rfl (by rw [Piece.isFault, hr])
    rw [tokensFrom_step hpieces, hread] at hbody
    exact ⟨_, by rw [Piece.lead?, hr], .token hkind hname hrest hbody⟩
  · rw [tokensFrom, piecesFrom_fault htext (by rw [Piece.isFault, hr])] at hbody
    simp only [List.filterMap_cons, hread, List.filterMap_nil] at hbody
    exact ⟨_, by rw [Piece.lead?, hr], .fault hkind hname hbody⟩

end Sources

end FrontEnd
