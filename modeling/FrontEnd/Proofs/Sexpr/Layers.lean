import FrontEnd.Proofs.Sexpr.Nests
import FrontEnd.Tree.Sexpr

/-!
The text of a layer is read as the nested list that the layer is written as, if the texts of its
subtrees are read as theirs.
-/

namespace FrontEnd

open Glyph

/-- Before what is calm the text is read as the nested list. -/
def Told (text : String) (n : Nest) : Prop :=
  ∀ rest, isCalm rest = true → read (text.toList ++ rest) = n.glyphs ++ read rest

/-- The text may stand behind an atom and is read as the items of a list. -/
structure Behind (text : String) (ns : List Nest) : Prop where
  calm : ∀ rest, isCalm rest = true → isCalm (text.toList ++ rest) = true
  reads : ∀ rest, isCalm rest = true →
    read (text.toList ++ rest) = Nest.glyphsOf ns ++ read rest

section Texts

variable {text more head : String} {n : Nest} {ns ms : List Nest} {α : Type} {f : α → String}
  {g : α → Nest} {items : List α}

theorem told_wordy (h : Wordy text.toList) : Told text (.atom text) := by
  intro rest hr
  rw [read_wordy h hr, String.ofList_toList]
  rfl

/-- A word has plain characters only. -/
def isWord (text : String) : Bool := !text.toList.isEmpty && text.toList.all isPlain

theorem told_word (h : isWord text = true) : Told text (.atom text) := by
  simp only [isWord, Bool.and_eq_true, List.all_eq_true] at h
  refine told_wordy ?_
  cases htext : text.toList with
  | nil => simp [htext] at h
  | cons c cs => exact .plain (htext ▸ h.2)

theorem behind_nil : Behind "" [] := ⟨fun _ hr => hr, fun _ _ => rfl⟩

theorem Behind.append (h : Behind text ns) (h' : Behind more ms) :
    Behind (text ++ more) (ns ++ ms) := by
  refine ⟨fun rest hr => ?_, fun rest hr => ?_⟩
  · rw [String.toList_append, List.append_assoc]
    exact h.calm _ (h'.calm rest hr)
  · rw [String.toList_append, List.append_assoc, h.reads _ (h'.calm rest hr), h'.reads rest hr,
      Nest.glyphsOf_append, List.append_assoc]

/-- An item behind a blank. -/
theorem Told.behind (h : Told text n) : Behind (" " ++ text) [n] := by
  refine ⟨fun rest hr => by simp [isCalm], fun rest hr => ?_⟩
  simp [read_blank, h rest hr, Nest.glyphsOf]

/-- An item on a line of its own. -/
theorem Told.below (h : Told text n) : Behind ("\n" ++ text) [n] := by
  refine ⟨fun rest hr => by simp [isCalm], fun rest hr => ?_⟩
  simp [read_blank, h rest hr, Nest.glyphsOf]

theorem Told.listed (hhead : Told head n) (h : Behind text ns)
    (hmore : more.toList = '(' :: (head.toList ++ (text.toList ++ [')']))) :
    Told more (.list (n :: ns)) := by
  intro rest hr
  have hclosing : isCalm (')' :: rest) = true := rfl
  simp [hmore, read_opening, hhead _ (h.calm _ hclosing), h.reads _ hclosing, read_closing,
    Nest.glyphs, Nest.glyphsOf]

/-- A list with a word as its head. -/
theorem Behind.headed (h : Behind text ns) (head : String) (hhead : isWord head = true)
    (hmore : more.toList = '(' :: (head.toList ++ (text.toList ++ [')']))) :
    Told more (.list (.atom head :: ns)) := (told_word hhead).listed h hmore

theorem behind_join {mark : String} (h : ∀ a ∈ items, Behind (mark ++ f a) [g a]) :
    Behind (String.join ((items.map f).map (mark ++ ·))) (items.map g) := by
  induction items with
  | nil => exact behind_nil
  | cons a items ih =>
    rw [List.forall_mem_cons] at h
    rw [List.map_cons, List.map_cons, String.join_cons]
    exact h.1.append (ih h.2)

theorem behind_spaced (h : ∀ a ∈ items, Told (f a) (g a)) :
    Behind (spaced (items.map f)) (items.map g) :=
  behind_join fun a ha => (h a ha).behind

theorem behind_members {β γ : Type} {write : α → β} {nest : α → γ} {f : β → String} {g : γ → Nest}
    (h : ∀ a ∈ items, Told (f (write a)) (g (nest a))) :
    Behind (spaced ((items.map write).map f)) ((items.map nest).map g) := by
  rw [List.map_map, List.map_map]
  exact behind_spaced h

theorem behind_flag (present : Bool) {word : String} (h : isWord word = true) :
    Behind (spacedIf present word) (flagItems present word) := by
  cases present with
  | true => exact (told_word h).behind
  | false => exact behind_nil

theorem behind_option {o : Option α} (h : ∀ a ∈ o, Told (f a) (g a)) :
    Behind (spacedOption (o.map f)) (o.map g).toList := by
  cases o with
  | none => exact behind_nil
  | some a => exact (h a rfl).behind

theorem behind_blank {o : Option α} (h : ∀ a ∈ o, Told (f a) (g a)) :
    Behind (orBlank (o.map f)) [(o.map g).getD (.atom "_")] := by
  cases o with
  | none =>
    have hblank : Told "_" (.atom "_") := told_word (by decide)
    exact hblank.behind
  | some a => exact (h a rfl).behind

theorem behind_colon (h : Told text n) : Behind (" :" ++ text) [.atom ":", n] := by
  refine ⟨fun rest hr => by simp [isCalm], fun rest hr => ?_⟩
  simp [read_blank, read_mark, h rest hr, Nest.glyphsOf, Nest.glyphs]

theorem behind_label {label : Option String} (h : ∀ name ∈ label, Told name (.atom name)) :
    Behind (spacedLabel label) (labelItems label) := by
  cases label with
  | none => exact behind_nil
  | some name => exact behind_colon (h name rfl)

theorem intercalate_cons (mark item : String) (items : List String) :
    mark.intercalate (item :: items) = item ++ String.join (items.map (mark ++ ·)) := by
  induction items generalizing item with
  | nil => simp
  | cons other items ih =>
    rw [String.intercalate_cons_cons, ih, ← String.toList_inj]
    simp [String.append_assoc]

/-- Items with a mark between them. -/
theorem read_intercalate {mark : String} (hitems : ∀ a ∈ items, Told (f a) (g a))
    (hmark : ∀ a ∈ items, Behind (mark ++ f a) [g a]) {rest : List Char}
    (hr : isCalm rest = true) : read ((mark.intercalate (items.map f)).toList ++ rest) =
      Nest.glyphsOf (items.map g) ++ read rest := by
  cases items with
  | nil => simp [Nest.glyphsOf]
  | cons a items =>
    have hjoin := behind_join fun b hb => hmark b (List.mem_cons_of_mem _ hb)
    rw [List.map_cons, intercalate_cons, String.toList_append, List.append_assoc,
      hitems a List.mem_cons_self _ (hjoin.calm rest hr), hjoin.reads rest hr]
    simp [Nest.glyphsOf]

theorem told_spaced (h : ∀ a ∈ items, Told (f a) (g a)) :
    Told ("(" ++ " ".intercalate (items.map f) ++ ")") (.list (items.map g)) := by
  intro rest hr
  have hclosing : isCalm (')' :: rest) = true := rfl
  simp only [String.toList_append, List.append_assoc]
  change read ('(' :: (_ ++ ')' :: rest)) = _
  rw [read_opening, read_intercalate h (fun a ha => (h a ha).behind) hclosing, read_closing]
  simp [Nest.glyphs]

end Texts

/-! ## Names and literals -/

section Symbols

variable {a : Symbol}

/-- A name or a literal is written as its lexeme. -/
theorem Symbol.Readable.told (h : a.Readable) (hk : a.kind.isName = true) :
    Told (String.ofList a.lexeme) (.atom (String.ofList a.lexeme)) := by
  intro rest hr
  obtain ⟨c, cs, hlexeme, hread⟩ := h.reads
  have hread := hread [] .nil
  rw [List.append_nil] at hread
  have hfirst := read_first (congrArg Piece.reading hread) hk hr
  rw [congrArg Piece.lexeme hread] at hfirst
  rw [String.toList_ofList, hfirst]
  rfl

theorem Symbol.Readable.told_name {name : String} (h : (Symbol.name name).Readable) :
    Told name (.atom name) := by
  have htold := h.told rfl
  rwa [Symbol.lexeme_eq_text (.inr rfl), Symbol.name, String.ofList_toList] at htold

/-- A name between bars is an atom as well. -/
theorem Symbol.Readable.told_payload {name : String} (h : (Symbol.name name).Readable) :
    Told ("|" ++ name ++ "|") (.atom ("|" ++ name ++ "|")) := by
  obtain ⟨c, cs, hlexeme, hread⟩ := h.reads
  have hread := hread [] .nil
  have hwordy := wordy_of_identifier (congrArg Piece.reading hread)
  rw [congrArg Piece.lexeme hread, Symbol.lexeme_eq_text (.inr rfl)] at hwordy
  have hbar : isPlain '|' = true := by decide
  refine told_wordy ?_
  have hbars := (hwordy.cons hbar).append (List.forall_mem_singleton.mpr hbar)
  simpa [Symbol.name] using hbars

end Symbols

/-! ## Layers -/

section Layers

variable {T : Type} {write : T → String} {nested : T → Nest}

theorem Param.told {p : Param T} (hname : Told p.name (.atom p.name))
    (htype : Told (write p.type) (nested p.type)) :
    Told (p.map write).sexpr (p.map nested).nest := by
  have hdots : Behind "..." [.atom "..."] := ⟨fun _ _ => rfl, fun _ _ => read_dots⟩
  obtain ⟨token, name, type, variadic⟩ := p
  cases variadic with
  | false => exact htype.listed hname.behind (by simp [Param.sexpr])
  | true => exact htype.listed (hdots.append hname.behind) (by simp [Param.sexpr])

theorem Variant.told {v : Variant T} (hname : Told v.name (.atom v.name))
    (h : ∀ t ∈ v.value, Told (write t) (nested t)) :
    Told (v.map write).sexpr (v.map nested).nest := by
  obtain ⟨token, name, value⟩ := v
  cases value with
  | none => exact hname
  | some value => exact hname.listed (h value rfl).behind (by simp [Variant.sexpr])

theorem MatchItem.told {i : MatchItem T} (h : ∀ t ∈ i.children, Told (write t) (nested t)) :
    Told (i.map write).sexpr (i.map nested).nest := by
  cases i with
  | single value => exact h value (List.mem_singleton.mpr rfl)
  | range start stop =>
    have hdots : Told "..." (.atom "...") := fun rest _ => read_dots
    simp only [children, List.forall_mem_cons] at h
    exact hdots.listed (h.1.behind.append h.2.1.behind) (by simp [MatchItem.sexpr, MatchItem.map])

theorem MatchBranch.told {b : MatchBranch T} (h : ∀ t ∈ b.children, Told (write t) (nested t)) :
    Told (b.map write).sexpr (b.map nested).nest := by
  simp only [children, List.forall_mem_append, List.mem_flatMap, List.forall_mem_singleton] at h
  have harrow : Told "=>" (.atom "=>") := told_word (by decide)
  have hitems : Behind (spaced ((b.items.map (·.map write)).map (·.sexpr)))
      ((b.items.map (·.map nested)).map (·.nest)) :=
    behind_members fun i hi => MatchItem.told fun t ht => h.1 t ⟨i, hi, ht⟩
  have hparts := hitems.append (harrow.behind.append h.2.behind)
  obtain ⟨token, items, body⟩ := b
  cases items with
  | nil => exact hparts.headed "else" (by decide) (by simp [MatchBranch.sexpr])
  | cons i items => exact hparts.headed "case" (by decide) (by simp [MatchBranch.sexpr])

theorem Form.sexpr_of_symbol? {form : Form T} {a : Symbol} (h : form.symbol? = some a) :
    (form.map write).sexpr = String.ofList a.lexeme := by
  rw [← String.toList_inj, String.toList_ofList]
  cases form <;> simp only [symbol?, Option.some.injEq, reduceCtorEq] at h <;> subst h
  case integer text base => cases base <;> rfl
  case float text imaginary => cases imaginary <;> rfl
  case string text form =>
    cases form <;> simp [sexpr, Symbol.lexeme, StringForm.quote, StringForm.kind]
  case bool value => cases value <;> rfl
  case rune | builtin => simp [sexpr, Symbol.lexeme]
  all_goals rfl

theorem Form.symbol?_map {U : Type} (f : T → U) (form : Form T) :
    (form.map f).symbol? = form.symbol? := by
  cases form <;> rfl

theorem Form.isName_of_symbol? {form : Form T} {a : Symbol} (h : form.symbol? = some a) :
    a.kind.isName = true := by
  cases form <;> simp only [symbol?, Option.some.injEq, reduceCtorEq] at h <;> subst h
  case float text imaginary => cases imaginary <;> rfl
  case bool value => cases value <;> rfl
  all_goals first | rfl | simp

theorem isWord_binary (op : BinaryOp) : isWord op.symbol = true := by
  cases op <;> decide

theorem isWord_unary (op : UnaryOp) : isWord op.symbol = true := by
  cases op <;> decide

namespace Form

/-- The head of the list is a point, which is an atom of its own before a blank only. -/
theorem told_access {target : T} {name : String} (htarget : Told (write target) (nested target))
    (hname : Told name (.atom name)) :
    Told ((access target name).map write).sexpr ((access target name).map nested).nest := by
  intro rest hr
  have hparts := (htarget.behind.append hname.behind).reads (')' :: rest) rfl
  simp [read_blank, read_closing, Nest.glyphsOf] at hparts
  simp [sexpr, Form.nest, symbol?, items, read_opening, read_dot, Nest.glyphs, Nest.glyphsOf,
    hparts]

theorem told_array (kind : ArrayKind) {size sentinel : Option T} {element : T}
    (hsize : ∀ t ∈ size, Told (write t) (nested t))
    (hsentinel : ∀ t ∈ sentinel, Told (write t) (nested t))
    (helement : Told (write element) (nested element)) :
    Told ((array kind size sentinel element).map write).sexpr
      ((array kind size sentinel element).map nested).nest := by
  have hsized : ∀ rest, isCalm rest = true → read ((kind.size (size.map write)).toList ++ rest) =
      Nest.glyphsOf (kind.sizeItems (size.map nested)) ++ read rest := by
    intro rest hr
    have hblank : Told "_" (.atom "_") := told_word (by decide)
    cases kind with
    | inferred => exact hblank rest hr
    | slice | sized =>
      cases size with
      | none => rfl
      | some t => simp [ArrayKind.size, ArrayKind.sizeItems, Nest.glyphsOf, hsize t rfl rest hr]
  have hended : Behind (((sentinel.map write).map (" :" ++ ·)).getD "")
      ((sentinel.map nested).toList.flatMap fun n => [.atom ":", n]) := by
    cases sentinel with
    | none => exact behind_nil
    | some t => exact behind_colon (hsentinel t rfl)
  have hclosed : Behind ("] " ++ write element) [.atom "]", nested element] := by
    refine ⟨fun rest hr => by simp [isCalm], fun rest hr => ?_⟩
    simp [read_blank, read_mark, helement rest hr, Nest.glyphsOf, Nest.glyphs]
  intro rest hr
  have htail := hended.append hclosed
  have hparts := hsized _ (htail.calm (')' :: rest) rfl)
  rw [htail.reads _ rfl] at hparts
  simp [read_closing] at hparts
  simp [sexpr, Form.nest, symbol?, items, read_opening, read_mark, Nest.glyphs, Nest.glyphsOf,
    hparts]

theorem told_prototype {name : Option String} {params : List (Param T)} {result : T}
    {isExport isExtern : Bool} (hname : ∀ n ∈ name, Told n (.atom n))
    (hparams : ∀ p ∈ params, Told p.name (.atom p.name) ∧ Told (write p.type) (nested p.type))
    (hresult : Told (write result) (nested result)) :
    Told ((prototype name params result isExport isExtern).map write).sexpr
      ((prototype name params result isExport isExtern).map nested).nest := by
  have hexport : Behind (spacedIf isExport "export") (flagItems isExport "export") :=
    behind_flag isExport (by decide)
  have hextern : Behind (spacedIf isExtern "extern") (flagItems isExtern "extern") :=
    behind_flag isExtern (by decide)
  have hname : Behind (spacedOption name) (name.toList.map .atom) := by
    cases name with
    | none => exact behind_nil
    | some name => exact (hname name rfl).behind
  have hparams : Told ("(" ++ " ".intercalate ((params.map (·.map write)).map (·.sexpr)) ++ ")")
      (.list ((params.map (·.map nested)).map (·.nest))) := by
    rw [List.map_map, List.map_map]
    exact told_spaced fun p hp => Param.told (hparams p hp).1 (hparams p hp).2
  have hparts := ((hexport.append hextern).append hname).append
    (hparams.behind.append hresult.behind)
  exact hparts.headed "func" (by decide) (by simp [sexpr])

end Form

theorem Form.told {form : Form T} (hroot : ∀ ns, form ≠ .root ns)
    (hnames : ∀ a ∈ form.own, a.Readable)
    (hchildren : ∀ t ∈ form.children, Told (write t) (nested t)) :
    Told (form.map write).sexpr (form.map nested).nest := by
  have hname (name : String) (h : .name name ∈ form.own) : Told name (.atom name) :=
    (hnames _ h).told_name
  have hlabel (label : Option String) (h : ∀ n ∈ label, .name n ∈ form.own) :
      Behind (spacedLabel label) (labelItems label) := behind_label fun n hn => hname n (h n hn)
  have hsymbol (a : Symbol) (h : form.symbol? = some a) :
      Told (form.map write).sexpr (form.map nested).nest := by
    have ha : a.Readable := hnames a (by simp [own_of_symbol? h])
    have hnest : (form.map nested).nest = .atom (String.ofList a.lexeme) := by
      rw [nest, symbol?_map, h]
    rw [hnest, sexpr_of_symbol? h]
    exact ha.told (isName_of_symbol? h)
  have hexport (present : Bool) : Behind (spacedIf present "export") (flagItems present "export") :=
    behind_flag present (by decide)
  have hoption {o : Option T} (h : ∀ t ∈ o.toList, Told (write t) (nested t)) :
      Behind (spacedOption (o.map write)) (o.map nested).toList :=
    behind_option fun t ht => h t (Option.mem_toList.mpr ht)
  have hblank {o : Option T} (h : ∀ t ∈ o.toList, Told (write t) (nested t)) :
      Behind (orBlank (o.map write)) [(o.map nested).getD (.atom "_")] :=
    behind_blank fun t ht => h t (Option.mem_toList.mpr ht)
  cases form with
  | root ns => exact absurd rfl (hroot ns)
  | identifier | integer | float | rune | string | bool | nil | unreachable | builtin =>
    have hsymbol := hsymbol _ rfl
    exact hsymbol
  | access target name =>
    exact told_access (hchildren target (by simp [children])) (hname name (by simp [own]))
  | array kind size sentinel element =>
    simp only [children, List.forall_mem_append, List.forall_mem_singleton, Option.mem_toList]
      at hchildren
    exact told_array kind hchildren.1.1 hchildren.1.2 hchildren.2
  | prototype name params result isExport isExtern =>
    simp only [children, List.forall_mem_append, List.forall_mem_singleton,
      List.forall_mem_map] at hchildren
    refine told_prototype (fun n hn => hname n ?_) (fun p hp => ⟨hname p.name ?_, ?_⟩) hchildren.2
    · cases hn
      simp [own]
    · simp only [own, map, names, List.mem_append, List.mem_flatMap, List.mem_map]
      exact .inl (.inr ⟨_, ⟨p, hp, rfl⟩, by simp⟩)
    · exact hchildren.1 p hp
  | enumeration name isExport variants =>
    have hvariants : Behind (spaced ((variants.map (·.map write)).map (·.sexpr)))
        ((variants.map (·.map nested)).map (·.nest)) := behind_members fun v hv => by
      refine Variant.told (hname v.name ?_) fun t ht => hchildren t ?_
      · simp only [own, map, names, List.mem_cons, List.mem_flatMap, List.mem_map]
        exact .inr ⟨_, ⟨v, hv, rfl⟩, by simp⟩
      · exact List.mem_flatMap.mpr ⟨v, hv, Option.mem_toList.mpr ht⟩
    have hparts := (hexport isExport).append ((hname name (by simp [own])).behind.append hvariants)
    exact hparts.headed "enum" (by decide) (by simp [sexpr])
  | record name isExport isUnion fields =>
    have hname := hname name (by simp [own])
    simp only [children] at hchildren
    have hparts := (hexport isExport).append (hname.behind.append (behind_spaced hchildren))
    cases isUnion with
    | false => exact hparts.headed "struct" (by decide) (by simp [sexpr])
    | true => exact hparts.headed "union" (by decide) (by simp [sexpr])
  | selection subject branches =>
    have hbranches : Behind (spaced ((branches.map (·.map write)).map (·.sexpr)))
        ((branches.map (·.map nested)).map (·.nest)) := behind_members fun b hb =>
      MatchBranch.told fun t ht => hchildren t
        (List.mem_cons_of_mem _ (List.mem_flatMap.mpr ⟨b, hb, ht⟩))
    have hsubject := hchildren subject List.mem_cons_self
    exact (hsubject.behind.append hbranches).headed "match" (by decide) (by simp [sexpr])
  | recovery lhs payload rhs =>
    have hpayload : Behind (spacedOption (payload.map fun name => "|" ++ name ++ "|"))
        (payload.map fun name => .atom ("|" ++ name ++ "|")).toList :=
      behind_option fun n hn => (hnames (.name n) (by cases hn; simp [own])).told_payload
    simp only [children, List.forall_mem_cons] at hchildren
    obtain ⟨hl, hr, -⟩ := hchildren
    have hparts := hl.behind.append (hpayload.append hr.behind)
    rw [Option.toList_map] at hparts
    exact hparts.headed "catch" (by decide) (by simp [sexpr])
  | block label statements =>
    have hlabel := hlabel label (by rintro n ⟨⟩; simp [own])
    simp only [children] at hchildren
    exact (hlabel.append (behind_spaced hchildren)).headed "block" (by decide) (by simp [sexpr])
  | continuing label =>
    have hlabel := hlabel label (by rintro n ⟨⟩; simp [own])
    exact hlabel.headed "continue" (by decide) (by simp [sexpr])
  | breaking label value =>
    have hlabel := hlabel label (by rintro n ⟨⟩; simp [own])
    exact (hlabel.append (hoption hchildren)).headed "break" (by decide) (by simp [sexpr])
  | returning value => exact (hoption hchildren).headed "return" (by decide) (by simp [sexpr])
  | elements items =>
    simp only [children] at hchildren
    exact (behind_spaced hchildren).headed "init" (by decide) (by simp [sexpr])
  | field name type default =>
    have hname := hname name (by simp [own])
    simp only [children, List.forall_mem_cons] at hchildren
    obtain ⟨htype, hdefault⟩ := hchildren
    have hparts := htype.behind.append (hname.behind.append (hoption hdefault))
    exact hparts.headed "field" (by decide) (by simp [sexpr])
  | declaration name type init isExport isMutable isConst =>
    have hname := hname name (by simp [own])
    have hmutable : Behind (spacedIf isMutable "mutable") (flagItems isMutable "mutable") :=
      behind_flag isMutable (by decide)
    have hconst : Behind (spacedIf isConst "const") (flagItems isConst "const") :=
      behind_flag isConst (by decide)
    simp only [children, List.forall_mem_append] at hchildren
    obtain ⟨htype, hinit⟩ := hchildren
    have hflags := ((hexport isExport).append hmutable).append hconst
    have hparts := hflags.append ((hblank htype).append (hname.behind.append (hoption hinit)))
    exact hparts.headed "var" (by decide) (by simp [sexpr])
  | loop label condition body =>
    have hlabel := hlabel label (by rintro n ⟨⟩; simp [own])
    simp only [children, List.forall_mem_append, List.forall_mem_singleton] at hchildren
    obtain ⟨hcondition, hbody⟩ := hchildren
    have hparts := (hlabel.append (hoption hcondition)).append hbody.behind
    exact hparts.headed "for" (by decide) (by simp [sexpr])
  | steppedLoop label init condition step body =>
    have hlabel := hlabel label (by rintro n ⟨⟩; simp [own])
    simp only [children, List.forall_mem_append, List.forall_mem_singleton] at hchildren
    obtain ⟨⟨⟨hinit, hcondition⟩, hstep⟩, hbody⟩ := hchildren
    have hparts := hlabel.append ((hblank hinit).append ((hblank hcondition).append
      ((hblank hstep).append hbody.behind)))
    exact hparts.headed "for-c" (by decide) (by simp [sexpr])
  | eachLoop label binding iterable body =>
    have hlabel := hlabel label (by rintro n ⟨⟩; simp [own])
    have hbinding := hname binding (by simp [own])
    simp only [children, List.forall_mem_cons] at hchildren
    obtain ⟨hiterable, hbody, -⟩ := hchildren
    have hparts := hlabel.append (hbinding.behind.append (hiterable.behind.append hbody.behind))
    exact hparts.headed "for-in" (by decide) (by simp [sexpr])
  | call callee args =>
    simp only [children, List.forall_mem_cons] at hchildren
    obtain ⟨hcallee, hargs⟩ := hchildren
    have hparts := hcallee.behind.append (behind_spaced hargs)
    exact hparts.headed "call" (by decide) (by simp [sexpr])
  | slice target start stop sentinel =>
    simp only [children, List.forall_mem_append, List.forall_mem_cons] at hchildren
    obtain ⟨⟨htarget, hstart, hstop, -⟩, hsentinel⟩ := hchildren
    have hparts := htarget.behind.append
      (hstart.behind.append (hstop.behind.append (hoption hsentinel)))
    exact hparts.headed "slice" (by decide) (by simp [sexpr])
  | conditional condition thenBody elseBody =>
    simp only [children, List.forall_mem_append, List.forall_mem_cons] at hchildren
    obtain ⟨⟨hcondition, hthen, -⟩, helse⟩ := hchildren
    have hparts := hcondition.behind.append (hthen.behind.append (hoption helse))
    exact hparts.headed "if" (by decide) (by simp [sexpr])
  | function lhs rhs =>
    simp only [children, List.forall_mem_cons] at hchildren
    obtain ⟨hl, hr, -⟩ := hchildren
    exact (hl.behind.append hr.behind).headed "def" (by decide) (by simp [sexpr])
  | index lhs rhs =>
    simp only [children, List.forall_mem_cons] at hchildren
    obtain ⟨hl, hr, -⟩ := hchildren
    exact (hl.behind.append hr.behind).headed "index" (by decide) (by simp [sexpr])
  | binary op lhs rhs =>
    simp only [children, List.forall_mem_cons] at hchildren
    obtain ⟨hl, hr, -⟩ := hchildren
    exact (hl.behind.append hr.behind).headed op.symbol (isWord_binary op) (by simp [sexpr])
  | unary op child =>
    have hchild := hchildren child List.mem_cons_self
    exact hchild.behind.headed op.symbol (isWord_unary op) (by simp [sexpr])
  | optional child =>
    exact (hchildren child List.mem_cons_self).behind.headed "?" (by decide) (by simp [sexpr])
  | deferral child =>
    exact (hchildren child List.mem_cons_self).behind.headed "defer" (by decide) (by simp [sexpr])
  | raising child =>
    exact (hchildren child List.mem_cons_self).behind.headed "raise" (by decide) (by simp [sexpr])

end Layers

end FrontEnd
