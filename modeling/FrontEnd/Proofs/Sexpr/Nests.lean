import FrontEnd.Parser.Grammar.Primaries
import FrontEnd.Proofs.Lexer.Spacing
import FrontEnd.Proofs.Sexpr.Glyphs
import FrontEnd.Proofs.Tree.Places

/-!
Nested lists of atoms. A list is told by its glyphs, a layer of a tree by the nested list that
it is written as.
-/

namespace FrontEnd

inductive Nest where
  | atom (text : String)
  | list (items : List Nest)

namespace Nest

mutual

def glyphs : Nest → List Glyph
  | .atom text => [.atom text]
  | .list items => .opening :: (glyphsOf items ++ [.closing])

def glyphsOf : List Nest → List Glyph
  | [] => []
  | n :: ns => glyphs n ++ glyphsOf ns

end

@[simp]
theorem glyphsOf_append (ns ms : List Nest) : glyphsOf (ns ++ ms) = glyphsOf ns ++ glyphsOf ms := by
  induction ns with
  | nil => rfl
  | cons n ns ih => simp only [List.cons_append, glyphsOf, ih, List.append_assoc]

/-- Where a list of glyphs ends or closes, no nested list goes on. -/
def Ends (gs : List Glyph) : Prop := ∀ g ∈ gs.head?, g = .closing

theorem not_ends_glyphs (n : Nest) (gs : List Glyph) : ¬Ends (n.glyphs ++ gs) := by
  cases n with
  | atom text => exact fun h => Glyph.noConfusion (h _ rfl)
  | list items => exact fun h => Glyph.noConfusion (h _ rfl)

mutual

/-- A nested list is told by the glyphs that begin with its own, and ends where they do. -/
theorem glyphs_inj {n m : Nest} {gs hs : List Glyph} (h : n.glyphs ++ gs = m.glyphs ++ hs) :
    n = m ∧ gs = hs := by
  match n, m with
  | .atom text, .atom text' => simp_all [glyphs]
  | .atom text, .list ms => cases h
  | .list ns, .atom text => cases h
  | .list ns, .list ms =>
    simp only [glyphs, List.cons_append, List.append_assoc, List.cons.injEq, true_and] at h
    obtain ⟨rfl, hrest⟩ := glyphsOf_inj h (by simp [Ends]) (by simp [Ends])
    simp_all

theorem glyphsOf_inj {ns ms : List Nest} {gs hs : List Glyph}
    (h : glyphsOf ns ++ gs = glyphsOf ms ++ hs) (hgs : Ends gs) (hhs : Ends hs) :
    ns = ms ∧ gs = hs := by
  match ns, ms with
  | [], [] => exact ⟨rfl, h⟩
  | [], m :: ms =>
    rw [glyphsOf, glyphsOf, List.append_assoc, List.nil_append] at h
    exact absurd (h ▸ hgs) (not_ends_glyphs m _)
  | n :: ns, [] =>
    rw [glyphsOf, glyphsOf, List.append_assoc, List.nil_append] at h
    exact absurd (h ▸ hhs) (not_ends_glyphs n _)
  | n :: ns, m :: ms =>
    simp only [glyphsOf, List.append_assoc] at h
    obtain ⟨rfl, hrest⟩ := glyphs_inj h
    obtain ⟨rfl, hends⟩ := glyphsOf_inj hrest hgs hhs
    exact ⟨rfl, hends⟩

end

end Nest

/-! ## Layers as nested lists -/

section Layers

def flagItems (present : Bool) (word : String) : List Nest := if present then [.atom word] else []

def labelItems : Option String → List Nest
  | none => []
  | some label => [.atom ":", .atom label]

def Param.nest (p : Param Nest) : Nest :=
  .list (p.type :: flagItems p.variadic "..." ++ [.atom p.name])

def Variant.nest (v : Variant Nest) : Nest :=
  match v.value with
  | none => .atom v.name
  | some value => .list [.atom v.name, value]

def MatchItem.nest : MatchItem Nest → Nest
  | .single value => value
  | .range start stop => .list [.atom "...", start, stop]

def MatchBranch.nest (b : MatchBranch Nest) : Nest :=
  .list (.atom (if b.items.isEmpty then "else" else "case") :: b.items.map (·.nest) ++
    [.atom "=>", b.body])

def ArrayKind.sizeItems : ArrayKind → Option Nest → List Nest
  | .inferred, _ => [.atom "_"]
  | _, size => size.toList

/-- The symbol that a layer without subtrees is written as. -/
def Form.symbol? {T : Type} : Form T → Option Symbol
  | .identifier name => some (.name name)
  | .integer text base => some ⟨base.kind, text⟩
  | .float text imaginary => some ⟨if imaginary then .imaginary else .float, text⟩
  | .rune text => some ⟨.rune, text⟩
  | .string text form => some ⟨form.kind, text⟩
  | .bool value => some (.word (if value then .litTrue else .litFalse))
  | .nil => some (.word .kwNil)
  | .unreachable => some (.word .kwUnreachable)
  | .builtin name => some ⟨.builtinName, name⟩
  | _ => none

/-- The head of the list that any other layer is written as, and the items behind it. -/
def Form.items : Form Nest → String × List Nest
  | .block label statements => ("block", labelItems label ++ statements)
  | .prototype name params result isExport isExtern =>
    ("func", flagItems isExport "export" ++ flagItems isExtern "extern" ++
      name.toList.map .atom ++ [.list (params.map (·.nest)), result])
  | .function signature body => ("def", [signature, body])
  | .enumeration name isExport variants =>
    ("enum", flagItems isExport "export" ++ .atom name :: variants.map (·.nest))
  | .record name isExport isUnion fields =>
    (if isUnion then "union" else "struct", flagItems isExport "export" ++ .atom name :: fields)
  | .field name type default => ("field", type :: .atom name :: default.toList)
  | .declaration name type init isExport isMutable isConst =>
    ("var", flagItems isExport "export" ++ flagItems isMutable "mutable" ++
      flagItems isConst "const" ++ type.getD (.atom "_") :: .atom name :: init.toList)
  | .call callee args => ("call", callee :: args)
  | .access target name => (".", [target, .atom name])
  | .index target position => ("index", [target, position])
  | .slice target start stop sentinel => ("slice", target :: start :: stop :: sentinel.toList)
  | .elements items => ("init", items)
  | .conditional condition thenBody elseBody =>
    ("if", condition :: thenBody :: elseBody.toList)
  | .loop label condition body => ("for", labelItems label ++ condition.toList ++ [body])
  | .steppedLoop label init condition step body =>
    ("for-c", labelItems label ++ [init.getD (.atom "_"), condition.getD (.atom "_"),
      step.getD (.atom "_"), body])
  | .eachLoop label binding iterable body =>
    ("for-in", labelItems label ++ [.atom binding, iterable, body])
  | .selection subject branches => ("match", subject :: branches.map (·.nest))
  | .recovery lhs payload rhs =>
    ("catch", lhs :: payload.toList.map (fun name => .atom ("|" ++ name ++ "|")) ++ [rhs])
  | .binary op lhs rhs => (op.symbol, [lhs, rhs])
  | .unary op operand => (op.symbol, [operand])
  | .optional child => ("?", [child])
  | .array kind size sentinel element =>
    ("[", kind.sizeItems size ++ sentinel.toList.flatMap (fun n => [.atom ":", n]) ++
      [.atom "]", element])
  | .deferral body => ("defer", [body])
  | .returning value => ("return", value.toList)
  | .raising value => ("raise", [value])
  | .breaking label value => ("break", labelItems label ++ value.toList)
  | .continuing label => ("continue", labelItems label)
  | _ => ("", [])

/-- The nested list that a layer is written as. -/
def Form.nest (form : Form Nest) : Nest :=
  match form.symbol? with
  | some a => .atom (String.ofList a.lexeme)
  | none => .list (.atom form.items.1 :: form.items.2)

end Layers

/-! ## Layers read from nested lists -/

section Readers

/-- Whether the flag stands at the front, and what stands behind it. -/
def readFlag (word : String) : List Nest → Bool × List Nest
  | .atom text :: ns => if text = word then (true, ns) else (false, .atom text :: ns)
  | ns => (false, ns)

def readLabel : List Nest → Option String × List Nest
  | .atom text :: .atom label :: ns =>
    if text = ":" then (some label, ns) else (none, .atom text :: .atom label :: ns)
  | ns => (none, ns)

/-- The part that is written, or none for an underscore. -/
def readPresent : Nest → Option Nest
  | .atom text => if text = "_" then none else some (.atom text)
  | n => some n

def Param.ofNest? : Nest → Option (Param Nest)
  | .list [type, .atom name] => some ⟨0, name, type, false⟩
  | .list [type, _, .atom name] => some ⟨0, name, type, true⟩
  | _ => none

def Variant.ofNest? : Nest → Option (Variant Nest)
  | .atom name => some ⟨0, name, none⟩
  | .list [.atom name, value] => some ⟨0, name, some value⟩
  | _ => none

def MatchItem.ofNest : Nest → MatchItem Nest
  | .list [.atom mark, start, stop] =>
    if mark = "..." then .range start stop else .single (.list [.atom mark, start, stop])
  | n => .single n

def MatchBranch.ofNest? : Nest → Option (MatchBranch Nest)
  | .list (_ :: ns) =>
    match ns.reverse with
    | body :: _ :: items => some ⟨0, items.reverse.map MatchItem.ofNest, body⟩
    | _ => none
  | _ => none

/-- The symbol of a lexeme. -/
def Symbol.ofLexeme? (lexeme : String) : Option Symbol :=
  match lexeme.toList with
  | [] => none
  | c :: cs =>
    match (Piece.first c cs).reading with
    | .token kind text => some ⟨kind, String.ofList text⟩
    | _ => none

/-- The array type that is written behind an opening bracket. -/
def readArray? : List Nest → Option (Form Nest)
  | [_, element] => some (.array .slice none none element)
  | [size, _, element] =>
    match readPresent size with
    | none => some (.array .inferred none none element)
    | some size => some (.array .sized (some size) none element)
  | [size, _, sentinel, _, element] =>
    match readPresent size with
    | none => some (.array .inferred none (some sentinel) element)
    | some size => some (.array .sized (some size) (some sentinel) element)
  | _ => none

def BinaryOp.ofSymbol? (text : String) : Option BinaryOp := all.find? fun o => o.symbol == text

def UnaryOp.ofSymbol? (text : String) : Option UnaryOp := all.find? fun o => o.symbol == text

/-- The layer that a list is written for, from its head and the items behind it. -/
def Form.ofItems? : String → List Nest → Option (Form Nest)
  | "block", ns => some (.block (readLabel ns).1 (readLabel ns).2)
  | "func", ns =>
    let (isExport, ns) := readFlag "export" ns
    let (isExtern, ns) := readFlag "extern" ns
    match ns with
    | [.list params, result] => do
      return .prototype none (← params.mapM Param.ofNest?) result isExport isExtern
    | [.atom name, .list params, result] => do
      return .prototype name (← params.mapM Param.ofNest?) result isExport isExtern
    | _ => none
  | "def", [signature, body] => some (.function signature body)
  | "enum", ns =>
    match readFlag "export" ns with
    | (isExport, .atom name :: variants) => do
      return .enumeration name isExport (← variants.mapM Variant.ofNest?)
    | _ => none
  | "struct", ns =>
    match readFlag "export" ns with
    | (isExport, .atom name :: fields) => some (.record name isExport false fields)
    | _ => none
  | "union", ns =>
    match readFlag "export" ns with
    | (isExport, .atom name :: fields) => some (.record name isExport true fields)
    | _ => none
  | "field", type :: .atom name :: ns => some (.field name type ns.head?)
  | "var", ns =>
    let (isExport, ns) := readFlag "export" ns
    let (isMutable, ns) := readFlag "mutable" ns
    let (isConst, ns) := readFlag "const" ns
    match ns with
    | type :: .atom name :: ns =>
      some (.declaration name (readPresent type) ns.head? isExport isMutable isConst)
    | _ => none
  | "call", callee :: args => some (.call callee args)
  | ".", [target, .atom name] => some (.access target name)
  | "index", [target, position] => some (.index target position)
  | "slice", target :: start :: stop :: ns => some (.slice target start stop ns.head?)
  | "init", items => some (.elements items)
  | "if", condition :: thenBody :: ns => some (.conditional condition thenBody ns.head?)
  | "for", ns =>
    match readLabel ns with
    | (label, [body]) => some (.loop label none body)
    | (label, [condition, body]) => some (.loop label condition body)
    | _ => none
  | "for-c", ns =>
    match readLabel ns with
    | (label, [init, condition, step, body]) =>
      some (.steppedLoop label (readPresent init) (readPresent condition) (readPresent step) body)
    | _ => none
  | "for-in", ns =>
    match readLabel ns with
    | (label, [.atom binding, iterable, body]) => some (.eachLoop label binding iterable body)
    | _ => none
  | "match", subject :: ns => do return .selection subject (← ns.mapM MatchBranch.ofNest?)
  | "catch", [lhs, rhs] => some (.recovery lhs none rhs)
  | "catch", [lhs, .atom payload, rhs] =>
    some (.recovery lhs (String.ofList payload.toList.tail.dropLast) rhs)
  | "?", [child] => some (.optional child)
  | "[", ns => readArray? ns
  | "defer", [body] => some (.deferral body)
  | "return", ns => some (.returning ns.head?)
  | "raise", [value] => some (.raising value)
  | "break", ns => some (.breaking (readLabel ns).1 (readLabel ns).2.head?)
  | "continue", ns => some (.continuing (readLabel ns).1)
  | head, [lhs, rhs] => (BinaryOp.ofSymbol? head).map (.binary · lhs rhs)
  | head, [operand] => (UnaryOp.ofSymbol? head).map (.unary · operand)
  | _, _ => none

/-- The layer that a nested list is written for. -/
def Form.ofNest? : Nest → Option (Form Nest)
  | .list (.atom head :: ns) => Form.ofItems? head ns
  | .atom text => ((Symbol.ofLexeme? text).bind (·.leaf?)).map (·.map fun _ => .list [])
  | _ => none

end Readers

section Parts

theorem head?_ne_of_forall {ns : List Nest} {n : Nest} (h : ∀ m ∈ ns, m ≠ n) :
    ns.head? ≠ some n :=
  fun hn => h n (List.mem_of_head? hn) rfl

theorem readFlag_flagItems {ns : List Nest} {word : String} (present : Bool)
    (h : ns.head? ≠ some (.atom word)) :
    readFlag word (flagItems present word ++ ns) = (present, ns) := by
  cases present with
  | true => simp [flagItems, readFlag]
  | false =>
    change readFlag word ns = _
    unfold readFlag
    split
    · rw [if_neg]
      rintro rfl
      exact h rfl
    · rfl

/-- A flag is no other one. -/
theorem head?_flagItems {ns : List Nest} {flag word : String} (hne : flag ≠ word) (present : Bool)
    (h : ns.head? ≠ some (.atom word)) :
    (flagItems present flag ++ ns).head? ≠ some (.atom word) := by
  cases present with
  | true => simpa [flagItems] using hne
  | false => exact h

theorem readLabel_labelItems {ns : List Nest} (label : Option String)
    (h : ns.head? ≠ some (.atom ":")) :
    readLabel (labelItems label ++ ns) = (label, ns) := by
  cases label with
  | some label => simp [labelItems, readLabel]
  | none =>
    change readLabel ns = _
    unfold readLabel
    split
    · rw [if_neg]
      rintro rfl
      exact h rfl
    · rfl

theorem readPresent_getD {o : Option Nest} (h : ∀ n ∈ o, n ≠ .atom "_") :
    readPresent (o.getD (.atom "_")) = o := by
  cases o with
  | none => rfl
  | some n =>
    cases n with
    | list ns => rfl
    | atom text =>
      refine if_neg ?_
      rintro rfl
      exact h _ rfl rfl

theorem mapM_map {α β : Type} {f : α → Nest} {g : α → β} {read : Nest → Option β} {items : List α}
    (h : ∀ a ∈ items, read (f a) = some (g a)) : (items.map f).mapM read = some (items.map g) := by
  induction items with
  | nil => rfl
  | cons a items ih =>
    rw [List.forall_mem_cons] at h
    simp [List.mapM_cons, h.1, ih h.2]

end Parts

/-- The lexeme of a readable symbol tells it. -/
theorem Symbol.ofLexeme?_lexeme {a : Symbol} (h : a.Readable) :
    ofLexeme? (String.ofList a.lexeme) = some a := by
  obtain ⟨c, cs, hlexeme, hread⟩ := h.reads
  have hread := hread [] .nil
  rw [List.append_nil] at hread
  simp only [ofLexeme?, String.toList_ofList, hlexeme, hread, String.ofList_toList]

/-- No name is a word or a mark of the grammar. -/
theorem Symbol.Readable.name_ne {name word : String} (h : (Symbol.name name).Readable)
    (hword : ofLexeme? word ≠ some (.name word)) : name ≠ word := by
  rintro rfl
  have hread := ofLexeme?_lexeme h
  rw [Symbol.lexeme_eq_text (.inr rfl), Symbol.name, String.ofList_toList] at hread
  exact hword hread

/-- A nested list that a layer is written as, and not one that an absent part is. -/
structure Nest.Proper (n : Nest) : Prop where
  reads : (Form.ofNest? n).isSome = true
  present : n ≠ .atom "_"

theorem Nest.Proper.ne {n m : Nest} (h : n.Proper) (hm : (Form.ofNest? m).isSome = false) :
    n ≠ m := by
  rintro rfl
  rw [h.reads] at hm
  cases hm

theorem Nest.Proper.ne_colon {n : Nest} (h : n.Proper) : n ≠ .atom ":" := h.ne (by decide +kernel)

theorem head?_ne_colon {ns : List Nest} (h : ∀ n ∈ ns, n.Proper) :
    ns.head? ≠ some (.atom ":") :=
  head?_ne_of_forall fun n hn => (h n hn).ne_colon

section Members

theorem Param.ofNest?_nest (p : Param Nest) :
    ofNest? p.nest = some ⟨0, p.name, p.type, p.variadic⟩ := by
  obtain ⟨token, name, type, variadic⟩ := p
  cases variadic <;> rfl

theorem Variant.ofNest?_nest (v : Variant Nest) : ofNest? v.nest = some ⟨0, v.name, v.value⟩ := by
  obtain ⟨token, name, value⟩ := v
  cases value <;> rfl

theorem MatchItem.ofNest_nest {i : MatchItem Nest} (h : ∀ n ∈ i.children, n.Proper) :
    ofNest i.nest = i := by
  cases i with
  | range start stop => rfl
  | single value =>
    have hvalue : value.Proper := h value (List.mem_singleton.mpr rfl)
    change ofNest value = _
    unfold ofNest
    split
    · rename_i mark start stop
      refine if_neg ?_
      rintro rfl
      have hdots : (Form.ofNest? (.list [.atom "...", start, stop])).isSome = false := rfl
      exact hvalue.ne hdots rfl
    · rfl

theorem MatchBranch.ofNest?_nest {b : MatchBranch Nest} (h : ∀ n ∈ b.children, n.Proper) :
    ofNest? b.nest = some ⟨0, b.items, b.body⟩ := by
  have hitems : b.items.map (MatchItem.ofNest ∘ MatchItem.nest) = b.items := by
    rw [List.map_congr_left (g := id), List.map_id]
    intro i hi
    refine MatchItem.ofNest_nest fun n hn => h n ?_
    exact List.mem_append_left _ (List.mem_flatMap.mpr ⟨i, hi, hn⟩)
  simp [ofNest?, nest, hitems]

end Members

namespace Form

/-- The names of a layer without those of its subtrees. -/
def own {T : Type} (form : Form T) : List Symbol := (form.map fun _ => []).names

theorem ofItems?_binary (op : BinaryOp) (lhs rhs : Nest) :
    ofItems? op.symbol [lhs, rhs] = some (.binary op lhs rhs) := by
  cases op <;> rfl

theorem ofItems?_unary (op : UnaryOp) (operand : Nest) :
    ofItems? op.symbol [operand] = some (.unary op operand) := by
  cases op <;> rfl

theorem readArray?_items {kind : ArrayKind} {size sentinel : Option Nest} {element : Nest}
    (hform : (array kind size sentinel element).Holds) (hsize : ∀ n ∈ size, n ≠ .atom "_") :
    readArray? (array kind size sentinel element).items.2 =
      some (.array kind size sentinel element) := by
  cases kind with
  | slice =>
    obtain ⟨rfl, rfl⟩ := hform
    rfl
  | inferred =>
    obtain rfl : size = none := hform
    cases sentinel <;> rfl
  | sized =>
    cases size with
    | none => exact absurd rfl hform
    | some size =>
      have hpresent : readPresent size = some size := readPresent_getD (o := some size) hsize
      cases sentinel <;> simp [items, ArrayKind.sizeItems, readArray?, hpresent]

theorem ofItems?_prototype {name : Option String} (params : List (Param Nest)) (result : Nest)
    (isExport isExtern : Bool) (hname : ∀ n ∈ name, n ≠ "export" ∧ n ≠ "extern") :
    ofItems? "func" (prototype name params result isExport isExtern).items.2 =
      some ((prototype name params result isExport isExtern).mapTokens fun _ => 0) := by
  have hparams := mapM_map fun p (_ : p ∈ params) => p.ofNest?_nest
  have hnot {word : String} (h : ∀ n ∈ name, n ≠ word) :
      (name.toList.map Nest.atom ++ [.list (params.map (·.nest)), result]).head? ≠
        some (.atom word) := by
    cases name <;> simp_all
  have hextern := hnot fun n hn => (hname n hn).2
  have hexport := hnot fun n hn => (hname n hn).1
  have hne : "extern" ≠ "export" := by decide
  simp only [items, List.append_assoc, ofItems?, readFlag_flagItems isExtern hextern,
    readFlag_flagItems isExport (head?_flagItems hne isExtern hexport)]
  cases name <;> simp [hparams]

theorem ofItems?_declaration (name : String) {type init : Option Nest}
    (isExport isMutable isConst : Bool) (htype : ∀ n ∈ type, n.Proper) :
    ofItems? "var" (declaration name type init isExport isMutable isConst).items.2 =
      some (.declaration name type init isExport isMutable isConst) := by
  have hpresent := readPresent_getD fun n hn => (htype n hn).present
  have hnot (word : String) (hblank : "_" ≠ word) (hword : (ofNest? (.atom word)).isSome = false) :
      (type.getD (.atom "_") :: .atom name :: init.toList).head? ≠ some (.atom word) := by
    cases type with
    | none => simpa using hblank
    | some n => simpa using (htype n rfl).ne hword
  have hconst := hnot "const" (by decide) (by decide +kernel)
  have hmutable := head?_flagItems (by decide : "const" ≠ "mutable") isConst
    (hnot "mutable" (by decide) (by decide +kernel))
  have hexport := head?_flagItems (by decide : "mutable" ≠ "export") isMutable
    (head?_flagItems (by decide : "const" ≠ "export") isConst
      (hnot "export" (by decide) (by decide +kernel)))
  simp only [items, List.append_assoc, ofItems?, readFlag_flagItems isConst hconst,
    readFlag_flagItems isMutable hmutable, readFlag_flagItems isExport hexport]
  simp [hpresent]

theorem ofItems?_steppedLoop {label : Option String} {init condition step : Option Nest}
    {body : Nest} (hinit : ∀ n ∈ init, n.Proper) (hcondition : ∀ n ∈ condition, n.Proper)
    (hstep : ∀ n ∈ step, n.Proper) :
    ofItems? "for-c" (steppedLoop label init condition step body).items.2 =
      some (.steppedLoop label init condition step body) := by
  have hblank {o : Option Nest} (h : ∀ n ∈ o, n.Proper) :
      readPresent (o.getD (.atom "_")) = o := readPresent_getD fun n hn => (h n hn).present
  have hfirst : init.getD (.atom "_") ≠ .atom ":" := by
    cases init with
    | none => simp
    | some n => exact (hinit n rfl).ne_colon
  simp only [items, ofItems?]
  rw [readLabel_labelItems label (by simpa using hfirst)]
  simp only [hblank hinit, hblank hcondition, hblank hstep]

/-- A layer is read from the head and the items that it is written as. -/
theorem ofItems?_items {form : Form Nest} (hsymbol : form.symbol? = none)
    (hroot : ∀ ns, form ≠ .root ns) (hform : form.Holds) (hnames : ∀ a ∈ form.own, a.Readable)
    (hchildren : ∀ n ∈ form.children, n.Proper) :
    ofItems? form.items.1 form.items.2 = some (form.mapTokens fun _ => 0) := by
  have hname {name word : String} (hmem : .name name ∈ form.own)
      (hword : Symbol.ofLexeme? word ≠ some (.name word)) : name ≠ word :=
    (hnames _ hmem).name_ne hword
  cases form with
  | root ns => exact absurd rfl (hroot ns)
  | identifier | integer | float | rune | string | bool | nil | unreachable | builtin =>
    cases hsymbol
  | binary op lhs rhs => exact ofItems?_binary op lhs rhs
  | unary op operand => exact ofItems?_unary op operand
  | array kind size sentinel element =>
    exact readArray?_items hform fun n hn => (hchildren n (by simp_all [children])).present
  | prototype name params result isExport isExtern =>
    refine ofItems?_prototype params result isExport isExtern fun n hn => ?_
    have hmem : .name n ∈ (prototype name params result isExport isExtern).own := by
      simp_all [own]
    exact ⟨hname hmem (by decide +kernel), hname hmem (by decide +kernel)⟩
  | declaration name type init isExport isMutable isConst =>
    exact ofItems?_declaration name isExport isMutable isConst fun n hn =>
      hchildren n (by simp_all [children])
  | enumeration name isExport variants =>
    have hvariants := mapM_map fun v (_ : v ∈ variants) => v.ofNest?_nest
    have hexport : name ≠ "export" := hname (by simp [own]) (by decide +kernel)
    simp only [items, ofItems?]
    rw [readFlag_flagItems isExport (by simpa using hexport)]
    simp [hvariants]
  | record name isExport isUnion fields =>
    have hexport : name ≠ "export" := hname (by simp [own]) (by decide +kernel)
    have hflag : readFlag "export" (flagItems isExport "export" ++ .atom name :: fields) =
      (isExport, .atom name :: fields) := readFlag_flagItems isExport (by simpa using hexport)
    cases isUnion <;> simp [items, ofItems?, hflag]
  | selection subject branches =>
    have hbranches := mapM_map fun b (hb : b ∈ branches) => b.ofNest?_nest fun n hn =>
      hchildren n (List.mem_cons_of_mem _ (List.mem_flatMap.mpr ⟨b, hb, hn⟩))
    simp [items, ofItems?, hbranches]
  | loop label condition body =>
    have hread := readLabel_labelItems label (head?_ne_colon hchildren)
    simp only [children] at hread
    simp only [items, List.append_assoc, ofItems?, hread]
    cases condition <;> rfl
  | steppedLoop label init condition step body =>
    simp only [children, List.mem_append, Option.mem_toList, or_imp, forall_and] at hchildren
    exact ofItems?_steppedLoop hchildren.1.1.1 hchildren.1.1.2 hchildren.1.2
  | eachLoop label binding iterable body =>
    have hbinding : binding ≠ ":" := hname (by simp [own]) (by decide +kernel)
    simp only [items, ofItems?]
    rw [readLabel_labelItems label (by simpa using hbinding)]
    rfl
  | block label statements =>
    have hread := readLabel_labelItems label (head?_ne_colon hchildren)
    simp only [children] at hread
    simp [items, ofItems?, hread]
  | breaking label value =>
    have hread := readLabel_labelItems label (head?_ne_colon hchildren)
    simp only [children] at hread
    simp [items, ofItems?, hread]
  | continuing label => cases label <;> rfl
  | recovery lhs payload rhs => cases payload <;> simp [items, ofItems?]
  | _ => simp [items, ofItems?]

theorem own_of_symbol? {T : Type} {form : Form T} {a : Symbol} (h : form.symbol? = some a) :
    form.own = [a] := by
  cases form <;> simp_all [symbol?, own]

/-- A layer without subtrees is read from its symbol. -/
theorem leaf?_of_symbol? {T : Type} {form : Form T} {a : Symbol} (h : form.symbol? = some a)
    (f : Tree → T) : a.leaf?.map (·.map f) = some form := by
  cases form <;> simp only [symbol?, Option.some.injEq, reduceCtorEq] at h <;> subst h
  case integer text base => cases base <;> rfl
  case float text imaginary => cases imaginary <;> rfl
  case string text form => cases form <;> rfl
  case bool value => cases value <;> rfl
  all_goals rfl

section Layer

variable {form : Form Nest} (hroot : ∀ ns, form ≠ .root ns) (hform : form.Holds)
  (hnames : ∀ a ∈ form.own, a.Readable) (hchildren : ∀ n ∈ form.children, n.Proper)

include hroot hform hnames hchildren

/-- A layer is read, but for its anchors, from the nested list that it is written as. -/
theorem ofNest?_nest : ofNest? form.nest = some (form.mapTokens fun _ => 0) := by
  cases hsymbol : form.symbol? with
  | none =>
    have hitems := ofItems?_items hsymbol hroot hform hnames hchildren
    simpa [nest, hsymbol, ofNest?] using hitems
  | some a =>
    have ha : a.Readable := hnames a (by simp [own_of_symbol? hsymbol])
    have hleaf := leaf?_of_symbol? hsymbol fun _ => .list []
    have htokens : form.mapTokens (fun _ => 0) = form := by
      cases form <;> first | rfl | cases hsymbol
    rw [htokens, ← hleaf, nest, hsymbol, ofNest?, Symbol.ofLexeme?_lexeme ha, Option.bind_some]

theorem proper_nest (hblank : .name "_" ∉ form.own) : form.nest.Proper := by
  refine ⟨by rw [ofNest?_nest hroot hform hnames hchildren]; rfl, fun h => ?_⟩
  cases hsymbol : form.symbol? with
  | none => simp [nest, hsymbol] at h
  | some a =>
    have ha : a.Readable := hnames a (by simp [own_of_symbol? hsymbol])
    have hlexeme : String.ofList a.lexeme = "_" := by simpa [nest, hsymbol] using h
    have hread := Symbol.ofLexeme?_lexeme ha
    have hunderscore : Symbol.ofLexeme? "_" = some (.name "_") := by decide +kernel
    rw [hlexeme, hunderscore, Option.some.injEq] at hread
    rw [own_of_symbol? hsymbol, List.mem_singleton] at hblank
    exact hblank hread

end Layer

end Form

end FrontEnd
