import HtmlTemplate.Proofs.Session.Joined
import HtmlTemplate.Proofs.Session.LastWrite
import HtmlTemplate.Proofs.Token.Quoting

/-!
# Text that comes through unchanged

Quoting and reading undo each other, and what is quoted is rendered: a template that holds nothing but a literal with
one text writes this text and nothing else (`Engine.render_isText`). A text can thus be put into a source and is got out
of it again, whatever characters it consists of (`Engine.compile_textSource`).

## Contents

* `Grammar.Block.IsText` — blocks that hold one text;
* `Engine.render_isText` — templates with such a block, in any source;
* `textSource`, `Engine.compile_textSource` — a source made for a text;
* `quoting_roundTrip` — the main statement.
-/

namespace HtmlTemplate

open Grammar

variable {σ : Type}

/-- The block holds a literal with one text, and nothing else but comments. -/
def Grammar.Block.IsText (text : String) : Block → Prop
  | .mk _ items _ => ∃ (before after : List Comment) (place : Location) (range : Range),
    items = before.map Item.comment ++ .literal place [(.text text, range)] :: after.map Item.comment

/-- A source that defines a template with this name and this text. -/
def textSource (name text : String) : String :=
  "def " ++ name ++ " \x7b " ++ String.ofList (printLiteral [.text text]) ++ " \x7d"

/-! ## Trees -/

namespace Grammar

variable {scope : CallScope}

theorem Item.allNodes_comments (comments : List Comment) (items : List Item) :
    Item.allNodes scope (comments.map Item.comment ++ items) = Item.allNodes scope items := by
  induction comments with
  | nil => rfl
  | cons comment comments ih => exact ih

/-- The comments of a block leave no trace. -/
theorem Block.IsText.node_eq {text : String} {block : Block} (h : block.IsText text) (scope : CallScope) :
    ∃ place place', block.node scope = .body place [.literal place' text] := by
  obtain ⟨lbrace, items, rbrace⟩ := block
  obtain ⟨before, after, place, range, rfl⟩ := h
  refine ⟨lbrace, ⟨place.file, range⟩, ?_⟩
  have hafter : Item.allNodes scope (after.map Item.comment ++ []) = [] := Item.allNodes_comments after []
  rw [List.append_nil] at hafter
  rw [Block.node, Item.allNodes_comments, Item.allNodes, hafter]
  rfl

end Grammar

namespace Engine

/-! ## Rendering a text -/

/-- A text is rendered to itself, whether its tree was flattened or not. -/
theorem render_text {engine : Engine σ} {name text : String} {place place' : Location} {optimize : Bool}
    (h : engine.registry.external? name = some (.compiled (if optimize then
      (Node.body place [.literal place' text]).flatten else .body place [.literal place' text])))
    (depth : Nat) (params : Value) (host : σ) : engine.render depth name params host = (.ok text, host) := by
  have hflatten : (Node.body place [.literal place' text]).flatten = .body place [.literal place' text] := rfl
  rw [hflatten, ite_self] at h
  have hwritten : engine.stage.render depth name params ⟨"", host⟩ = (.ok (), ⟨text, host⟩) := by
    have hempty : "" ++ text = text := String.empty_append
    unfold Stage.render
    simp only [stage, h]
    cases depth <;> exact Prod.ext rfl (congrArg (Output.mk · host) hempty)
  unfold render renderInto
  rw [hwritten]
  rfl

/-- The last completed definition of a name is what the name stands for behind the compile. -/
theorem external?_compile {engine : Engine σ} {code fileName : String} {before after : List Definition}
    {definition : Definition} (h : engine.completed code fileName = before ++ definition :: after)
    (hlast : ∀ later ∈ after, later.name ≠ definition.name) :
    (engine.compile code fileName).1.registry.external? definition.name =
      some (.compiled (engine.stored definition.body)) := by
  let write : Definition → Write σ := fun later => .define later.name (engine.stored later.body)
  have hafter : ∀ later ∈ after.map write, later.template? definition.name = none := by
    intro later hlater
    obtain ⟨other, hother, rfl⟩ := List.mem_map.mp hlater
    exact Write.template?_eq_none.mpr (hlast other hother)
  have hfound : ((before ++ definition :: after).map write).reverse.findSome? (Write.template? definition.name) =
      some (.compiled (engine.stored definition.body)) :=
    (findSome?_reverse_eq_some fun _ => Write.template?_eq_compiled).mpr
      ⟨before.map write, after.map write, List.map_append, hafter⟩
  rw [compile_fst, defineEach_registry, Registry.external?_foldl_write, h]
  exact congrArg (Option.or · _) hfound

/-- **A template that holds one text is rendered to it.** -/
theorem render_isText {engine : Engine σ} {code fileName text : String} {before after : List Definition} {d : Def}
    {scope : CallScope} (h : engine.completed code fileName = before ++ d.definition scope :: after)
    (hlast : ∀ later ∈ after, later.name ≠ d.name) (htext : d.block.IsText text) (depth : Nat) (params : Value)
    (host : σ) : (engine.compile code fileName).1.render depth d.name params host = (.ok text, host) := by
  obtain ⟨place, place', hnode⟩ := htext.node_eq scope
  have hexternal := external?_compile h hlast
  have hbody : (d.definition scope).body = .body place [.literal place' text] := hnode
  rw [hbody] at hexternal
  exact render_text hexternal depth params host

/-! ## A source for a text -/

theorem isBlank_of_isNameStart {c : Char} (h : Lexeme.isNameStart c = true) : Lexeme.isBlank c = false := by
  by_contra hblank
  rw [Bool.not_eq_false] at hblank
  simp only [Lexeme.isBlank, Bool.or_eq_true, decide_eq_true_eq] at hblank
  rcases hblank with ((rfl | rfl) | rfl) | rfl <;> exact absurd h (by decide)

theorem lexemes_before_blank {c : Char} {cs rest : List Char} {kind : TokenKind (List Char)}
    (h : Lexeme.lexeme c (cs ++ ' ' :: rest) = .ok ⟨kind, c :: cs, ' ' :: rest⟩)
    (hrest : ∀ d ∈ rest.head?, Lexeme.isBlank d = false) :
    lexemes (c :: cs ++ ' ' :: rest) = (⟨kind, c :: cs, [' ']⟩ :: (lexemes rest).1, (lexemes rest).2) := by
  have hblank : ∀ d ∈ [' '], Lexeme.isBlank d = true := List.forall_mem_singleton.mpr rfl
  have htake := Lexeme.takeWhile_append_of_stop hblank hrest
  have hdrop := Lexeme.dropWhile_append_of_stop hblank hrest
  rw [List.singleton_append] at htake hdrop
  rw [List.cons_append, lexemes_cons h]
  dsimp only
  rw [htake, hdrop]

theorem lexeme_identifier {name : String} (h : IsIdentifier name) {c : Char} {cs : List Char}
    (hname : name.toList = c :: cs) {rest : List Char} (hrest : ∀ d ∈ rest.head?, Lexeme.isNamePart d = false) :
    Lexeme.lexeme c (cs ++ rest) = .ok ⟨.ident name, c :: cs, rest⟩ := by
  obtain ⟨first, more, hfirst, hstart, hparts⟩ := h
  obtain ⟨rfl, rfl⟩ := List.cons.inj (hname.symm.trans hfirst)
  have hall : ∀ d ∈ cs, Lexeme.isNamePart d = true := List.all_eq_true.mp hparts
  rw [Lexeme.lexeme_name hstart, Lexeme.takeWhile_append_of_stop hall hrest, Lexeme.dropWhile_append_of_stop hall hrest,
    ← hname, String.ofList_toList]

/-- The lexemes of the source that is made for a text. -/
theorem lexemes_textSource {name text : String} (hname : IsIdentifier name) (htext : text ≠ "") :
    lexemes (textSource name text).toList =
      ([⟨.ident "def", ['d', 'e', 'f'], [' ']⟩, ⟨.ident name, name.toList, [' ']⟩, ⟨.lbrace, ['{'], [' ']⟩,
        ⟨.literal [(.text text, (Segment.text text).printed)], printLiteral [.text text], [' ']⟩,
        ⟨.rbrace, ['}'], []⟩], none) := by
  have hliteral : IsLiteral [.text text] := by
    refine ⟨?_, .singleton _, nofun⟩
    intro content hmem
    cases List.mem_singleton.mp hmem
    exact htext
  have hstop : ∀ rest : List Char, ∀ d ∈ (' ' :: rest).head?, Lexeme.isNamePart d = false := by
    rintro rest d hd
    cases hd
    rfl
  have hdef : IsIdentifier "def" := ⟨'d', ['e', 'f'], rfl, rfl, rfl⟩
  have hdefChars : "def".toList = 'd' :: ['e', 'f'] := rfl
  obtain ⟨c, cs, hchars, hstart, -⟩ := id hname
  have hcode : (textSource name text).toList = 'd' :: ['e', 'f'] ++ ' ' :: (c :: cs ++ ' ' :: ('{' :: [] ++
      ' ' :: ('~' :: ([Segment.text text].flatMap Segment.printed ++ ['~']) ++ ' ' :: ['}']))) := by
    simp [textSource, printLiteral, hchars]
  have hend : lexemes ['}'] = ([⟨.rbrace, ['}'], []⟩], none) := by
    rw [lexemes_cons (Lexeme.lexeme_punctuation rfl), List.dropWhile_nil, lexemes]
    rfl
  rw [hcode, lexemes_before_blank (lexeme_identifier hdef hdefChars (hstop _)),
    lexemes_before_blank (lexeme_identifier hname hchars (hstop _)),
    lexemes_before_blank (Lexeme.lexeme_punctuation rfl),
    lexemes_before_blank (Lexeme.lexeme_printLiteral hliteral _), hend, hchars]
  · rfl
  · exact Lexeme.stops_cons rfl
  · exact Lexeme.stops_cons rfl
  · exact Lexeme.stops_cons rfl
  · exact Lexeme.stops_cons (isBlank_of_isNameStart hstart)

theorem scan_of_lexemes {code : String} (hblank : ∀ c ∈ code.toList.head?, Lexeme.isBlank c = false)
    {found : List Lexeme} (h : lexemes code.toList = (found, none)) (file : Nat) :
    scan code file = ⟨Lexeme.tokens file .first found ++
      [⟨.eof, ⟨Lexeme.behind .first found, Lexeme.behind .first found⟩, file⟩], none⟩ := by
  have htake := Lexeme.takeWhile_append_of_stop (List.forall_mem_nil (Lexeme.isBlank · = true)) hblank
  have hdrop := Lexeme.dropWhile_append_of_stop (List.forall_mem_nil (Lexeme.isBlank · = true)) hblank
  rw [List.nil_append] at htake hdrop
  unfold scan
  rw [htake, hdrop, h]
  rfl

/-- The tokens of the source that is made for a text. -/
theorem scan_textSource {name text : String} (hname : IsIdentifier name) (htext : text ≠ "") (file : Nat) :
    ∃ (d : Def) (eof : Location), d.name = name ∧ d.block.IsText text ∧
      scan (textSource name text) file = ⟨d.tokens ++ [eof.token .eof], none⟩ := by
  have hblank : ∀ c ∈ (textSource name text).toList.head?, Lexeme.isBlank c = false := by
    have hhead : (textSource name text).toList.head? = some 'd' := by simp [textSource]
    rintro c hc
    rw [hhead] at hc
    cases hc
    rfl
  exact ⟨⟨⟨file, ⟨_, _⟩⟩, "def", by decide +kernel, ⟨file, ⟨_, _⟩⟩, name,
    .mk ⟨file, ⟨_, _⟩⟩ [.literal ⟨file, ⟨_, _⟩⟩ [(.text text, _)]] ⟨file, ⟨_, _⟩⟩⟩, ⟨file, ⟨_, _⟩⟩, rfl,
    ⟨[], [], _, _, rfl⟩, scan_of_lexemes hblank (lexemes_textSource hname htext) file⟩

/-- **A text that is put into a source is got out of it again.** -/
theorem compile_textSource (engine : Engine σ) {name text : String} (hname : IsIdentifier name) (htext : text ≠ "")
    (fileName : String) :
    (engine.compile (textSource name text) fileName).2 = .ok () ∧
      ∀ (depth : Nat) (params : Value) (host : σ),
        (engine.compile (textSource name text) fileName).1.render depth name params host = (.ok text, host) := by
  obtain ⟨d, eof, rfl, hblock, hscan⟩ := scan_textSource hname htext engine.sources.size
  have hnext : Definition.nextDefinition ⟨engine.sources.size, engine.registry.isInternal⟩
      (d.tokens ++ [eof.token .eof]) =
        .ok (some (d.definition ⟨engine.sources.size, engine.registry.isInternal⟩)) [eof.token .eof] :=
    Definition.nextDefinition_eq_some.mpr ⟨[], d, rfl, rfl⟩
  have hlength : (d.tokens ++ [eof.token .eof]).length = d.tokens.length + 1 := List.length_append
  have hdone : defineAll engine.sources.size (d.tokens ++ [eof.token .eof]).length engine
      (d.tokens ++ [eof.token .eof]) =
        (engine.define d.name (d.block.node ⟨engine.sources.size, engine.registry.isInternal⟩), none) := by
    rw [hlength, defineAll, hnext]
    exact defineAll_eof _ _ eof (List.length_pos_iff.mpr d.tokens_ne_nil)
  obtain ⟨place, place', hnode⟩ := hblock.node_eq ⟨engine.sources.size, engine.registry.isInternal⟩
  rw [compile_eq engine _ fileName hscan hdone, hnode]
  have hexternal := Registry.external?_define engine.registry d.name d.name
    (if engine.optimize then (Node.body place [.literal place' text]).flatten else .body place [.literal place' text])
  rw [if_pos rfl] at hexternal
  exact ⟨rfl, render_text hexternal⟩

end Engine

/-! ## The main statement -/

/-- **Quoting and reading undo each other.** Literals and quotes that are written out are read again, whatever follows
    them, and all literals and quotes of any source are such that this can be said of them. A template that holds
    nothing but a literal with one text is rendered to exactly this text, in whatever source it is the last one of its
    name, and there is such a source for each text and each name. -/
theorem quoting_roundTrip :
    (∀ segments, IsLiteral segments →
      ReadsAs (printLiteral segments) (.literal (segments.map fun segment => (segment, ())))) ∧
    (∀ text, ReadsAs (printQuote text) (.quote text)) ∧
    (∀ (code : String) (file : Nat), ∀ token ∈ (scan code file).tokens,
      (∀ segments, token.kind = .literal segments → IsLiteral (segments.map Prod.fst) ∧
        ReadsAs (printLiteral (segments.map Prod.fst)) (token.kind.map fun _ => ())) ∧
      ∀ text, token.kind = .quote text → ReadsAs (printQuote text) (token.kind.map fun _ => ())) ∧
    (∀ (engine : Engine σ) (code fileName : String) (before after : List Definition) (d : Def) (scope : CallScope),
      engine.completed code fileName = before ++ d.definition scope :: after → (∀ later ∈ after, later.name ≠ d.name) →
      ∀ text, d.block.IsText text → ∀ (depth : Nat) (params : Value) (host : σ),
        (engine.compile code fileName).1.render depth d.name params host = (.ok text, host)) ∧
    ∀ (engine : Engine σ) (name text fileName : String), IsIdentifier name → text ≠ "" →
      (engine.compile (textSource name text) fileName).2 = .ok () ∧
        ∀ (depth : Nat) (params : Value) (host : σ),
          (engine.compile (textSource name text) fileName).1.render depth name params host = (.ok text, host) := by
  refine ⟨fun _ => readsAs_printLiteral, readsAs_printQuote, ?_, ?_, ?_⟩
  · intro code file token htoken
    constructor
    · intro segments hkind
      have hliteral := isLiteral_of_mem_scan htoken hkind
      have hreads := readsAs_printLiteral hliteral
      rw [List.map_map] at hreads
      rw [hkind]
      exact ⟨hliteral, hreads⟩
    · intro text hkind
      rw [hkind]
      exact readsAs_printQuote text
  · intro engine code fileName before after d scope hcompleted hlast text htext
    exact Engine.render_isText hcompleted hlast htext
  · intro engine name text fileName hname htext
    exact engine.compile_textSource hname htext fileName

/-- A text that consists of delimiters and backslashes, in front of a reference and in a source of its own. -/
theorem quoting_roundTrip_delimiters :
    printLiteral [.text "~@\\", .reference ⟨["a", "b"], true⟩] = "~\\~\\@\\\\@~(a.b)~".toList ∧
    ReadsAs "~\\~\\@\\\\@~(a.b)~".toList (.literal [(.text "~@\\", ()), (.reference ⟨["a", "b"], true⟩, ())]) ∧
    textSource "t" "~\n" = "def t \x7b ~\\~\n~ \x7d" ∧
    ((Engine.new true : Engine Unit).compile (textSource "t" "~\n") "t.tl").2 = .ok () ∧
    ((Engine.new true : Engine Unit).compile (textSource "t" "~\n") "t.tl").1.render 0 "t" (.map []) () =
      (.ok "~\n", ()) := by
  have hprinted : printLiteral [.text "~@\\", .reference ⟨["a", "b"], true⟩] = "~\\~\\@\\\\@~(a.b)~".toList := by
    decide +kernel
  have hpath : Path.IsProper ["a", "b"] :=
    ⟨List.cons_ne_nil _ _, by simpa using ⟨.inl ⟨'a', [], rfl, rfl, rfl⟩, .inl ⟨'b', [], rfl, rfl, rfl⟩⟩⟩
  have hliteral : IsLiteral [.text "~@\\", .reference ⟨["a", "b"], true⟩] :=
    ⟨by simp, by simp [Segment.isText], by simpa using hpath⟩
  obtain ⟨hreads, -, -, -, hsource⟩ := @quoting_roundTrip Unit
  have htext := hsource (Engine.new true) "t" "~\n" "t.tl" ⟨'t', [], rfl, rfl, rfl⟩ (by decide)
  exact ⟨hprinted, hprinted ▸ hreads _ hliteral, by decide +kernel, htext.1, htext.2 0 (.map []) ()⟩

end HtmlTemplate
