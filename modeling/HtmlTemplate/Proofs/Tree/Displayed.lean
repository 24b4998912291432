import HtmlTemplate.Proofs.Alike.Trees
import HtmlTemplate.Proofs.Grammar.Compiled
import HtmlTemplate.Proofs.Text.Quoted
import HtmlTemplate.Proofs.Token.References
import HtmlTemplate.Tree.Display

/-!
# Trees are told apart by their texts

The text of a tree leaves out where its nodes come from, and nothing else: trees with the same text are alike
(`Node.display_eq_iff`). Texts of literals may be whatever they like, parentheses, commas and quotes among them. But
they are quoted, so they tell where they end, and so does every tree then, whatever stands behind its text
(`Node.display_append_inj`). By induction this goes from the children and the arguments to the whole tree.

Names are not quoted. They end in front of what can be no part of a name, so it takes names of which this can be said;
all names of compiled trees are such (`Node.IsCompiled.isNamed`).

## Contents

* `Node.names`, `Node.IsNamed` — the names in a tree;
* `Node.names_flatten`, `Node.IsCompiled.isNamed` — those in compiled trees;
* `name_append_inj`, `path_append_inj` — names and paths tell where they end;
* `forall₂_of_intercalate_append` — and so do lists of texts;
* `Node.Kind`, `Node.inside_append_inj` — how a tree begins tells what its root is;
* `Node.display_append_inj`, `Node.Alike.display_eq` — trees;
* `Node.display_eq_iff` — the main statement.
-/

namespace HtmlTemplate

/-! ## The names in a tree -/

namespace Node

mutual

/-- The names in the tree: those of calls and of their arguments, and the segments of paths. -/
def names : Node → List String
  | literal _ _ => []
  | deferred _ inner => inner.names
  | reference _ _ path => path
  | call _ _ name args => name :: namesArgs args
  | body _ children => namesAll children

/-- The names in some trees. -/
def namesAll : List Node → List String
  | [] => []
  | node :: nodes => node.names ++ namesAll nodes

/-- The names in some arguments. -/
def namesArgs : List (String × Node) → List String
  | [] => []
  | (name, node) :: args => name :: (node.names ++ namesArgs args)

end

theorem namesAll_eq_flatMap (nodes : List Node) : namesAll nodes = nodes.flatMap names := by
  induction nodes with
  | nil => rfl
  | cons node nodes ih => rw [namesAll, ih, List.flatMap_cons]

theorem namesArgs_eq_flatMap (args : List (String × Node)) :
    namesArgs args = args.flatMap fun arg => arg.1 :: arg.2.names := by
  induction args with
  | nil => rfl
  | cons arg args ih => rw [namesArgs, ih, List.flatMap_cons, List.cons_append]

/-- Each name in the tree is an identifier or a run of digits. -/
def IsNamed (tree : Node) : Prop := ∀ name ∈ tree.names, IsIdentifier name ∨ IsNumeral name

variable {location : Location} {name : String} {args : List (String × Node)}

theorem isNamed_literal (location : Location) (text : String) : (literal location text).IsNamed := by
  simp [IsNamed, names]

theorem isNamed_deferred {inner : Node} : (deferred location inner).IsNamed ↔ inner.IsNamed := by
  simp [IsNamed, names]

theorem isNamed_reference {mode : RefMode} {path : Path} :
    (reference location mode path).IsNamed ↔ ∀ segment ∈ path, IsIdentifier segment ∨ IsNumeral segment := by
  simp [IsNamed, names]

theorem isNamed_call {target : Binding} :
    (call location target name args).IsNamed ↔
      (IsIdentifier name ∨ IsNumeral name) ∧ ∀ arg ∈ args, (IsIdentifier arg.1 ∨ IsNumeral arg.1) ∧ arg.2.IsNamed := by
  unfold IsNamed
  rw [names, namesArgs_eq_flatMap, List.forall_mem_cons, List.forall_mem_flatMap]
  simp only [List.forall_mem_cons]

theorem isNamed_body {children : List Node} :
    (body location children).IsNamed ↔ ∀ child ∈ children, child.IsNamed := by
  unfold IsNamed
  rw [names, namesAll_eq_flatMap, List.forall_mem_flatMap]

/-! ## Compiled trees -/

theorem names_splice (node : Node) : node.splice.flatMap names = node.names := by
  cases node with
  | body location children => rw [splice, names, namesAll_eq_flatMap]
  | _ => exact List.flatMap_singleton _ _

/-- There are no names in literals. -/
theorem names_mergeLiterals (nodes : List Node) : (mergeLiterals nodes).flatMap names = nodes.flatMap names := by
  fun_induction mergeLiterals nodes with
  | case1 => rfl
  | case2 location text nodes place more rest hmerged ih =>
    rw [hmerged] at ih
    simpa [names] using ih
  | case3 location text nodes _ ih => rw [List.flatMap_cons, List.flatMap_cons, ih]
  | case4 node nodes _ ih => rw [List.flatMap_cons, List.flatMap_cons, ih]

/-- **Flattening keeps all names**, in their order. -/
theorem names_flatten (tree : Node) : tree.flatten.names = tree.names := by
  induction tree using inductionOn with
  | literal | reference => rw [flatten]
  | deferred location inner ih => rw [flatten, names, names, ih]
  | call location target name args ih =>
    rw [flatten, names, names, namesArgs_eq_flatMap, namesArgs_eq_flatMap, flattenArgs_eq_map, List.flatMap_map]
    congr 1
    apply List.flatMap_congr
    intro arg harg
    rw [ih arg harg]
  | body location children ih =>
    rw [flatten, names, names, namesAll_eq_flatMap, namesAll_eq_flatMap, names_mergeLiterals, flattenAll_eq_flatMap,
      List.flatMap_assoc]
    apply List.flatMap_congr
    intro child hchild
    rw [names_splice, ih child hchild]

/-- The names in a tree are those of the tokens that it is put together from. -/
theorem closed_isNamed (scope : CallScope) (code : String) (file : Nat) :
    Grammar.Closed scope (· ∈ (scan code file).tokens) fun _ tree => tree.IsNamed where
  literal _ _ text := isNamed_literal _ text
  emitted htoken _ _ hrefers _ _ :=
    isNamed_reference.mpr (isProper_of_mem_scan htoken _ hrefers.mem_paths).segments
  passed htoken _ _ hrefers := isNamed_reference.mpr (isProper_of_mem_scan htoken _ hrefers.mem_paths).segments
  deferred _ _ _ hinner := isNamed_deferred.mpr hinner
  call htoken _ _ hgiven hargs := by
    refine isNamed_call.mpr ⟨.inl (isIdentifier_of_mem_scan htoken rfl), fun arg harg => ⟨?_, hargs arg harg⟩⟩
    obtain ⟨place, hplace⟩ := hgiven arg harg
    exact .inl (isIdentifier_of_mem_scan hplace rfl)
  body _ _ _ hchildren := isNamed_body.mpr hchildren

/-- **The names of compiled trees** are identifiers and runs of digits. -/
theorem IsCompiled.isNamed {isInternal : String → Bool} {file : Nat} {tree : Node}
    (h : tree.IsCompiled isInternal file) : tree.IsNamed := by
  induction h with
  | @read code tokens scope definition htokens hscope h =>
    obtain ⟨d, hphrase, rfl⟩ := Definition.returned_iff.mp h
    exact (closed_isNamed scope code file).definition fun token htoken => htokens.subset (hphrase.subset htoken)
  | @flattened tree _ ih =>
    unfold IsNamed
    rw [names_flatten]
    exact ih

end Node

/-! ## Names and paths -/

/-- A name tells where it ends, if what stands behind it does not go on with it. -/
theorem name_append_inj {name name' : String} {xs ys : List Char} (hname : IsIdentifier name ∨ IsNumeral name)
    (hname' : IsIdentifier name' ∨ IsNumeral name') (hxs : ∀ c ∈ xs.head?, Lexeme.isNamePart c = false)
    (hys : ∀ c ∈ ys.head?, Lexeme.isNamePart c = false) (h : name.toList ++ xs = name'.toList ++ ys) :
    name = name' ∧ xs = ys := by
  -- The reader of names takes it off the front.
  have hread := Lexeme.pathSegment_append hname hxs
  rw [h, Lexeme.pathSegment_append hname' hys] at hread
  cases hread
  exact ⟨rfl, rfl⟩

/-- A path tells where it ends in front of a parenthesis, also one without segments. -/
theorem path_append_inj {path path' : Path} {xs ys : List Char}
    (hpath : ∀ segment ∈ path, IsIdentifier segment ∨ IsNumeral segment)
    (hpath' : ∀ segment ∈ path', IsIdentifier segment ∨ IsNumeral segment)
    (h : path.display.toList ++ ')' :: xs = path'.display.toList ++ ')' :: ys) : path = path' ∧ xs = ys := by
  have hread : ∀ (path : Path) (xs : List Char), (∀ segment ∈ path, IsIdentifier segment ∨ IsNumeral segment) →
      Lexeme.path (path.display.toList ++ ')' :: xs) =
        if path = [] then none else some ⟨path, path.display.toList, ')' :: xs⟩ := by
    intro path xs hpath
    by_cases hnil : path = []
    · rw [if_pos hnil, hnil, Path.display, String.intercalate_nil, Lexeme.path]
      rfl
    · rw [if_neg hnil]
      apply Lexeme.path_display ⟨hnil, hpath⟩
      rintro c hc
      cases hc
      decide
  have hboth := hread path xs hpath
  rw [h, hread path' ys hpath'] at hboth
  by_cases hnil : path = [] <;> by_cases hnil' : path' = [] <;> simp only [hnil, hnil', if_true, if_false] at hboth
  · rw [hnil, hnil'] at h ⊢
    exact ⟨rfl, (List.cons.inj h).2⟩
  · cases hboth
  · cases hboth
  · cases hboth
    exact ⟨rfl, rfl⟩

/-! ## Lists of texts -/

/-- All texts of a list but the first stand behind commas. -/
theorem toList_intercalate_cons (text : String) (texts : List String) :
    (", ".intercalate (text :: texts)).toList =
      text.toList ++ texts.flatMap fun text => ", ".toList ++ text.toList := by
  induction texts generalizing text with
  | nil => simp
  | cons next texts ih =>
    rw [String.intercalate_cons_cons, String.toList_append, String.toList_append, ih, List.flatMap_cons]
    simp only [List.append_assoc]

/-- **The texts of a list can be told apart**, up to the bracket that closes it, if each of them tells where it ends and
    none begins with this bracket. -/
theorem forall₂_of_intercalate_append {α : Type} {R : α → α → Prop} {text : α → String} {close : Char}
    {as bs : List α} {xs ys : List Char} (hclose : ',' ≠ close)
    (has : ∀ a ∈ as, ∀ us vs, (text a).toList ++ us ≠ close :: vs)
    (hbs : ∀ b ∈ bs, ∀ us vs, (text b).toList ++ us ≠ close :: vs)
    (htext : ∀ a ∈ as, ∀ b ∈ bs, ∀ us vs, (text a).toList ++ us = (text b).toList ++ vs → R a b ∧ us = vs)
    (h : (", ".intercalate (as.map text)).toList ++ close :: xs =
      (", ".intercalate (bs.map text)).toList ++ close :: ys) : List.Forall₂ R as bs ∧ xs = ys := by
  cases as with
  | nil =>
    cases bs with
    | nil => exact ⟨.nil, (List.cons.inj h).2⟩
    | cons b bs =>
      rw [List.map_cons, toList_intercalate_cons, List.append_assoc] at h
      exact absurd h.symm (hbs b List.mem_cons_self _ _)
  | cons a as =>
    rw [List.map_cons, toList_intercalate_cons, List.append_assoc] at h
    cases bs with
    | nil => exact absurd h (has a List.mem_cons_self _ _)
    | cons b bs =>
      rw [List.map_cons, toList_intercalate_cons, List.append_assoc] at h
      obtain ⟨hfirst, hmore⟩ := htext a List.mem_cons_self b List.mem_cons_self _ _ h
      rw [List.flatMap_map, List.flatMap_map] at hmore
      have hcomma : ∀ a us vs, (", ".toList ++ (text a).toList) ++ us ≠ close :: vs :=
        fun _ _ _ hcomma => hclose (List.cons.inj hcomma).1
      have hrest : ∀ a' ∈ as, ∀ b' ∈ bs, ∀ us vs, (", ".toList ++ (text a').toList) ++ us =
          (", ".toList ++ (text b').toList) ++ vs → R a' b' ∧ us = vs := by
        intro a' ha b' hb us vs htexts
        rw [List.append_assoc, List.append_assoc] at htexts
        exact htext a' (List.mem_cons_of_mem a ha) b' (List.mem_cons_of_mem b hb) us vs (List.append_cancel_left htexts)
      obtain ⟨hall, hxs⟩ := forall₂_of_flatMap_append hcomma hrest hmore
      exact ⟨.cons hfirst hall, hxs⟩

/-! ## Kinds of nodes -/

namespace Node

/-- What a node is, apart from what it is made of. -/
inductive Kind where
  | literal
  | deferred
  | reference (mode : RefMode)
  | call (target : Binding)
  | body

/-- The kind of the root. -/
def kind : Node → Kind
  | literal _ _ => .literal
  | deferred _ _ => .deferred
  | reference _ mode _ => .reference mode
  | call _ target _ _ => .call target
  | body _ _ => .body

/-- How a tree of this kind begins. -/
def Kind.opening : Kind → String
  | literal => "Literal("
  | deferred => "ParamBody("
  | reference mode => mode.word ++ "("
  | call target => target.word ++ "("
  | body => "Body["

/-- What stands behind the opening, the closing bracket included. -/
def inside : Node → List Char
  | literal _ text => (quoted text).toList ++ [')']
  | deferred _ inner => inner.display.toList ++ [')']
  | reference _ _ path => path.display.toList ++ [')']
  | call _ _ name args => name.toList ++ (": ".toList ++ ((", ".intercalate (displayArgs args)).toList ++ [')']))
  | body _ children => (", ".intercalate (displayAll children)).toList ++ [']']

theorem toList_display (node : Node) : node.display.toList = node.kind.opening.toList ++ node.inside := by
  cases node <;> simp [display, kind, Kind.opening, inside]

/-- No kind begins as another one does. -/
theorem Kind.opening_append_inj {kind kind' : Kind} {us vs : List Char}
    (h : kind.opening.toList ++ us = kind'.opening.toList ++ vs) : kind = kind' ∧ us = vs := by
  rcases kind with _ | _ | ⟨_ | _ | _⟩ | ⟨_ | _⟩ | _ <;> rcases kind' with _ | _ | ⟨_ | _ | _⟩ | ⟨_ | _⟩ | _ <;>
    simp_all [opening, RefMode.word, Binding.word]

/-- Trees with the same text are of the same kind, and the same is inside. -/
theorem inside_append_inj {a b : Node} {xs ys : List Char} (h : a.display.toList ++ xs = b.display.toList ++ ys) :
    a.kind = b.kind ∧ a.inside ++ xs = b.inside ++ ys := by
  rw [toList_display, toList_display, List.append_assoc, List.append_assoc] at h
  exact Kind.opening_append_inj h

/-- No tree begins with the bracket that closes a body. -/
theorem display_append_ne (node : Node) (us vs : List Char) : node.display.toList ++ us ≠ ']' :: vs := by
  rw [toList_display]
  rcases node.kind with _ | _ | ⟨_ | _ | _⟩ | ⟨_ | _⟩ | _ <;> simp [Kind.opening, RefMode.word, Binding.word]

/-! ## Trees -/

theorem displayAll_eq_map (nodes : List Node) : displayAll nodes = nodes.map display := by
  induction nodes with
  | nil => rfl
  | cons node nodes ih => rw [displayAll, ih, List.map_cons]

theorem displayArgs_eq_map (args : List (String × Node)) :
    displayArgs args = args.map fun arg => arg.1 ++ "=" ++ arg.2.display := by
  induction args with
  | nil => rfl
  | cons arg args ih => rw [displayArgs, ih, List.map_cons]

/-- Arguments begin with their names, and so not with the parenthesis that closes a call. -/
theorem displayArg_append_ne {arg : String × Node} (h : IsIdentifier arg.1 ∨ IsNumeral arg.1) (us vs : List Char) :
    (arg.1 ++ "=" ++ arg.2.display).toList ++ us ≠ ')' :: vs := by
  intro hclose
  rw [String.toList_append, String.toList_append] at hclose
  cases hname : arg.1.toList with
  | nil =>
    rw [hname] at hclose
    cases (List.cons.inj hclose).1
  | cons c cs =>
    have hc : Lexeme.isNamePart c = true :=
      Lexeme.isNamePart_of_mem_segment h c (by rw [hname]; exact List.mem_cons_self)
    rw [hname] at hclose
    rw [(List.cons.inj hclose).1] at hc
    cases hc

/-- An argument tells where it ends if its value does. -/
theorem displayArg_append_inj {arg arg' : String × Node} (hname : IsIdentifier arg.1 ∨ IsNumeral arg.1)
    (hname' : IsIdentifier arg'.1 ∨ IsNumeral arg'.1)
    (hvalue : ∀ us vs, arg.2.display.toList ++ us = arg'.2.display.toList ++ vs →
      arg.2.Alike (fun _ _ => True) (fun _ => Eq) arg'.2 ∧ us = vs) {us vs : List Char}
    (h : (arg.1 ++ "=" ++ arg.2.display).toList ++ us = (arg'.1 ++ "=" ++ arg'.2.display).toList ++ vs) :
    ArgAlike (fun _ _ => True) (fun _ => Eq) arg arg' ∧ us = vs := by
  obtain ⟨name, value⟩ := arg
  obtain ⟨name', value'⟩ := arg'
  have hequal : ∀ rest, ∀ c ∈ ("=".toList ++ rest).head?, Lexeme.isNamePart c = false :=
    fun rest => Lexeme.stops_cons (by decide)
  simp only [String.toList_append, List.append_assoc] at h
  obtain ⟨rfl, hvalues⟩ := name_append_inj hname hname' (hequal _) (hequal _) h
  obtain ⟨halike, hrest⟩ := hvalue us vs (List.append_cancel_left hvalues)
  exact ⟨.arg name halike, hrest⟩

/-- Children can be told apart up to the bracket of their body. -/
theorem displayAll_append_inj {nodes nodes' : List Node} {xs ys : List Char}
    (hnodes : ∀ node ∈ nodes, ∀ node' ∈ nodes', ∀ us vs, node.display.toList ++ us = node'.display.toList ++ vs →
      node.Alike (fun _ _ => True) (fun _ => Eq) node' ∧ us = vs)
    (h : (", ".intercalate (displayAll nodes)).toList ++ ']' :: xs =
      (", ".intercalate (displayAll nodes')).toList ++ ']' :: ys) :
    List.Forall₂ (Alike (fun _ _ => True) fun _ => Eq) nodes nodes' ∧ xs = ys := by
  rw [displayAll_eq_map, displayAll_eq_map] at h
  exact forall₂_of_intercalate_append (by decide) (fun node _ => node.display_append_ne)
    (fun node _ => node.display_append_ne) hnodes h

/-- Arguments can be told apart up to the parenthesis of their call. -/
theorem displayArgs_append_inj {args args' : List (String × Node)} {xs ys : List Char}
    (hnames : ∀ arg ∈ args, IsIdentifier arg.1 ∨ IsNumeral arg.1)
    (hnames' : ∀ arg ∈ args', IsIdentifier arg.1 ∨ IsNumeral arg.1)
    (hvalues : ∀ arg ∈ args, ∀ arg' ∈ args', ∀ us vs, arg.2.display.toList ++ us = arg'.2.display.toList ++ vs →
      arg.2.Alike (fun _ _ => True) (fun _ => Eq) arg'.2 ∧ us = vs)
    (h : (", ".intercalate (displayArgs args)).toList ++ ')' :: xs =
      (", ".intercalate (displayArgs args')).toList ++ ')' :: ys) :
    List.Forall₂ (ArgAlike (fun _ _ => True) fun _ => Eq) args args' ∧ xs = ys := by
  rw [displayArgs_eq_map, displayArgs_eq_map] at h
  refine forall₂_of_intercalate_append (by decide) (fun arg harg => displayArg_append_ne (hnames arg harg))
    (fun arg harg => displayArg_append_ne (hnames' arg harg)) ?_ h
  intro arg harg arg' harg' us vs
  exact displayArg_append_inj (hnames arg harg) (hnames' arg' harg') (hvalues arg harg arg' harg')

/-- **Trees tell where they end**, whatever stands behind them, and what they are but for their places. -/
theorem display_append_inj {a b : Node} (ha : a.IsNamed) (hb : b.IsNamed) {xs ys : List Char}
    (h : a.display.toList ++ xs = b.display.toList ++ ys) :
    a.Alike (fun _ _ => True) (fun _ => Eq) b ∧ xs = ys := by
  induction a using inductionOn generalizing b xs ys with
  | literal location text =>
    obtain ⟨hkind, hinside⟩ := inside_append_inj h
    cases b with
    | literal location' text' =>
      simp only [inside, List.append_assoc] at hinside
      obtain ⟨rfl, hrest⟩ := quoted_append_inj hinside
      exact ⟨.literal trivial text, (List.cons.inj hrest).2⟩
    | _ => cases hkind
  | deferred location inner ih =>
    obtain ⟨hkind, hinside⟩ := inside_append_inj h
    cases b with
    | deferred location' inner' =>
      simp only [inside, List.append_assoc] at hinside
      obtain ⟨hinner, hrest⟩ := ih (isNamed_deferred.mp ha) (isNamed_deferred.mp hb) hinside
      exact ⟨.deferred trivial hinner, (List.cons.inj hrest).2⟩
    | _ => cases hkind
  | reference location mode path =>
    obtain ⟨hkind, hinside⟩ := inside_append_inj h
    cases b with
    | reference location' mode' path' =>
      cases hkind
      simp only [inside, List.append_assoc] at hinside
      obtain ⟨rfl, hrest⟩ := path_append_inj (isNamed_reference.mp ha) (isNamed_reference.mp hb) hinside
      exact ⟨.reference trivial mode path, hrest⟩
    | _ => cases hkind
  | call location target name args ih =>
    obtain ⟨hkind, hinside⟩ := inside_append_inj h
    cases b with
    | call location' target' name' args' =>
      cases hkind
      obtain ⟨hname, hargs⟩ := isNamed_call.mp ha
      obtain ⟨hname', hargs'⟩ := isNamed_call.mp hb
      have hcolon : ∀ rest, ∀ c ∈ (": ".toList ++ rest).head?, Lexeme.isNamePart c = false :=
        fun rest => Lexeme.stops_cons (by decide)
      simp only [inside, List.append_assoc] at hinside
      obtain ⟨rfl, hlist⟩ := name_append_inj hname hname' (hcolon _) (hcolon _) hinside
      obtain ⟨hall, hrest⟩ := displayArgs_append_inj (fun arg harg => (hargs arg harg).1)
        (fun arg harg => (hargs' arg harg).1)
        (fun arg harg arg' harg' _ _ => ih arg harg (hargs arg harg).2 (hargs' arg' harg').2)
        (List.append_cancel_left hlist)
      exact ⟨.call trivial name rfl hall, hrest⟩
    | _ => cases hkind
  | body location children ih =>
    obtain ⟨hkind, hinside⟩ := inside_append_inj h
    cases b with
    | body location' children' =>
      have hchildren := isNamed_body.mp ha
      have hchildren' := isNamed_body.mp hb
      simp only [inside, List.append_assoc] at hinside
      obtain ⟨hall, hrest⟩ := displayAll_append_inj
        (fun child hmem child' hmem' _ _ => ih child hmem (hchildren child hmem) (hchildren' child' hmem')) hinside
      exact ⟨.body trivial hall, hrest⟩
    | _ => cases hkind

mutual

/-- Trees that are alike but for their places have the same text. -/
theorem Alike.display_eq {place : Location → Location → Prop} :
    ∀ {a b : Node}, a.Alike place (fun _ => Eq) b → a.display = b.display
  | _, _, .literal _ _ => rfl
  | _, _, .deferred _ hinner => by rw [display, display, Alike.display_eq hinner]
  | _, _, .reference _ _ _ => rfl
  | _, _, .call _ _ hbinding hargs => by rw [display, display, hbinding, Alike.displayArgs_eq hargs]
  | _, _, .body _ hchildren => by rw [display, display, Alike.displayAll_eq hchildren]

theorem Alike.displayAll_eq {place : Location → Location → Prop} :
    ∀ {as bs : List Node}, List.Forall₂ (Alike place fun _ => Eq) as bs → displayAll as = displayAll bs
  | _, _, .nil => rfl
  | _, _, .cons hnode hnodes => by rw [displayAll, displayAll, Alike.display_eq hnode, Alike.displayAll_eq hnodes]

theorem Alike.displayArgs_eq {place : Location → Location → Prop} :
    ∀ {as bs : List (String × Node)}, List.Forall₂ (ArgAlike place fun _ => Eq) as bs → displayArgs as = displayArgs bs
  | _, _, .nil => rfl
  | _, _, .cons (.arg _ hvalue) hargs => by
    rw [displayArgs, displayArgs, Alike.display_eq hvalue, Alike.displayArgs_eq hargs]

end

/-- **A tree can be told from its text**, but for where its nodes come from, if its names are identifiers and runs of
    digits. Its literals may be whatever they like. The names of compiled trees are such. -/
theorem display_eq_iff :
    (∀ a b : Node, a.IsNamed → b.IsNamed →
      (a.display = b.display ↔ a.Alike (fun _ _ => True) (fun _ => Eq) b)) ∧
    ∀ (isInternal : String → Bool) (file : Nat) (tree : Node), tree.IsCompiled isInternal file → tree.IsNamed := by
  refine ⟨fun a b ha hb => ⟨fun h => ?_, Alike.display_eq⟩, fun _ _ _ => IsCompiled.isNamed⟩
  have htexts : a.display.toList ++ [] = b.display.toList ++ [] := by rw [h]
  exact (display_append_inj ha hb htexts).1

/-- A literal that looks like the end of one literal and the beginning of another one, read from two sources. It is not
    taken for two literals. -/
theorem display_eq_iff_lookalike :
    let code := "def a\x7b~\"), Literal(\"~c(v:@x.0)\x7d"
    let code' := "DEF b \x7b ~\"), Literal(\"~\nc(v: @(x.0)) \x7d"
    let place (file line first behind : Nat) : Location := ⟨file, ⟨⟨line, first⟩, ⟨line, behind⟩⟩⟩
    let scope (file : Nat) : CallScope := ⟨file, fun _ => false⟩
    let called (file line name first behind : Nat) : Node := call (place file line name (name + 1)) .external "c"
      [("v", reference (place file line first behind) .passed ["x", "0"])]
    let tree := body (place 0 1 6 7) [literal (place 0 1 8 21) "\"), Literal(\"", called 0 1 22 26 30]
    let tree' := body (place 1 1 7 8) [literal (place 1 1 10 23) "\"), Literal(\"", called 1 2 1 6 12]
    let other := body (place 0 1 6 7) [literal (place 0 1 8 21) "", literal (place 0 1 8 21) "", called 0 1 22 26 30]
    definitions (scope 0) (scan code 0).tokens = .ok [⟨"a", place 0 1 1 4, tree⟩] ∧
      definitions (scope 1) (scan code' 1).tokens = .ok [⟨"b", place 1 1 1 4, tree'⟩] ∧
      tree.display = "Body[Literal(\"\\\"), Literal(\\\"\"), ExtCall(c: v=ParamRef(x.0))]" ∧
      tree.Alike (fun _ _ => True) (fun _ => Eq) tree' ∧ ¬ tree.Alike (fun _ _ => True) (fun _ => Eq) other := by
  intro code code' place scope called tree tree' other
  have hread : definitions (scope 0) (scan code 0).tokens = .ok [⟨"a", place 0 1 1 4, tree⟩] := by decide +kernel
  have hread' : definitions (scope 1) (scan code' 1).tokens = .ok [⟨"b", place 1 1 1 4, tree'⟩] := by decide +kernel
  have hnamed : tree.IsNamed :=
    display_eq_iff.2 _ 0 _ (.read List.prefix_rfl rfl (.all hread List.mem_cons_self))
  have hnamed' : tree'.IsNamed :=
    display_eq_iff.2 _ 1 _ (.read List.prefix_rfl rfl (.all hread' List.mem_cons_self))
  have hother : other.IsNamed := by
    have hcalled : (called 0 1 22 26 30).IsNamed := isNamed_body.mp hnamed _ (by simp)
    refine isNamed_body.mpr ?_
    simp [hcalled, isNamed_literal]
  refine ⟨hread, hread', by decide +kernel, (display_eq_iff.1 tree tree' hnamed hnamed').mp (by decide +kernel), ?_⟩
  rw [← display_eq_iff.1 tree other hnamed hother]
  decide +kernel

end Node

end HtmlTemplate
