import Mathlib.Data.List.Induction
import Mathlib.Data.List.Nodup
import HtmlTemplate.Proofs.Grammar.Readers

/-!
# When blocks and calls are read

The two readers that call each other, `Definition.items` and `Definition.arguments`, accept the tokens of a
block and of call arguments. Each direction is an induction on the bound: a smaller bound is enough for the
blocks and arguments inside. The bound counts tokens, so the length of what is to be read is always enough.

## Contents

* `setArguments_nil` — arguments that are given one after the other;
* `NameEnds` — what may follow the name of a tag or call;
* `Definition.items_sound`, `arguments_sound` — only phrases of the grammar are read;
* `Definition.items_complete`, `arguments_complete` — all of them are.
-/

namespace HtmlTemplate

open Grammar

/-! ## Arguments in order -/

section Arguments

variable {α : Type}

/-- Gives some arguments their values, one after the other. -/
def setArguments (args values : List (String × α)) : List (String × α) :=
  values.foldl (fun args arg => setArgument arg.1 arg.2 args) args

/-- Setting an argument of a list that is made by looking names up. -/
theorem setArgument_filterMap (name : String) (value : α) (found : String → Option α) {names : List String}
    (hnodup : names.Nodup) (hfound : ∀ key ∈ names, (found key).isSome) :
    setArgument name value (names.filterMap fun key => (found key).map (key, ·)) =
      (if name ∈ names then names else names ++ [name]).filterMap fun key =>
        (if key = name then some value else found key).map (key, ·) := by
  induction names with
  | nil => simp [setArgument]
  | cons key names ih =>
    obtain ⟨old, hold⟩ := Option.isSome_iff_exists.mp (hfound key List.mem_cons_self)
    have hmore := ih hnodup.of_cons fun other h => hfound other (List.mem_cons_of_mem _ h)
    rw [List.filterMap_cons_some (by rw [hold]; rfl), setArgument]
    by_cases hkey : key = name
    · subst hkey
      have hothers : ∀ other ∈ names, (if other = key then some value else found other) = found other := by
        intro other hmem
        rw [if_neg]
        rintro rfl
        exact (List.nodup_cons.mp hnodup).1 hmem
      rw [if_pos rfl, if_pos List.mem_cons_self, List.filterMap_cons_some (by rw [if_pos rfl]; rfl)]
      refine congrArg ((key, value) :: ·) (List.filterMap_congr fun other hmem => ?_)
      rw [hothers other hmem]
    · have hmem : name ∈ key :: names ↔ name ∈ names := by
        rw [List.mem_cons, or_iff_right (Ne.symm hkey)]
      rw [if_neg hkey, hmore]
      simp only [hmem]
      by_cases hname : name ∈ names
      · rw [if_pos hname, if_pos hname, List.filterMap_cons_some (by rw [if_neg hkey, hold]; rfl)]
      · rw [if_neg hname, if_neg hname, List.cons_append, List.filterMap_cons_some (by rw [if_neg hkey, hold]; rfl)]

theorem eraseDups_append_singleton (names : List String) (name : String) :
    (names ++ [name]).eraseDups = if name ∈ names.eraseDups then names.eraseDups else names.eraseDups ++ [name] := by
  rw [List.eraseDups_append]
  by_cases h : name ∈ names
  · rw [if_pos (List.mem_eraseDups.mpr h)]
    simp [List.removeAll, h]
  · rw [if_neg (mt List.mem_eraseDups.mp h)]
    simp [List.removeAll, h, List.eraseDups_cons]

theorem nodup_eraseDups (names : List String) : names.eraseDups.Nodup := by
  induction names using List.reverseRecOn with
  | nil => exact List.nodup_nil
  | append_singleton names name ih =>
    rw [eraseDups_append_singleton]
    by_cases h : name ∈ names.eraseDups
    · rw [if_pos h]
      exact ih
    · rw [if_neg h]
      rw [← List.concat_eq_append]
      exact List.Nodup.concat h ih

/-- One more argument is set like any argument is. -/
theorem lastValues_append_singleton (args : List (String × α)) (name : String) (value : α) :
    lastValues (args ++ [(name, value)]) = setArgument name value (lastValues args) := by
  have hfound : ∀ key ∈ (args.map Prod.fst).eraseDups, (args.reverse.lookup key).isSome := by
    intro key hkey
    obtain ⟨arg, harg, rfl⟩ := List.mem_map.mp (List.mem_eraseDups.mp hkey)
    exact List.lookup_isSome_iff.mpr ⟨arg, List.mem_reverse.mpr harg, beq_self_eq_true _⟩
  rw [lastValues, lastValues, setArgument_filterMap name value _ (nodup_eraseDups _) hfound, List.map_append,
    List.map_singleton, eraseDups_append_singleton]
  refine List.filterMap_congr fun key _ => ?_
  rw [List.reverse_append, List.reverse_singleton, List.singleton_append, List.lookup_cons]
  by_cases hkey : key = name
  · rw [if_pos hkey, beq_iff_eq.mpr hkey]
  · rw [if_neg hkey, beq_eq_false_iff_ne.mpr hkey]

/-- Each name keeps the place where it comes first and the value that it is given last. -/
theorem setArguments_nil (values : List (String × α)) : setArguments [] values = lastValues values := by
  induction values using List.reverseRecOn with
  | nil => rfl
  | append_singleton values arg ih =>
    rw [lastValues_append_singleton, ← ih, setArguments, List.foldl_append]
    rfl

end Arguments

namespace Definition

open TokenReader

variable {scope : CallScope} {tokens rest : List Token} {name : String}

/-! ## Only phrases of the grammar are read -/

/-- What a block reader that starts behind the opening brace has read. -/
def ItemsSound (scope : CallScope) (reader : TokenReader (List Node)) : Prop :=
  ∀ ⦃tokens nodes rest⦄, reader tokens = .ok nodes rest →
    ∃ (xs : List Item) (rbrace : Location),
      tokens = Item.allTokens xs ++ rbrace.token .rbrace :: rest ∧ Item.allNodes scope xs = nodes

/-- What a reader of arguments that has read `args` already has read on top of them. -/
def ArgumentsSound (scope : CallScope) (args : List (String × Node))
    (reader : TokenReader (List (String × Node))) : Prop :=
  ∀ ⦃tokens found rest⦄, reader tokens = .ok found rest →
    ∃ more : Grammar.Arguments, tokens = more.tokens ++ rest ∧ setArguments args (more.values scope) = found

theorem argumentValue_sound {items : TokenReader (List Node)} (hitems : ItemsSound scope items) {node : Node}
    (h : argumentValue scope.file items tokens = .ok node rest) :
    ∃ value : ArgumentValue, tokens = value.tokens ++ rest ∧ value.node scope = node := by
  rw [argumentValue, next_bind_eq_ok] at h
  obtain ⟨⟨kind, range, file⟩, middle, rfl, h⟩ := h
  cases kind with
  | reference ref =>
    obtain ⟨path, escape⟩ := ref
    cases escape with
    | false =>
      obtain ⟨rfl, rfl⟩ := pure_eq_ok.mp h
      exact ⟨.reference ⟨file, range⟩ ⟨path, false⟩, rfl, rfl⟩
    | true =>
      obtain ⟨rfl, rfl⟩ := pure_eq_ok.mp h
      exact ⟨.reference ⟨file, range⟩ ⟨path, true⟩, rfl, rfl⟩
  | quote text =>
    obtain ⟨rfl, rfl⟩ := pure_eq_ok.mp h
    exact ⟨.quote ⟨file, range⟩ text, rfl, rfl⟩
  | literal segments =>
    obtain ⟨rfl, rfl⟩ := pure_eq_ok.mp h
    exact ⟨.literal ⟨file, range⟩ segments, rfl, rfl⟩
  | lbrace =>
    obtain ⟨children, behind, hchildren, h⟩ := bind_eq_ok.mp h
    obtain ⟨xs, rbrace, rfl, rfl⟩ := hitems hchildren
    obtain ⟨rfl, rfl⟩ := pure_eq_ok.mp h
    refine ⟨.block (.mk ⟨file, range⟩ xs rbrace), ?_, rfl⟩
    simp only [ArgumentValue.tokens, Block.tokens, List.cons_append, List.append_assoc, List.nil_append]
    rfl
  | _ => exact absurd h fail_ne_ok

theorem tag_sound {bound : Nat} {items : TokenReader (List Node)} (hitems : ItemsSound scope items)
    (place : Location) {node : Node}
    (h : tag scope.file bound items (place.token (.ident name)) name tokens = .ok node rest) :
    ∃ item : Item, place.token (.ident name) :: tokens = item.tokens ++ rest ∧ item.nodes scope = [node] := by
  rw [tag, bind_eq_ok] at h
  obtain ⟨_, behind, hmods, h⟩ := h
  obtain ⟨mods, rfl, rfl⟩ := modifiers_sound hmods
  rw [peekKind_bind] at h
  cases behind with
  | nil =>
    obtain ⟨rfl, rfl⟩ := pure_eq_ok.mp h
    exact ⟨.tag place name mods none, rfl, rfl⟩
  | cons second behind =>
    obtain ⟨kind, range, file⟩ := second
    cases kind with
    | lbrace =>
      obtain ⟨_, _, hbrace, h⟩ := next_bind_eq_ok.mp h
      cases hbrace
      obtain ⟨_, _, hchildren, hnode⟩ := bind_eq_ok.mp h
      obtain ⟨xs, rbrace, rfl, rfl⟩ := hitems hchildren
      obtain ⟨rfl, rfl⟩ := pure_eq_ok.mp hnode
      refine ⟨.tag place name mods (some (.mk ⟨file, range⟩ xs rbrace)), ?_, rfl⟩
      simp only [Item.tokens, Block.tokens, List.cons_append, List.append_assoc, List.nil_append]
      rfl
    | _ =>
      obtain ⟨rfl, rfl⟩ := pure_eq_ok.mp h
      exact ⟨.tag place name mods none, rfl, rfl⟩

theorem call_sound {arguments : TokenReader (List (String × Node))} (harguments : ArgumentsSound scope [] arguments)
    (place lparen : Location) {node : Node}
    (h : call scope arguments (place.token (.ident name)) name (lparen.token .lparen :: tokens) = .ok node rest) :
    ∃ item : Item,
      place.token (.ident name) :: lparen.token .lparen :: tokens = item.tokens ++ rest ∧
        item.nodes scope = [node] := by
  rw [call, next_bind_cons, bind_eq_ok] at h
  obtain ⟨_, behind, hskip, h⟩ := h
  obtain ⟨comments, rfl, -⟩ := skipComments_eq_ok.mp hskip
  rw [peekKind_bind] at h
  -- Whatever is no parenthesis, the end of the tokens included, is left to the reader of arguments.
  have hcall : (arguments >>= fun args => pure (.call place (scope.binding name) name args)) behind = .ok node rest →
      ∃ item : Item,
        place.token (.ident name) :: lparen.token .lparen :: (commentTokens comments ++ behind) =
            item.tokens ++ rest ∧
          item.nodes scope = [node] := by
    intro h
    obtain ⟨_, _, hargs, hnode⟩ := bind_eq_ok.mp h
    obtain ⟨more, rfl, rfl⟩ := harguments hargs
    obtain ⟨rfl, rfl⟩ := pure_eq_ok.mp hnode
    refine ⟨.call place name lparen comments more, ?_, ?_⟩
    · simp only [Item.tokens, List.cons_append, List.append_assoc]
    · rw [setArguments_nil, Item.nodes]
  cases behind with
  | nil => exact hcall h
  | cons second behind =>
    obtain ⟨kind, range, file⟩ := second
    cases kind with
    | rparen =>
      obtain ⟨rfl, rfl⟩ := pure_eq_ok.mp h
      refine ⟨.emptyCall place name lparen comments ⟨file, range⟩, ?_, rfl⟩
      simp only [Item.tokens, List.cons_append, List.append_assoc, List.nil_append]
      rfl
    | _ => exact hcall h

/-- A tag or call, and the items behind it. -/
theorem named_sound {token : Token} {reader : TokenReader Node} {more : TokenReader (List Node)}
    (hmore : ItemsSound scope more)
    (hreader : ∀ {node : Node} {behind : List Token}, reader tokens = .ok node behind →
      ∃ item : Item, token :: tokens = item.tokens ++ behind ∧ item.nodes scope = [node])
    {nodes : List Node} (h : (reader >>= fun node => do return node :: (← more)) tokens = .ok nodes rest) :
    ∃ (xs : List Item) (rbrace : Location),
      token :: tokens = Item.allTokens xs ++ rbrace.token .rbrace :: rest ∧ Item.allNodes scope xs = nodes := by
  obtain ⟨node, behind, hnode, h⟩ := bind_eq_ok.mp h
  obtain ⟨_, _, hmore', hnodes⟩ := bind_eq_ok.mp h
  obtain ⟨xs, rbrace, rfl, rfl⟩ := hmore hmore'
  obtain ⟨rfl, rfl⟩ := pure_eq_ok.mp hnodes
  obtain ⟨item, htokens, hitem⟩ := hreader hnode
  refine ⟨item :: xs, rbrace, ?_, ?_⟩
  · rw [htokens, Item.allTokens, List.append_assoc]
  · rw [Item.allNodes, hitem]
    rfl

theorem items_succ_sound {bound : Nat} (hitems : ItemsSound scope (items scope bound))
    (harguments : ArgumentsSound scope [] (arguments scope bound [])) :
    ItemsSound scope (items scope (bound + 1)) := by
  intro tokens nodes rest h
  rw [items, next_bind_eq_ok] at h
  obtain ⟨⟨kind, range, file⟩, tokens, rfl, h⟩ := h
  cases kind with
  | rbrace =>
    obtain ⟨rfl, rfl⟩ := pure_eq_ok.mp h
    exact ⟨[], ⟨file, range⟩, rfl, rfl⟩
  | comment text =>
    obtain ⟨xs, rbrace, rfl, rfl⟩ := hitems h
    exact ⟨.comment ⟨⟨file, range⟩, text⟩ :: xs, rbrace, rfl, rfl⟩
  | literal segments =>
    obtain ⟨_, _, hmore, hnodes⟩ := bind_eq_ok.mp h
    obtain ⟨xs, rbrace, rfl, rfl⟩ := hitems hmore
    obtain ⟨rfl, rfl⟩ := pure_eq_ok.mp hnodes
    exact ⟨.literal ⟨file, range⟩ segments :: xs, rbrace, rfl, rfl⟩
  | reference ref =>
    obtain ⟨_, _, hmore, hnodes⟩ := bind_eq_ok.mp h
    obtain ⟨xs, rbrace, rfl, rfl⟩ := hitems hmore
    obtain ⟨rfl, rfl⟩ := pure_eq_ok.mp hnodes
    exact ⟨.reference ⟨file, range⟩ ref :: xs, rbrace, rfl, rfl⟩
  | ident name =>
    cases tokens with
    | nil => exact named_sound hitems (tag_sound hitems ⟨file, range⟩) h
    | cons second tokens =>
      obtain ⟨kind, range', file'⟩ := second
      cases kind with
      | lparen =>
        exact named_sound hitems (call_sound harguments ⟨file, range⟩ ⟨file', range'⟩) h
      | _ => exact named_sound hitems (tag_sound hitems ⟨file, range⟩) h
  | _ => exact absurd h fail_ne_ok

theorem arguments_succ_sound {bound : Nat} (hitems : ItemsSound scope (items scope bound))
    (harguments : ∀ args, ArgumentsSound scope args (arguments scope bound args)) (args : List (String × Node)) :
    ArgumentsSound scope args (arguments scope (bound + 1) args) := by
  intro tokens found rest h
  rw [arguments, bind_eq_ok] at h
  obtain ⟨_, _, hbefore, h⟩ := h
  obtain ⟨before, rfl, -⟩ := skipComments_eq_ok.mp hbefore
  rw [bind_eq_ok] at h
  obtain ⟨name, _, hname, h⟩ := h
  obtain ⟨place, colon, rfl⟩ := argumentName_eq_ok.mp hname
  rw [bind_eq_ok] at h
  obtain ⟨_, _, hvalue, h⟩ := h
  obtain ⟨value, rfl, rfl⟩ := argumentValue_sound hitems hvalue
  rw [bind_eq_ok] at h
  obtain ⟨_, _, hafter, h⟩ := h
  obtain ⟨after, rfl, -⟩ := skipComments_eq_ok.mp hafter
  rw [next_bind_eq_ok] at h
  obtain ⟨⟨kind, range, file⟩, tokens, rfl, h⟩ := h
  cases kind with
  | comma =>
    obtain ⟨more, rfl, rfl⟩ := harguments _ h
    refine ⟨.more (.mk before place name colon value after) ⟨file, range⟩ more, ?_, rfl⟩
    simp only [Grammar.Arguments.tokens, Argument.tokens, List.cons_append, List.append_assoc]
    rfl
  | rparen =>
    obtain ⟨rfl, rfl⟩ := pure_eq_ok.mp h
    refine ⟨.last (.mk before place name colon value after) ⟨file, range⟩, ?_, rfl⟩
    simp only [Grammar.Arguments.tokens, Argument.tokens, List.cons_append, List.append_assoc, List.nil_append]
    rfl
  | _ => exact absurd h fail_ne_ok

/-- **Only phrases of the grammar are read.** -/
theorem sound (scope : CallScope) (bound : Nat) :
    ItemsSound scope (items scope bound) ∧ ∀ args, ArgumentsSound scope args (arguments scope bound args) := by
  induction bound with
  | zero => exact ⟨fun _ _ _ h => absurd h fail_ne_ok, fun _ _ _ _ h => absurd h fail_ne_ok⟩
  | succ bound ih =>
    obtain ⟨hitems, harguments⟩ := ih
    exact ⟨items_succ_sound hitems (harguments []), arguments_succ_sound hitems harguments⟩

/-! ## All phrases of the grammar are read -/

/-- The kinds of tokens that go on with a tag or a call behind its name. -/
def continuesName : TokenKind Range → Bool
  | .hash | .dot | .lbracket | .lbrace | .lparen => true
  | _ => false

/-- The next token goes on with no tag and no call. -/
def NameEnds (tokens : List Token) : Prop :=
  ∀ kind, tokens.head?.map Token.kind = some kind → continuesName kind = false

theorem NameEnds.noModifier (h : NameEnds tokens) : NoModifier tokens := by
  intro kind hkind
  have hends := h kind hkind
  cases kind with
  | hash | dot | lbracket => cases hends
  | _ => rfl

/-- What comes behind an item does not go on with it. -/
theorem nameEnds_allTokens (xs : List Item) (rbrace : Location) (rest : List Token) :
    NameEnds (Item.allTokens xs ++ rbrace.token .rbrace :: rest) := by
  rintro kind hkind
  cases xs with
  | nil =>
    cases hkind
    rfl
  | cons item xs =>
    cases item with
    | tag place name mods block =>
      cases block with
      | none | some block =>
        cases hkind
        rfl
    | _ =>
      cases hkind
      rfl

/-- Within the bound, the block reader reads any items and a closing brace. -/
def ItemsComplete (scope : CallScope) (bound : Nat) : Prop :=
  ∀ (xs : List Item) (rbrace : Location) (rest : List Token), (Item.allTokens xs).length < bound →
    items scope bound (Item.allTokens xs ++ rbrace.token .rbrace :: rest) = .ok (Item.allNodes scope xs) rest

/-- Within the bound, any arguments are read. -/
def ArgumentsComplete (scope : CallScope) (bound : Nat) : Prop :=
  ∀ (more : Grammar.Arguments) (args : List (String × Node)) (rest : List Token), more.tokens.length ≤ bound →
    arguments scope bound args (more.tokens ++ rest) = .ok (setArguments args (more.values scope)) rest

theorem argumentValue_complete {bound : Nat} (hitems : ItemsComplete scope bound) (value : ArgumentValue)
    (hbound : value.tokens.length ≤ bound) (rest : List Token) :
    argumentValue scope.file (items scope bound) (value.tokens ++ rest) = .ok (value.node scope) rest := by
  cases value with
  | reference place ref =>
    obtain ⟨path, escape⟩ := ref
    cases escape with
    | false | true => rfl
  | quote place text => rfl
  | literal place segments => rfl
  | block block =>
    obtain ⟨lbrace, xs, rbrace⟩ := block
    have hlength : (Item.allTokens xs).length < bound := by
      rw [ArgumentValue.tokens, Block.tokens, List.length_append, List.length_cons, List.length_singleton] at hbound
      omega
    rw [ArgumentValue.tokens, Block.tokens, List.append_assoc, List.cons_append, List.singleton_append]
    exact bind_eq_ok.mpr ⟨_, _, rfl, bind_eq_ok.mpr ⟨_, _, hitems xs rbrace rest hlength, rfl⟩⟩

theorem length_modifiers_le (mods : List TagModifier) : mods.length ≤ (mods.flatMap TagModifier.tokens).length := by
  induction mods with
  | nil => exact Nat.le_refl 0
  | cons mod mods ih =>
    rw [List.flatMap_cons, List.length_append, List.length_cons]
    have hmod : 1 ≤ mod.tokens.length := by
      cases mod <;> simp [TagModifier.tokens]
    omega

/-- No modifier starts with a parenthesis. -/
theorem modifiers_ne_lparen (mods : List TagModifier) (h : tokens.head?.map Token.kind ≠ some .lparen) :
    (mods.flatMap TagModifier.tokens ++ tokens).head?.map Token.kind ≠ some .lparen := by
  cases mods with
  | nil => exact h
  | cons mod mods =>
    cases mod with
    | id | styleClass | attr => exact nofun

theorem tag_complete {bound : Nat} (hitems : ItemsComplete scope bound) (place : Location) (name : String)
    (mods : List TagModifier) (block : Option Block)
    (hbound : (Item.tag place name mods block).tokens.length ≤ bound + 1) (hrest : NameEnds rest) :
    ∃ tokens node, (Item.tag place name mods block).tokens ++ rest = place.token (.ident name) :: tokens ∧
      (Item.tag place name mods block).nodes scope = [node] ∧ tokens.head?.map Token.kind ≠ some .lparen ∧
      tag scope.file bound (items scope bound) (place.token (.ident name)) name tokens = .ok node rest := by
  have hlength := length_modifiers_le mods
  cases block with
  | none =>
    have hlparen : rest.head?.map Token.kind ≠ some .lparen := fun hkind => Bool.noConfusion (hrest _ hkind)
    refine ⟨mods.flatMap TagModifier.tokens ++ rest, _, rfl, rfl, modifiers_ne_lparen mods hlparen, ?_⟩
    rw [Item.tokens, List.length_cons] at hbound
    rw [tag]
    refine bind_eq_ok.mpr ⟨_, _, modifiers_complete mods hrest.noModifier bound (by omega), ?_⟩
    cases rest with
    | nil => rfl
    | cons second rest =>
      obtain ⟨kind, range, file⟩ := second
      have hends := hrest kind rfl
      cases kind with
      | lbrace => cases hends
      | _ => rfl
  | some block =>
    obtain ⟨lbrace, xs, rbrace⟩ := block
    refine ⟨mods.flatMap TagModifier.tokens ++ lbrace.token .lbrace :: (Item.allTokens xs ++ rbrace.token .rbrace :: rest),
      .tag place name (mods.map TagModifier.modifier) (some (.body lbrace (Item.allNodes scope xs))), ?_, rfl,
      modifiers_ne_lparen mods nofun, ?_⟩
    · simp only [Item.tokens, Block.tokens, List.cons_append, List.append_assoc, List.nil_append]
    · simp only [Item.tokens, Block.tokens, List.cons_append, List.length_cons, List.length_append,
        List.length_nil] at hbound
      have hmods : NoModifier (lbrace.token .lbrace :: (Item.allTokens xs ++ rbrace.token .rbrace :: rest)) := by
        rintro kind hkind
        cases hkind
        rfl
      rw [tag]
      refine bind_eq_ok.mpr ⟨_, _, modifiers_complete mods hmods bound (by omega), ?_⟩
      refine bind_eq_ok.mpr ⟨_, _, rfl, bind_eq_ok.mpr ⟨_, _, rfl, bind_eq_ok.mpr ⟨_, _, ?_, rfl⟩⟩⟩
      exact hitems xs rbrace rest (by omega)

theorem emptyCall_complete (arguments : TokenReader (List (String × Node))) (place : Location) (name : String)
    (lparen : Location) (comments : List Comment) (rparen : Location) (rest : List Token) :
    call scope arguments (place.token (.ident name)) name
        (lparen.token .lparen :: (commentTokens comments ++ rparen.token .rparen :: rest)) =
      .ok (.call place (scope.binding name) name []) rest := by
  rw [call, next_bind_cons, skipComments_bind_noComment (noComment_rparen rparen rest)]
  rfl

/-- The comments in front of the first argument can be taken off. -/
theorem tokens_withoutBefore (args : Grammar.Arguments) :
    args.tokens = commentTokens args.before ++ args.withoutBefore.tokens := by
  cases args with
  | last arg rparen =>
    obtain ⟨before, place, name, colon, value, after⟩ := arg
    simp only [Arguments.before, Arguments.withoutBefore, Arguments.tokens, Argument.tokens, List.append_assoc]
    rfl
  | more arg comma args =>
    obtain ⟨before, place, name, colon, value, after⟩ := arg
    simp only [Arguments.before, Arguments.withoutBefore, Arguments.tokens, Argument.tokens, List.append_assoc]
    rfl

theorem values_withoutBefore (args : Grammar.Arguments) : args.withoutBefore.values scope = args.values scope := by
  cases args with
  | last arg rparen | more arg comma args =>
    obtain ⟨before, place, name, colon, value, after⟩ := arg
    rfl

/-- What is left then starts with a name. -/
theorem noComment_withoutBefore (args : Grammar.Arguments) (rest : List Token) :
    NoComment (args.withoutBefore.tokens ++ rest) := by
  cases args with
  | last arg rparen | more arg comma args =>
    obtain ⟨before, place, name, colon, value, after⟩ := arg
    rintro text hkind
    cases hkind

theorem call_complete {bound : Nat} (harguments : ArgumentsComplete scope bound) (place : Location) (name : String)
    (lparen : Location) (comments : List Comment) (args : Grammar.Arguments) (hbound : args.tokens.length ≤ bound)
    (rest : List Token) :
    call scope (arguments scope bound []) (place.token (.ident name)) name
        (lparen.token .lparen :: (commentTokens comments ++ (args.tokens ++ rest))) =
      .ok (.call place (scope.binding name) name (lastValues (args.values scope))) rest := by
  rw [tokens_withoutBefore, List.length_append] at hbound
  have hargs := harguments args.withoutBefore [] rest (by omega)
  rw [values_withoutBefore, setArguments_nil] at hargs
  have hskip : skipComments (commentTokens comments ++ (args.tokens ++ rest)) =
      .ok () (args.withoutBefore.tokens ++ rest) := by
    rw [skipComments_append, tokens_withoutBefore, List.append_assoc, skipComments_append,
      skipComments_of_noComment (noComment_withoutBefore args rest)]
  rw [call, next_bind_cons]
  refine bind_eq_ok.mpr ⟨_, _, hskip, ?_⟩
  cases args with
  | last arg rparen | more arg comma args =>
    obtain ⟨before, argPlace, argName, colon, value, after⟩ := arg
    exact bind_eq_ok.mpr ⟨_, _, rfl, bind_eq_ok.mpr ⟨_, _, hargs, rfl⟩⟩

/-- A tag and the items behind it. -/
theorem items_tag_complete {bound : Nat} (hitems : ItemsComplete scope bound) (place : Location) (name : String)
    (mods : List TagModifier) (block : Option Block) (xs : List Item) (rbrace : Location) (rest : List Token)
    (hbound : (Item.tag place name mods block).tokens.length + (Item.allTokens xs).length < bound + 1) :
    items scope (bound + 1)
        ((Item.tag place name mods block).tokens ++ (Item.allTokens xs ++ rbrace.token .rbrace :: rest)) =
      .ok ((Item.tag place name mods block).nodes scope ++ Item.allNodes scope xs) rest := by
  obtain ⟨tokens, node, htokens, hnode, hlparen, htag⟩ := tag_complete hitems place name mods block
    (by omega) (nameEnds_allTokens xs rbrace rest)
  have hpos : 0 < (Item.tag place name mods block).tokens.length := by
    cases block <;> simp [Item.tokens]
  have hmore := hitems xs rbrace rest (by omega)
  rw [htokens, hnode]
  have hnodes : (tag scope.file bound (items scope bound) (place.token (.ident name)) name >>= fun node => do
      return node :: (← items scope bound)) tokens = .ok (node :: Item.allNodes scope xs) rest :=
    bind_eq_ok.mpr ⟨_, _, htag, bind_eq_ok.mpr ⟨_, _, hmore, rfl⟩⟩
  refine bind_eq_ok.mpr ⟨_, _, rfl, bind_eq_ok.mpr ⟨_, _, rfl, ?_⟩⟩
  -- The reader of calls is not asked, since no parenthesis follows the name.
  cases tokens with
  | nil => exact hnodes
  | cons second tokens =>
    obtain ⟨kind, range, file⟩ := second
    cases kind with
    | lparen => exact absurd rfl hlparen
    | _ => exact hnodes

theorem items_succ_complete {bound : Nat} (hitems : ItemsComplete scope bound)
    (harguments : ArgumentsComplete scope bound) : ItemsComplete scope (bound + 1) := by
  intro xs rbrace rest hbound
  cases xs with
  | nil => rfl
  | cons item xs =>
    rw [Item.allTokens, List.length_append] at hbound
    rw [Item.allTokens, List.append_assoc, Item.allNodes]
    cases item with
    | comment comment =>
      rw [Item.tokens, List.length_singleton] at hbound
      exact hitems xs rbrace rest (by omega)
    | literal place segments =>
      rw [Item.tokens, List.length_singleton] at hbound
      have hmore := hitems xs rbrace rest (by omega)
      exact bind_eq_ok.mpr ⟨_, _, rfl, bind_eq_ok.mpr ⟨_, _, hmore, rfl⟩⟩
    | reference place ref =>
      rw [Item.tokens, List.length_singleton] at hbound
      have hmore := hitems xs rbrace rest (by omega)
      exact bind_eq_ok.mpr ⟨_, _, rfl, bind_eq_ok.mpr ⟨_, _, hmore, rfl⟩⟩
    | tag place name mods block => exact items_tag_complete hitems place name mods block xs rbrace rest hbound
    | emptyCall place name lparen comments rparen =>
      simp only [Item.tokens, List.cons_append, List.length_cons] at hbound
      have hmore := hitems xs rbrace rest (by omega)
      simp only [Item.tokens, List.cons_append, List.append_assoc, List.nil_append, Item.nodes]
      refine bind_eq_ok.mpr ⟨_, _, rfl, bind_eq_ok.mpr ⟨_, _, rfl, ?_⟩⟩
      exact bind_eq_ok.mpr ⟨_, _, emptyCall_complete .., bind_eq_ok.mpr ⟨_, _, hmore, rfl⟩⟩
    | call place name lparen comments args =>
      simp only [Item.tokens, List.cons_append, List.length_cons, List.length_append] at hbound
      have hmore := hitems xs rbrace rest (by omega)
      simp only [Item.tokens, List.cons_append, List.append_assoc, Item.nodes]
      refine bind_eq_ok.mpr ⟨_, _, rfl, bind_eq_ok.mpr ⟨_, _, rfl, ?_⟩⟩
      have hcall := call_complete harguments place name lparen comments args (by omega)
        (Item.allTokens xs ++ rbrace.token .rbrace :: rest)
      exact bind_eq_ok.mpr ⟨_, _, hcall, bind_eq_ok.mpr ⟨_, _, hmore, rfl⟩⟩

/-- One argument is read and set, and the token behind it tells how to go on. -/
theorem argument_complete {bound : Nat} (hitems : ItemsComplete scope bound) (args : List (String × Node))
    (before : List Comment) (place : Location) (name : String) (colon : Location) (value : ArgumentValue)
    (after : List Comment) (hvalue : value.tokens.length ≤ bound) {token : Token} {behind : List Token}
    (hcomment : NoComment (token :: behind)) :
    arguments scope (bound + 1) args ((Argument.mk before place name colon value after).tokens ++ token :: behind) =
      (match token.kind with
        | .comma => arguments scope bound (setArgument name (value.node scope) args)
        | .rparen => pure (setArgument name (value.node scope) args)
        | _ => fail (.fault .expectedClosingParen token)) behind := by
  have hname : NoComment (place.token (.ident name) :: colon.token .colon ::
      (value.tokens ++ (commentTokens after ++ token :: behind))) := by
    rintro text hkind
    cases hkind
  simp only [Argument.tokens, List.append_assoc, List.cons_append]
  rw [arguments, skipComments_bind_noComment hname, bind_apply, argumentName_eq_ok.mpr ⟨place, colon, rfl⟩]
  show (argumentValue scope.file (items scope bound) >>= _) _ = _
  rw [bind_apply, argumentValue_complete hitems value hvalue]
  show (skipComments >>= _) _ = _
  rw [skipComments_bind_noComment hcomment]
  rfl

theorem arguments_succ_complete {bound : Nat} (hitems : ItemsComplete scope bound)
    (harguments : ArgumentsComplete scope bound) : ArgumentsComplete scope (bound + 1) := by
  intro more args rest hbound
  cases more with
  | last arg rparen =>
    obtain ⟨before, place, name, colon, value, after⟩ := arg
    simp only [Arguments.tokens, Argument.tokens, List.length_append, List.length_cons] at hbound
    rw [Arguments.tokens, List.append_assoc, List.singleton_append,
      argument_complete hitems args before place name colon value after (by omega) (noComment_rparen rparen rest)]
    rfl
  | more arg comma more =>
    obtain ⟨before, place, name, colon, value, after⟩ := arg
    simp only [Arguments.tokens, Argument.tokens, List.length_append, List.length_cons] at hbound
    rw [Arguments.tokens, List.append_assoc, List.cons_append,
      argument_complete hitems args before place name colon value after (by omega) (noComment_comma comma _)]
    exact harguments more _ rest (by omega)

/-- **All phrases of the grammar are read**, if the bound is not smaller than they are. -/
theorem complete (scope : CallScope) (bound : Nat) :
    ItemsComplete scope bound ∧ ArgumentsComplete scope bound := by
  induction bound with
  | zero =>
    refine ⟨fun xs rbrace rest h => absurd h (Nat.not_lt_zero _), fun more args rest h => ?_⟩
    exfalso
    cases more with
    | last arg rparen | more arg comma more =>
      rw [Arguments.tokens, List.length_append, List.length_cons] at h
      omega
  | succ bound ih =>
    obtain ⟨hitems, harguments⟩ := ih
    exact ⟨items_succ_complete hitems harguments, arguments_succ_complete hitems harguments⟩

end Definition

end HtmlTemplate
