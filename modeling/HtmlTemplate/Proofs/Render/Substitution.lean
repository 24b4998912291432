import HtmlTemplate.Proofs.Render.Leftover

/-!
# Passing a reference is substitution

A reference that is passed to a call binds a name to what its path stands for. In the template that is called, and in
whatever this one calls in turn, the name can be read as the path: a longer path that starts with the name is the path
of the caller with the rest behind it. It has the same value, or misses the same segment (`passing_substitutes`).

Layers of arguments are searched for the name alone, and only the rest of a path is followed by the resolver. So the
argument has two parts. Going down a chain of calls keeps the value of the name (`StandsFor.lookup`), and following a
path is following its front and then its rest from there on (`Environment.resolve_append`).

## Contents

* `Resolver.walk_eq_error_iff`, `Environment.resolve_append` — the segment that a path misses, and paths in parts;
* `Stage.Enters`, `StandsFor` — what a called template sees, and names that stand for a path of a caller;
* `Node.collect_lookup`, `StandsFor.lookup` — the value of such a name;
* `passing_substitutes` — the main statement.
-/

namespace HtmlTemplate

variable {σ α β : Type}

/-! ## Following a path -/

/-- The segment that is missed is one whose front can be followed, and which is not found there. -/
theorem Resolver.walk_eq_error_iff {resolver : Resolver} {value : Value} {path : Path} {segment : String} :
    resolver.walk value path = .error segment ↔
      ∃ before after inner, path = before ++ segment :: after ∧ resolver.walk value before = .ok inner ∧
        resolver inner segment = none := by
  constructor
  · intro h
    induction path generalizing value with
    | nil => cases h
    | cons first path ih =>
      cases hfirst : resolver value first with
      | none =>
        simp only [walk, hfirst] at h
        cases h
        exact ⟨[], path, value, rfl, rfl, hfirst⟩
      | some next =>
        simp only [walk, hfirst] at h
        obtain ⟨before, after, inner, rfl, hbefore, hmissing⟩ := ih h
        exact ⟨first :: before, after, inner, rfl, by simp only [walk, hfirst, hbefore], hmissing⟩
  · rintro ⟨before, after, inner, rfl, hbefore, hmissing⟩
    rw [walk_append, hbefore]
    show resolver.walk inner (segment :: after) = _
    rw [walk, hmissing]

namespace Environment

variable {resolver : Resolver} {environment : Environment}

theorem resolve_cons_of_lookup {name : String} {value : Value} (h : environment.lookup resolver name = some value)
    (path : Path) : environment.resolve resolver (name :: path) = resolver.walk value path := by
  rw [resolve, h]

/-- A path that is not empty is resolved part by part. -/
theorem resolve_append {path : Path} (h : path ≠ []) (more : Path) :
    environment.resolve resolver (path ++ more) =
      (environment.resolve resolver path).bind fun inner => resolver.walk inner more := by
  cases path with
  | nil => exact absurd rfl h
  | cons name path =>
    rw [List.cons_append, resolve, resolve]
    cases environment.lookup resolver name with
    | none => rfl
    | some value => exact Resolver.walk_append resolver value path more

theorem resolve_append_of_ok {path : Path} {value : Value} (h : environment.resolve resolver path = .ok value)
    (more : Path) : environment.resolve resolver (path ++ more) = resolver.walk value more := by
  have hpath : path ≠ [] := by
    rintro rfl
    cases h
  rw [resolve_append hpath, h]
  rfl

end Environment

/-! ## Values of references -/

namespace Stage

variable {stage : Stage σ} {environment : Environment} {path : Path}

theorem valueOf_of_ok {value : Value} (h : environment.resolve stage.resolver path = .ok value) (location : Location) :
    stage.valueOf location path environment = pure value := by
  rw [valueOf, h]

theorem valueOf_of_error {segment : String} (h : environment.resolve stage.resolver path = .error segment)
    (location : Location) :
    stage.valueOf location path environment = .fail (.paramNotFound location segment path) := by
  rw [valueOf, h]

theorem resolve_of_valueOf {location : Location} {output output' : Output σ} {value : Value}
    (h : stage.valueOf location path environment output = (.ok value, output')) :
    environment.resolve stage.resolver path = .ok value := by
  cases hresolve : environment.resolve stage.resolver path with
  | ok found =>
    rw [valueOf_of_ok hresolve] at h
    cases h
    rfl
  | error segment =>
    rw [valueOf_of_error hresolve] at h
    cases h

end Stage

/-! ## Calls -/

theorem Action.bind_eq_ok {action : Action σ α} {next : α → Action σ β} {output after : Output σ} {value : β} :
    (action >>= next) output = (.ok value, after) ↔
      ∃ first middle, action output = (.ok first, middle) ∧ next first middle = (.ok value, after) := by
  rw [bind_apply]
  rcases action output with ⟨reason | first, middle⟩
  · exact ⟨nofun, nofun⟩
  · constructor
    · exact fun h => ⟨first, middle, rfl, h⟩
    · rintro ⟨_, _, hfirst, h⟩
      cases hfirst
      exact h

namespace Node

variable {stage : Stage σ} {invoke : Node → Environment → Action σ Unit}

/-- A name that no argument has is not bound. One that a passed reference has is bound to its value. -/
theorem collect_lookup {args : List (String × Node)} {environment : Environment} {output output' : Output σ}
    {layer : List (String × Value)} (h : collect stage invoke args environment output = (.ok layer, output'))
    (name : String) :
    (args.lookup name = none → layer.lookup name = none) ∧
      ∀ location path, args.lookup name = some (.reference location .passed path) →
        ∃ value, environment.resolve stage.resolver path = .ok value ∧ layer.lookup name = some value := by
  induction args generalizing output layer with
  | nil =>
    cases h
    exact ⟨fun _ => rfl, nofun⟩
  | cons arg args ih =>
    obtain ⟨key, node⟩ := arg
    rw [collect_cons_eq] at h
    obtain ⟨value, middle, hvalue, h⟩ := Action.bind_eq_ok.mp h
    obtain ⟨rest, last, hrest, h⟩ := Action.bind_eq_ok.mp h
    cases h
    rw [List.lookup_cons, List.lookup_cons]
    cases hkey : name == key with
    | false => exact ih hrest
    | true =>
      refine ⟨nofun, fun location path hnode => ?_⟩
      cases hnode
      exact ⟨value, Stage.resolve_of_valueOf hvalue, rfl⟩

end Node

section

variable (stage : Stage σ) (invoke : Node → Environment → Action σ Unit)

/-- Where these arguments have been evaluated for a call in one environment, the called template sees the other one. -/
def Stage.Enters (args : List (String × Node)) (environment callee : Environment) : Prop :=
  ∃ output layer output', Node.collect stage invoke args environment output = (.ok layer, output') ∧
    callee = .layer layer environment

/-- In a template that a chain of calls has led to, the name stands for the path as it is in the first caller. -/
inductive StandsFor (caller : Environment) : Environment → String → Path → Prop where
  /-- The first call passes a reference with this path under the name. -/
  | passed {args : List (String × Node)} {callee : Environment} {name : String} {location : Location} {path : Path}
    (hcall : stage.Enters invoke args caller callee)
    (harg : args.lookup name = some (.reference location .passed path)) : StandsFor caller callee name path
  /-- One more call leaves the name alone. -/
  | kept {args : List (String × Node)} {environment callee : Environment} {name : String} {path : Path}
    (h : StandsFor caller environment name path) (hcall : stage.Enters invoke args environment callee)
    (hfree : args.lookup name = none) : StandsFor caller callee name path
  /-- One more call passes on what the name stands for, or something in it, under another name or the same. -/
  | passedOn {args : List (String × Node)} {environment callee : Environment} {name other : String}
    {location : Location} {path more : Path} (h : StandsFor caller environment name path)
    (hcall : stage.Enters invoke args environment callee)
    (harg : args.lookup other = some (.reference location .passed (name :: more))) :
    StandsFor caller callee other (path ++ more)

end

variable {stage : Stage σ} {invoke : Node → Environment → Action σ Unit}

/-- The name has the value that the path has in the first caller. -/
theorem StandsFor.lookup {caller environment : Environment} {name : String} {path : Path}
    (h : StandsFor stage invoke caller environment name path) :
    ∃ value, caller.resolve stage.resolver path = .ok value ∧
      environment.lookup stage.resolver name = some value := by
  induction h with
  | passed hcall harg =>
    obtain ⟨output, layer, output', hcollect, rfl⟩ := hcall
    obtain ⟨value, hvalue, hbound⟩ := (Node.collect_lookup hcollect _).2 _ _ harg
    refine ⟨value, hvalue, ?_⟩
    rw [Environment.lookup_layer, hbound]
    rfl
  | kept h hcall hfree ih =>
    obtain ⟨value, hvalue, hname⟩ := ih
    obtain ⟨output, layer, output', hcollect, rfl⟩ := hcall
    refine ⟨value, hvalue, ?_⟩
    rw [Environment.lookup_layer, (Node.collect_lookup hcollect _).1 hfree, hname]
    rfl
  | passedOn h hcall harg ih =>
    obtain ⟨value, hvalue, hname⟩ := ih
    obtain ⟨output, layer, output', hcollect, rfl⟩ := hcall
    obtain ⟨inner, hinner, hbound⟩ := (Node.collect_lookup hcollect _).2 _ _ harg
    -- From the value of the name on, both paths go on alike.
    rw [Environment.resolve_cons_of_lookup hname] at hinner
    refine ⟨inner, ?_, ?_⟩
    · rw [Environment.resolve_append_of_ok hvalue, hinner]
    · rw [Environment.lookup_layer, hbound]
      rfl

/-- **Passing a reference is substitution.** Let a call pass a reference with a path that is not empty.

    If the path has a value in the caller, then the argument has this value, and down the chain of calls, as long as the
    name stands for the path, the path that starts with the name resolves like the path of the caller with the same rest
    behind it. If they do not resolve, then both errors name the same segment: the one that is missing while everything
    in front of it resolves, to the same value on both sides.

    If the path has no value in the caller, then evaluating the argument fails, and the error names the segment that it
    names for the path with any rest behind it in the caller. -/
theorem passing_substitutes (stage : Stage σ) (invoke : Node → Environment → Action σ Unit) (caller : Environment)
    {path : Path} (hpath : path ≠ []) (rest : Path) :
    (∀ value, caller.resolve stage.resolver path = .ok value →
      (∀ location, (Node.reference location .passed path).evaluate stage invoke caller = pure value) ∧
      ∀ environment name, StandsFor stage invoke caller environment name path →
        environment.resolve stage.resolver (name :: rest) = caller.resolve stage.resolver (path ++ rest) ∧
        ∀ segment, caller.resolve stage.resolver (path ++ rest) = .error segment →
          (∃ before after inner, rest = before ++ segment :: after ∧
            caller.resolve stage.resolver (path ++ before) = .ok inner ∧
            environment.resolve stage.resolver (name :: before) = .ok inner ∧
            stage.resolver inner segment = none) ∧
          ∀ location,
            stage.valueOf location (path ++ rest) caller = .fail (.paramNotFound location segment (path ++ rest)) ∧
            stage.valueOf location (name :: rest) environment =
              .fail (.paramNotFound location segment (name :: rest))) ∧
    ∀ segment, caller.resolve stage.resolver path = .error segment → ∀ location,
      (Node.reference location .passed path).evaluate stage invoke caller =
        .fail (.paramNotFound location segment path) ∧
      stage.valueOf location (path ++ rest) caller = .fail (.paramNotFound location segment (path ++ rest)) := by
  constructor
  · intro value hvalue
    refine ⟨fun location => Stage.valueOf_of_ok hvalue location, ?_⟩
    intro environment name hname
    obtain ⟨value', hvalue', hlookup⟩ := hname.lookup
    cases hvalue.symm.trans hvalue'
    have hsame : environment.resolve stage.resolver (name :: rest) = caller.resolve stage.resolver (path ++ rest) := by
      rw [Environment.resolve_cons_of_lookup hlookup, Environment.resolve_append_of_ok hvalue]
    refine ⟨hsame, fun segment herror => ⟨?_, ?_⟩⟩
    · rw [Environment.resolve_append_of_ok hvalue] at herror
      obtain ⟨before, after, inner, hrest, hbefore, hmissing⟩ := Resolver.walk_eq_error_iff.mp herror
      refine ⟨before, after, inner, hrest, ?_, ?_, hmissing⟩
      · rw [Environment.resolve_append_of_ok hvalue, hbefore]
      · rw [Environment.resolve_cons_of_lookup hlookup, hbefore]
    · intro location
      exact ⟨Stage.valueOf_of_error herror location, Stage.valueOf_of_error (hsame.trans herror) location⟩
  · intro segment herror location
    have hmore : caller.resolve stage.resolver (path ++ rest) = .error segment := by
      rw [Environment.resolve_append hpath, herror]
      rfl
    exact ⟨Stage.valueOf_of_error herror location, Stage.valueOf_of_error hmore location⟩

/-- A city is passed as `town`, which one call leaves alone and the next one passes on as `c`, giving `town` another
    value. A town would not have been found. -/
theorem passing_substitutes_chain :
    let city := Value.map [("name", .string "Ulm")]
    let caller := Environment.params (.map [("user", .map [("city", city)])])
    let first := Environment.layer [("v", .string "a"), ("town", city)] caller
    let second := Environment.layer [("w", .string "Ulm")] first
    let third := Environment.layer [("town", .string "b"), ("c", city)] second
    let stage : Stage Unit := ⟨.empty, .default⟩
    let invoke (_ : Node) (_ : Environment) : Action Unit Unit := .halt .tooDeep
    StandsFor stage invoke caller third "c" ["user", "city"] ∧
      third.resolve .default ["c", "name"] = .ok (.string "Ulm") ∧
      stage.valueOf default ["c", "zip", "code"] third = .fail (.paramNotFound default "zip" ["c", "zip", "code"]) ∧
      (Node.reference default .passed ["user", "town"]).evaluate stage invoke caller =
        .fail (.paramNotFound default "town" ["user", "town"]) := by
  intro city caller first second third stage invoke
  have hfirst : stage.Enters invoke [("v", .deferred default (.literal default "a")),
      ("town", .reference default .passed ["user", "city"])] caller first := ⟨⟨"", ()⟩, _, _, rfl, rfl⟩
  have hsecond : stage.Enters invoke [("w", .reference default .passed ["town", "name"])] first second :=
    ⟨⟨"", ()⟩, _, _, rfl, rfl⟩
  have hthird : stage.Enters invoke [("town", .deferred default (.literal default "b")),
      ("c", .reference default .passed ["town"])] second third := ⟨⟨"", ()⟩, _, _, rfl, rfl⟩
  have htown : StandsFor stage invoke caller second "town" ["user", "city"] := .kept (.passed hfirst rfl) hsecond rfl
  have hname : StandsFor stage invoke caller third "c" (["user", "city"] ++ []) := .passedOn htown hthird rfl
  rw [List.append_nil] at hname
  have hcity : caller.resolve stage.resolver ["user", "city"] = .ok city := rfl
  have hsubstitutes := fun rest => passing_substitutes stage invoke caller (List.cons_ne_nil "user" ["city"]) rest
  obtain ⟨hvalue, -⟩ := ((hsubstitutes ["name"]).1 city hcity).2 third "c" hname
  obtain ⟨-, hmissing⟩ := ((hsubstitutes ["zip", "code"]).1 city hcity).2 third "c" hname
  have hfails := (passing_substitutes stage invoke caller (List.cons_ne_nil "user" ["town"]) []).2 "town" rfl default
  exact ⟨hname, hvalue, ((hmissing "zip" rfl).2 default).2, hfails.1⟩

end HtmlTemplate
