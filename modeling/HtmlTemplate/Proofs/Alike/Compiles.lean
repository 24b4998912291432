import HtmlTemplate.Proofs.Alike.Readers
import HtmlTemplate.Proofs.Alike.Scans
import HtmlTemplate.Proofs.Session.Completed

/-!
# Compiling one source in two engines

Which definitions a compile completes does not depend on the engine. On two engines they have the same names, in the
same order, and trees that are alike: the places in them are the same ranges of the source under its two numbers, and
only the bindings of calls tell what had been defined before.

## Contents

* `anyBinding` — calls whose bindings need have nothing in common;
* `Engine.completedIn_alike`, `Engine.completed_alike` — the definitions that two compiles complete, and the errors that
  they stop at.
-/

namespace HtmlTemplate

variable {σ σ' : Type}

/-- A call may be of either kind, whatever its name is. -/
def anyBinding (_name : String) (_target _target' : Binding) : Prop := True

namespace Engine

variable {place : Location → Location → Prop}

/-- Definitions that are read in step are completed in step, up to the same error, whatever they are read against. -/
theorem completedIn_alike (file file' bound : Nat) :
    ∀ (engine : Engine σ) (engine' : Engine σ') (tokens tokens' : List Token),
      List.Forall₂ (Token.Alike place) tokens tokens' →
        List.Forall₂ (Definition.Alike place anyBinding) (completedIn file bound engine tokens)
          (completedIn file' bound engine' tokens') ∧
        Option.Rel (SyntaxError.Alike place) (defineAll file bound engine tokens).2
          (defineAll file' bound engine' tokens').2 := by
  induction bound with
  | zero => exact fun _ _ _ _ _ => ⟨.nil, .none⟩
  | succ bound ih =>
    intro engine engine' tokens tokens' htokens
    have hscope : Definition.ScopesAlike anyBinding ⟨file, engine.registry.isInternal⟩
        ⟨file', engine'.registry.isInternal⟩ := fun _ => trivial
    have hnext := Definition.nextDefinition_alike hscope tokens tokens' htokens
    rw [completedIn, completedIn, defineAll, defineAll]
    generalize Definition.nextDefinition _ tokens = answer, Definition.nextDefinition _ tokens' = answer' at hnext
    cases hnext with
    | error herror _ => exact ⟨.nil, .some herror⟩
    | ok hfound hrest =>
      cases hfound with
      | none => exact ⟨.nil, .none⟩
      | @some definition definition' hdefinition =>
        obtain ⟨hmore, herror⟩ := ih (engine.define definition.name definition.body)
          (engine'.define definition'.name definition'.body) _ _ hrest
        exact ⟨.cons hdefinition hmore, herror⟩

/-- **A source has the same definitions in every engine**, up to its number and the bindings of calls. -/
theorem completed_alike (engine : Engine σ) (engine' : Engine σ') (code fileName fileName' : String)
    (hplace : ∀ range, place ⟨engine.sources.size, range⟩ ⟨engine'.sources.size, range⟩) :
    List.Forall₂ (Definition.Alike place anyBinding) (engine.completed code fileName)
      (engine'.completed code fileName') := by
  have htokens := scan_alike code hplace
  unfold completed
  dsimp only
  rw [← htokens.length_eq]
  exact (completedIn_alike _ _ _ _ _ _ _ htokens).1

end Engine

end HtmlTemplate
