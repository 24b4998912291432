import HtmlTemplate.Token.Basic
import HtmlTemplate.Value.Basic

/-!
# Errors of rendering

## Contents

* `RenderError`, `RenderError.message` — why a template cannot be rendered;
* `RenderError.location` — the place to blame.
-/

namespace HtmlTemplate

/-- Why a template cannot be rendered. -/
inductive RenderError where
  /-- The segment `segment` of a path is missing. -/
  | paramNotFound (location : Location) (segment : String) (path : Path)
  /-- The target of a call does not exist. -/
  | notDefined (location : Location) (name : String)
  /-- The template to render does not exist. -/
  | templateNotFound (name : String)
  /-- The value of a path has no text. -/
  | notRenderable (location : Location) (path : Path) (kind : ValueKind)
deriving DecidableEq, Inhabited

namespace RenderError

/-- The error as a sentence. -/
def message : RenderError → String
  | paramNotFound _ segment path =>
    "Parameter `" ++ segment ++ "` not found while resolving `@" ++ path.display ++ "`"
  | notDefined _ name | templateNotFound name => "Template `" ++ name ++ "` is not defined"
  | notRenderable _ path kind =>
    "Value of `@" ++ path.display ++ "` is a " ++ kind.name ++ " and cannot be rendered as text"

/-- The place to blame. A template that the host asked for has none. -/
def location : RenderError → Option Location
  | paramNotFound place _ _ | notDefined place _ | notRenderable place _ _ => some place
  | templateNotFound _ => none

end RenderError

end HtmlTemplate
