import HtmlTemplate.Tree.Basic
import HtmlTemplate.Text.Quoted

/-!
# Trees as text

A tree written on one line, locations left out.

## Contents

* `Node.display` — the text of a tree.
-/

namespace HtmlTemplate

/-- The word for a kind of reference. -/
def RefMode.word : RefMode → String
  | .passed => "ParamRef"
  | .raw => "HtmlRef"
  | .escaped => "TextRef"

/-- The word for a kind of call. -/
def Binding.word : Binding → String
  | .internal => "IntCall"
  | .external => "ExtCall"

namespace Node

mutual

/-- The tree as text: what each node is, and its parts in parentheses or brackets. -/
def display : Node → String
  | literal _ text => "Literal(" ++ quoted text ++ ")"
  | deferred _ inner => "ParamBody(" ++ inner.display ++ ")"
  | reference _ mode path => mode.word ++ "(" ++ path.display ++ ")"
  | call _ binding name args =>
    binding.word ++ "(" ++ name ++ ": " ++ ", ".intercalate (displayArgs args) ++ ")"
  | body _ children => "Body[" ++ ", ".intercalate (displayAll children) ++ "]"

/-- The texts of some trees. -/
def displayAll : List Node → List String
  | [] => []
  | node :: nodes => node.display :: displayAll nodes

/-- The texts of some arguments. -/
def displayArgs : List (String × Node) → List String
  | [] => []
  | (name, node) :: args => (name ++ "=" ++ node.display) :: displayArgs args

end

end Node

end HtmlTemplate
