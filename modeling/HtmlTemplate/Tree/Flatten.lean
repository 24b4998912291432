import HtmlTemplate.Tree.Basic

/-!
# Flattened trees

Bodies inside bodies and runs of literals do not show in what a template emits. Flattening moves the
children of an inner body up into the outer one and joins each run of literals into one.

## Contents

* `mergeLiterals` — joins adjacent literals;
* `Node.flatten` — flattens a tree everywhere, call arguments included.
-/

namespace HtmlTemplate

/-- Joins each run of literals into one, which stands where the first of them stood. -/
def mergeLiterals : List Node → List Node
  | [] => []
  | .literal location text :: nodes =>
    match mergeLiterals nodes with
    | .literal _ more :: rest => .literal location (text ++ more) :: rest
    | merged => .literal location text :: merged
  | node :: nodes => node :: mergeLiterals nodes

namespace Node

/-- What stands for a node among the children of a body: its own children if it is a body. -/
def splice : Node → List Node
  | body _ children => children
  | node => [node]

mutual

/-- Flattens a tree. -/
def flatten : Node → Node
  | body location children => body location (mergeLiterals (flattenAll children))
  | deferred location inner => deferred location inner.flatten
  | call location binding name args => call location binding name (flattenArgs args)
  | literal location text => literal location text
  | reference location mode path => reference location mode path

/-- The flattened children of a body, those of inner bodies moved up. -/
def flattenAll : List Node → List Node
  | [] => []
  | node :: nodes => node.flatten.splice ++ flattenAll nodes

/-- Flattens the trees of call arguments. -/
def flattenArgs : List (String × Node) → List (String × Node)
  | [] => []
  | (name, node) :: args => (name, node.flatten) :: flattenArgs args

end

end Node

end HtmlTemplate
