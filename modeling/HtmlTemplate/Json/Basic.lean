import HtmlTemplate.Number.Basic

/-!
# JSON documents

## Contents

* `Json` — the documents, members of an object in the order in which they were written.
-/

namespace HtmlTemplate

/-- A JSON document. Of members of the same name the last one counts. -/
inductive Json where
  | null
  | bool (value : Bool)
  | number (value : Number)
  | string (text : String)
  | array (items : List Json)
  | object (members : List (String × Json))
deriving Inhabited

end HtmlTemplate
