import CallAudit.Json.Printer
import CallAudit.Tree.Basic

/-!
# Trees as data values

Every tree has one written form: an object with its kind first and then its fields in a fixed order.
Fields that are usually empty are left out when they are.

## Main definitions

* `Tree.json`: the value of a tree.
* `Tree.text`: its compact text.
-/

namespace CallAudit

/-- A number as a value. -/
def Json.ofNat (n : Nat) : Json := .number (.integer n)

/-- The list of the segments of a module name. -/
def ModuleName.json (m : ModuleName) : Json := .array (m.segments.map .string)

/-- The written name of a visibility. -/
def Visibility.display : Visibility → String
  | .public => "public"
  | .private => "private"

/-- The written name of a kind of definitions. -/
def ImportKind.display : ImportKind → String
  | .functions => "functions"
  | .macros => "macros"
  | .sigils => "sigils"

/-- The value of a function by name and arity. -/
def FunctionRef.json (f : FunctionRef) : Json :=
  .object [("name", .string f.name), ("arity", .ofNat f.arity)]

/-- The value of an import rule. -/
def ImportRule.json : ImportRule → Json
  | .only functions => .object [("only", .array (functions.map FunctionRef.json))]
  | .except functions => .object [("except", .array (functions.map FunctionRef.json))]
  | .onlyKind kind => .object [("only_category", .string kind.display)]

/-- A member that is left out when there is no value for it. -/
def optionalMember {α : Type} (name : String) (json : α → Json) : Option α → List (String × Json)
  | none => []
  | some value => [(name, json value)]

/-- The member for the modules of a group, left out when there are none. -/
def groupMember : List ModuleName → List (String × Json)
  | [] => []
  | group => [("group", .array (group.map ModuleName.json))]

/-- The value of a declaration. -/
def Declaration.json : Declaration → Json
  | .importing path rule group =>
    .object ([("kind", .string "import"), ("path", path.json)] ++
      optionalMember "options" ImportRule.json rule ++ groupMember group)
  | .aliasing path rename group =>
    .object ([("kind", .string "alias"), ("path", path.json)] ++
      optionalMember "as" .string rename ++ groupMember group)

/-- The value of a callee with a receiver. -/
def qualifiedCallee (receiver : Json) (name : String) : Json :=
  .object [("type", .string "remote"), ("qualifier", receiver), ("name", .string name)]

/-- The value of a callee. -/
def Callee.json : Callee → Json
  | .bare name => .object [("type", .string "local"), ("name", .string name)]
  | .ofAtom atom name =>
    qualifiedCallee (.object [("type", .string "atom"), ("name", .string atom)]) name
  | .ofModule module name =>
    qualifiedCallee (.object [("type", .string "alias"), ("path", module.json)]) name

namespace Tree

/-- The value of a definition or a function head. -/
def definitionJson (visibility : Visibility) (name : String) (params body : Json) : Json :=
  .object [("kind", .string "def"), ("visibility", .string visibility.display),
    ("name", .string name), ("params", params), ("body", body)]

mutual

/-- The value of a tree. -/
def json : Tree → Json
  | .call callee args =>
    .object [("kind", .string "call"), ("callee", callee.json), ("args", .array (jsonAll args))]
  | .callOn receiver name args =>
    .object [("kind", .string "call"),
      ("callee", qualifiedCallee (.object [("type", .string "expr"), ("node", json receiver)]) name),
      ("args", .array (jsonAll args))]
  | .define visibility name params body =>
    definitionJson visibility name (.array (jsonAll params)) (.array (jsonAll body))
  | .head visibility name params =>
    definitionJson visibility name (.array (jsonAll params)) .null
  | .declare declaration => declaration.json
  | .var name => .object [("kind", .string "var"), ("name", .string name)]
  | .literal value => .object [("kind", .string "literal"), ("value", value)]
  | .other form children =>
    .object (("kind", .string "other") :: optionalMember "form" .string form ++
      [("children", .array (jsonAll children))])
termination_by structural t => t

/-- The values of all trees. -/
def jsonAll : List Tree → List Json
  | [] => []
  | t :: ts => json t :: jsonAll ts
termination_by structural ts => ts

end

/-- The compact text of a tree. -/
def text (t : Tree) : String := t.json.compact

end Tree

end CallAudit
