import CallAudit.Reading.Stream
import CallAudit.Tree.Basic

/-!
# Reading trees

A tree is read from a text whose containers are nested at most `Json.greatestDepth` deep. The root is
read to its end before anything but its kind is looked at. Then each node is looked at from its kind
to its fields, in the order of the text.

## Main definitions

* `Tree.Reader.node`: the tree that a value is.
* `Tree.ofText`: the tree that a text holds, or why it holds none.
-/

namespace CallAudit.Tree

open Reading

namespace Reader

/-- The kinds of nodes. -/
inductive Kind where
  | call
  | definition
  | importing
  | aliasing
  | var
  | literal
  | other
  deriving DecidableEq

/-- The kinds by name. -/
def kinds : List (String × Kind) :=
  [("call", .call), ("def", .definition), ("import", .importing), ("alias", .aliasing),
    ("var", .var), ("literal", .literal), ("other", .other)]

/-- The visibilities by name. -/
def visibilities : List (String × Visibility) := [("public", .public), ("private", .private)]

/-- The kinds of definitions by name. -/
def importKinds : List (String × ImportKind) :=
  [("functions", .functions), ("macros", .macros), ("sigils", .sigils)]

/-- A function by name and arity. -/
def functionRef : Record Json (Option String × Option Nat) FunctionRef where
  title := "struct FunctionArity"
  blank := (none, none)
  fields :=
    [("name", fun v draft => v.asText.map fun name => (some name, draft.2)),
      ("arity", fun v draft => v.asArity.map fun arity => (draft.1, some arity))]
  finish lack
    | (none, _) => .error (lack 0 "name")
    | (_, none) => .error (lack 1 "arity")
    | (some name, some arity) => .ok ⟨name, arity⟩

/-- The functions that an import rule lists. -/
def functionRefs (v : Json) : Except Fault (List FunctionRef) :=
  v.asList fun item => item.asRecord functionRef

/-- The import rules by name. -/
def importRules : List (String × (Json → Except Fault ImportRule)) :=
  [("only", fun v => (functionRefs v).map .only),
    ("except", fun v => (functionRefs v).map .except),
    ("only_category", fun v => (v.asChoice importKinds).map .onlyKind)]

/-- What stands before the name in a qualified call. -/
inductive Receiver where
  | atom (name : String)
  | module (name : ModuleName)
  | computed (tree : Tree)

/-- What is called, with the receiver as it stands in the text. -/
inductive Target where
  | bare (name : String)
  | qualified (receiver : Receiver) (name : String)

/-- The call of a target. -/
def Target.call : Target → List Tree → Tree
  | .bare name, args => .call (.bare name) args
  | .qualified (.atom atom) name, args => .call (.ofAtom atom name) args
  | .qualified (.module module) name, args => .call (.ofModule module name) args
  | .qualified (.computed tree) name, args => .callOn tree name args

/-- A record with a single text. -/
def named {α : Type} (title field : String) (make : String → α) :
    Record Json (Option String) α where
  title := title
  blank := none
  fields := [(field, fun v _ => v.asText.map some)]
  finish lack
    | none => .error (lack 0 field)
    | some name => .ok (make name)

/-- A receiver that is a module. -/
def moduleReceiver : Record Json (Option ModuleName) Receiver where
  title := "struct variant Qualifier::Alias"
  blank := none
  fields := [("path", fun v _ => v.asModuleName.map some)]
  finish lack
    | none => .error (lack 0 "path")
    | some name => .ok (.module name)

section Nodes

/-! The parts of a node that may hold further nodes take the reader of those as an argument. -/

variable (sub : Json → Except Fault Tree)

/-- A receiver that is computed. -/
def computedReceiver : Record Json (Option Tree) Receiver where
  title := "struct variant Qualifier::Expr"
  blank := none
  fields := [("node", fun v _ => (sub v).map some)]
  finish lack
    | none => .error (lack 0 "node")
    | some tree => .ok (.computed tree)

/-- The readers of receivers by name. -/
def receivers : List (String × (Json.Fields → Except Fault Receiver)) :=
  [("atom", Json.Fields.asRecord (named "struct variant Qualifier::Atom" "name" .atom)),
    ("alias", Json.Fields.asRecord moduleReceiver),
    ("expr", Json.Fields.asRecord (computedReceiver sub))]

/-- The receiver that a value is. -/
def receiver (v : Json) : Except Fault Receiver := do
  let (read, fields) ← v.asTagged "type" "Qualifier" (receivers sub)
  read fields

/-- A target with a receiver. -/
def qualifiedTarget : Record Json (Option Receiver × Option String) Target where
  title := "struct variant Callee::Remote"
  blank := (none, none)
  fields :=
    [("qualifier", fun v draft => (receiver sub v).map fun r => (some r, draft.2)),
      ("name", fun v draft => v.asText.map fun name => (draft.1, some name))]
  finish lack
    | (none, _) => .error (lack 0 "qualifier")
    | (_, none) => .error (lack 1 "name")
    | (some receiver, some name) => .ok (.qualified receiver name)

/-- The readers of targets by name. -/
def targets : List (String × (Json.Fields → Except Fault Target)) :=
  [("local", Json.Fields.asRecord (named "struct variant Callee::Local" "name" .bare)),
    ("remote", Json.Fields.asRecord (qualifiedTarget sub))]

/-- The target that a value is. -/
def target (v : Json) : Except Fault Target := do
  let (read, fields) ← v.asTagged "type" "Callee" (targets sub)
  read fields

/-- A call. -/
def call : Record Json (Option Target × List Tree) Tree where
  title := "struct variant Node::Call"
  blank := (none, [])
  fields :=
    [("callee", fun v draft => (target sub v).map fun t => (some t, draft.2)),
      ("args", fun v draft => (v.asList sub).map fun args => (draft.1, args))]
  finish lack
    | (none, _) => .error (lack 0 "callee")
    | (some target, args) => .ok (target.call args)

/-- What is known of a definition while it is read. -/
structure DefinitionDraft where
  visibility : Option Visibility := none
  name : Option String := none
  params : List Tree := []
  body : Option (List Tree) := none

/-- A definition, or a function head. -/
def definition : Record Json DefinitionDraft Tree where
  title := "struct variant Node::Def"
  blank := {}
  fields :=
    [("visibility", fun v draft =>
        (v.asChoice visibilities).map fun visibility => { draft with visibility := some visibility }),
      ("name", fun v draft => v.asText.map fun name => { draft with name := some name }),
      ("params", fun v draft => (v.asList sub).map fun params => { draft with params := params }),
      ("body", fun v draft =>
        (v.asOption fun v => v.asList sub).map fun body => { draft with body := body })]
  finish lack draft :=
    match draft.visibility, draft.name, draft.body with
    | none, _, _ => .error (lack 0 "visibility")
    | _, none, _ => .error (lack 1 "name")
    | some visibility, some name, some body => .ok (.define visibility name draft.params body)
    | some visibility, some name, none => .ok (.head visibility name draft.params)

/-- What is known of a declaration with a detail of type `α` while it is read. -/
structure DeclarationDraft (α : Type) where
  path : Option ModuleName := none
  detail : Option α := none
  group : List ModuleName := []

/-- A declaration with a detail of type `α` in the given field. -/
def declaration {α : Type} (title field : String) (detail : Json → Except Fault α)
    (make : ModuleName → Option α → List ModuleName → Declaration) :
    Record Json (DeclarationDraft α) Tree where
  title := title
  blank := {}
  fields :=
    [("path", fun v draft => v.asModuleName.map fun path => { draft with path := some path }),
      (field, fun v draft => (v.asOption detail).map fun d => { draft with detail := d }),
      ("group", fun v draft =>
        (v.asList Json.asModuleName).map fun group => { draft with group := group })]
  finish lack draft :=
    match draft.path with
    | none => .error (lack 0 "path")
    | some path => .ok (.declare (make path draft.detail draft.group))

/-- An import. -/
def importing : Record Json (DeclarationDraft ImportRule) Tree :=
  declaration "struct variant Node::Import" "options" (Json.asPayload importRules) .importing

/-- An alias. -/
def aliasing : Record Json (DeclarationDraft String) Tree :=
  declaration "struct variant Node::Alias" "as" Json.asText .aliasing

/-- A literal. -/
def literal : Record Json (Option Json) Tree where
  title := "struct variant Node::Literal"
  blank := none
  fields := [("value", fun v _ => .ok (some v.canonical))]
  finish lack
    | none => .error (lack 0 "value")
    | some value => .ok (.literal value)

/-- Any other form. -/
def other : Record Json (Option String × List Tree) Tree where
  title := "struct variant Node::Other"
  blank := (none, [])
  fields :=
    [("form", fun v draft => (v.asOption Json.asText).map fun form => (form, draft.2)),
      ("children", fun v draft => (v.asList sub).map fun children => (draft.1, children))]
  finish _ draft := .ok (.other draft.1 draft.2)

/-- The tree of a kind with the given fields. -/
def ofFields : Kind → Json.Fields → Except Fault Tree
  | .call, fields => fields.asRecord (call sub)
  | .definition, fields => fields.asRecord (definition sub)
  | .importing, fields => fields.asRecord importing
  | .aliasing, fields => fields.asRecord aliasing
  | .var, fields => fields.asRecord (named "struct variant Node::Var" "name" .var)
  | .literal, fields => fields.asRecord literal
  | .other, fields => fields.asRecord (other sub)

end Nodes

/-- The tree that a value is. Every node is a container, so a value with containers nested at most
`depth` deep never exhausts the depth. -/
def node : Nat → Json → Except Fault Tree
  | 0, _ => .error .malformed
  | depth + 1, v => do
    let (kind, fields) ← v.asTagged "kind" "Node" kinds
    ofFields (node depth) kind fields

/-- The tree that a document is. -/
def root (d : Json.Document) : Except Fault Tree := do
  let (kind, fields) ← d.asTagged Json.greatestDepth "kind" "Node" kinds
  ofFields (node Json.greatestDepth) kind fields

end Reader

/-- The tree that a text holds. -/
def ofText (s : String) : Except Fault Tree := Reading.ofText Reader.root s

end CallAudit.Tree
