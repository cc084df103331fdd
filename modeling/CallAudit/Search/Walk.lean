import CallAudit.Search.Match

/-!
# Searching a tree

A search walks through a tree once and keeps the scope and the function it is in. On the way into a
node it takes up declarations and enters definitions; on the way out it looks whether the node is a
call that is searched for, and leaves definitions.

## Main definitions

* `Query`: the function that is called, and the function that calls it.
* `Search`: the state of a walk.
* `Query.walk`: a walk through a tree.
* `Query.occursIn`: whether a tree holds a call that is searched for.
-/

namespace CallAudit

/-- What is searched for: calls of `called`, and only those inside `caller` if it is given. -/
structure Query where
  called : Option Signature
  caller : Option Signature
  deriving DecidableEq, Repr

/-- The state of a walk through a tree. -/
structure Search where
  /-- The name of the function that the walk is in. -/
  current : Option String := none
  scope : Scope := {}
  found : Bool := false
  deriving DecidableEq, Repr

namespace Query

/-- The state after entering a node: its declarations are in scope, and a definition is the function
that the walk is in. -/
def enter (t : Tree) (s : Search) : Search :=
  { s with
    scope := s.scope.declare t s.current.isSome
    current := t.definedName?.or s.current }

/-- Whether a node in the function `current` is searched for. A function does not count as calling
itself. -/
def hits (q : Query) (t : Tree) (current : Option String) (scope : Scope) : Bool :=
  t.isCallTo q.called scope && !encloses current q.called &&
    (q.caller.isNone || encloses current q.caller)

/-- The state after a definition: the walk is in no function, and nothing of one is in scope. -/
def leaveDefinition (t : Tree) (s : Search) : Search :=
  if t.definesFunction then { s with current := none, scope := s.scope.endFunction } else s

/-- The state after leaving a node. Only calls are looked at, and none after something was found. -/
def leave (q : Query) (t : Tree) (s : Search) : Search :=
  leaveDefinition t { s with found := s.found || (t.isCall && q.hits t s.current s.scope) }

/-- Walks through a tree. -/
def walk (q : Query) (t : Tree) (s : Search) : Search := t.visit enter q.leave s

/-- Whether a tree holds a call that is searched for. -/
def occursIn (q : Query) (t : Tree) : Bool := (q.walk t {}).found

/-- A walk enters the root, walks through the children and leaves the root. -/
theorem walk_eq (q : Query) (t : Tree) (s : Search) :
    q.walk t s = q.leave t (t.children.foldl (fun s t => q.walk t s) (enter t s)) :=
  Tree.visit_eq enter q.leave t s

end Query

end CallAudit
