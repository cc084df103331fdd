import CallAudit.Scope.Table

/-!
# Scopes

What is in scope at some place of the code: the bindings of the module around it, and those of the
function around it, which come first.

## Main definitions

* `Declaration.entries`: the bindings that a declaration makes.
* `Scope`: the outer and the inner table.
* `Scope.find?`, `Scope.binds`: looking up a key.
* `Scope.declare`, `Scope.endFunction`: how a scope changes on the way through the code.
-/

namespace CallAudit

/-- The modules that a declaration is about: each module of the group inside `path`, or `path` itself
if there is no group. -/
def fullNames (path : ModuleName) : List ModuleName → List ModuleName
  | [] => [path]
  | group => group.map path.append

/-- The bindings that a declaration makes, in order. An imported module stands for itself. An alias
binds the last segment of a module, or the new name it is given; a new name for a whole group is
passed over. -/
def Declaration.entries : Declaration → List (ModuleName × Binding)
  | .importing path rule group =>
    (fullNames path group).map fun full => (full, ⟨full, Filter.ofRule rule⟩)
  | .aliasing path rename group =>
    (fullNames path group).map fun full =>
      match rename, group with
      | some name, [] => (⟨name, []⟩, ⟨full, .unrestricted⟩)
      | _, _ => (full.innermost, ⟨full, .unrestricted⟩)

/-- The bindings that a tree makes at its root. -/
def Tree.entries : Tree → List (ModuleName × Binding)
  | .declare declaration => declaration.entries
  | _ => []

/-- What is in scope at some place. -/
structure Scope where
  /-- The bindings made outside of functions. -/
  outer : Table := {}
  /-- The bindings made in the function around the place. -/
  inner : Table := {}
  deriving DecidableEq, Repr

namespace Scope

/-- The binding of a key; the function comes before the module. -/
def find? (s : Scope) (key : ModuleName) : Option Binding :=
  (s.inner.find? key).or (s.outer.find? key)

/-- Whether a key has a binding. -/
def binds (s : Scope) (key : ModuleName) : Bool := s.inner.contains key || s.outer.contains key

/-- The scope after the declaration at the root of a tree, which stands inside a function or not. -/
def declare (s : Scope) (t : Tree) (inFunction : Bool) : Scope :=
  if inFunction then { s with inner := s.inner.insertAll t.entries }
  else { s with outer := s.outer.insertAll t.entries }

/-- The scope after the end of a function. -/
def endFunction (s : Scope) : Scope := { s with inner := {} }

end Scope

end CallAudit
