import CallAudit.Json.Basic
import CallAudit.Name.Module

/-!
# Syntax trees

The trees in which calls are looked for. They keep apart what matters to a call: calls of a bare
name, of a name in a module and of a name on a computed receiver; definitions with a body and
function heads without one; declarations that bring modules into scope. Everything else is some other
form with children.

## Main definitions

* `Tree`: syntax trees, with decidable equality.
* `Tree.children`: the subtrees in the order in which they are visited.
* `Tree.visit`: a walk through a tree that does something before and after the children of each
  node; `Tree.visit_eq` is its rule.
-/

namespace CallAudit

/-- Whether a function can be called from outside its module. -/
inductive Visibility where
  | «public»
  | «private»
  deriving DecidableEq, Repr

/-- A function by its name and the number of its arguments. -/
structure FunctionRef where
  name : String
  arity : Nat
  deriving DecidableEq, Repr

/-- A kind of definitions that an import may be limited to. -/
inductive ImportKind where
  | functions
  | macros
  | sigils
  deriving DecidableEq, Repr

/-- What an import is limited to. -/
inductive ImportRule where
  | only (functions : List FunctionRef)
  | except (functions : List FunctionRef)
  | onlyKind (kind : ImportKind)
  deriving DecidableEq, Repr

/-- A declaration that brings modules into scope. With a group, it stands for one declaration for
each module of the group inside the module `path`. -/
inductive Declaration where
  | importing (path : ModuleName) (rule : Option ImportRule) (group : List ModuleName)
  | aliasing (path : ModuleName) (rename : Option String) (group : List ModuleName)
  deriving DecidableEq, Repr

/-- What is called, where it can be told from the names in the call. -/
inductive Callee where
  /-- A name by itself. -/
  | bare (name : String)
  /-- A name in the module of an atom. -/
  | ofAtom (atom : String) (name : String)
  /-- A name in a module. -/
  | ofModule (module : ModuleName) (name : String)
  deriving DecidableEq, Repr

/-- A syntax tree. -/
inductive Tree where
  | call (callee : Callee) (args : List Tree)
  /-- A call on a receiver that is computed. -/
  | callOn (receiver : Tree) (name : String) (args : List Tree)
  | define (visibility : Visibility) (name : String) (params body : List Tree)
  /-- A function head, which has no body. -/
  | head (visibility : Visibility) (name : String) (params : List Tree)
  | declare (declaration : Declaration)
  | var (name : String)
  | literal (value : Json)
  | other (form : Option String) (children : List Tree)
  deriving Inhabited

namespace Tree

mutual

/-- Whether two trees are the same. -/
def same : Tree → Tree → Bool
  | .call c as, .call d bs => c == d && sameAll as bs
  | .callOn r n as, .callOn s m bs => same r s && n == m && sameAll as bs
  | .define v n ps bs, .define w m qs cs => v == w && n == m && sameAll ps qs && sameAll bs cs
  | .head v n ps, .head w m qs => v == w && n == m && sameAll ps qs
  | .declare d, .declare e => d == e
  | .var n, .var m => n == m
  | .literal a, .literal b => a == b
  | .other f as, .other g bs => f == g && sameAll as bs
  | _, _ => false
termination_by structural t => t

/-- Whether two lists of trees are the same. -/
def sameAll : List Tree → List Tree → Bool
  | [], [] => true
  | t :: ts, u :: us => same t u && sameAll ts us
  | _, _ => false
termination_by structural ts => ts

end

mutual

/-- The comparison decides equality of trees. -/
theorem same_iff : ∀ t u : Tree, same t u = true ↔ t = u
  | .call _ as, u => by cases u <;> simp [same, sameAll_iff as]
  | .callOn r _ as, u => by cases u <;> simp [same, same_iff r, sameAll_iff as, and_assoc]
  | .define _ _ ps bs, u => by
    cases u <;> simp [same, sameAll_iff ps, sameAll_iff bs, and_assoc]
  | .head _ _ ps, u => by cases u <;> simp [same, sameAll_iff ps, and_assoc]
  | .declare _, u => by cases u <;> simp [same]
  | .var _, u => by cases u <;> simp [same]
  | .literal _, u => by cases u <;> simp [same]
  | .other _ ts, u => by cases u <;> simp [same, sameAll_iff ts]

/-- The comparison decides equality of lists of trees. -/
theorem sameAll_iff : ∀ ts us : List Tree, sameAll ts us = true ↔ ts = us
  | [], us => by cases us <;> simp [sameAll]
  | t :: ts, us => by cases us <;> simp [sameAll, same_iff t, sameAll_iff ts]

end

instance : DecidableEq Tree := fun t u => decidable_of_iff (same t u = true) (same_iff t u)

/-- The subtrees directly below the root: the receiver before the arguments, the parameters before
the body. -/
def children : Tree → List Tree
  | .call _ args => args
  | .callOn receiver _ args => receiver :: args
  | .define _ _ params body => params ++ body
  | .head _ _ params => params
  | .declare _ => []
  | .var _ => []
  | .literal _ => []
  | .other _ children => children

/-- Whether a tree is a call. -/
def isCall : Tree → Bool
  | .call _ _ => true
  | .callOn _ _ _ => true
  | _ => false

/-- The name of the function that a tree defines. A function head defines none. -/
def definedName? : Tree → Option String
  | .define _ name _ _ => some name
  | _ => none

/-- Whether a tree defines a function. -/
def definesFunction (t : Tree) : Bool := t.definedName?.isSome

section Visit

variable {σ : Type}

mutual

/-- Walks through a tree: `enter` at the root, then the children from left to right, then
`leave` at the root. -/
def visit (enter leave : Tree → σ → σ) : Tree → σ → σ
  | .call callee args, s =>
    leave (.call callee args) (visitAll enter leave args (enter (.call callee args) s))
  | .callOn receiver name args, s =>
    leave (.callOn receiver name args)
      (visitAll enter leave args
        (visit enter leave receiver (enter (.callOn receiver name args) s)))
  | .define visibility name params body, s =>
    leave (.define visibility name params body)
      (visitAll enter leave body
        (visitAll enter leave params (enter (.define visibility name params body) s)))
  | .head visibility name params, s =>
    leave (.head visibility name params)
      (visitAll enter leave params (enter (.head visibility name params) s))
  | .declare declaration, s => leave (.declare declaration) (enter (.declare declaration) s)
  | .var name, s => leave (.var name) (enter (.var name) s)
  | .literal value, s => leave (.literal value) (enter (.literal value) s)
  | .other form children, s =>
    leave (.other form children) (visitAll enter leave children (enter (.other form children) s))
termination_by structural t => t

/-- Walks through trees from left to right. -/
def visitAll (enter leave : Tree → σ → σ) : List Tree → σ → σ
  | [], s => s
  | t :: ts, s => visitAll enter leave ts (visit enter leave t s)
termination_by structural ts => ts

end

variable (enter leave : Tree → σ → σ)

/-- Walking through trees is walking through one after the other. -/
theorem visitAll_eq_foldl (ts : List Tree) (s : σ) :
    visitAll enter leave ts s = ts.foldl (fun s t => visit enter leave t s) s := by
  induction ts generalizing s with
  | nil => rfl
  | cons t ts ih => simp [visitAll, ih]

/-- A walk enters the root, walks through the children and leaves the root. -/
theorem visit_eq (t : Tree) (s : σ) :
    visit enter leave t s =
      leave t (t.children.foldl (fun s t => visit enter leave t s) (enter t s)) := by
  cases t <;> simp [visit, children, visitAll_eq_foldl]

end Visit

end Tree

end CallAudit
