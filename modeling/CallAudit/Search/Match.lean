import CallAudit.Name.Signature
import CallAudit.Scope.Basic

/-!
# Matching calls

Whether a call at some place is a call of the function that a signature describes. A call in a module
matches if the module is the one of the signature, or becomes it through the scope. A call of a bare
name matches a signature without a module, and a signature whose module is in scope and lets the name
through.

## Main definitions

* `Scope.aliasReaches`, `Scope.importReaches`: the two ways in which a written module becomes another.
* `Signature.matchesCallee`: whether a callee with some number of arguments is meant.
* `Tree.isCallTo`: the same for a tree and a signature that may be absent.
* `encloses`: whether a signature names the function around a place.
-/

namespace CallAudit

namespace Scope

/-- Whether the first segment of `written` is bound to a module that makes it `target`. -/
def aliasReaches (s : Scope) (written target : ModuleName) : Bool :=
  match s.find? written.outermost with
  | some binding => binding.path.extend written.rest == target
  | none => false

/-- Whether `target` without the segments of `written` has a binding. -/
def importReaches (s : Scope) (written target : ModuleName) : Bool :=
  match target.without written with
  | some remainder => s.binds remainder
  | none => false

/-- Whether `target` has a binding that lets a function be called by its bare name. -/
def admits (s : Scope) (target : ModuleName) (f : FunctionRef) : Bool :=
  match s.find? target with
  | some binding => binding.filter.admits f
  | none => false

end Scope

/-- Whether a call of `callee` with `arity` arguments is a call of the function described. -/
def Signature.matchesCallee (sig : Signature) (callee : Callee) (arity : Nat) (scope : Scope) :
    Bool :=
  match callee, sig.module? with
  | .ofAtom atom name, some target => target == ModuleName.atom atom && sig.name.admits name
  | .bare name, none => sig.name.admits name
  | .bare name, some target => sig.name.admits name && scope.admits target ⟨name, arity⟩
  | .ofModule written name, some target =>
    sig.name.admits name &&
      (written == target || scope.aliasReaches written target || scope.importReaches written target)
  | .ofAtom _ _, none => false
  | .ofModule _ _, none => false

/-- Whether a tree is a call of the function described. Without a signature nothing is. -/
def Tree.isCallTo (t : Tree) (sig : Option Signature) (scope : Scope) : Bool :=
  match t, sig with
  | .call callee args, some sig => sig.matchesCallee callee args.length scope
  | _, _ => false

/-- Whether the signature names the function around a place; its module does not count. -/
def encloses (current : Option String) (sig : Option Signature) : Bool :=
  match current, sig with
  | some name, some sig => sig.name.isName name
  | _, _ => false

/-- Whether a tree defines the function that the signature names, with a body that is not empty. -/
def Tree.defines (t : Tree) (sig : Option Signature) : Bool :=
  match t, sig with
  | .define _ name _ body, some sig => sig.name.isName name && !body.isEmpty
  | _, _ => false

end CallAudit
