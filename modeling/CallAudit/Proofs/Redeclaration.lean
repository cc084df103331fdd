import CallAudit.Proofs.Simulation

/-!
# Searches that ignore declarations

A signature without a module means calls of a bare name, and no look-up decides about them. A search
for it gives the same answer in two trees that differ in their declarations only, wherever these
stand. From the first declaration that differs, the two walks have nothing in common in their scopes,
but they are in the same function at every point and find the same calls.

## Main definitions

* `Tree.Redeclared`: a tree with declarations replaced or taken out.

## Main statements

* `Tree.Redeclared.isCallTo_eq`: matching without a module looks at no scope.
* `Query.occursIn_redeclared`: a search without a module ignores declarations.
-/

namespace CallAudit

namespace Tree

/-- The second tree is the first one with declarations replaced, at any depth, by other declarations
or by some other form that has no children. -/
inductive Redeclared : Tree → Tree → Prop
  | replaced (d e : Declaration) : Redeclared (.declare d) (.declare e)
  | removed (d : Declaration) (form : Option String) : Redeclared (.declare d) (.other form [])
  | call (callee : Callee) {as bs : List Tree} (hargs : List.Forall₂ Redeclared as bs) :
      Redeclared (.call callee as) (.call callee bs)
  | callOn {r r' : Tree} (hreceiver : Redeclared r r') (name : String) {as bs : List Tree}
      (hargs : List.Forall₂ Redeclared as bs) : Redeclared (.callOn r name as) (.callOn r' name bs)
  | define (visibility : Visibility) (name : String) {ps qs as bs : List Tree}
      (hparams : List.Forall₂ Redeclared ps qs) (hbody : List.Forall₂ Redeclared as bs) :
      Redeclared (.define visibility name ps as) (.define visibility name qs bs)
  | head (visibility : Visibility) (name : String) {ps qs : List Tree}
      (hparams : List.Forall₂ Redeclared ps qs) :
      Redeclared (.head visibility name ps) (.head visibility name qs)
  | var (name : String) : Redeclared (.var name) (.var name)
  | literal (value : Json) : Redeclared (.literal value) (.literal value)
  | other (form : Option String) {as bs : List Tree} (hchildren : List.Forall₂ Redeclared as bs) :
      Redeclared (.other form as) (.other form bs)

namespace Redeclared

variable {t u : Tree}

theorem children (h : t.Redeclared u) : List.Forall₂ Redeclared t.children u.children := by
  cases h with
  | replaced d e => exact .nil
  | removed d form => exact .nil
  | call callee hargs => exact hargs
  | callOn hreceiver name hargs => exact .cons hreceiver hargs
  | define visibility name hparams hbody => exact List.rel_append hparams hbody
  | head visibility name hparams => exact hparams
  | var name => exact .nil
  | literal value => exact .nil
  | other form hchildren => exact hchildren

theorem definedName?_eq (h : t.Redeclared u) : t.definedName? = u.definedName? := by
  cases h <;> rfl

/-- A signature without a module matches a node whatever is in scope, and so it does after its
declarations are replaced. -/
theorem isCallTo_eq (h : t.Redeclared u) (pattern : NamePattern) (s s' : Scope) :
    t.isCallTo (some ⟨none, pattern⟩) s = u.isCallTo (some ⟨none, pattern⟩) s' := by
  cases h with
  | call callee hargs => cases callee <;> rfl
  | _ => rfl

end Redeclared

end Tree

namespace Query

variable (pattern : NamePattern) (caller : Option Signature)

/-- Two searches without a module, through trees that differ in declarations, stay in step, with
nothing kept between what they have in scope. -/
theorem redeclared_simulation :
    Simulation ⟨some ⟨none, pattern⟩, caller⟩ ⟨some ⟨none, pattern⟩, caller⟩ Tree.Redeclared Eq
      (fun _ _ => True) Eq where
  children h := h.children
  defines h := by rw [Tree.definesFunction, Tree.definesFunction, h.definedName?_eq]
  outside := rfl
  current := by
    rintro t u c _ h rfl
    rw [h.definedName?_eq]
  declare _ _ _ := trivial
  endFunction _ := trivial
  hits := by
    rintro t u c _ s s' h rfl _
    rw [hits, hits, h.isCallTo_eq pattern s s']
  either := by
    rintro a _ b _ rfl rfl
    rfl

/-- A search for a signature without a module gives the same answer after declarations anywhere in
the tree are replaced by others or taken out. -/
theorem occursIn_redeclared {t u : Tree} (h : t.Redeclared u) :
    occursIn ⟨some ⟨none, pattern⟩, caller⟩ t = occursIn ⟨some ⟨none, pattern⟩, caller⟩ u :=
  (redeclared_simulation pattern caller).occursIn trivial rfl h

/-- Declarations at the top, among parameters and arguments and in place of a receiver, and a call of
a bare name. -/
def declaringModule : Tree :=
  .other (some "defmodule") [
    .declare (.importing ⟨"Helpers", []⟩ (some (.only [⟨"helper", 0⟩])) []),
    .define .public "run" [.declare (.aliasing ⟨"App", ["Repo"]⟩ none [])] [
      .callOn (.declare (.aliasing ⟨"App", ["Repo"]⟩ none [])) "size" [],
      .call (.bare "helper") [.declare (.importing ⟨"Helpers", []⟩ none [])]]]

/-- The same module with declarations replaced and taken out. -/
def redeclaredModule : Tree :=
  .other (some "defmodule") [
    .other (some "comment") [],
    .define .public "run" [.declare (.importing ⟨"Other", []⟩ none [⟨"A", []⟩, ⟨"B", []⟩])] [
      .callOn (.other none []) "size" [],
      .call (.bare "helper") [.declare (.aliasing ⟨"Helpers", []⟩ (some "H") [])]]]

theorem occursIn_redeclaredModule :
    declaringModule.Redeclared redeclaredModule ∧
      occursIn ⟨some (.unqualified "helper"), some (.unqualified "run")⟩ declaringModule = true ∧
      occursIn ⟨some (.unqualified "helper"), some (.unqualified "run")⟩ redeclaredModule = true := by
  have hparams : List.Forall₂ Tree.Redeclared
      [.declare (.aliasing ⟨"App", ["Repo"]⟩ none [])]
      [.declare (.importing ⟨"Other", []⟩ none [⟨"A", []⟩, ⟨"B", []⟩])] :=
    .cons (.replaced _ _) .nil
  have hbody : List.Forall₂ Tree.Redeclared
      [.callOn (.declare (.aliasing ⟨"App", ["Repo"]⟩ none [])) "size" [],
        .call (.bare "helper") [.declare (.importing ⟨"Helpers", []⟩ none [])]]
      [.callOn (.other none []) "size" [],
        .call (.bare "helper") [.declare (.aliasing ⟨"Helpers", []⟩ (some "H") [])]] :=
    .cons (.callOn (.removed _ _) _ .nil) (.cons (.call _ (.cons (.replaced _ _) .nil)) .nil)
  have hmodule : declaringModule.Redeclared redeclaredModule :=
    .other _ (.cons (.removed _ _) (.cons (.define _ _ hparams hbody) .nil))
  have hfound : occursIn ⟨some (.unqualified "helper"), some (.unqualified "run")⟩
      declaringModule = true := by decide
  exact ⟨hmodule, hfound, (occursIn_redeclared (.ofName "helper") _ hmodule).symm.trans hfound⟩

end Query

end CallAudit
