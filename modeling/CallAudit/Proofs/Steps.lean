import CallAudit.Proofs.WalkState

/-!
# The steps of a walk

A walk is a recursion over the tree, but what it does to its state is a sequence of steps: at each of
them one node is entered or left. Written out, the sequence tells about the states in the middle of
a walk and not only about the one at its end.

A definition inside another one empties the table of the function before the outer one ends, and
declarations may still follow. They go to the table of the module then, so that behind every single
step a walk that is in no function has nothing of a function in scope.

## Main definitions

* `Tree.steps`: the steps of a walk through a tree.
* `Query.run`: taking some steps one after the other.

## Main statements

* `Query.walkAll_eq_run`: a walk takes the steps of its trees.
* `Query.run_steps`: the states behind every step and behind every tree.
-/

namespace CallAudit

/-- A step of a walk. -/
inductive Step where
  | enter (node : Tree)
  | leave (node : Tree)

/-- The steps of a walk through a tree in the order in which they are taken. -/
def Tree.steps (t : Tree) : List Step :=
  t.visit (fun u taken => taken ++ [.enter u]) (fun u taken => taken ++ [.leave u]) []

namespace Query

/-- The state after a step. -/
def step (q : Query) : Step → Search → Search
  | .enter t => enter t
  | .leave t => q.leave t

/-- The state after some steps. -/
def run (q : Query) (steps : List Step) (s : Search) : Search :=
  steps.foldl (fun s step => q.step step s) s

theorem run_append (q : Query) (steps later : List Step) (s : Search) :
    q.run (steps ++ later) s = q.run later (q.run steps s) :=
  List.foldl_append

/-- A walk through a tree takes the steps of the tree. -/
theorem walk_eq_run (q : Query) (t : Tree) (s : Search) : q.walk t s = q.run t.steps s := by
  -- The walk and the list of steps grow together; so far the walk has taken the steps in the list.
  refine Tree.visit_rel (R := fun a taken => a = q.run taken s) ?_ ?_ t rfl
  · rintro u _ taken rfl
    rw [run_append]
    rfl
  · rintro u _ taken rfl
    rw [run_append]
    rfl

theorem walkAll_eq_run (q : Query) (ts : List Tree) (s : Search) :
    q.walkAll ts s = q.run (ts.flatMap Tree.steps) s := by
  induction ts generalizing s with
  | nil => rfl
  | cons t ts ih => rw [walkAll_cons, ih, walk_eq_run, List.flatMap_cons, run_append]

end Query

theorem Search.Reachable.run {q : Query} {s : Search} (h : s.Reachable q) (steps : List Step) :
    (q.run steps s).Reachable q := by
  induction steps generalizing s with
  | nil => exact h
  | cons step steps ih =>
    cases step with
    | enter t => exact ih (h.enter t)
    | leave t => exact ih (h.leave t)

namespace Query

/-- When some trees are walked through in turn, then behind each step nothing of a function is in
scope if the walk is in none; and behind each tree the walk is in no function, with nothing of a
function in scope. -/
theorem run_steps (q : Query) (ts : List Tree) :
    (∀ n : Nat, (q.run ((ts.flatMap Tree.steps).take n) {}).current = none →
      (q.run ((ts.flatMap Tree.steps).take n) {}).scope.inner = {}) ∧
    ∀ n : Nat, q.run ((ts.take n).flatMap Tree.steps) {} = q.walkAll (ts.take n) {} ∧
      (q.walkAll (ts.take n) {}).current = none ∧ (q.walkAll (ts.take n) {}).scope.inner = {} := by
  constructor
  · intro n hcurrent
    have hreachable := (Search.Reachable.start (q := q)).run ((ts.flatMap Tree.steps).take n)
    exact hreachable.inner_eq_empty hcurrent
  · intro n
    have htop := walkAll_atTop q (ts.take n)
    exact ⟨(walkAll_eq_run q (ts.take n) {}).symm, htop.current, htop.inner⟩

/-- A function with an import before and behind another function inside, and a head with an alias
among its parameters. -/
def interruptedFunction : List Tree := [
  .define .public "run" [] [
    .declare (.importing ⟨"Early", []⟩ none []),
    .define .private "helper" [] [],
    .declare (.importing ⟨"Late", []⟩ none [])],
  .head .public "stop" [.declare (.aliasing ⟨"App", ["Repo"]⟩ none [])]]

/-- Before the inner function ends, the first import is in scope. Behind the step that takes up the
second one, the walk is in no function and has that import in the table of the module. -/
theorem run_interruptedFunction :
    (absent.run ((interruptedFunction.flatMap Tree.steps).take 4) {}).scope.inner ≠ {} ∧
      let s := absent.run ((interruptedFunction.flatMap Tree.steps).take 6) {}
      s.current = none ∧ s.scope.outer ≠ {} ∧ s.scope.inner = {} := by
  have hcurrent :
      (absent.run ((interruptedFunction.flatMap Tree.steps).take 6) {}).current = none := by decide
  exact ⟨by decide, hcurrent, by decide, (run_steps absent interruptedFunction).1 6 hcurrent⟩

end Query

end CallAudit
