/-
  File:      Lox/Env.lean
  Subject:   The variables of a program.

  One flat scope: a name is bound to its latest value, and the names keep the order in which
  they were first bound.
-/
import Lox.Value

namespace Lox

/-- The names that are bound, in the order of their first binding, each with its value. -/
structure Env where
  bindings : List (String × Value) := []
  deriving DecidableEq, Repr, Inhabited

namespace Env

/-- The bindings with `name` bound to `v`. -/
def bind (name : String) (v : Value) : List (String × Value) → List (String × Value)
  | [] => [(name, v)]
  | (n, w) :: rest => if n = name then (n, v) :: rest else (n, w) :: bind name v rest

/-- The scope with `name` bound to `v`, whether it was bound before or not. -/
def define (env : Env) (name : String) (v : Value) : Env :=
  ⟨bind name v env.bindings⟩

/-- The value of a name. -/
def get? (env : Env) (name : String) : Option Value :=
  env.bindings.lookup name

theorem lookup_bind_self (name : String) (v : Value) :
    ∀ bindings, (bind name v bindings).lookup name = some v
  | [] => by simp [bind]
  | (n, w) :: rest => by
    unfold bind
    by_cases h : n = name
    · simp [h]
    · have hne : (name == n) = false := beq_false_of_ne fun e => h e.symm
      simp [h, List.lookup_cons, hne, lookup_bind_self name v rest]

theorem lookup_bind_of_ne {name other : String} (v : Value) (hne : other ≠ name) :
    ∀ bindings, (bind name v bindings).lookup other = bindings.lookup other
  | [] => by simp [bind, List.lookup_cons, beq_false_of_ne hne]
  | (n, w) :: rest => by
    unfold bind
    by_cases h : n = name
    · subst h
      simp [List.lookup_cons, beq_false_of_ne hne]
    · simp [h, List.lookup_cons, lookup_bind_of_ne v hne rest]

/-- A name that was just bound has the value it was bound to. -/
@[simp] theorem get?_define_self (env : Env) (name : String) (v : Value) :
    (env.define name v).get? name = some v :=
  lookup_bind_self name v env.bindings

/-- Every other name keeps its value. -/
theorem get?_define_of_ne (env : Env) {name other : String} (v : Value) (h : other ≠ name) :
    (env.define name v).get? other = env.get? other :=
  lookup_bind_of_ne v h env.bindings

/-- True of the names that are bound, be it to `nil`. -/
def contains (env : Env) (name : String) : Bool :=
  (env.get? name).isSome

/-- The bindings ordered by name. -/
def sorted (env : Env) : List (String × Value) :=
  env.bindings.mergeSort fun a b => a.1 ≤ b.1

/-- A scope with the given bindings made one after the other. -/
def ofList (bindings : List (String × Value)) : Env :=
  bindings.foldl (fun env (n, v) => env.define n v) {}

end Env

end Lox
