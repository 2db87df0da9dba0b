/-
  File:      Lox/Tree/Step.lean
  Subject:   What one rule of the grammar does to the tokens before it.

  A rule reads tokens from the front of a list, reports errors on the way, and either makes
  something or fails.  A failing rule has used tokens and reported errors as well, so a `Step`
  holds all three: how many tokens were used, what was reported, and the result.
-/
import Lox.Tree.Basic

namespace Lox

/-- What one rule did: the tokens used, the errors reported in order, and the outcome. A failure
    is an error that has been reported already. -/
structure Step (α : Type) where
  used : Nat
  reports : List SyntaxError
  result : Except SyntaxError α

namespace Step

/-- Nothing is read and `a` is made. -/
def done (a : α) : Step α :=
  ⟨0, [], .ok a⟩

/-- The first token is read and `a` is made. -/
def one (a : α) : Step α :=
  ⟨1, [], .ok a⟩

/-- An error is reported and the rule fails, having read nothing. -/
def fail (e : SyntaxError) : Step α :=
  ⟨0, [e], .error e⟩

/-- The step `s` done behind `n` tokens that were read before it. -/
def behind (n : Nat) (s : Step α) : Step α :=
  { s with used := n + s.used }

/-- The step `t` done behind the step `s`: the outcome is the later one's. -/
def followedBy (s : Step α) (t : Step β) : Step β :=
  ⟨s.used + t.used, s.reports ++ t.reports, t.result⟩

/-- The step `s` on `ts`, and behind it the step that `f` does with what `s` made and with the
    tokens it left. After a failure nothing follows. -/
def andThen (s : Step α) (ts : List Token) (f : α → List Token → Step β) : Step β :=
  match s.result with
  | .ok a => s.followedBy (f a (ts.drop s.used))
  | .error e => ⟨s.used, s.reports, .error e⟩

/-- The step with `f` done to what it makes. -/
def map (f : α → β) (s : Step α) : Step β :=
  ⟨s.used, s.reports, s.result.map f⟩

/-! What each of these does to the three parts of a step. -/

@[simp] theorem used_done (a : α) : (done a).used = 0 := rfl
@[simp] theorem used_one (a : α) : (one a).used = 1 := rfl
@[simp] theorem used_fail (e : SyntaxError) : (fail e : Step α).used = 0 := rfl
@[simp] theorem used_behind (n : Nat) (s : Step α) : (s.behind n).used = n + s.used := rfl
@[simp] theorem used_map (f : α → β) (s : Step α) : (s.map f).used = s.used := rfl
@[simp] theorem used_followedBy (s : Step α) (t : Step β) :
    (s.followedBy t).used = s.used + t.used := rfl

@[simp] theorem reports_done (a : α) : (done a).reports = [] := rfl
@[simp] theorem reports_one (a : α) : (one a).reports = [] := rfl
@[simp] theorem reports_fail (e : SyntaxError) : (fail e : Step α).reports = [e] := rfl
@[simp] theorem reports_behind (n : Nat) (s : Step α) : (s.behind n).reports = s.reports := rfl
@[simp] theorem reports_map (f : α → β) (s : Step α) : (s.map f).reports = s.reports := rfl
@[simp] theorem reports_followedBy (s : Step α) (t : Step β) :
    (s.followedBy t).reports = s.reports ++ t.reports := rfl

@[simp] theorem result_done (a : α) : (done a).result = .ok a := rfl
@[simp] theorem result_one (a : α) : (one a).result = .ok a := rfl
@[simp] theorem result_fail (e : SyntaxError) : (fail e : Step α).result = .error e := rfl
@[simp] theorem result_behind (n : Nat) (s : Step α) : (s.behind n).result = s.result := rfl
@[simp] theorem result_map (f : α → β) (s : Step α) : (s.map f).result = s.result.map f := rfl
@[simp] theorem result_followedBy (s : Step α) (t : Step β) :
    (s.followedBy t).result = t.result := rfl

/-- What follows a success. -/
theorem andThen_of_ok {s : Step α} {a : α} (h : s.result = .ok a) (ts : List Token)
    (f : α → List Token → Step β) :
    s.andThen ts f = s.followedBy (f a (ts.drop s.used)) := by
  unfold andThen
  rw [h]

/-- Nothing follows a failure. -/
theorem andThen_of_error {s : Step α} {e : SyntaxError} (h : s.result = .error e)
    (ts : List Token) (f : α → List Token → Step β) :
    s.andThen ts f = ⟨s.used, s.reports, .error e⟩ := by
  unfold andThen
  rw [h]

end Step

/-- The token of the kind asked for, read from the front; any other token, or the end `stop`, is
    blamed for `cause`. -/
def expect (stop : Token) (kind : Token.Kind) (cause : SyntaxError.Cause) :
    List Token → Step Token
  | t :: _ => if t.kind = kind then .one t else .fail ⟨t, cause⟩
  | [] => .fail ⟨stop, cause⟩

end Lox
