/-
  File:      Lox/Tree/Expression.lean
  Subject:   The rules of the grammar that read an expression.

  From loosest to tightest: an assignment, the four levels of binary operators, the unary
  operators, and the primary expressions.  Binary operators group to the left.

  An OPERAND of an operator recovers from one sort of error.  Where it should begin stands a
  binary operator, which so lacks its left operand: the error is reported, the operand behind the
  stray operator is read and dropped, and `invalid` stands for both.

  * `Level`, `Rule` -- the rules;
  * `Rule.parse`, `operand`, `chain` -- what they read.
-/
import Lox.Tree.Step

namespace Lox

open Token (Kind)

/-! ## 1. The rules -/

/-- A level of binary operators. -/
inductive Level where
  | equality | comparison | term | factor
  deriving DecidableEq, Repr

/-- A rule that reads an expression. -/
inductive Rule where
  | assignment
  | binary (level : Level)
  | unary
  | primary
  deriving DecidableEq, Repr

/-- The operators of a level. -/
def Level.operators : Level → List Kind
  | .equality => [.bangEqual, .equalEqual]
  | .comparison => [.greater, .greaterEqual, .less, .lessEqual]
  | .term => [.minus, .plus]
  | .factor => [.slash, .star]

/-- The rule for the operands of a level: the next tighter one. -/
def Level.operandRule : Level → Rule
  | .equality => .binary .comparison
  | .comparison => .binary .term
  | .term => .binary .factor
  | .factor => .unary

/-- The operators of every level. -/
def binaryOperators : List Kind :=
  [.bangEqual, .equalEqual, .greater, .greaterEqual, .less, .lessEqual, .minus, .plus, .slash,
    .star]

/-- The unary operators. -/
def unaryOperators : List Kind :=
  [.bang, .minus]

/-- The value of a token that is an expression by itself: a literal word, a number or a
    string. -/
def literal? (t : Token) : Option Value :=
  match t.kind with
  | .falseWord => some (.bool false)
  | .trueWord => some (.bool true)
  | .nilWord => some .nil
  | .number | .string => some t.literal
  | _ => none

/-- How far a rule is from the tightest one: a rule that hands the same tokens on hands them to
    a rule of lower rank. -/
def Rule.rank : Rule → Nat
  | .primary => 0
  | .unary => 1
  | .binary .factor => 3
  | .binary .term => 5
  | .binary .comparison => 7
  | .binary .equality => 9
  | .assignment => 10

theorem Level.rank_operandRule (l : Level) : l.operandRule.rank + 1 < (Rule.binary l).rank := by
  cases l <;> decide

theorem Rule.rank_le (r : Rule) : r.rank ≤ 10 := by
  rcases r with _ | l | _ | _
  · decide
  · cases l <;> decide
  · decide
  · decide

/-- How much is left to do for a task of the given rank on `ts`. -/
def effort (ts : List Token) (rank : Nat) : Nat :=
  ts.length * 16 + rank

/-- Behind the first token less is left, whatever the rank and however much is dropped. -/
theorem effort_drop_tail (t : Token) (rest : List Token) (n : Nat) {a : Nat} (b : Nat)
    (h : a < 16) : effort (rest.drop n) a < effort (t :: rest) b := by
  simp only [effort, List.length_drop, List.length_cons]
  omega

/-- On what is left of the tokens a lower rank leaves less. -/
theorem effort_drop (ts : List Token) (n : Nat) {a b : Nat} (h : a < b) :
    effort (ts.drop n) a < effort ts b := by
  simp only [effort, List.length_drop]
  omega

/-- The assignment of what a step made to `target`, the equals sign being `equals`. A target that
    is no name is reported and stands for the whole. -/
def Step.assignedTo (value : Step Expr) (target : Expr) (equals : Token) : Step Expr :=
  match value.result, target with
  | .ok v, .name n => { value with result := .ok (.assign n v) }
  | .ok _, _ => { value with
      reports := value.reports ++ [⟨equals, .targetInvalid⟩], result := .ok target }
  | .error _, _ => value

/-! ## 2. Reading -/

mutual

/-- The expression that a rule reads from the front of `ts`; `stop` is the end marker behind
    them. -/
def Rule.parse (stop : Token) (r : Rule) (ts : List Token) : Step Expr :=
  match r, ts with
  | .assignment, [] => Rule.parse stop (.binary .equality) []
  | .assignment, first :: rest =>
    let target := Rule.parse stop (.binary .equality) (first :: rest)
    match target.result, ((first :: rest).drop target.used).head? with
    | .ok e, some t =>
      if t.kind = .equal then
        let value := Rule.parse stop .assignment (rest.drop target.used)
        target.followedBy (.behind 1 (value.assignedTo e t))
      else target
    | _, _ => target
  | .binary l, ts =>
    let first := operand stop l.operandRule ts
    match first.result with
    | .ok left => first.followedBy (chain stop l left (ts.drop first.used))
    | .error _ => first
  | .unary, t :: rest =>
    if t.kind ∈ unaryOperators then (operand stop .unary rest).map (.unary t) |>.behind 1
    else Rule.parse stop .primary (t :: rest)
  | .unary, [] => Rule.parse stop .primary []
  | .primary, [] => .fail ⟨stop, .expressionExpected⟩
  | .primary, t :: rest =>
    if t.kind = .leftParen then
      (Rule.parse stop .assignment rest).andThen rest (fun e ts =>
        (expect stop .rightParen .groupUnclosed ts).map fun _ => .grouping e) |>.behind 1
    else if t.kind = .identifier then .one (.name t)
    else if t.kind ∈ binaryOperators then .fail ⟨t, .strayOperator⟩
    else
      match literal? t with
      | some v => .one (.literal v)
      | none => .fail ⟨t, .expressionExpected⟩
termination_by effort ts r.rank
decreasing_by
  · exact effort_drop [] 0 (by decide)
  · exact effort_drop [] 0 (by decide)
  · exact effort_drop (first :: rest) 0 (by decide)
  · exact effort_drop_tail first rest _ _ (by decide)
  · exact effort_drop ts 0 (l.rank_operandRule)
  · exact effort_drop ts _ (by have := l.rank_operandRule; omega)
  · exact effort_drop_tail t rest 0 _ (by decide)
  · exact effort_drop (t :: rest) 0 (by decide)
  · exact effort_drop_tail t rest 0 _ (by decide)

/-- The operand that a rule reads from the front of `ts`. If the rule fails on the very first
    token and for a stray operator, that token and the operand behind it are dropped. -/
def operand (stop : Token) (r : Rule) (ts : List Token) : Step Expr :=
  let tried := Rule.parse stop r ts
  match tried.result, tried.used, ts with
  | .error e, 0, _ :: rest =>
    if e.cause.isStray then
      tried.followedBy ((operand stop r rest).map fun _ => .invalid) |>.behind 1
    else tried
  | _, _, _ => tried
termination_by effort ts (r.rank + 1)
decreasing_by
  · exact effort_drop ts 0 (Nat.lt_succ_self _)
  · exact effort_drop_tail _ rest 0 _ (by have := r.rank_le; omega)

/-- The operators of a level and their right operands, read from the front of `ts` and joined to
    `left` one after the other. -/
def chain (stop : Token) (l : Level) (left : Expr) (ts : List Token) : Step Expr :=
  match ts with
  | t :: rest =>
    if t.kind ∈ l.operators then
      let right := operand stop l.operandRule rest
      match right.result with
      | .ok e =>
        right.followedBy (chain stop l (.binary left t e) (rest.drop right.used)) |>.behind 1
      | .error _ => right.behind 1
    else .done left
  | [] => .done left
termination_by effort ts 0
decreasing_by
  · exact effort_drop_tail t rest 0 _ (by have := l.operandRule.rank_le; omega)
  · exact effort_drop_tail t rest _ _ (by decide)

end

end Lox
