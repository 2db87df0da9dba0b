/-
  File:      Lox/Eval.lean
  Subject:   What a program computes.

  Operands are evaluated from left to right, and an assignment binds its name once its value is
  known.  A failure keeps what was bound before it.

  * `unaryOp`, `binaryOp` -- the operators on values, chosen by the kind of their token;
  * `Expr.eval` -- the value of an expression and the scope behind it;
  * `Stmt.exec`, `execAll` -- what statements print and bind.
-/
import Lox.Env
import Lox.Tree.Basic

namespace Lox

/-- Why an evaluation ended early: an error of the program, or a tree that has no meaning. -/
inductive Failure where
  | runtime (e : RuntimeError)
  | fault (f : Fault)
  deriving DecidableEq, Repr

/-- The failure of an operator or a name. -/
def Failure.blame (t : Token) (cause : RuntimeError.Cause) : Failure :=
  .runtime ⟨t, cause⟩

/-! ## 1. Operators -/

/-- The value of a unary operator. -/
def unaryOp (op : Token) (v : Value) : Except Failure Value :=
  match op.kind, v with
  | .bang, v => .ok (.bool (!v.truthy))
  | .minus, .number x => .ok (.number (-x))
  | .minus, _ => .error (.blame op .operandNotNumber)
  | _, _ => .error (.fault (.unknownUnary op))

/-- The value of an operator on two numbers. -/
def onNumbers (op : Token) (f : Float → Float → Except Failure Value) (a b : Value) :
    Except Failure Value :=
  match a, b with
  | .number x, .number y => f x y
  | _, _ => .error (.blame op .operandsNotNumbers)

/-- The sum of two numbers, or the texts of two values joined if one of them is a string. -/
def add (op : Token) (a b : Value) : Except Failure Value :=
  match a, b with
  | .number x, .number y => .ok (.number (x + y))
  | a, b =>
    if a.isString || b.isString then .ok (.string (a.text ++ b.text))
    else .error (.blame op .operandsNotAddable)

/-- The quotient of two numbers; neither zero divides. -/
def divide (op : Token) (x y : Float) : Except Failure Value :=
  if y == 0.0 then .error (.blame op .divisionByZero) else .ok (.number (x / y))

/-- The value of a binary operator. -/
def binaryOp (op : Token) (a b : Value) : Except Failure Value :=
  match op.kind with
  | .plus => add op a b
  | .minus => onNumbers op (fun x y => .ok (.number (x - y))) a b
  | .star => onNumbers op (fun x y => .ok (.number (x * y))) a b
  | .slash => onNumbers op (divide op) a b
  | .greater => onNumbers op (fun x y => .ok (.bool (x > y))) a b
  | .greaterEqual => onNumbers op (fun x y => .ok (.bool (x ≥ y))) a b
  | .less => onNumbers op (fun x y => .ok (.bool (x < y))) a b
  | .lessEqual => onNumbers op (fun x y => .ok (.bool (x ≤ y))) a b
  | .equalEqual => .ok (.bool (a.equals b))
  | .bangEqual => .ok (.bool (!a.equals b))
  | _ => .error (.fault (.unknownBinary op))

/-! ## 2. Expressions -/

/-- The value of a name. -/
def Env.lookup (env : Env) (name : Token) : Except Failure Value :=
  match env.get? name.lexeme with
  | some v => .ok v
  | none => .error (.blame name .undefinedVariable)

/-- The value of an expression, or why it has none, and the scope afterwards. -/
def Expr.eval (env : Env) : Expr → Except Failure Value × Env
  | .literal v => (.ok v, env)
  | .grouping e => e.eval env
  | .name t => (env.lookup t, env)
  | .assign t e =>
    match e.eval env with
    | (.ok v, env) => (.ok v, env.define t.lexeme v)
    | (.error f, env) => (.error f, env)
  | .unary op e =>
    match e.eval env with
    | (.ok v, env) => (unaryOp op v, env)
    | (.error f, env) => (.error f, env)
  | .binary l op r =>
    match l.eval env with
    | (.ok a, env) =>
      match r.eval env with
      | (.ok b, env) => (binaryOp op a b, env)
      | (.error f, env) => (.error f, env)
    | (.error f, env) => (.error f, env)
  | .invalid => (.error (.fault .noValue), env)
  | .misplaced => (.error (.fault .noValue), env)

/-! ## 3. Statements -/

/-- What executing statements did: the lines printed, the scope afterwards, and why it ended
    early if it did. -/
structure Execution where
  output : List String
  env : Env
  failure : Option Failure
  deriving DecidableEq, Repr

/-- The execution that evaluates `e` and goes on with its value. -/
def Execution.ofValue (env : Env) (e : Expr) (next : Value → Env → Execution) : Execution :=
  match e.eval env with
  | (.ok v, env) => next v env
  | (.error f, env) => ⟨[], env, some f⟩

/-- One statement. With `echo` an expression statement prints its value. -/
def Stmt.exec (echo : Bool) (env : Env) : Stmt → Execution
  | .expression e => .ofValue env e fun v env => ⟨if echo then [v.text] else [], env, none⟩
  | .print e => .ofValue env e fun v env => ⟨[v.text], env, none⟩
  | .var t none => ⟨[], env.define t.lexeme .nil, none⟩
  | .var t (some e) => .ofValue env e fun v env => ⟨[], env.define t.lexeme v, none⟩
  | .misplaced => ⟨[], env, some (.fault .notStatement)⟩

/-- Statements in order, up to the first that fails. -/
def execAll (echo : Bool) (env : Env) : List Stmt → Execution
  | [] => ⟨[], env, none⟩
  | s :: rest =>
    match s.exec echo env with
    | ⟨out, env, none⟩ =>
      let later := execAll echo env rest
      { later with output := out ++ later.output }
    | failed => failed

end Lox
