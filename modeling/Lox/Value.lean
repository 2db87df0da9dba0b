/-
  File:      Lox/Value.lean
  Subject:   The values of a program.

  Four sorts of value: `nil`, truth values, numbers (doubles) and strings.  Only `nil` and
  `false` count as false; values of two sorts are never equal; every value has a text.
-/
import Lox.Decimal.Layout

namespace Lox

/-- A value of a program. -/
inductive Value where
  | nil
  | bool (b : Bool)
  | number (x : Float)
  | string (s : String)
  deriving DecidableEq, Repr, Inhabited

namespace Value

/-- True of numbers. -/
def isNumber : Value → Bool
  | .number _ => true
  | _ => false

/-- True of strings. -/
def isString : Value → Bool
  | .string _ => true
  | _ => false

/-- What a condition makes of a value: `nil` and `false` are false, all else is true. -/
def truthy : Value → Bool
  | .nil => false
  | .bool b => b
  | _ => true

/-- Equality as programs see it. Numbers compare as doubles, so that a NaN differs from itself
    and the two zeros are equal. -/
def equals : Value → Value → Bool
  | .nil, .nil => true
  | .bool a, .bool b => a == b
  | .number x, .number y => x == y
  | .string s, .string t => s == t
  | _, _ => false

/-- The text of a value as programs print it; `layout` writes its numbers. -/
def textWith (layout : Layout) : Value → String
  | .nil => "nil"
  | .bool true => "true"
  | .bool false => "false"
  | .number x => layout.write x
  | .string s => s

/-- The text that `print` writes and that `+` joins to a string. -/
def text (v : Value) : String :=
  v.textWith .plain

/-- The text of a literal in a listing of tokens. -/
def listing (v : Value) : String :=
  v.textWith .pointed

end Value

end Lox
