import Midend.Lang.Opcode
import Midend.Lang.Type
import Std.Data.HashMap

/-!
# Value tables

Expressions that are known to have one value share a number. A table hands out numbers in order and
holds each expression once that equals itself; it behaves like a linear search through the
expressions, and its index only makes the search short. A constant that is no number equals nothing
and is given a new number each time.
-/

namespace Midend

open Lang

/-- `ValueExpr` — a value as far as it is known, over the numbers of its operands. -/
inductive Expr
  /-- A value of which nothing is known; its own number tells it from every other. -/
  | unknown (number : Nat)
  | constant (value : Literal)
  | apply (op : ValueOp) (operands : List Nat)
deriving DecidableEq, Hashable, Repr

/-- Equality of expressions, of literals as machines compare them. -/
def Expr.equals : Expr → Expr → Bool
  | unknown one, unknown other => one == other
  | constant one, constant other => one.equals other
  | apply op operands, apply op' operands' => op == op' && operands == operands'
  | _, _ => false

/-- `ValueTable` — numbered expressions. -/
structure Table where
  /-- The expressions, by their numbers. -/
  exprs : Array Expr := #[]
  /-- The numbers, by their expressions. -/
  index : Std.HashMap Expr Nat := ∅

namespace Table

/-- The number that is handed out next. -/
def size (table : Table) : Nat :=
  table.exprs.size

/-- `ValueTable::get` — the expression of a number. -/
def expr? (table : Table) (number : Nat) : Option Expr :=
  table.exprs[number]?

/-- Gives an expression the next number. -/
def append (table : Table) (expr : Expr) : Table where
  exprs := table.exprs.push expr
  index := table.index.insert expr table.size

/-- The number under which an expression is found. One that does not equal itself never is. -/
def find? (table : Table) (expr : Expr) : Option Nat :=
  if expr.equals expr then table.index[expr]? else none

/-- `ValueTable::intern` — the number of an expression, which is the next one if none is found. -/
def intern (table : Table) (expr : Expr) : Nat × Table :=
  match table.find? expr with
  | some number => (number, table)
  | none => (table.size, table.append expr)

/-- `ValueTable::fresh_unknown` — the next number, for a value of which nothing is known. -/
def fresh (table : Table) : Nat × Table :=
  (table.size, table.append (.unknown table.size))

/-- The literal that a number stands for. -/
def literal? (table : Table) (number : Nat) : Option Literal :=
  match table.expr? number with
  | some (.constant value) => some value
  | _ => none

/-- An expression added takes one number. -/
@[simp] theorem size_append (table : Table) (expr : Expr) :
    (table.append expr).size = table.size + 1 := by
  simp [append, size]

/-- An expression added is found under the next number, and the others where they were. -/
theorem expr?_append (table : Table) (expr : Expr) (number : Nat) :
    (table.append expr).expr? number
      = if number = table.size then some expr else table.expr? number := by
  exact Array.getElem?_push

/-- A new table finds nothing. -/
@[simp] theorem find?_empty (expr : Expr) : ({} : Table).find? expr = none := by
  simp [find?]

/-- An expression added is found under the next number if it equals itself, and the others are found
as before. -/
theorem find?_append (table : Table) (expr other : Expr) :
    (table.append expr).find? other
      = if expr = other ∧ other.equals other = true then some table.size
        else table.find? other := by
  unfold find? append
  rw [Std.HashMap.getElem?_insert]
  by_cases reflexive : other.equals other = true
  · by_cases same : expr = other <;> simp [reflexive, same]
  · simp [reflexive]

end Table

end Midend
