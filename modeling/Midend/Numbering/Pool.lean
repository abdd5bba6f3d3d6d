import Midend.Numbering.Table
import Std.Data.TreeMap

/-!
# Numbered variables

While a block is gone through, every variable met has the number of its current value, and every
number has the variables that hold it, the one that has held it longest first. The two maps are
inverse to each other.
-/

namespace Midend

open Lang

/-- `NumberPool` — the values of variables at a point of a block. -/
structure Pool where
  table : Table := {}
  /-- The number of each variable's value. -/
  numbers : Std.TreeMap String Nat := ∅
  /-- The variables that hold each number, in the order in which they were last set. -/
  holders : Std.TreeMap Nat (List String) := ∅

namespace Pool

/-- The variables that hold a number. -/
def holdersOf (pool : Pool) (number : Nat) : List String :=
  pool.holders.getD number []

/-- The variable that has held a number longest. -/
def standIn? (pool : Pool) (number : Nat) : Option String :=
  (pool.holdersOf number).head?

/-- The pool after a variable has lost its value. -/
def release (pool : Pool) (name : String) : Pool :=
  match pool.numbers[name]? with
  | none => pool
  | some old => { pool with
      numbers := pool.numbers.erase name
      holders := pool.holders.insert old ((pool.holdersOf old).filter (· != name)) }

/-- `NumberPool::set_variable` — the pool after a variable has been given a value. -/
def assign (pool : Pool) (name : String) (number : Nat) : Pool :=
  let released := pool.release name
  { released with
    numbers := released.numbers.insert name number
    holders := released.holders.insert number (released.holdersOf number ++ [name]) }

/-- A number for a value of which nothing is known. -/
def fresh (pool : Pool) : Nat × Pool :=
  let (number, table) := pool.table.fresh
  (number, { pool with table })

/-- The number of an expression. -/
def intern (pool : Pool) (expr : Expr) : Nat × Pool :=
  let (number, table) := pool.table.intern expr
  (number, { pool with table })

/-- `NumberPool::var_number` — the number of a variable that is read. One not met before was set
outside of the block, and nothing is known of its value. -/
def read (pool : Pool) (name : String) : Nat × Pool :=
  match pool.numbers[name]? with
  | some number => (number, pool)
  | none =>
    let (number, pool) := pool.fresh
    (number, pool.assign name number)

/-- The numbers of variables that are read one after the other. -/
def readAll (pool : Pool) : List String → List Nat × Pool
  | [] => ([], pool)
  | name :: names =>
    let (number, pool) := pool.read name
    let (numbers, pool) := pool.readAll names
    (number :: numbers, pool)

/-- `NumberPool::commit_for` — the variable to read instead of a given one: the one that has held
its value longest. -/
def preferred (pool : Pool) (name : String) : String :=
  ((pool.numbers[name]?).bind pool.standIn?).getD name

end Pool

end Midend
