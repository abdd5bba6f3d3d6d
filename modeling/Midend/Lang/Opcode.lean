/-!
# Operation codes

Value operations write a destination; effect operations do not. The two families share the names
`call` and `nop`. Every operation has one name, and a name is read back as the operation that has
it.
-/

namespace Midend.Lang

/-- `ValueOpcode` — an operation that writes a destination. -/
inductive ValueOp
  | add | mul | sub | div | id | nop
  | eq | lt | gt | ge | le
  | not | and | or
  | call | load | ptradd | alloc
  | fadd | fmul | fsub | fdiv
  | feq | flt | fle | fgt | fge
  | ceq | clt | cle | cgt | cge
  | char2int | int2char
  | phi
deriving DecidableEq, Hashable, Repr, Inhabited

/-- `EffectOpcode` — an operation that is carried out for its effect alone. -/
inductive EffectOp
  | br | jmp | print | ret | call | store | free | speculate | guard | commit | nop
deriving DecidableEq, Hashable, Repr, Inhabited

namespace ValueOp

/-- Every value operation. -/
def all : List ValueOp :=
  [add, mul, sub, div, id, nop, eq, lt, gt, ge, le, not, and, or, call, load, ptradd, alloc,
    fadd, fmul, fsub, fdiv, feq, flt, fle, fgt, fge, ceq, clt, cle, cgt, cge, char2int, int2char,
    phi]

/-- The name of an operation. -/
def name : ValueOp → String
  | add => "add" | mul => "mul" | sub => "sub" | div => "div" | id => "id" | nop => "nop"
  | eq => "eq" | lt => "lt" | gt => "gt" | ge => "ge" | le => "le"
  | not => "not" | and => "and" | or => "or"
  | call => "call" | load => "load" | ptradd => "ptradd" | alloc => "alloc"
  | fadd => "fadd" | fmul => "fmul" | fsub => "fsub" | fdiv => "fdiv"
  | feq => "feq" | flt => "flt" | fle => "fle" | fgt => "fgt" | fge => "fge"
  | ceq => "ceq" | clt => "clt" | cle => "cle" | cgt => "cgt" | cge => "cge"
  | char2int => "char2int" | int2char => "int2char"
  | phi => "phi"

/-- The operation with a given name. -/
def ofName? (text : String) : Option ValueOp :=
  all.find? fun op => op.name == text

/-- `ValueOpcode::is_commutative` — operations whose two operands may change places. -/
def isCommutative : ValueOp → Bool
  | add | mul | eq | and | or | fadd | fmul | feq | ceq => true
  | _ => false

theorem ofName?_name (op : ValueOp) : ofName? op.name = some op := by
  cases op <;> decide

end ValueOp

namespace EffectOp

/-- Every effect operation. -/
def all : List EffectOp :=
  [br, jmp, print, ret, call, store, free, speculate, guard, commit, nop]

/-- The name of an operation. -/
def name : EffectOp → String
  | br => "br" | jmp => "jmp" | print => "print" | ret => "ret" | call => "call"
  | store => "store" | free => "free" | speculate => "speculate" | guard => "guard"
  | commit => "commit" | nop => "nop"

/-- The operation with a given name. -/
def ofName? (text : String) : Option EffectOp :=
  all.find? fun op => op.name == text

theorem ofName?_name (op : EffectOp) : ofName? op.name = some op := by
  cases op <;> decide

end EffectOp

end Midend.Lang
