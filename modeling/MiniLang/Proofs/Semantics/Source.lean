import MiniLang.Program
import MiniLang.Proofs.Typing.Judgement

/-!
# What programs do

Programs compute with integers of 32 bits that wrap around, with reals and with truth values.  An
expression is evaluated from left to right; it gives a value and may change variables.  Division of
integers has no result if the divisor is zero or the quotient does not fit, and then the program is
stuck.

What reals do is left open, as is what the variables hold at first and what is read.  What a program
reads and writes is kept as a trace.

A loop need not end.  Running a statement is therefore given a limit to the passes through each
loop, and a program that stays unfinished under every limit runs forever.
-/

namespace MiniLang

/-- Values. -/
inductive Value where
  | int (value : Int32)
  | double (bits : UInt64)
  | bool (value : Bool)
  deriving DecidableEq, Repr

/-- The type of a value. -/
def Value.type : Value -> ValueType
  | .int _ => .int
  | .double _ => .double
  | .bool _ => .bool

/-- What is read or written at one time. -/
inductive Event where
  | read (format : Format) (value : Value)
  | write (format : Format) (value : Value)
  /-- A string constant is written, byte for byte. -/
  | text (bytes : List UInt8)
  deriving DecidableEq, Repr

/-- What a run depends on besides the program. -/
structure Environment where
  add : UInt64 -> UInt64 -> UInt64
  sub : UInt64 -> UInt64 -> UInt64
  mul : UInt64 -> UInt64 -> UInt64
  div : UInt64 -> UInt64 -> UInt64
  neg : UInt64 -> UInt64
  ofInt : Int32 -> UInt64
  toInt : UInt64 -> Int32
  eq : UInt64 -> UInt64 -> Bool
  ne : UInt64 -> UInt64 -> Bool
  lt : UInt64 -> UInt64 -> Bool
  le : UInt64 -> UInt64 -> Bool
  gt : UInt64 -> UInt64 -> Bool
  ge : UInt64 -> UInt64 -> Bool
  /-- What a variable of integers holds at first. -/
  initialInt : String -> Int32
  initialDouble : String -> UInt64
  initialBool : String -> Bool
  /-- The integer that is read in a format after a trace. -/
  inputInt : Format -> List Event -> Int32
  inputDouble : List Event -> UInt64

namespace Environment

/-- What a variable of a type holds at first. -/
def initial (env : Environment) (name : String) : ValueType -> Value
  | .int => .int (env.initialInt name)
  | .double => .double (env.initialDouble name)
  | .bool => .bool (env.initialBool name)

@[simp] theorem type_initial (env : Environment) (name : String) (type : ValueType) :
    (env.initial name type).type = type := by
  cases type <;> rfl

/-- The value that is read for a variable of a type. -/
def input? (env : Environment) (format : Format) (type : ValueType) (trace : List Event) :
    Option Value :=
  match format, type with
  | .plain, .int => some (.int (env.inputInt .plain trace))
  | .hex, .int => some (.int (env.inputInt .hex trace))
  | .plain, .double => some (.double (env.inputDouble trace))
  | _, _ => none

/-- What is read for a variable has its type. -/
theorem type_input
    {env : Environment}
    {format : Format}
    {type : ValueType}
    {trace : List Event}
    {value : Value}
    (given : env.input? format type trace = some value) :
    value.type = type := by
  cases format <;> cases type <;> cases given <;> rfl

end Environment

/-- What the variables hold. -/
abbrev Store := String -> Option Value

/-- Let a variable hold a value. -/
def Store.set (store : Store) (name : String) (value : Value) : Store :=
  fun other => if other = name then some value else store other

/-- A value as one of a given type: itself, or an integer as a real. -/
def Value.widen? (env : Environment) (type : ValueType) (value : Value) : Option Value :=
  match value, type with
  | .int value, .int => some (.int value)
  | .int value, .double => some (.double (env.ofInt value))
  | .double bits, .double => some (.double bits)
  | .bool value, .bool => some (.bool value)
  | _, _ => none

/-- The value of a prefix operator. -/
def UnaryOp.apply (env : Environment) : UnaryOp -> Value -> Option Value
  | .neg, .int value => some (.int (-value))
  | .neg, .double bits => some (.double (env.neg bits))
  | .bitNot, .int value => some (.int (~~~value))
  | .not, .bool value => some (.bool !value)
  | .toInt, .int value => some (.int value)
  | .toInt, .double bits => some (.int (env.toInt bits))
  | .toInt, .bool value => some (.int (if value then 1 else 0))
  | .toDouble, .int value => some (.double (env.ofInt value))
  | .toDouble, .double bits => some (.double bits)
  | _, _ => none

namespace BinaryOp

/-- The quotient of integers, rounded towards zero, if there is one. -/
def quotient? (left right : Int32) : Option Int32 :=
  if right = 0 ∨ left = Int32.minValue ∧ right = -1 then none else some (left / right)

/-- The value of an infix operator on integers. -/
def onInts (left right : Int32) : BinaryOp -> Option Value
  | .add => some (.int (left + right))
  | .sub => some (.int (left - right))
  | .mul => some (.int (left * right))
  | .div => (quotient? left right).map .int
  | .bitOr => some (.int (left ||| right))
  | .bitAnd => some (.int (left &&& right))
  | .eq => some (.bool (left = right))
  | .ne => some (.bool (left ≠ right))
  | .lt => some (.bool (left < right))
  | .le => some (.bool (left ≤ right))
  | .gt => some (.bool (left > right))
  | .ge => some (.bool (left ≥ right))
  | .or | .and => none

/-- The value of an infix operator on reals. -/
def onReals (env : Environment) (left right : UInt64) : BinaryOp -> Option Value
  | .add => some (.double (env.add left right))
  | .sub => some (.double (env.sub left right))
  | .mul => some (.double (env.mul left right))
  | .div => some (.double (env.div left right))
  | .eq => some (.bool (env.eq left right))
  | .ne => some (.bool (env.ne left right))
  | .lt => some (.bool (env.lt left right))
  | .le => some (.bool (env.le left right))
  | .gt => some (.bool (env.gt left right))
  | .ge => some (.bool (env.ge left right))
  | .bitOr | .bitAnd | .or | .and => none

/-- The value of an infix operator on truth values. -/
def onBools (left right : Bool) : BinaryOp -> Option Value
  | .or => some (.bool (left || right))
  | .and => some (.bool (left && right))
  | .eq => some (.bool (left = right))
  | .ne => some (.bool (left ≠ right))
  | _ => none

/-- The value of an infix operator.  An integer beside a real counts as a real. -/
def apply (env : Environment) (op : BinaryOp) : Value -> Value -> Option Value
  | .int left, .int right => op.onInts left right
  | .int left, .double right => op.onReals env (env.ofInt left) right
  | .double left, .int right => op.onReals env left (env.ofInt right)
  | .double left, .double right => op.onReals env left right
  | .bool left, .bool right => op.onBools left right
  | _, _ => none

/-- The value of a logical operator whose left operand decides. -/
def decided? : BinaryOp -> Value -> Option Value
  | .or, .bool true => some (.bool true)
  | .and, .bool false => some (.bool false)
  | _, _ => none

end BinaryOp

/-- The value of an expression and what the variables hold afterwards. -/
def Expr.eval (env : Environment) : Expr -> Store -> Option (Value × Store)
  | .int _ value, store => some (.int value, store)
  | .double _ bits, store => some (.double bits, store)
  | .bool _ value, store => some (.bool value, store)
  | .name _ spelling, store => (store spelling).map fun held => (held, store)
  | .assign _ target value, store => do
    let (given, store) <- (value ()).eval env store
    let held <- store target.name
    let stored <- given.widen? env held.type
    return (stored, store.set target.name stored)
  | .unary _ op operand, store => do
    let (given, store) <- (operand ()).eval env store
    let result <- op.apply env given
    return (result, store)
  | .binary _ op left right, store => do
    let (first, store) <- (left ()).eval env store
    match op.decided? first with
    | some result => return (result, store)
    | none =>
      let (second, store) <- (right ()).eval env store
      let result <- op.apply env first second
      return (result, store)
  | .dangling _, _ => none

namespace Expr

variable {env : Environment} {site : Site} {store middle last : Store} {given first second : Value}

theorem eval_assign
    {target : Target}
    {value : Unit -> Expr}
    {held stored : Value}
    (evaluated : (value ()).eval env store = some (given, middle))
    (holds : middle target.name = some held)
    (widened : given.widen? env held.type = some stored) :
    (Expr.assign site target value).eval env store =
      some (stored, middle.set target.name stored) := by
  simp [eval, evaluated, holds, widened]

theorem eval_unary
    {op : UnaryOp}
    {operand : Unit -> Expr}
    (evaluated : (operand ()).eval env store = some (given, middle)) :
    (Expr.unary site op operand).eval env store =
      (op.apply env given).map fun value => (value, middle) := by
  cases applied : op.apply env given <;> simp [eval, evaluated, applied]

variable {op : BinaryOp} {left right : Unit -> Expr}

theorem eval_decided
    {result : Value}
    (evaluated : (left ()).eval env store = some (first, middle))
    (decided : op.decided? first = some result) :
    (Expr.binary site op left right).eval env store = some (result, middle) := by
  simp [eval, evaluated, decided]

theorem eval_undecided
    (evaluated : (left ()).eval env store = some (first, middle))
    (undecided : op.decided? first = none)
    (evaluated' : (right ()).eval env middle = some (second, last)) :
    (Expr.binary site op left right).eval env store =
      (op.apply env first second).map fun value => (value, last) := by
  cases applied : op.apply env first second <;>
    simp [eval, evaluated, undecided, evaluated', applied]

end Expr

/-- What the variables hold and what has been read and written so far. -/
structure World where
  store : Store
  trace : List Event

/-- Whether a condition holds, and the world after its evaluation. -/
def Expr.holds? (env : Environment) (condition : Expr) (world : World) : Option (Bool × World) :=
  match condition.eval env world.store with
  | some (.bool value, store) => some (value, { world with store })
  | _ => none

/-- How far a statement gets. -/
inductive Progress where
  /-- It ends, and the program goes on. -/
  | done (world : World)
  /-- It leaves the program. -/
  | left (world : World)
  | stuck
  /-- The limit to the passes through a loop is reached. -/
  | unfinished

namespace Progress

/-- Go on, if the program does. -/
def andThen (progress : Progress) (next : World -> Progress) : Progress :=
  match progress with
  | .done world => next world
  | other => other

/-- Pass through a body while a test holds, at most as often as a limit allows. -/
def iterate (test : World -> Option (Bool × World)) (body : World -> Progress) :
    Nat -> World -> Progress
  | 0, _ => .unfinished
  | limit + 1, world =>
    match test world with
    | none => .stuck
    | some (false, world) => .done world
    | some (true, world) => (body world).andThen (iterate test body limit)

end Progress

/-- Run a statement with a limit to the passes through each loop. -/
def Stmt.exec (env : Environment) (texts : TextPool) (limit : Nat) : Stmt -> World -> Progress
  | .done, world => .done world
  | .seq first rest, world => (first.exec env texts limit world).andThen (rest.exec env texts limit)
  | .block _ body, world => (body ()).exec env texts limit world
  | .expr _ value, world =>
    match value.eval env world.store with
    | some (_, store) => .done { world with store }
    | none => .stuck
  | .branch _ condition yes no, world =>
    match condition.holds? env world with
    | some (true, world) => (yes ()).exec env texts limit world
    | some (false, world) => (no ()).exec env texts limit world
    | none => .stuck
  | .loop _ condition body, world =>
    Progress.iterate (condition.holds? env) ((body ()).exec env texts limit) limit world
  | .write _ value format, world =>
    match value.eval env world.store with
    | some (written, store) =>
      if format.canWrite written.type then
        .done { store, trace := world.trace ++ [.write format written] }
      else .stuck
    | none => .stuck
  | .writeText _ number, world =>
    match texts.get? number with
    | some constant => .done { world with trace := world.trace ++ [.text constant.bytes] }
    | none => .stuck
  | .read _ target format, world =>
    match world.store target.name with
    | none => .stuck
    | some held =>
      match env.input? format held.type world.trace with
      | some value =>
        .done
          { store := world.store.set target.name value
            trace := world.trace ++ [.read format value] }
      | none => .stuck
  | .leave _, world => .left world
  | .dangling _, _ => .stuck

namespace Program

/-- The world before a program runs. -/
def initialWorld (env : Environment) (program : Program) : World where
  store := fun name =>
    (program.scope.lookup name).map fun declaration => env.initial name declaration.type
  trace := []

@[simp] theorem store_initialWorld (env : Environment) (program : Program) (name : String) :
    (program.initialWorld env).store name =
      (program.scope.lookup name).map fun declaration => env.initial name declaration.type := rfl

/-- Run a program with a limit to the passes through each loop. -/
def exec (env : Environment) (program : Program) (limit : Nat) : Progress :=
  program.tree.exec env program.forest.texts limit (program.initialWorld env)

/-- A program ends, at the end of its body or by leaving it. -/
def Ends (env : Environment) (program : Program) (world : World) : Prop :=
  ∃ limit, program.exec env limit = .done world ∨ program.exec env limit = .left world

/-- A program gets stuck. -/
def Sticks (env : Environment) (program : Program) : Prop :=
  ∃ limit, program.exec env limit = .stuck

/-- A program runs forever. -/
def Diverges (env : Environment) (program : Program) : Prop :=
  ∀ limit, program.exec env limit = .unfinished

end Program

end MiniLang
