import MiniLang.Code.Listing
import MiniLang.Proofs.Semantics.Source

/-!
# What the generated code does

A machine runs the lines of a routine one after the other.  It has registers, a slot for each
variable and a trace of what was read and written, and it knows the block in which it is and the one
that it came from.  Every instruction checks the types of what it is given: on a value of another
type, on a register that holds none, on a format that does not fit and on a quotient that does not
exist the machine is stuck.  It is stuck as well if it runs into a label without a jump.

The machine ends at an instruction that leaves the routine.  It is given instructions and not their
text, which `CodeModule.ofLines?` reads back as the instructions by tables of its own.
-/

namespace MiniLang

/-- What a register holds. -/
inductive Cell where
  | value (value : Value)
  | format (template : Template)
  deriving DecidableEq, Repr

/-- What the registers hold. -/
abbrev RegisterFile := Register -> Option Cell

/-- The value of an operand. -/
def Operand.value? (registers : RegisterFile) : Operand -> Option Value
  | .register number =>
    match registers number with
    | some (.value value) => some value
    | _ => none
  | .int value => some (.int value)
  | .double bits => some (.double bits)
  | .bool value => some (.bool value)

section Literals

variable (registers : RegisterFile)

@[simp] theorem Operand.value?_int (value : Int32) :
    (Operand.int value).value? registers = some (.int value) := rfl

@[simp] theorem Operand.value?_double (bits : UInt64) :
    (Operand.double bits).value? registers = some (.double bits) := rfl

@[simp] theorem Operand.value?_bool (value : Bool) :
    (Operand.bool value).value? registers = some (.bool value) := rfl

end Literals

namespace Calculation

/-- A calculation on integers. -/
def onInts (left right : Int32) : Calculation -> Option Int32
  | .add => some (left + right)
  | .sub => some (left - right)
  | .mul => some (left * right)
  | .sdiv => BinaryOp.quotient? left right
  | .and => some (left &&& right)
  | .or => some (left ||| right)
  | .xor => some (left ^^^ right)

/-- A calculation on truth values, as integers of one bit with a sign. -/
def onBools (left right : Bool) : Calculation -> Option Bool
  | .add | .sub | .xor => some (left ^^ right)
  | .mul | .and => some (left && right)
  | .or => some (left || right)
  | .sdiv => if right && !left then some false else none

end Calculation

/-- A calculation on reals. -/
def RealCalculation.apply (env : Environment) (left right : UInt64) : RealCalculation -> UInt64
  | .fadd => env.add left right
  | .fsub => env.sub left right
  | .fmul => env.mul left right
  | .fdiv => env.div left right

namespace Comparison

/-- A comparison of integers. -/
def onInts (left right : Int32) : Comparison -> Bool
  | .eq => left = right
  | .ne => left ≠ right
  | .gt => left > right
  | .ge => left ≥ right
  | .lt => left < right
  | .le => left ≤ right

/-- A comparison of truth values, as integers of one bit with a sign. -/
def onBools (left right : Bool) : Comparison -> Bool
  | .eq => left = right
  | .ne => left ≠ right
  | .gt => !left && right
  | .ge => !left || right
  | .lt => left && !right
  | .le => left || !right

/-- A comparison of reals. -/
def onReals (env : Environment) (left right : UInt64) : Comparison -> Bool
  | .eq => env.eq left right
  | .ne => env.ne left right
  | .gt => env.gt left right
  | .ge => env.ge left right
  | .lt => env.lt left right
  | .le => env.le left right

end Comparison

/-- The result of an operation on two values. -/
def Operation.apply (env : Environment) : Operation -> Value -> Value -> Option Value
  | .calculate calculation .int, .int left, .int right =>
    (calculation.onInts left right).map .int
  | .calculate calculation .bool, .bool left, .bool right =>
    (calculation.onBools left right).map .bool
  | .calculateReal calculation, .double left, .double right =>
    some (.double (calculation.apply env left right))
  | .compare comparison .int, .int left, .int right =>
    some (.bool (comparison.onInts left right))
  | .compare comparison .bool, .bool left, .bool right =>
    some (.bool (comparison.onBools left right))
  | .compareReal comparison, .double left, .double right =>
    some (.bool (comparison.onReals env left right))
  | _, _, _ => none

/-- The result of a conversion. -/
def Conversion.apply (env : Environment) : Conversion -> Value -> Option Value
  | .sitofp, .int value => some (.double (env.ofInt value))
  | .fptosi, .double bits => some (.int (env.toInt bits))
  | .zext, .bool value => some (.int (if value then 1 else 0))
  | _, _ => none

/-- What is written by printing a format, with a value if it takes one. -/
def Event.printed? (format : String) (given : Option Value) : Option Event :=
  match format, given with
  | "%d", some (.int value) => some (.write .plain (.int value))
  | "0X%X", some (.int value) => some (.write .hex (.int value))
  | "%f", some (.double bits) => some (.write .plain (.double bits))
  | "True", none => some (.write .plain (.bool true))
  | "False", none => some (.write .plain (.bool false))
  | _, _ => none

/-- What is read by scanning a format after a trace. -/
def Environment.scanned? (env : Environment) (format : String) (trace : List Event) :
    Option (Format × Value) :=
  match format with
  | "%d" => some (.plain, .int (env.inputInt .plain trace))
  | "%X" => some (.hex, .int (env.inputInt .hex trace))
  | "%lf" => some (.plain, .double (env.inputDouble trace))
  | _ => none

/-- The lines after a label. -/
def Item.after? (target : Label) : List Item -> Option (List Item)
  | [] => none
  | item :: rest => if item = .label target then some rest else after? target rest

/-- A state of the machine. -/
structure Machine where
  /-- The lines from the current one on. -/
  rest : List Item
  /-- The block in which the machine is. -/
  block : Label
  /-- The block that it came from. -/
  origin : Option Label
  registers : RegisterFile
  world : World

namespace Machine

/-- Let a register hold something. -/
def define (machine : Machine) (target : Register) (cell : Cell) : Machine :=
  { machine with
    registers := fun register =>
      if register = target then some cell else machine.registers register }

/-- Let the slot of a variable hold a value. -/
def hold (machine : Machine) (name : String) (value : Value) : Machine :=
  { machine with world := { machine.world with store := machine.world.store.set name value } }

/-- Let the trace go on with an event. -/
def note (machine : Machine) (event : Event) : Machine :=
  { machine with world := { machine.world with trace := machine.world.trace ++ [event] } }

/-- Go to the start of a block. -/
def goto? (machine : Machine) (code : CodeModule) (target : Label) : Option Machine :=
  (Item.after? target code.items).map fun rest =>
    { machine with rest, block := target, origin := some machine.block }

/-- What an instruction does.  The machine is already at the line after it. -/
def exec (env : Environment) (code : CodeModule) (machine : Machine) : Instr -> Option Machine
  | .alloca name type =>
    match machine.world.store name with
    | none => some (machine.hold name (env.initial name type))
    | some _ => none
  | .load target type name => do
    let held <- machine.world.store name
    if held.type = type then some (machine.define target (.value held)) else none
  | .store type value name => do
    let given <- value.value? machine.registers
    let held <- machine.world.store name
    if given.type = type ∧ held.type = type then some (machine.hold name given) else none
  | .operate target operation left right => do
    let first <- left.value? machine.registers
    let second <- right.value? machine.registers
    let result <- operation.apply env first second
    some (machine.define target (.value result))
  | .fneg target value =>
    match value.value? machine.registers with
    | some (.double bits) => some (machine.define target (.value (.double (env.neg bits))))
    | _ => none
  | .convert target conversion value => do
    let given <- value.value? machine.registers
    let result <- conversion.apply env given
    some (machine.define target (.value result))
  | .phi target first firstFrom second secondFrom => do
    let origin <- machine.origin
    let chosen <-
      if origin = firstFrom then some first else if origin = secondFrom then some second else none
    let given <- chosen.value? machine.registers
    if given.type = .bool then some (machine.define target (.value given)) else none
  | .select target condition yes no =>
    match condition.value? machine.registers with
    | some (.bool truth) => some (machine.define target (.format (if truth then yes else no)))
    | _ => none
  | .print template type value => do
    let given <- value.value? machine.registers
    let event <- Event.printed? template.text given
    if given.type = type then some (machine.note event) else none
  | .printSelected format =>
    match machine.registers format with
    | some (.format template) => (Event.printed? template.text none).map machine.note
    | _ => none
  | .printText size number => do
    let constant <- code.texts.find? fun constant => constant.name = TextPool.nameOf number
    if constant.sizeWithEnd = size then some (machine.note (.text constant.bytes)) else none
  | .scan template name => do
    let held <- machine.world.store name
    let (format, value) <- env.scanned? template.text machine.world.trace
    if value.type = held.type then some ((machine.hold name value).note (.read format value))
    else none
  | .jump target => machine.goto? code target
  | .fork condition yes no =>
    match condition.value? machine.registers with
    | some (.bool truth) => machine.goto? code (if truth then yes else no)
    | _ => none
  | .ret => none

/-- One step of the machine. -/
def step (env : Environment) (code : CodeModule) (machine : Machine) : Option Machine :=
  match machine.rest with
  | .instr instr :: rest => exec env code { machine with rest } instr
  | _ => none

/-- A number of steps. -/
def run (env : Environment) (code : CodeModule) : Nat -> Machine -> Option Machine
  | 0, machine => some machine
  | count + 1, machine => (machine.step env code).bind (run env code count)

/-- The machine leaves the routine. -/
def Halted (machine : Machine) : Prop :=
  machine.rest.head? = some (.instr .ret)

/-- The machine can neither go on nor leave the routine. -/
def Blocked (env : Environment) (code : CodeModule) (machine : Machine) : Prop :=
  ¬machine.Halted ∧ machine.step env code = none

/-- The machine gets from one state to another. -/
def Reaches (env : Environment) (code : CodeModule) (machine after : Machine) : Prop :=
  ∃ count, machine.run env code count = some after

end Machine

namespace CodeModule

/-- The machine before the first line of the routine. -/
def start (code : CodeModule) : Machine where
  rest := (Item.after? .entry code.items).getD []
  block := .entry
  origin := none
  registers := fun _ => none
  world := ⟨fun _ => none, []⟩

/-- The code ends. -/
def Ends (env : Environment) (code : CodeModule) (world : World) : Prop :=
  ∃ last, code.start.Reaches env code last ∧ last.Halted ∧ last.world = world

/-- The code gets stuck. -/
def Sticks (env : Environment) (code : CodeModule) : Prop :=
  ∃ last, code.start.Reaches env code last ∧ last.Blocked env code

/-- The code runs forever. -/
def Diverges (env : Environment) (code : CodeModule) : Prop :=
  ∀ count, (code.start.run env code count).isSome

end CodeModule

end MiniLang
