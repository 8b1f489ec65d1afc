import MiniLang.Code.FreshNames
import MiniLang.Operator
import MiniLang.TextPool
import MiniLang.ValueType

/-!
# Instructions

The instructions of the generated code, their parts, and how each is spelled.
-/

namespace MiniLang

/-- The spelling of a value type in the generated code. -/
def ValueType.codeName : ValueType -> String
  | .int => "i32"
  | .double => "double"
  | .bool => "i1"

/-- The formats for printing and scanning. -/
inductive Template where
  | printInt
  | printHex
  | printDouble
  | printTrue
  | printFalse
  | scanInt
  | scanHex
  | scanDouble
  deriving DecidableEq, Repr

namespace Template

/-- Every format, in the order in which the constants are laid out. -/
def all : List Template :=
  [.printInt, .printHex, .printDouble, .printTrue, .printFalse, .scanInt, .scanHex, .scanDouble]

/-- The name of the constant that holds a format. -/
def name : Template -> String
  | .printInt => "fmt_int_print"
  | .printHex => "fmt_hex_print"
  | .printDouble => "fmt_double_print"
  | .printTrue => "fmt_true_print"
  | .printFalse => "fmt_false_print"
  | .scanInt => "fmt_int_scan"
  | .scanHex => "fmt_hex_scan"
  | .scanDouble => "fmt_double_scan"

/-- The text of a format. -/
def text : Template -> String
  | .printInt => "%d"
  | .printHex => "0X%X"
  | .printDouble => "%f"
  | .printTrue => "True"
  | .printFalse => "False"
  | .scanInt => "%d"
  | .scanHex => "%X"
  | .scanDouble => "%lf"

/-- The constant that holds a format. -/
def constant (template : Template) : TextConstant :=
  ⟨template.name, template.text.toUTF8.toList⟩

end Template

/-- A value that an instruction uses. -/
inductive Operand where
  | register (number : Register)
  | int (value : Int32)
  | double (bits : UInt64)
  | bool (value : Bool)
  deriving DecidableEq, Repr

/-- The spelling of an operand.  A real number is spelled as its bit pattern. -/
def Operand.text : Operand -> String
  | .register number => number.text
  | .int value => value.toInt.repr
  | .double bits => "0x" ++ String.ofList (Hexadecimal.fixed 16 bits.toNat)
  | .bool true => "true"
  | .bool false => "false"

/-- Calculations on integers and truth values. -/
inductive Calculation where
  | add
  | sub
  | mul
  | sdiv
  | and
  | or
  | xor
  deriving DecidableEq, Repr

/-- The spelling of a calculation. -/
def Calculation.text : Calculation -> String
  | .add => "add"
  | .sub => "sub"
  | .mul => "mul"
  | .sdiv => "sdiv"
  | .and => "and"
  | .or => "or"
  | .xor => "xor"

/-- Calculations on reals. -/
inductive RealCalculation where
  | fadd
  | fsub
  | fmul
  | fdiv
  deriving DecidableEq, Repr

/-- The spelling of a calculation on reals. -/
def RealCalculation.text : RealCalculation -> String
  | .fadd => "fadd"
  | .fsub => "fsub"
  | .fmul => "fmul"
  | .fdiv => "fdiv"

/-- Comparisons. -/
inductive Comparison where
  | eq
  | ne
  | gt
  | ge
  | lt
  | le
  deriving DecidableEq, Repr

/-- The spelling of a comparison of signed integers or truth values. -/
def Comparison.integerText : Comparison -> String
  | .eq => "icmp eq"
  | .ne => "icmp ne"
  | .gt => "icmp sgt"
  | .ge => "icmp sge"
  | .lt => "icmp slt"
  | .le => "icmp sle"

/-- The spelling of a comparison of reals, which fails if one of them is not a number. -/
def Comparison.orderedText : Comparison -> String
  | .eq => "fcmp oeq"
  | .ne => "fcmp one"
  | .gt => "fcmp ogt"
  | .ge => "fcmp oge"
  | .lt => "fcmp olt"
  | .le => "fcmp ole"

/-- What an instruction does with two operands of one type. -/
inductive Operation where
  | calculate (calculation : Calculation) (type : ValueType)
  | calculateReal (calculation : RealCalculation)
  | compare (comparison : Comparison) (type : ValueType)
  | compareReal (comparison : Comparison)
  deriving DecidableEq, Repr

namespace Operation

/-- The type of the operands. -/
def operandType : Operation -> ValueType
  | .calculate _ type => type
  | .calculateReal _ => .double
  | .compare _ type => type
  | .compareReal _ => .double

/-- The type of the result. -/
def resultType : Operation -> ValueType
  | .calculate _ type => type
  | .calculateReal _ => .double
  | .compare _ _ => .bool
  | .compareReal _ => .bool

/-- The spelling of an operation. -/
def text : Operation -> String
  | .calculate calculation _ => calculation.text
  | .calculateReal calculation => calculation.text
  | .compare comparison _ => comparison.integerText
  | .compareReal comparison => comparison.orderedText

end Operation

/-- The conversions of values. -/
inductive Conversion where
  /-- From an integer to a real. -/
  | sitofp
  /-- From a real to an integer. -/
  | fptosi
  /-- From a truth value to an integer. -/
  | zext
  deriving DecidableEq, Repr

namespace Conversion

/-- The type that is converted. -/
def source : Conversion -> ValueType
  | .sitofp => .int
  | .fptosi => .double
  | .zext => .bool

/-- The type that comes of it. -/
def result : Conversion -> ValueType
  | .sitofp => .double
  | .fptosi => .int
  | .zext => .int

/-- The spelling of a conversion. -/
def text : Conversion -> String
  | .sitofp => "sitofp"
  | .fptosi => "fptosi"
  | .zext => "zext"

end Conversion

/-- The instructions. -/
inductive Instr where
  /-- Reserve the slot of a variable. -/
  | alloca (variableName : String) (type : ValueType)
  | load (target : Register) (type : ValueType) (variableName : String)
  | store (type : ValueType) (value : Operand) (variableName : String)
  | operate (target : Register) (operation : Operation) (left right : Operand)
  /-- Change the sign of a real. -/
  | fneg (target : Register) (value : Operand)
  | convert (target : Register) (conversion : Conversion) (value : Operand)
  /-- The truth value that belongs to the block control came from. -/
  | phi (target : Register) (first : Operand) (firstFrom : Label) (second : Operand)
    (secondFrom : Label)
  /-- One of two formats, by a truth value. -/
  | select (target : Register) (condition : Operand) (yes no : Template)
  /-- Print a value in a format. -/
  | print (template : Template) (type : ValueType) (value : Operand)
  /-- Print the format that a register holds. -/
  | printSelected (format : Register)
  /-- Print a string constant of a given size and number. -/
  | printText (size number : Nat)
  /-- Scan a value into the slot of a variable. -/
  | scan (template : Template) (variableName : String)
  | jump (target : Label)
  | fork (condition : Operand) (yes no : Label)
  | ret
  deriving DecidableEq, Repr

namespace Instr

/-- The spelling of a variable's slot. -/
def slot (variableName : String) : String :=
  "%var_" ++ variableName

/-- The spelling of the definition of a register. -/
def define (target : Register) (right : String) : String :=
  target.text ++ " = " ++ right

/-- The spelling of a call of the print routine. -/
def callPrint (arguments : String) : String :=
  "call i32 (ptr, ...) @printf(ptr " ++ arguments ++ ")"

/-- The spelling of an array of bytes as a type. -/
def bytesType (size : Nat) : String :=
  "[" ++ size.repr ++ " x i8]"

/-- The spelling of an instruction. -/
def text : Instr -> String
  | .alloca variableName type => slot variableName ++ " = alloca " ++ type.codeName
  | .load target type variableName =>
    define target ("load " ++ type.codeName ++ ", ptr " ++ slot variableName)
  | .store type value variableName =>
    "store " ++ type.codeName ++ " " ++ value.text ++ ", ptr " ++ slot variableName
  | .operate target operation left right =>
    define target (operation.text ++ " " ++ operation.operandType.codeName ++ " " ++ left.text ++
      ", " ++ right.text)
  | .fneg target value => define target ("fneg double " ++ value.text)
  | .convert target conversion value =>
    define target (conversion.text ++ " " ++ conversion.source.codeName ++ " " ++ value.text ++
      " to " ++ conversion.result.codeName)
  | .phi target first firstFrom second secondFrom =>
    define target ("phi i1 [ " ++ first.text ++ ", %" ++ firstFrom.text ++ " ], [ " ++
      second.text ++ ", %" ++ secondFrom.text ++ " ]")
  | .select target condition yes no =>
    define target ("select i1 " ++ condition.text ++ ", ptr @" ++ yes.name ++ ", ptr @" ++ no.name)
  | .print template type value =>
    callPrint ("@" ++ template.name ++ ", " ++ type.codeName ++ " " ++ value.text)
  | .printSelected format => callPrint format.text
  | .printText size number =>
    callPrint ("getelementptr inbounds (" ++ bytesType size ++ ", ptr @" ++
      TextPool.nameOf number ++ ", i32 0, i32 0)")
  | .scan template variableName =>
    "call i32 (ptr, ...) @scanf(ptr @" ++ template.name ++ ", ptr " ++ slot variableName ++ ")"
  | .jump target => "br label %" ++ target.text
  | .fork condition yes no =>
    "br i1 " ++ condition.text ++ ", label %" ++ yes.text ++ ", label %" ++ no.text
  | .ret => "ret i32 0"

/-- The register that an instruction defines. -/
def defined? : Instr -> Option Register
  | .load target _ _ => some target
  | .operate target _ _ _ => some target
  | .fneg target _ => some target
  | .convert target _ _ => some target
  | .phi target _ _ _ _ => some target
  | .select target _ _ _ => some target
  | _ => none

/-- Whether an instruction ends its block. -/
def isTerminator : Instr -> Bool
  | .jump _ => true
  | .fork _ _ _ => true
  | .ret => true
  | _ => false

end Instr

/-- A line of a routine: the label that opens a block, or an instruction. -/
inductive Item where
  | label (label : Label)
  | instr (instr : Instr)
  deriving DecidableEq, Repr

end MiniLang
