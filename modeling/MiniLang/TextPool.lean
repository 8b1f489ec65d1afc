import MiniLang.Number.Hexadecimal

/-!
# String constants

Every string that a program writes is a constant of its own, even if another constant holds the
same bytes.  Constants are numbered in the order of their addition, and their names hold the number.
The numbers have no bound.  Numbers of 32 bits lead to the same constants below 2 ^ 32, that is, as
long as a program writes fewer than 2 ^ 32 strings.
-/

namespace MiniLang

/-- A named string constant. -/
structure TextConstant where
  name : String
  bytes : List UInt8
  deriving DecidableEq, Repr

namespace TextConstant

/-- A byte as a backslash and two hexadecimal digits. -/
def escapeByte (byte : UInt8) : List Char :=
  '\\' :: Hexadecimal.fixed 2 byte.toNat

/-- Bytes and the zero byte that ends them, each as an escape. -/
def escape (bytes : List UInt8) : String :=
  String.ofList ((bytes ++ [0]).flatMap escapeByte)

/-- What is true of the backslash and of the hexadecimal digits is true of all of an escaped text. -/
theorem forall_mem_escape
    {holds : Char -> Prop}
    (backslash : holds '\\')
    (digits : ∀ below : Fin 16, holds (Hexadecimal.digit below))
    (bytes : List UInt8) :
    ∀ character ∈ (escape bytes).toList, holds character := by
  intro character present
  rw [escape, String.toList_ofList, List.mem_flatMap] at present
  obtain ⟨byte, -, present⟩ := present
  rcases List.mem_cons.1 present with rfl | digit
  · exact backslash
  · obtain ⟨below, rfl⟩ := Hexadecimal.exists_digit_of_mem_fixed digit
    exact digits below

/-- The number of bytes with the zero byte that ends them. -/
def sizeWithEnd (constant : TextConstant) : Nat :=
  constant.bytes.length + 1

end TextConstant

/-- The string constants of a program. -/
structure TextPool where
  constants : Array (List UInt8) := #[]
  deriving DecidableEq, Repr

namespace TextPool

/-- The number of constants. -/
def size (pool : TextPool) : Nat :=
  pool.constants.size

/-- Add a constant.  Its number is the size of the pool before. -/
def add (pool : TextPool) (bytes : List UInt8) : Nat × TextPool :=
  (pool.size, { constants := pool.constants.push bytes })

/-- The name of the constant with a given number. -/
def nameOf (number : Nat) : String :=
  "str_" ++ number.repr

/-- The constant with a given number. -/
def get? (pool : TextPool) (number : Nat) : Option TextConstant :=
  pool.constants[number]?.map fun bytes => ⟨nameOf number, bytes⟩

/-- The constants in order. -/
def toList (pool : TextPool) : List TextConstant :=
  pool.constants.toList.zipIdx.map fun entry => ⟨nameOf entry.2, entry.1⟩

end TextPool

end MiniLang
