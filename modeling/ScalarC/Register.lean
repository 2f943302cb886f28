import ScalarC.Scalar

/-!
# Virtual registers

Registers are numbered from one in the order in which they are handed out, and
the table of a function keeps one row per register: its type, and whether some
operation writes or reads it. A register outside the table has no row.
-/

namespace ScalarC

/-- A virtual register of one function. -/
structure Register where
  number : Nat
deriving DecidableEq, Repr

namespace Register

/-- The C name of the register. -/
def name (register : Register) : String := "r" ++ toString register.number

end Register

structure RegisterRow where
  register : Register
  ty : Scalar
  /-- Some operation stores into the register. -/
  written : Bool := false
  /-- Some operation uses the register. -/
  read : Bool := false
deriving DecidableEq, Repr

/-- The registers handed out so far, in order. -/
structure RegisterTable where
  rows : List RegisterRow := []
deriving DecidableEq, Repr

namespace RegisterTable

def size (table : RegisterTable) : Nat := table.rows.length

/-- Hands out the next register. -/
def allocate (table : RegisterTable) (ty : Scalar) : Register × RegisterTable :=
  let register : Register := ⟨table.size + 1⟩
  (register, { rows := table.rows ++ [{ register, ty }] })

@[simp] theorem size_allocate (table : RegisterTable) (ty : Scalar) :
    (table.allocate ty).2.size = table.size + 1 := by
  simp [allocate, size]

/-- The row of a register, found by its number. -/
def row? (table : RegisterTable) (register : Register) : Option RegisterRow :=
  match register.number with
  | 0 => none
  | n + 1 => table.rows[n]?

def typeOf? (table : RegisterTable) (register : Register) : Option Scalar :=
  (table.row? register).map (·.ty)

/-- Changes the row of a register; there is no result without a row. -/
def update? (table : RegisterTable) (register : Register) (f : RegisterRow → RegisterRow) :
    Option RegisterTable :=
  match register.number with
  | 0 => none
  | n + 1 => if n < table.size then some { rows := table.rows.modify n f } else none

def markWritten? (table : RegisterTable) (register : Register) : Option RegisterTable :=
  table.update? register fun row => { row with written := true }

def markRead? (table : RegisterTable) (register : Register) : Option RegisterTable :=
  table.update? register fun row => { row with read := true }

end RegisterTable

end ScalarC
