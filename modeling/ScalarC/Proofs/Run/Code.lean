import ScalarC.Proofs.Run.Source

/-!
# Runs of register code

An activation of a lowered function holds a number in every register and local, zero
until something is stored, and finds their types in the tables of the function.
Operations run one after the other; the operations of a loop's condition run before
every pass.
-/

namespace ScalarC

/-- The registers and locals of an activation. -/
structure Frame where
  registers : Register → Int
  locals : String → Int

namespace Frame

/-- All registers hold zero, and so do all locals but the parameters. -/
def ofBindings (bindings : List (String × Int)) : Frame where
  registers _ := 0
  locals name := (Store.ofBindings bindings name).getD 0

def setRegister (frame : Frame) (register : Register) (raw : Int) : Frame :=
  { frame with registers := fun other => if other = register then raw else frame.registers other }

def setLocal (frame : Frame) (name : String) (raw : Int) : Frame :=
  { frame with locals := fun other => if other = name then raw else frame.locals other }

@[simp] theorem locals_setRegister (frame : Frame) (register : Register) (raw : Int) :
    (frame.setRegister register raw).locals = frame.locals := rfl

@[simp] theorem registers_setRegister_self (frame : Frame) (register : Register) (raw : Int) :
    (frame.setRegister register raw).registers register = raw := by
  simp [setRegister]

theorem registers_setRegister_of_ne {frame : Frame} {register other : Register} {raw : Int}
    (h : other ≠ register) :
    (frame.setRegister register raw).registers other = frame.registers other := by
  simp [setRegister, h]

@[simp] theorem registers_setLocal (frame : Frame) (name : String) (raw : Int) :
    (frame.setLocal name raw).registers = frame.registers := rfl

end Frame

/-- Whether an operation is without control flow. -/
def Op.isSimple : Op → Bool
  | .ret _ | .branch _ _ _ | .loop _ _ _ => false
  | _ => true

/-- What the operations of a lowered function run in. -/
structure CodeActivation where
  meaning : Meaning
  function : LoweredFunction
  /-- Calls the function with a symbol. -/
  invoke : Symbol → List Int → Run (Option Int)

namespace CodeActivation

/-- The value of a register. -/
def operand (act : CodeActivation) (frame : Frame) (register : Register) : Run Value := do
  let ty ← Run.ofOption (act.function.registerType? register)
  return ⟨ty, frame.registers register⟩

/-- Converts the value of a register to the type of another. -/
def convert (act : CodeActivation) (frame : Frame) (dest src : Register) : Run Frame := do
  let value ← act.operand frame src
  let ty ← Run.ofOption (act.function.registerType? dest)
  let raw ← Run.ofOption (act.meaning.convert value ty)
  return frame.setRegister dest raw

/-- Puts the result of a call into its register. -/
def receive (frame : Frame) (dest : Option Register) (result : Option Int) : Run Frame :=
  match dest with
  | none => return frame
  | some dest => do
    let raw ← Run.ofOption result
    return frame.setRegister dest raw

/-- What a print operation hands to its routine. -/
def printed (act : CodeActivation) (frame : Frame) : PrintArg → Run Printed
  | .nothing => return .nothing
  | .register source => do
    let value ← act.operand frame source
    return .value value
  | .string index => do
    let text ← Run.ofOption act.function.strings[index]?
    return .text text

/-- An operation without control flow leaves another frame. -/
def execSimple (act : CodeActivation) (frame : Frame) : Op → Run Frame
  | .loadConst dest value => return frame.setRegister dest value
  | .loadLocal dest name => return frame.setRegister dest (frame.locals name)
  | .copy dest src | .cast dest src => act.convert frame dest src
  | .storeLocal name src => do
    let value ← act.operand frame src
    let ty ← Run.ofOption (act.function.localType? name)
    let raw ← Run.ofOption (act.meaning.convert value ty)
    return frame.setLocal name raw
  | .binary dest op lhs rhs => do
    let left ← act.operand frame lhs
    let right ← act.operand frame rhs
    let raw ← Run.ofOption (act.meaning.binary op left right)
    return frame.setRegister dest raw
  | .call dest callee args => do
    let result ← act.invoke callee (args.map frame.registers)
    receive frame dest result
  | .print routine arg => do
    let printed ← act.printed frame arg
    Run.emit (.print routine printed)
    return frame
  | _ => return frame

/-- The number that the function hands back. -/
def execReturn (act : CodeActivation) (frame : Frame) : Option Register → Run (Option Int)
  | none => return none
  | some register => do
    let value ← act.operand frame register
    let ty ← Run.ofOption act.function.returnType
    let raw ← Run.ofOption (act.meaning.returned value ty)
    return some raw

mutual

/-- Runs an operation; each loop makes at most `fuel` passes. -/
def execOp (act : CodeActivation) (fuel : Nat) : Op → Frame → Run (Outcome × Frame)
  | .ret value, frame => do
    let result ← act.execReturn frame value
    return (.returned result, frame)
  | .branch cond thenOps elseOps, frame =>
    if frame.registers cond ≠ 0 then execOps act fuel thenOps frame
    else execOps act fuel elseOps frame
  | .loop condOps cond body, frame =>
    Run.iterate (fun frame => do
      let (outcome, frame) ← execOps act fuel condOps frame
      match outcome with
      | .returned value => return (.returned value, frame)
      | .continues =>
        if frame.registers cond ≠ 0 then
          let (outcome, frame) ← execOps act fuel body frame
          return (outcome.pass, frame)
        else
          return (.leave, frame)) fuel frame
  | op, frame => do
    let frame ← act.execSimple frame op
    return (.continues, frame)

def execOps (act : CodeActivation) (fuel : Nat) : List Op → Frame → Run (Outcome × Frame)
  | [], frame => return (.continues, frame)
  | op :: rest, frame => Run.andThen (execOp act fuel op frame) (execOps act fuel rest)

end

/-- An operation without control flow passes control to the next one. -/
theorem execOps_simple (act : CodeActivation) (fuel : Nat) {op : Op} (h : op.isSimple)
    (rest : List Op) (frame : Frame) :
    act.execOps fuel (op :: rest) frame = act.execSimple frame op >>= act.execOps fuel rest := by
  cases op <;> simp_all [execOps, execOp, Run.andThen, Op.isSimple]

theorem execOps_ret (act : CodeActivation) (fuel : Nat) (value : Option Register)
    (rest : List Op) (frame : Frame) :
    act.execOps fuel (.ret value :: rest) frame
      = act.execReturn frame value >>= fun result => pure (.returned result, frame) := by
  simp [execOps, execOp, Run.andThen]

theorem execOps_append (act : CodeActivation) (fuel : Nat) (ops rest : List Op)
    (frame : Frame) :
    act.execOps fuel (ops ++ rest) frame
      = Run.andThen (act.execOps fuel ops frame) (act.execOps fuel rest) := by
  induction ops generalizing frame with
  | nil => simp [execOps]
  | cons op ops ih => simp only [List.cons_append, execOps, Run.andThen_assoc, funext ih]

/-- Runs the operations with the parameters bound. -/
def run (act : CodeActivation) (fuel : Nat) (args : List Int) : Run (Option Int) := do
  let bindings ← Run.ofOption (bindParams act.function.params args)
  let (outcome, _) ← act.execOps fuel act.function.ops (Frame.ofBindings bindings)
  match outcome with
  | .continues => return none
  | .returned value => return value

end CodeActivation

namespace LoweredUnit

/-- Calls the function with a symbol: the call is recorded, then an external function
does what is assigned to it, and any other function runs with less fuel. -/
def invoke (unit : LoweredUnit) (m : Meaning) : Nat → Symbol → List Int → Run (Option Int)
  | 0, _, _ => Run.ofOption none
  | fuel + 1, symbol, args => do
    let function ← Run.ofOption (unit.functions.find? (·.symbol == symbol))
    Run.emit (.call symbol args)
    if function.isExternal then Run.external m symbol args
    else
      CodeActivation.run { meaning := m, function, invoke := unit.invoke m fuel } fuel args

/-- Runs the operations of a function of the unit. -/
def run (unit : LoweredUnit) (m : Meaning) (fuel : Nat) (function : LoweredFunction)
    (args : List Int) : Run (Option Int) :=
  CodeActivation.run { meaning := m, function, invoke := unit.invoke m fuel } fuel args

/-- The operations of the function end with the given result and events. -/
def Terminates (unit : LoweredUnit) (m : Meaning) (function : LoweredFunction)
    (args : List Int) (result : Option Int) (events : History) : Prop :=
  ∃ fuel, unit.run m fuel function args [] = some (result, events)

end LoweredUnit

end ScalarC
