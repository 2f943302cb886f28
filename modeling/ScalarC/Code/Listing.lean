import ScalarC.Code

/-!
# Listings of register code

A readable text of operations and functions: one line per operation, nested
operations indented by two blanks.
-/

namespace ScalarC

namespace Op

/-- The operation on one line; nested operations are only counted. -/
def text : Op → String
  | loadConst dest value => dest.name ++ " = " ++ toString value
  | loadLocal dest name => dest.name ++ " = " ++ name
  | copy dest src => dest.name ++ " = " ++ src.name
  | storeLocal name src => name ++ " = " ++ src.name
  | binary dest op lhs rhs => dest.name ++ " = " ++ lhs.name ++ " " ++ op.token ++ " " ++ rhs.name
  | cast dest src => dest.name ++ " = cast " ++ src.name
  | call dest callee args =>
    (match dest with
      | some dest => dest.name ++ " = "
      | none => "")
    ++ "call " ++ callee ++ "(" ++ ", ".intercalate (args.map Register.name) ++ ")"
  | print routine arg =>
    routine.name ++
      match arg with
      | .nothing => "()"
      | .register source => "(" ++ source.name ++ ")"
      | .string index => "(str" ++ toString index ++ ")"
  | ret (some value) => "return " ++ value.name
  | ret none => "return"
  | branch cond thenOps elseOps =>
    "if " ++ cond.name ++ " [" ++ toString thenOps.length ++ " ops] else ["
      ++ toString elseOps.length ++ " ops]"
  | loop condOps cond body =>
    "loop [" ++ toString condOps.length ++ " ops] while " ++ cond.name ++ " ["
      ++ toString body.length ++ " ops]"

mutual

/-- The lines of an operation; an empty second arm is left out. -/
def lines (indent : String) : Op → List String
  | branch cond thenOps elseOps =>
    (indent ++ "if " ++ cond.name ++ ":") :: linesAll (indent ++ "  ") thenOps
      ++ (if elseOps.isEmpty then []
          else (indent ++ "else:") :: linesAll (indent ++ "  ") elseOps)
  | loop condOps cond body =>
    (indent ++ "loop:") :: linesAll (indent ++ "  ") condOps
      ++ (indent ++ "  break unless " ++ cond.name) :: linesAll (indent ++ "  ") body
  | op => [indent ++ op.text]

def linesAll (indent : String) : List Op → List String
  | [] => []
  | op :: rest => lines indent op ++ linesAll indent rest

end

end Op

/-- Lines as text, each ended by a line feed. -/
def unlines (lines : List String) : String :=
  String.join (lines.map (· ++ "\n"))

namespace RegisterRow

/-- `reg r1: u8`, with a mark for a register that is not written or not read. -/
def text (row : RegisterRow) : String :=
  "reg " ++ row.register.name ++ ": " ++ row.ty.name ++
    if !row.written then " (reserved)" else if !row.read then " (unread)" else ""

end RegisterRow

namespace LoweredFunction

/-- `function f$u8 (a: u8) -> u8`. -/
def heading (function : LoweredFunction) : String :=
  "function " ++ function.symbol ++ " ("
    ++ ", ".intercalate (function.params.map fun p => p.name ++ ": " ++ p.ty.name) ++ ")"
    ++ (match function.returnType with
        | some ty => " -> " ++ ty.name
        | none => "")
    ++ (if function.isExternal then " external" else "")

/-- The heading, the registers and the operations; only the heading for an
external function. -/
def listing (function : LoweredFunction) : String :=
  unlines (function.heading ::
    if function.isExternal then []
    else function.registers.map ("  " ++ ·.text) ++ Op.linesAll "  " function.ops)

end LoweredFunction

end ScalarC
