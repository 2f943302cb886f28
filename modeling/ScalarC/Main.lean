import ScalarC.CommandLine.Run

/-!
# The command

Reads and writes the files on disk, and prints what a run leaves behind.
-/

namespace ScalarC

namespace CommandLine

/-- The fault of a failed file access. -/
def FileFault.ofError : IO.Error → FileFault
  | .noFileOrDirectory .. => .missing
  | .permissionDenied .. => .accessDenied
  | .inappropriateType _ code _ => if code == 21 then .isDirectory else .notDirectory
  | .invalidArgument _ code details =>
    if code == 36 || details == "name too long" then .nameTooLong else .other details
  | e => .other (toString e)

/-- The files on disk. -/
def disk : Files IO where
  read path :=
    tryCatch (Except.ok <$> IO.FS.readFile path) fun e => pure (.error (.ofError e))
  write path text :=
    tryCatch (Except.ok <$> IO.FS.writeFile path text) fun e => pure (.error (.ofError e))

end CommandLine

end ScalarC

def main (args : List String) : IO UInt32 := do
  let outcome ← ScalarC.CommandLine.run ScalarC.CommandLine.disk args
  IO.print outcome.output
  IO.eprint outcome.errors
  return outcome.status
