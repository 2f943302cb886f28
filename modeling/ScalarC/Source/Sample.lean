import ScalarC.Source.SourceUnit

/-!
# Sample units

Two small programs around one function that adds two bytes.
-/

namespace ScalarC

namespace Sample

/-- The path of the samples unless another is asked for. -/
def defaultPath : String := "/Users/alice/dev/zvdb-minz"

def moduleName : String := "simple_add"

/-- Returns the sum of two bytes. -/
def addNumbers (path : String) : SourceFunction where
  path := path
  moduleName := moduleName
  name := "add_numbers"
  params := [⟨"a", .u8⟩, ⟨"b", .u8⟩]
  returnType := some .u8
  body := [.ret (some (.binary .add (.var "a") (.var "b")))]

/-- The `main` of a sample: it takes nothing and returns a byte. -/
def mainFunction (path : String) (body : List Statement) : SourceFunction where
  path := path
  moduleName := moduleName
  name := "main"
  returnType := some .u8
  body := body

/-- Adds two locals by a call and returns the sum. -/
def simpleAdd (path : String) : SourceUnit where
  name := moduleName
  functions :=
    [addNumbers path,
      mainFunction path
        [.declare "x" .u8 (some (.literal ⟨42, .u8⟩)),
          .declare "y" .u8 (some (.literal ⟨13, .u8⟩)),
          .declare "result" .u8
            (some (.call (.function (addNumbers path).id) [.var "x", .var "y"])),
          .ret (some (.var "result"))]]

/-- The two statements that print the sum of one pair on a line of its own. -/
def printSum (path : String) (pair : Int64 × Int64) : List Statement :=
  [.print (.value (.call (.function (addNumbers path).id)
      [.literal ⟨pair.1, .u8⟩, .literal ⟨pair.2, .u8⟩])),
    .print .newline]

/-- Prints the sum of every pair and returns zero. -/
def addPairs (path : String) (pairs : List (Int64 × Int64)) : SourceUnit where
  name := moduleName
  functions :=
    [addNumbers path,
      mainFunction path (pairs.flatMap (printSum path) ++ [.ret (some (.literal ⟨0, .u8⟩))])]

/-- The pairs that the command line prints. -/
def defaultPairs : List (Int64 × Int64) :=
  [(10, 20), (42, 13), (100, 200)]

/-- The sample with a given name. -/
def named? (name path : String) : Option SourceUnit :=
  match name with
  | "simple_add" => some (simpleAdd path)
  | "add_numbers" => some (addPairs path defaultPairs)
  | _ => none

end Sample

end ScalarC
