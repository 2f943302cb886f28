import ScalarC.Routine

/-!
# Reserved names

The file-scope names that a generated file uses already, so that no function may
have one: names of the two headers it includes, its typedefs and macros, the
print routines, and `main`.
-/

namespace ScalarC

namespace Name

/-- Names that `<stdio.h>` declares or defines. -/
def stdio : List String :=
  ["FILE", "fpos_t", "size_t", "NULL", "EOF", "BUFSIZ", "FILENAME_MAX", "FOPEN_MAX",
    "L_tmpnam", "TMP_MAX", "SEEK_SET", "SEEK_CUR", "SEEK_END", "_IOFBF", "_IOLBF", "_IONBF",
    "stdin", "stdout", "stderr", "clearerr", "fclose", "feof", "ferror", "fflush", "fgetc",
    "fgetpos", "fgets", "fopen", "fprintf", "fputc", "fputs", "fread", "freopen", "fscanf",
    "fseek", "fsetpos", "ftell", "fwrite", "getc", "getchar", "gets", "perror", "printf",
    "putc", "putchar", "puts", "remove", "rename", "rewind", "scanf", "setbuf", "setvbuf",
    "snprintf", "sprintf", "sscanf", "tmpfile", "tmpnam", "ungetc", "vfprintf", "vfscanf",
    "vprintf", "vscanf", "vsnprintf", "vsprintf", "vsscanf"]

def startsWith (head : String) (symbol : String) : Bool :=
  head.toList.isPrefixOf symbol.toList

def endsWith (tail : String) (symbol : String) : Bool :=
  tail.toList.isSuffixOf symbol.toList

/-- Typedefs of `<stdint.h>`: `int…_t` and `uint…_t`. -/
def isStdintType (symbol : String) : Bool :=
  (startsWith "int" symbol || startsWith "uint" symbol) && endsWith "_t" symbol

/-- Limits and constant forms of `<stdint.h>`: `INT8_MAX`, `UINT64_C`. -/
def isStdintLimit (symbol : String) : Bool :=
  ["INT", "UINT", "SIZE", "PTRDIFF", "WCHAR", "WINT", "SIG_ATOMIC"].any (startsWith · symbol)
    && ["_MAX", "_MIN", "_C"].any (endsWith · symbol)

/-- Whether a generated file uses the name already. -/
def isReserved (symbol : String) : Bool :=
  symbol == "main" || symbol == "String"
    || stdio.contains symbol
    || isStdintType symbol || isStdintLimit symbol
    || Scalar.all.any (·.name == symbol)
    || (Scalar.all.filter Scalar.isFixedPoint).any (·.shiftName == symbol)
    || Routine.all.any (·.name == symbol)

end Name

end ScalarC
