/-!
# Words

Powers of two and the range of 64-bit signed words, as integers.
-/

namespace ScalarC

/-- The number of values of a word of `bits` bits. -/
def twoPow (bits : Nat) : Nat := Nat.pow 2 bits

/-- Whether an integer is a 64-bit signed word. -/
def isWord64 (n : Int) : Bool :=
  decide (-9223372036854775808 ≤ n) && decide (n ≤ 9223372036854775807)

end ScalarC
