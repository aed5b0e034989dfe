import Mathlib.Order.Basic

namespace Ferrum

abbrev Words := List (BitVec 64)

namespace Words

def wordAt (words : Words) (i : Nat) : BitVec 64 := words.getD i 0

def bit (words : Words) (i : Nat) : Bool := (words.wordAt (i / 64)).getLsbD (i % 64)

/-- `words[index / 64] |= 1 << (index % 64)`. -/
def setBit (words : Words) (i : Nat) : Words := words.set (i / 64) (words.wordAt (i / 64) ||| 1#64 <<< (i % 64))

end Words

end Ferrum
