/-!
# Machine words

Lengths and counts are numbers of 64 bits.
-/

namespace DataflowTypes

def wordLimit : Nat := Nat.pow 2 64

end DataflowTypes
