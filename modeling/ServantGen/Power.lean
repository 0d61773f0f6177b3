/-!
# Powers of two and ten

Bounds of machine words are powers of two, and decimal numbers are scaled by powers of ten.
-/

namespace ServantGen

def twoTo (exponent : Nat) : Nat :=
  Nat.pow 2 exponent

def tenTo (exponent : Nat) : Nat :=
  Nat.pow 10 exponent

end ServantGen
