/-!
# Powers

The power of a number is that of the core library, also where a library is imported that
has one of its own for all sorts of numbers.
-/

namespace Drayage

@[default_instance 20000]
instance (priority := 20000) corePower {α : Type} [NatPow α] : Pow α Nat := instPowNat

end Drayage
