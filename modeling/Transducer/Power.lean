/-!
# Powers of natural numbers

Within this library `^` on natural numbers is the power of `Nat` itself, also where a larger
algebraic hierarchy offers the same function as the power of a monoid: a definition then reads
the same whatever else is in scope.
-/
namespace Transducer

attribute [scoped instance (high)] instPowNat instNatPowNat

end Transducer
