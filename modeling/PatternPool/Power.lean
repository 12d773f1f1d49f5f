/-
PatternPool.Power — powers of numbers.

The power of a natural number or an integer is the core library's everywhere,
also where algebra brings in a power of its own: `2 ^ 64` is one term in the
definitions and in the theory about them.
-/

namespace PatternPool

attribute [instance(20000), default_instance(20000)] instPowNat

end PatternPool
