/-!
# Powers and zeros of the natural numbers

A module that imports algebra has two readings of `2 ^ 64` and of the zero of a sum: the one that
comes with the natural numbers and the one of a monoid. The first is taken everywhere, so that a
constant such as `Amount.largest` is the same term in the program and in its theory.
-/

attribute [instance (high), default_instance high] instPowNat
attribute [instance (high)] Zero.ofOfNat0
