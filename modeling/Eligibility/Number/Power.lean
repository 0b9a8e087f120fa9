/-!
# Powers

A power of whole numbers is the same operation in every module, also in one that sees the powers of
algebra.
-/

attribute [instance (20000)] instPowNat

attribute [default_instance 20000] instPowNat
