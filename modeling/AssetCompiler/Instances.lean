/-! # The instances the definitions are read with

Powers of numbers are the built-in ones and octets are compared by the built-in decision
procedure, whatever other instances a module that imports more than these definitions has at
hand: a statement about them then means the same wherever it is made.
-/

attribute [instance (20000), default_instance (20000)] instPowNat

attribute [instance (20000)] ByteArray.instDecidableEq
