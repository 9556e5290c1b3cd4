/-!
Instances that are meant throughout. Powers of natural numbers and the equality test for byte
arrays are the core library's, whatever other instances are in sight.
-/

namespace AtaCapture

@[default_instance 20000]
instance (priority := 2000) powNat : Pow Nat Nat := instPowNat

instance (priority := 2000) decidableEqByteArray : DecidableEq ByteArray :=
  ByteArray.instDecidableEq

end AtaCapture
