/-!
# Fingerprints

A 64-bit digest of a run of bytes. Each byte is mixed into the low bits of the state, which is then multiplied
by an odd number. Both steps can be undone, so two runs that differ in a single byte never agree.
-/

namespace MethodTrace

namespace Fingerprint

/-- The digest of no bytes. -/
def seed : UInt64 := 0xcbf29ce484222325

/-- The factor of each step. -/
def factor : UInt64 := 0x100000001b3

/-- The state after one more byte. -/
def absorb (state : UInt64) (byte : UInt8) : UInt64 :=
  (state ^^^ byte.toUInt64) * factor

/-- The state after a run of bytes. -/
def absorbAll (state : UInt64) (bytes : List UInt8) : UInt64 :=
  bytes.foldl absorb state

end Fingerprint

/-- The digest of a run of bytes. -/
def fingerprint (bytes : ByteArray) : UInt64 :=
  Fingerprint.absorbAll Fingerprint.seed bytes.data.toList

end MethodTrace
