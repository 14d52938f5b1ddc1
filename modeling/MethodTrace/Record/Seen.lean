import Std.Data.HashSet
import MethodTrace.Fingerprint

/-!
# Rows already written

The fingerprints of the rows met since the last time they were forgotten. A row is new the first time only.
-/

namespace MethodTrace

/-- The fingerprints met so far. -/
structure SeenRows where
  fingerprints : Std.HashSet UInt64 := ∅

namespace SeenRows

/-- Meet a fingerprint. The answer says whether it is new. -/
def meetFingerprint (seen : SeenRows) (key : UInt64) : SeenRows × Bool :=
  (⟨seen.fingerprints.insert key⟩, !seen.fingerprints.contains key)

/-- Meet a row. The answer says whether it is new. -/
def meet (seen : SeenRows) (row : ByteArray) : SeenRows × Bool :=
  seen.meetFingerprint (fingerprint row)

/-- How many fingerprints were met. -/
def size (seen : SeenRows) : Nat :=
  seen.fingerprints.size

end SeenRows

end MethodTrace
