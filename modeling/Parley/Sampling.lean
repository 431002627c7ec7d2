/-
Random samples from a seed.

The seed and the number of a sample are mixed into 64 bits that look unrelated
for neighbouring numbers; the upper 53 of them are the sample, at least zero and
below one.
-/

namespace Parley.Sampling

def mix (state : UInt64) : UInt64 :=
  let x := (state ^^^ (state >>> 30)) * 0xBF58476D1CE4E5B9
  let x := (x ^^^ (x >>> 27)) * 0x94D049BB133111EB
  x ^^^ (x >>> 31)

/-- The sample with a number; every state is reached before one comes back. -/
def sample (seed : UInt64) (n : Nat) : Float :=
  let bits := mix (seed + n.toUInt64 * 0x9E3779B97F4A7C15)
  (bits >>> 11).toFloat / 9007199254740992

end Parley.Sampling
