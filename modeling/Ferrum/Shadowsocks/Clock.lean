import Mathlib.Order.Basic

namespace Ferrum.Shadowsocks

def nanosPerSecond : Nat := 1000000000

/-- Elapsed monotonic time in nanoseconds, or `none` for reversed instants. -/
def durationSince (later earlier : Nat) : Option Nat :=
  if earlier ≤ later then some (later - earlier) else none

/-- Unix seconds of a clock that never jumps: whole seconds of monotonic time plus a constant offset, in nanoseconds so that the
two need not tick together. -/
def unixSeconds (offset : Nat) (now : Nat) : Nat := (now + offset) / nanosPerSecond

def absDiff (a b : Nat) : Nat := (a - b) + (b - a)

theorem unixSeconds_mono (offset : Nat) {earlier later : Nat} (ordered : earlier ≤ later) :
    unixSeconds offset earlier ≤ unixSeconds offset later :=
  Nat.div_le_div_right (Nat.add_le_add_right ordered offset)

theorem lt_retention_of_skew {offset timestamp : Nat} {earlier later : Nat}
    (recent : timestamp ≤ unixSeconds offset earlier + 30) (fresh : unixSeconds offset later < timestamp + 30) :
    later < earlier + 60 * nanosPerSecond := by
  unfold unixSeconds nanosPerSecond at *
  omega

end Ferrum.Shadowsocks
