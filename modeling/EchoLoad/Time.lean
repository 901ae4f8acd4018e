/-!
Time on the virtual clock. The clock starts at zero and is read in nanoseconds, so an instant
is the span since the start and needs no type of its own.
-/

namespace EchoLoad

/-- A span of time, or an instant counted from the start of a run, in nanoseconds. -/
abbrev Duration := Nat

namespace Duration

def ofSecs (s : Nat) : Duration := s * 1000000000

def ofMillis (ms : Nat) : Duration := ms * 1000000

def secs (d : Duration) : Nat := d / 1000000000

def subsecNanos (d : Duration) : Nat := d % 1000000000

def millis (d : Duration) : Nat := d / 1000000

/-- Whole seconds and the rest are each rounded to binary64 before they are added. -/
def seconds (d : Duration) : Float :=
  (UInt64.ofNat d.secs).toFloat + (UInt64.ofNat d.subsecNanos).toFloat / 1000000000

end Duration

end EchoLoad
