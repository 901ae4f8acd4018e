import EchoLoad.Decimal.Fixed
import EchoLoad.Time
/-!
The result of one phase of a sweep, and its record in the throughput file. What a phase counts is a
natural number; that a sum of 64 bits could overflow is left out. The record has the time of the phase
as it is read back from the seconds of the result.
-/

namespace EchoLoad

/-- The span of a number of seconds, to the nearest nanosecond; of two equally near the even one.
What is not a finite number from 0 on has no span, and counts as none. -/
def Duration.ofSeconds (x : Float) : Duration :=
  match Decimal.Binary64.ofBits x.toBits with
  | .finite false m e =>
    let nanos := Decimal.Ratio.scaled (m * 1000000000) 2 e
    Decimal.roundDiv nanos.num nanos.den
  | _ => 0

structure PhaseSummary where
  size : Nat
  bytes : Nat
  rounds : Nat
  samples : Nat
  elapsed : Duration
  deriving DecidableEq, Repr

namespace PhaseSummary

def elapsedSecs (p : PhaseSummary) : Float := p.elapsed.seconds

/-- The time of the phase as its record has it, read back from the seconds of the summary. -/
def recordedTime (p : PhaseSummary) : Duration := .ofSeconds p.elapsedSecs

/-- A phase that took no time has rate 0. -/
def bytesPerSec (p : PhaseSummary) : Float :=
  if p.elapsedSecs > 0 then (UInt64.ofNat p.bytes).toFloat / p.elapsedSecs else 0

end PhaseSummary

/-- The record of a phase: size, bytes, and seconds to the microsecond. -/
def throughputRecord (size bytes : Nat) (elapsed : Duration) : String :=
  s!"{size}, {bytes}, {Decimal.fixed 6 elapsed.seconds}"

end EchoLoad
