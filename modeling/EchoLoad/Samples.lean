import EchoLoad.Time
/-!
The sample sink: senders put join and message latencies on one channel; taking one kind first
moves every sample of both kinds off the channel, so none is lost or misfiled.
-/

namespace EchoLoad

inductive Sample where
  /-- From the start of a connect attempt until the transport stood. -/
  | join (latency : Duration)
  /-- From the request flushed until the echo was read. -/
  | message (latency : Duration)
  deriving DecidableEq, Repr

/-- What can be done with a sink. A sample comes from any of its recorders, which all put it on the
one channel. -/
inductive SinkAction where
  | record (recorder : Nat) (x : Sample)
  | collect
  | takeMessages
  | takeJoins
  deriving DecidableEq, Repr

structure Sink where
  /-- Sent and not yet collected, the latest first. -/
  channel : List Sample := []
  joins : List Duration := []
  messages : List Duration := []
  deriving DecidableEq, Repr

namespace Sink

def record (s : Sink) (x : Sample) : Sink := { s with channel := x :: s.channel }

def joinOf : Sample → Option Duration
  | .join d => some d
  | .message _ => none

def messageOf : Sample → Option Duration
  | .message d => some d
  | .join _ => none

/-- Move every sample off the channel. -/
def collect (s : Sink) : Sink where
  joins := s.joins ++ s.channel.reverse.filterMap joinOf
  messages := s.messages ++ s.channel.reverse.filterMap messageOf

def takeMessages (s : Sink) : List Duration × Sink :=
  (s.collect.messages, { s.collect with messages := [] })

def takeJoins (s : Sink) : List Duration × Sink :=
  (s.collect.joins, { s.collect with joins := [] })

/-- One action. Those that take no latencies give none. -/
def perform (s : Sink) : SinkAction → List Duration × Sink
  | .record _ x => ([], s.record x)
  | .collect => ([], s.collect)
  | .takeMessages => s.takeMessages
  | .takeJoins => s.takeJoins

end Sink

end EchoLoad
