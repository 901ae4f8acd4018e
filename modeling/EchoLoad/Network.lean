import EchoLoad.Network.Connection
/-!
The network: the scripts of the connections to come, and the connections made so far in the
order of their attempts.
-/

namespace EchoLoad

structure Network where
  /-- The peers of the first attempts. -/
  peers : List Peer := []
  /-- The peer of every later attempt. -/
  rest : Peer := {}
  connections : List Connection := []
  deriving DecidableEq, Repr

namespace Network

def peer (net : Network) (n : Nat) : Peer := net.peers[n]?.getD net.rest

def attempt (net : Network) (c : Connection) : Network :=
  { net with connections := net.connections ++ [c] }

def modify (net : Network) (n : Nat) (f : Connection → Connection) : Network :=
  { net with connections := net.connections.modify n f }

def dropAll (net : Network) : Network :=
  { net with connections := net.connections.map Connection.drop }

end Network

end EchoLoad
