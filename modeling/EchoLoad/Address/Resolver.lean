import EchoLoad.Address
import EchoLoad.IoError
/-!
From the name of a server to its address. Names are looked up once, before a run, so that its
connects need no lookup.
-/

namespace EchoLoad

structure Resolver where
  names : List (String × List Address) := []
  /-- The failure for a name that is in no table. -/
  unknown : IoError

namespace Resolver

def portText? (server : String) : Option String :=
  let cs := server.toList.reverse
  if ':' ∈ cs then some (String.ofList (cs.takeWhile (· ≠ ':')).reverse) else none

/-- The addresses of a server. A text that is in no table and no address itself must at least end
in a port. -/
def lookup (r : Resolver) (server : String) : Except IoError (List Address) :=
  match r.names.lookup server, Address.parse? server with
  | some addresses, _ => .ok addresses
  | none, some address => .ok [address]
  | none, none =>
    match portText? server with
    | none => .error ⟨.invalidInput, "invalid socket address"⟩
    | some port =>
      if (Numeral.natural? 65536 port).isNone then .error ⟨.invalidInput, "invalid port value"⟩
      else .error r.unknown

def resolve (r : Resolver) (server : String) : Except IoError Address := do
  match ← r.lookup server with
  | [] => throw ⟨.notFound, s!"no address found for {server}"⟩
  | address :: _ => return address

end Resolver

end EchoLoad
