import EchoLoad.Arguments.Word
import EchoLoad.Numeral
import EchoLoad.Workload.Mode
/-!
The arguments of the program. They are read from left to right. An option whose value is a word
of its own is settled only when the next option or the end is reached, so a word that means
nothing at all is complained about before a bad value in front of it.
-/

namespace EchoLoad

/-- What the command line sets. -/
structure Arguments where
  config : Option String := none
  server : Option String := none
  mode : Option Mode := none
  name : Option String := none
  out : Option String := none
  batchSize : Option Nat := none
  clients : Option Nat := none
  runTime : Option Nat := none
  rounds : Option Nat := none
  workers : Option Nat := none
  logLevel : Option String := none
  deriving DecidableEq, Repr

/-- Why a command line starts no run. -/
inductive Declined where
  | help
  | version
  | unknownArgument
  /-- A value is missing, empty, or none of those allowed. -/
  | invalidValue
  /-- A value is no number. -/
  | notANumber
  /-- An option is given twice. -/
  | repeated
  /-- A value is given where none is taken. -/
  | excessValue
  deriving DecidableEq, Repr

namespace Arguments

def isSet (a : Arguments) : Opt → Bool
  | .config => a.config.isSome
  | .server => a.server.isSome
  | .mode => a.mode.isSome
  | .name => a.name.isSome
  | .out => a.out.isSome
  | .batchSize => a.batchSize.isSome
  | .clients => a.clients.isSome
  | .runTime => a.runTime.isSome
  | .rounds => a.rounds.isSome
  | .workers => a.workers.isSome
  | .logLevel => a.logLevel.isSome

def nonEmpty (text : String) : Except Declined String :=
  if text = "" then .error .invalidValue else .ok text

def modeOf (text : String) : Except Declined Mode :=
  (Mode.ofName? text).elim (.error .invalidValue) .ok

def numberBound : Nat := 18446744073709551616

def number (text : String) : Except Declined Nat :=
  (Numeral.natural? numberBound text).elim (.error .notANumber) .ok

def assign (a : Arguments) (o : Opt) (text : String) : Except Declined Arguments := do
  match o with
  | .config => return { a with config := ← nonEmpty text }
  | .server => return { a with server := text }
  | .mode => return { a with mode := ← modeOf text }
  | .name => return { a with name := text }
  | .out => return { a with out := ← nonEmpty text }
  | .batchSize => return { a with batchSize := ← number text }
  | .clients => return { a with clients := ← number text }
  | .runTime => return { a with runTime := ← number text }
  | .rounds => return { a with rounds := ← number text }
  | .workers => return { a with workers := ← number text }
  | .logLevel => return { a with logLevel := text }

def take (a : Arguments) (o : Opt) : Option String → Except Declined Arguments
  | none => .error .invalidValue
  | some text => if a.isSet o then .error .repeated else a.assign o text

structure Reading where
  settled : Arguments := {}
  /-- The last option, if its value is a word of its own, and that word once it is there. -/
  pending : Option (Opt × Option String) := none
  /-- Whether the separator has been read. -/
  separated : Bool := false
  deriving Repr

namespace Reading

def settle (r : Reading) : Except Declined Arguments :=
  match r.pending with
  | none => .ok r.settled
  | some (o, value) => r.settled.take o value

def step (r : Reading) (text : String) : Except Declined Reading :=
  if r.separated then .error .unknownArgument
  else
    match Word.ofString text with
    | .separator => .ok { r with separated := true }
    | .unknown => .error .unknownArgument
    | .excess => .error .excessValue
    | .help => do let _ ← r.settle; throw .help
    | .version => do let _ ← r.settle; throw .version
    | .option o none => do return { settled := ← r.settle, pending := some (o, none) }
    | .option o (some value) => do return { settled := ← (← r.settle).take o (some value) }
    | .plain =>
      match r.pending with
      | some (o, none) => .ok { r with pending := some (o, some text) }
      | _ => .error .unknownArgument

end Reading

/-- Read a whole command line, without the program's name. -/
def parse (words : List String) : Except Declined Arguments := do
  (← words.foldlM Reading.step {}).settle

end Arguments

end EchoLoad
