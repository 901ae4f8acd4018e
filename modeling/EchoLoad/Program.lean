import EchoLoad.Run
/-!
The program from its arguments to its exit code.
-/

namespace EchoLoad

inductive ConfigError where
  | fileRead (path : String) (error : IoError)
  | malformed (path : String)
  | invalid (problem : ConfigProblem)
  deriving DecidableEq, Repr

def ConfigError.message : ConfigError → String
  | .fileRead path e => s!"Failed to read config file '{path}': {e.text}"
  | .malformed path => s!"Failed to parse config file '{path}': no such settings"
  | .invalid p => s!"Invalid configuration: {p.message}"

/-- Why the program did not come to a run, or how the run failed. -/
inductive ProgramError where
  | declined (reason : Declined)
  | config (error : ConfigError)
  | run (failure : RunFailure)
  deriving DecidableEq, Repr

/-- Help and version are asked for; anything else is a mistake. -/
def Declined.exitCode : Declined → Nat
  | .help | .version => 0
  | _ => 2

namespace Config

def readFile (a : Arguments) (s : Store) : Except ConfigError FileConfig :=
  match a.config with
  | none => .ok {}
  | some path =>
    match s.readText path with
    | .error e => .error (.fileRead path e)
    | .ok text => (FileConfig.parse? text).elim (.error (.malformed path)) .ok

def load (words : List String) (s : Store) : Except ProgramError Config := do
  let a ← (Arguments.parse words).mapError .declined
  let f ← (readFile a s).mapError .config
  (merge a f).mapError fun p => .config (.invalid p)

end Config

namespace Program

def version : String := "echo-bench 0.1.0"

def usage : String :=
  "Usage: echo-bench [OPTIONS]\n\nOptions:\n" ++
    String.join (Opt.all.map fun o =>
      let short := o.short?.elim "    " fun c => s!"-{c}, "
      s!"  {short}--{o.long} <VALUE>\n") ++
    "  -h, --help\n  -V, --version"

structure Outcome where
  session : Session
  result : Except ProgramError Unit

def Outcome.exitCode (o : Outcome) : Nat :=
  match o.result with
  | .ok () => 0
  | .error (.declined reason) => reason.exitCode
  | .error _ => 1

/-- Read the configuration and do the run that it describes. -/
def run (env : Surroundings) (fuel : Nat) (words : List String) (session : Session) :
    Except Stop Outcome :=
  match Config.load words session.store with
  | .error (.declined .help) =>
    .ok ⟨{ session with printed := [usage] }, .error (.declined .help)⟩
  | .error (.declined .version) =>
    .ok ⟨{ session with printed := [version] }, .error (.declined .version)⟩
  | .error e => .ok ⟨session, .error e⟩
  | .ok c => do
    let ended ← Run.run env fuel c session
    return ⟨ended.session, ended.result.mapError .run⟩

end Program

end EchoLoad
