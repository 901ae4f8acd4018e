import EchoLoad.Program
import EchoLoad.Random.SplitMix
/-!
The command line. The server under test is simulated: each connection meets a peer that echoes
every frame a millisecond after it is complete, and time is that of the virtual clock. Of the disk
only the configuration file is read; what the run wrote is put there at the end.
-/

namespace EchoLoad

/-- What lies at a path on the disk. -/
def diskEntry (path : String) : IO (Option Entry) := do
  try
    let bytes ← IO.FS.readBinFile path
    return some (.file (.ofBytes bytes.toList))
  catch _ =>
    try
      let _ ← IO.FS.withFile path .read fun _ => pure ()
      return some .directory
    catch _ => return none

/-- A store in which the working directory exists, and the configuration file if it is there. -/
def diskStore (words : List String) : IO Store := do
  let workDir := Path.components (← IO.currentDir).toString
  let withDirs (s : Store) (start : Location) (steps : List String) : Store :=
    (Store.makeDirs true start steps s).toOption.getD s
  let store : Store := withDirs { workDir } [] workDir
  let config := (Arguments.parse words).toOption.bind (·.config)
  match config with
  | none => return store
  | some path =>
    match ← diskEntry path with
    | none => return store
    | some entry =>
      let start := store.start path
      let steps := Path.components path
      let store := withDirs store start steps.dropLast
      match store.follow start steps with
      | .ok l => return store.put l entry
      | .error _ => return store

/-- Put files and directories on the disk. -/
def writeOut (s : Store) (known : List (Location × Entry)) : IO Unit := do
  for (l, e) in s.entries do
    if !known.contains (l, e) then
      let path := "/" ++ "/".intercalate l
      match e with
      | .directory => IO.FS.createDirAll path
      | .file (.text t) => IO.FS.writeFile path t
      | .file (.binary b) => IO.FS.writeBinFile path ⟨b.toArray⟩

def surroundings : Surroundings where
  resolver := { unknown := ⟨.other, "failed to lookup address information"⟩ }
  source := SplitMix.source #[] 0
  stamp := Duration.label

def complaint : ProgramError → String
  | .declined _ => Program.usage
  | .config e => e.message
  | .run e => e.message

def start (words : List String) : IO UInt32 := do
  let store ← diskStore words
  match Program.run surroundings 1000000000 words { world := {}, store } with
  | .error stop =>
    IO.eprintln (repr stop.reason).pretty
    return 1
  | .ok o =>
    o.session.printed.forM IO.println
    writeOut o.session.store store.entries
    match o.result with
    | .ok () | .error (.declined .help) | .error (.declined .version) => return 0
    | .error e =>
      IO.eprintln (complaint e)
      return UInt32.ofNat o.exitCode

end EchoLoad

def main (words : List String) : IO UInt32 := EchoLoad.start words
