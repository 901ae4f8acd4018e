/-!
The words of a command line: which of them name an option, and which are values.
-/

namespace EchoLoad

/-- The options that take a value. -/
inductive Opt where
  | config | server | mode | name | out | batchSize | clients | runTime | rounds | workers
  | logLevel
  deriving DecidableEq, Repr

namespace Opt

def all : List Opt :=
  [config, server, mode, name, out, batchSize, clients, runTime, rounds, workers, logLevel]

def long : Opt → String
  | config => "config"
  | server => "server"
  | mode => "mode"
  | name => "name"
  | out => "out"
  | batchSize => "batch-size"
  | clients => "clients"
  | runTime => "run-time"
  | rounds => "rounds"
  | workers => "workers"
  | logLevel => "log-level"

def short? : Opt → Option Char
  | config => some 'c'
  | server => some 's'
  | mode => some 'm'
  | name => some 'n'
  | out => some 'o'
  | batchSize => some 'b'
  | workers => some 'w'
  | clients | runTime | rounds | logLevel => none

end Opt

inductive Word where
  /-- An option, and its value if that stands in the same word. -/
  | option (o : Opt) (value : Option String)
  | help
  | version
  /-- A word for help or version that has a value. -/
  | excess
  /-- Two dashes, behind which no options follow. -/
  | separator
  | unknown
  | plain
  deriving DecidableEq, Repr

namespace Word

def cutAtEquals (cs : List Char) : String × Option String :=
  let name := String.ofList (cs.takeWhile (· ≠ '='))
  match cs.dropWhile (· ≠ '=') with
  | [] => (name, none)
  | _ :: value => (name, some (String.ofList value))

def ofLong (cs : List Char) : Word :=
  let (name, value) := cutAtEquals cs
  if name = "help" || name = "version" then
    if value.isSome then excess else if name = "help" then help else version
  else
    match Opt.all.find? fun o => o.long = name with
    | some o => option o value
    | none => unknown

def valueBehind : List Char → Option String
  | [] => none
  | '=' :: value => some (String.ofList value)
  | value => some (String.ofList value)

/-- The meaning of a letter behind one dash and the characters after it. -/
def ofShort (letter : Char) (cs : List Char) : Word :=
  if letter = 'h' then help
  else if letter = 'V' then version
  else
    match Opt.all.find? fun o => o.short? = some letter with
    | some o => option o (valueBehind cs)
    | none => unknown

def ofString (text : String) : Word :=
  match text.toList with
  | ['-', '-'] => separator
  | '-' :: '-' :: cs => ofLong cs
  | '-' :: c :: cs => ofShort c cs
  | _ => plain

end Word

end EchoLoad
