import Tabula.Cli.Program

/-!
# The executable

Runs the program with the files, the environment and the clock of the machine.
-/

set_option autoImplicit false

open Tabula

def Tabula.Cli.FileError.ofMachine : IO.Error → Cli.FileError
  | .noFileOrDirectory .. => .notFound
  | .permissionDenied .. => .denied
  | .inappropriateType _ code _ => if code = 20 then .notDirectory else .isDirectory
  | .invalidArgument _ code details => if code = 36 then .nameTooLong else .other details
  | e => .other (toString e)

def Tabula.Cli.World.machine : Cli.World IO where
  read path := do
    match ← (IO.FS.readBinFile path).toBaseIO with
    | .ok bytes =>
        match String.fromUTF8? bytes with
        | some text => pure (.ok text)
        | none => pure (.error (.other "stream did not contain valid UTF-8"))
    | .error e => pure (.error (.ofMachine e))
  lookup := fun name => if name.toList.contains '\x00' then pure none else IO.getEnv name
  seconds := do pure (Float.ofNat (← IO.monoNanosNow) / 1000000000.0)

def main (args : List String) : IO UInt32 := do
  let outcome ← Cli.program Cli.World.machine args
  (← IO.getStdout).putStr outcome.stdout
  (← IO.getStderr).putStr outcome.stderr
  pure (UInt32.ofNat outcome.status)
