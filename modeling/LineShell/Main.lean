import LineShell.Program.Installation
import LineShell.Program.Loader

/-!
# The command line

The shell and the process lister, on a system of their own. The first argument `proctop`
asks for the process lister. The settings file that `MINISH_CONFIG` names is put into
the system under the same name.
-/

open LineShell

/-- Put the settings file into the tree of a system. -/
def withSettings (files : Files) (path : Option String) : IO Files := do
  let some path := path | return files
  try
    let content ← IO.FS.readBinFile path
    let from_ := if path.startsWith "/" then 0 else Program.Installation.workplace
    return files.plant from_ (Utf8.ofString path) (.file content.toList false)
  catch _ => return files

/-- Write what a program has written, and give its exit code. -/
def finish (r : Nat × System Script) : IO UInt32 := do
  let stdout ← IO.getStdout
  let stderr ← IO.getStderr
  stdout.write (ByteArray.mk (r.2.collected 1).toArray)
  stderr.write (ByteArray.mk (r.2.collected 2).toArray)
  stdout.flush
  return UInt32.ofNat r.1

/-- Run a program on a system of its own. -/
def main (arguments : List String) : IO UInt32 := do
  match arguments with
  | "proctop" :: arguments =>
    let s := System.boot Program.Installation.files Program.Installation.workplace []
    finish (CommandLine.proctop Program.Installation.users (arguments.map String.toList) s)
  | _ =>
    let path ← IO.getEnv (String.ofList (Utf8.decodeLossy CommandLine.settingsVariable))
    let settings := path.map Utf8.ofString
    let files ← withSettings Program.Installation.files path
    let input ← (← IO.getStdin).readBinToEnd
    let s := System.boot files Program.Installation.workplace input.toList
    match CommandLine.minish (Program.machine (Program.Installation.environment settings)) settings s with
    | some r => finish r
    | none => return 101
