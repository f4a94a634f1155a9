import LineShell.CommandLine
import LineShell.Program.Loader

/-!
# The tree a system starts with

`Installation.files` is a file tree with the programs of the catalogue in `/usr/bin`, the
usual devices, and the usual directories. `Installation.workplace` is an empty directory
in it.
-/

namespace LineShell.Program.Installation

/-- The usual directories. -/
def directories : List String :=
  ["usr/bin", "usr/sbin", "usr/lib", "dev", "etc", "home", "media", "mnt", "opt", "proc/self",
    "root", "run", "srv", "sys", "tmp", "var/tmp"]

/-- The usual links, with their targets. -/
def links : List (String × String) :=
  [("bin", "usr/bin"), ("sbin", "usr/sbin"), ("lib", "usr/lib"), ("dev/fd", "/proc/self/fd"),
    ("dev/stdin", "/proc/self/fd/0"), ("dev/stdout", "/proc/self/fd/1"),
    ("dev/stderr", "/proc/self/fd/2")]

/-- The usual devices. -/
def devices : List (String × Device) :=
  [("dev/null", .null), ("dev/zero", .zero), ("dev/full", .full)]

/-- Where files of the user go. -/
def workplacePath : Bytes := lit "tmp/work"

/-- The number of the running program. -/
def ownPid : Nat := 2

/-- The status lines of the processes, by their numbers. -/
def processes : List (Nat × String) :=
  [(1, "1 (init) S 0"), (ownPid, "2 (proctop) R 1")]

/-- The environment of programs. `settings` names the settings file of the shell, if there is
one. -/
def environment (settings : Option Bytes) : List (Bytes × Bytes) :=
  [(lit "LC_ALL", lit "C")]
    ++ (settings.map fun path => (CommandLine.settingsVariable, path)).toList
    ++ [(lit "PATH", lit "/usr/bin:/bin")]

/-- The list of users. -/
def users : Nat → Option Text
  | 0 => some "root".toList
  | _ => none

/-- Everything in the tree: paths and nodes. -/
def contents : List (Bytes × Node) :=
  directories.map (fun d => (lit d, .directory 0 []))
    ++ links.map (fun l => (lit l.1, .link (lit l.2)))
    ++ devices.map (fun d => (lit d.1, .device d.2))
    ++ [(lit "proc/self/fd", .descriptors 0)]
    ++ Catalogue.names.map (fun name => (lit "usr/bin/" ++ name, .program name))
    ++ processes.map (fun p => (lit "proc/" ++ digits p.1 ++ lit "/stat", .file (lit p.2) false))
    ++ [(workplacePath, .directory 0 [])]

/-- The tree. -/
def files : Files :=
  contents.foldl (fun files c => files.plant 0 c.1 c.2) Files.root

/-- The directory of the user's files. -/
def workplace : NodeId :=
  (files.resolveDirectory { directory := 0 } workplacePath).toOption.getD 0

end LineShell.Program.Installation
