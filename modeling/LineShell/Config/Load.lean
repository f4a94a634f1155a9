import LineShell.Config
import LineShell.System.Files

/-!
# Settings files

`Config.load` reads the settings file to which a path leads.
-/

namespace LineShell.Config

/-- The settings in the file to which a path leads. -/
def load (files : Files) (view : View) (path : Bytes) : Except ConfigError Config :=
  match files.content view path with
  | .error e => .error (.io e)
  | .ok bytes => readBytes bytes

end LineShell.Config
