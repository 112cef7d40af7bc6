import WorkBundle.ConfigError
import WorkBundle.Event
import WorkBundle.Toml.Settings
import WorkBundle.Yaml.Settings

/-!
# Configuration files

The name of a file decides which format its text has. A file can be loaded as it is, or so that it
must also keep the rules; the latter is told to the log.
-/

set_option autoImplicit false

namespace WorkBundle

inductive ConfigFormat where
  | yaml
  | toml
  deriving DecidableEq, Repr

/-- What reading a path comes upon. Besides a file this may be a directory, nothing at all, or
something that cannot be read for the reason in `refused`. -/
inductive Stored where
  | file (content : ByteArray)
  | directory
  | missing
  | refused (reason : String)

namespace Stored

def text : Stored → Except String String
  | .file content =>
    match String.fromUTF8? content with
    | some text => .ok text
    | none => .error "stream did not contain valid UTF-8"
  | .directory => .error "Is a directory (os error 21)"
  | .missing => .error "No such file or directory (os error 2)"
  | .refused reason => .error reason

end Stored

namespace ConfigFormat

def fileName (path : String) : String :=
  (((path.splitOn "/").filter fun part => part != "" && part != ".").getLast?).getD ""

/-- A file is TOML if its name has the extension `toml`, written in just this way, and YAML
otherwise. A point at the start of a name begins no extension, so `.toml` itself is YAML. -/
def ofPath (path : String) : ConfigFormat :=
  let name := fileName path
  if name.endsWith ".toml" && name != ".toml" then .toml else .yaml

end ConfigFormat

namespace Config

def parse (format : ConfigFormat) (text : String) : Except ConfigError Config :=
  match format with
  | .yaml => (Yaml.config? text).elim (.error .yaml) .ok
  | .toml => (Toml.config? text).elim (.error .toml) .ok

def load (path : String) (stored : Stored) : Except ConfigError Config :=
  match stored.text with
  | .ok text => parse (.ofPath path) text
  | .error reason => .error (.io path reason)

/-- Loads a file that must keep the rules (`Config.violations`). A file that can be read is also
told to the log, accepted or not. -/
def loadValid (path : String) (stored : Stored) : Except ConfigError Config × List Record :=
  match load path stored with
  | .error e => (.error e, [])
  | .ok config =>
    match config.violations with
    | [] => (.ok config, [{ event := .configLoaded path config.effectiveParallelism }])
    | rules => (.error (.invalid rules), [{ event := .configRejected path rules.length }])

end Config

end WorkBundle
