import WorkBundle.Config

/-!
# Errors of configuration files

Why a configuration file is not accepted: it cannot be read, it is not a document of its format,
or its settings break rules.
-/

set_option autoImplicit false

namespace WorkBundle

/-- Why a configuration is not accepted: the file cannot be read (`io`), its text is no document of
the format or describes no `Config` (`yaml`, `toml`), or the settings break these rules (`invalid`).
-/
inductive ConfigError where
  | io (path : String) (reason : String)
  | yaml
  | toml
  | invalid (rules : List ValidationError)
  deriving DecidableEq, Repr

namespace ConfigError

def message : ConfigError → String
  | .io path reason => s!"Failed to read config file '{path}': {reason}"
  | .yaml => "Failed to parse YAML config"
  | .toml => "Failed to parse TOML config"
  | .invalid rules =>
    "Configuration validation failed:\n" ++ "\n".intercalate (rules.map (·.message))

/-- The messages of the errors below, nearest first. Those below an error of a document come from
the parser, and are left out. -/
def sources : ConfigError → List String
  | .io _ reason => [reason]
  | .yaml | .toml | .invalid _ => []

def chain (e : ConfigError) : List String := e.message :: e.sources

end ConfigError

end WorkBundle
