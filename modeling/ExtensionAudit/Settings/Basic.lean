import ExtensionAudit.Number.Binary64
import ExtensionAudit.Text.Basic

/-!
Settings: ten of them, each with a shape and a value of that shape, in four sections of
a configuration file.
-/

namespace ExtensionAudit

/-- What the values of a setting look like. -/
inductive Shape
  | flag
  | integer
  | number
  | texts
  | text
deriving DecidableEq

/-- The values of a shape. -/
abbrev Shape.Value : Shape → Type
  | .flag => Bool
  | .integer => Int
  | .number => Binary64
  | .texts => List Text
  | .text => Text

/-- A setting. -/
inductive Setting
  | maxDownloadBytes
  | downloadTimeout
  | prodversion
  | retireCommand
  | eslintCommand
  | toolTimeout
  | externalScannersEnabled
  | host
  | port
  | logLevel
deriving DecidableEq

namespace Setting

/-- What its values look like. -/
@[reducible] def shape : Setting → Shape
  | .maxDownloadBytes => .integer
  | .downloadTimeout => .number
  | .prodversion => .text
  | .retireCommand => .texts
  | .eslintCommand => .texts
  | .toolTimeout => .number
  | .externalScannersEnabled => .flag
  | .host => .text
  | .port => .integer
  | .logLevel => .text

/-- What a configuration file calls it. -/
def name : Setting → Text
  | .maxDownloadBytes => "max_download_bytes"
  | .downloadTimeout => "download_timeout"
  | .prodversion => "prodversion"
  | .retireCommand => "retire_command"
  | .eslintCommand => "eslint_command"
  | .toolTimeout => "tool_timeout"
  | .externalScannersEnabled => "external_scanners_enabled"
  | .host => "host"
  | .port => "port"
  | .logLevel => "log_level"

/-- What every variable of the environment that is meant for the audit begins with. -/
def variablePrefix : Text := "EXTENSION_RISK_"

/-- The variable of the environment that overrides it. -/
def environmentName : Setting → Text
  | .maxDownloadBytes => variablePrefix ++ "MAX_DOWNLOAD_BYTES"
  | .downloadTimeout => variablePrefix ++ "DOWNLOAD_TIMEOUT"
  | .prodversion => variablePrefix ++ "PRODVERSION"
  | .retireCommand => variablePrefix ++ "RETIRE_COMMAND"
  | .eslintCommand => variablePrefix ++ "ESLINT_COMMAND"
  | .toolTimeout => variablePrefix ++ "TOOL_TIMEOUT"
  | .externalScannersEnabled => variablePrefix ++ "EXTERNAL_SCANNERS_ENABLED"
  | .host => variablePrefix ++ "HOST"
  | .port => variablePrefix ++ "PORT"
  | .logLevel => variablePrefix ++ "LOG_LEVEL"

/-- Every setting, in the order in which the environment is looked through. -/
def all : List Setting :=
  [.maxDownloadBytes, .downloadTimeout, .prodversion, .retireCommand,
  .eslintCommand, .toolTimeout, .externalScannersEnabled, .host, .port, .logLevel]

end Setting

/-- A section of a configuration file. -/
inductive Section
  | download
  | scanners
  | server
  | logging
deriving DecidableEq

namespace Section

/-- The name of a section. -/
def name : Section → Text
  | .download => "download"
  | .scanners => "scanners"
  | .server => "server"
  | .logging => "logging"

/-- The settings that a section may give. -/
def settings : Section → List Setting
  | .download => [.maxDownloadBytes, .downloadTimeout, .prodversion]
  | .scanners => [.retireCommand, .eslintCommand, .toolTimeout, .externalScannersEnabled]
  | .server => [.host, .port]
  | .logging => [.logLevel]

/-- Every section, in the order in which a file is looked through. -/
def all : List Section := [.download, .scanners, .server, .logging]

end Section

/-- A value for every setting. -/
abbrev Settings := (s : Setting) → s.shape.Value

namespace Settings

/-- The double of an integer. -/
def double (n : Nat) : Binary64 := Binary64.ofQuotient false n 1

/-- The settings that hold unless something else is said. -/
def default : Settings
  | .maxDownloadBytes => 52428800
  | .downloadTimeout => double 30
  | .prodversion => ("120.0" : Text)
  | .retireCommand => ["retire", "--path", "\x7bpath\x7d", "--outputformat", "json"]
  | .eslintCommand => ["eslint", "--config", "\x7bconfig\x7d", "--format", "json",
      "--no-error-on-unmatched-pattern", "**/*.js"]
  | .toolTimeout => double 120
  | .externalScannersEnabled => true
  | .host => ("0.0.0.0" : Text)
  | .port => 8000
  | .logLevel => ("INFO" : Text)

/-- Gives a setting a value. -/
def put (settings : Settings) (s : Setting) (value : s.shape.Value) : Settings := fun t =>
  if h : t = s then h ▸ value else settings t

theorem put_self (settings : Settings) (s : Setting) (value : s.shape.Value) :
    settings.put s value s = value := by simp [put]

theorem put_of_ne {s t : Setting} (h : t ≠ s) (settings : Settings)
    (value : s.shape.Value) :
    settings.put s value t = settings t := by simp [put, h]

end Settings

end ExtensionAudit
