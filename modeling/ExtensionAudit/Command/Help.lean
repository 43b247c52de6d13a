import ExtensionAudit.Command.Arguments

/-!
What the command says of itself when help is asked for. How that is laid out is not said
here.
-/

namespace ExtensionAudit.Command

/-- Help: what the command is for, what can be given to it and what is said of each, and
ways to call it. -/
structure Help where
  description : Text
  items : List (Text × Text)
  epilog : Text
deriving DecidableEq

/-- What is said of a switch. -/
def Switch.explanation : Switch → Text
  | .help => "show this help message and exit"
  | .crx => "Analyze a local .crx file instead of downloading"
  | .config => "Path to config.json"
  | .output => "Write the JSON report to this file"
  | .fast => "Skip retire.js and ESLint"
  | .logLevel => "Override the configured log level"

/-- Ways to call the command: what may follow its name. -/
def calls : List Text := [
  "cjpalhdlnbpafiamejdnhcphjbkeiagm",
  "https://chromewebstore.google.com/detail/ublock-origin/cjpalhdlnbpafiamejdnhcphjbkeiagm",
  "--crx downloads/extension.crx --fast"]

/-- The help of the command. -/
def help : Help where
  description := "Chrome extension security/privacy risk scorer"
  items := ("target", "Chrome Web Store URL or extension ID") ::
    Switch.all.map fun s => (s.names, s.explanation)
  epilog := Text.join "\n" <|
    "" :: "Examples:" ::
      (calls.map fun call => "  " ++ name ++ " " ++ call).concat "        "

end ExtensionAudit.Command
