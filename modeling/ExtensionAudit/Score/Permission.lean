import ExtensionAudit.Json.Basic

/-!
The permission score. Every permission and host pattern belongs to one of five tiers,
and each one that a manifest asks for, required or optional, adds the points of its
tier. Repeated entries count each time; the details name each permission once.
-/

namespace ExtensionAudit.Score

/-- How dangerous a permission is. -/
inductive Tier
  | least | low | medium | high | critical
deriving DecidableEq

/-- What a permission of the tier adds to the score. -/
def Tier.points : Tier → Nat
  | .least => 0
  | .low => 1
  | .medium => 2
  | .high => 3
  | .critical => 4

/-- How messages call the tier. -/
def Tier.name : Tier → Text
  | .least => "least"
  | .low => "low"
  | .medium => "medium"
  | .high => "high"
  | .critical => "critical"

/-- The permissions of each tier above the least. -/
def Tier.permissions : Tier → List String
  | .least => []
  | .low => [
    "printerProvider", "certificateProvider", "documentScan", "enterprise.platformKeys",
    "hid", "identity", "networking.config", "notifications", "platformKeys",
    "usbDevices", "webRequestBlocking", "overrideEscFullscreen"]
  | .medium => [
    "activeTab", "background", "bookmarks", "clipboardWrite", "downloads",
    "fileSystemProvider", "management", "nativeMessaging", "geolocation", "processes",
    "signedInDevices", "storage", "system.storage", "tabs", "topSites", "ttsEngine",
    "webNavigation", "syncFileSystem", "fileSystem"]
  | .high => [
    "clipboardRead", "contentSettings", "desktopCapture", "displaySource", "dns",
    "experimental", "history", "http://*/*", "https://*/*", "file:///*", "http://*/",
    "https://*/", "mdns", "pageCapture", "privacy", "proxy", "vpnProvider",
    "browsingData", "audioCapture", "videoCapture"]
  | .critical => [
    "cookies", "debugger", "declarativeWebRequest", "webRequest", "<all_urls>", "*://*/*",
    "*://*/", "content_security_policy", "declarativeNetRequest", "copresence", "usb",
    "unsafe-eval", "web_accessible_resources"]

/-- Is the permission one of the tier's? -/
def Tier.holds (tier : Tier) (permission : Text) : Bool :=
  tier.permissions.any fun name => Text.ofString name == permission

/-- The tier of a permission; what no tier names is of the least. -/
def tierOf (permission : Text) : Tier :=
  ([.low, .medium, .high, .critical].find? (Tier.holds · permission)).getD .least

/-- The tier of an entry; what is not a text is of the least. -/
def tier : Json → Tier
  | .text permission => tierOf permission
  | _ => .least

/-- The entries a manifest asks for: the required ones, then the optional ones. -/
def permissionEntries (manifest : Entries Json) : List Json :=
  (Json.member "permissions" manifest).listed ++
    (Json.member "optional_permissions" manifest).listed

/-- What is said of a permission above the least tier. -/
def permissionMessage (permission : Text) : Text :=
  "Permission '" ++ permission ++ "' classified as " ++
    (tierOf permission).name ++ " risk."

/-- Adds the message of an entry above the least tier. -/
def addPermission (details : Entries Text) : Json → Entries Text
  | .text permission =>
    if tierOf permission == .least then details
    else details.put permission (permissionMessage permission)
  | _ => details

/-- The score and details of the manifest with these members. -/
def permissionsOf (manifest : Entries Json) : Nat × Entries Text :=
  let entries := permissionEntries manifest
  (entries.foldr (fun entry total => (tier entry).points + total) 0,
    entries.foldl addPermission [])

/-- The permission score of a manifest, with details. -/
def permissions (manifest : Json) : Except Json.Misuse (Nat × Entries Text) := do
  .ok (permissionsOf (← manifest.members))

/-- The details as a document. -/
def permissionDetails (details : Entries Text) : Json :=
  .object (details.map fun (permission, message) => (permission, .text message))

end ExtensionAudit.Score
