import ExtensionAudit.Entries

/-!
Chrome interfaces: the names below `chrome` that a script mentions, each at most two
levels deep and as long as it can be, in the order in which they first occur.
-/

namespace ExtensionAudit.Script

/-- A word of one or more ASCII word characters at the front of the text, as long as it
can be. -/
def word? (t : Text) : Option Text :=
  match t.takeWhile CodePoint.isAsciiWord with
  | [] => none
  | word => some word

/-- The name of an interface that starts here: `chrome.` and a word, and a point and a
second word if they follow. -/
def apiName? (t : Text) : Option Text := do
  let afterRoot ← Text.dropStart? "chrome." t
  let first ← word? afterRoot
  let second := do
    let afterPoint ← Text.dropStart? "." (afterRoot.drop first.length)
    word? afterPoint
  match second with
  | some second => some ("chrome." ++ first ++ "." ++ second)
  | none => some ("chrome." ++ first)

/-- The names in a text, in order; `skip` counts the code points of the last one still
to be passed. -/
def apiNamesFrom : Nat → Text → List Text
  | _, [] => []
  | skip + 1, _ :: rest => apiNamesFrom skip rest
  | 0, c :: rest =>
    match apiName? (c :: rest) with
    | some name => name :: apiNamesFrom (name.length - 1) rest
    | none => apiNamesFrom 0 rest

/-- The list without repetitions; of equal elements the first stays. -/
def distinct (ts : List Text) : List Text :=
  ts.foldl (fun seen t => if seen.contains t then seen else seen ++ [t]) []

/-- The names of interfaces in a script, each once. -/
def chromeApisOf (script : Text) : List Text := distinct (apiNamesFrom 0 script)

/-- The scripts that mention some interface, with the names. -/
def chromeApis (files : Entries Text) : Entries (List Text) :=
  (files.map fun (name, script) => (name, chromeApisOf script)).filter (·.2 != [])

end ExtensionAudit.Script
