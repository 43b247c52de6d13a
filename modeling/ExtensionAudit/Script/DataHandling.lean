import ExtensionAudit.Entries

/-!
Data handling: how often a script mentions an interface that moves, stores or evaluates
data. Each category is a list of phrases; an occurrence is counted from the left, and
the search goes on behind it.
-/

namespace ExtensionAudit.Script

/-- The categories and their phrases. -/
def dataCategories : List (Text × List Text) := [
  ("apiCalls", ["fetch(", "axios.", "XMLHttpRequest"]),
  ("localStorage", ["localStorage."]),
  ("sessionStorage", ["sessionStorage."]),
  ("indexedDB", ["indexedDB.open"]),
  ("webSQL", ["openDatabase("]),
  ("cookies", ["document.cookie"]),
  ("fileAPI", ["FileReader("]),
  ("webWorkers", ["new Worker("]),
  ("cryptoAPI", ["crypto.subtle."]),
  ("dynamicEval", ["eval(", "new Function("])]

/-- Counts the phrases in a text; `skip` counts the code points of the last one still to
be passed. -/
def countFrom (phrases : List Text) : Nat → Text → Nat
  | _, [] => 0
  | skip + 1, _ :: rest => countFrom phrases skip rest
  | 0, c :: rest =>
    match phrases.find? (·.isPrefixOf (c :: rest)) with
    | some phrase => countFrom phrases (phrase.length - 1) rest + 1
    | none => countFrom phrases 0 rest

/-- How often the phrases occur, without overlap. -/
def occurrences (phrases : List Text) (t : Text) : Nat := countFrom phrases 0 t

/-- The categories that occur in a script, with their counts. -/
def dataHandlingOf (script : Text) : Entries Nat :=
  (dataCategories.map fun (category, phrases) =>
    (category, occurrences phrases script)).filter
    (·.2 != 0)

/-- The scripts in which some category occurs, with their counts. -/
def dataHandling (files : Entries Text) : Entries (Entries Nat) :=
  (files.map fun (name, script) => (name, dataHandlingOf script)).filter (·.2 != [])

end ExtensionAudit.Script
