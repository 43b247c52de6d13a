import ExtensionAudit.Manifest.Policy
import ExtensionAudit.Text.Blank

/-!
The policy score: a point for each source that a directive of the content security
policy names, other than the extension itself, and a fixed price for having no policy.
The details list the sources under their directives.
-/

namespace ExtensionAudit.Score

/-- What a manifest without a policy costs. -/
def noPolicyScore : Nat := 25

/-- The source that costs nothing. -/
def ownSource : Text := "'self'"

/-- The counted sources of each directive, or that there is no policy. -/
inductive PolicyDetails
  | noPolicy
  | sources (byDirective : Entries (List Text))
deriving DecidableEq

/-- The directive and sources of a segment; a segment without words is none. -/
def directive? (segment : Text) : Option (Text × List Text) :=
  match Text.words segment with
  | [] => none
  | name :: sources => some (name, sources)

/-- The directives of a policy, in order. -/
def directives (policy : Text) : List (Text × List Text) :=
  (Text.split ';' policy).filterMap directive?

/-- The counted sources of a policy, each with its directive, in order. -/
def countedSources (policy : Text) : List (Text × Text) :=
  (directives policy).flatMap fun (name, sources) =>
    (sources.filter (· != ownSource)).map fun source => (name, source)

/-- Adds a source to the list of its directive. -/
def addSource (details : Entries (List Text)) (counted : Text × Text) :
    Entries (List Text) :=
  details.alter counted.1 fun sources => sources.getD [] ++ [counted.2]

/-- The score and details of a policy. -/
def policyOf (policy : Text) : Nat × Entries (List Text) :=
  let counted := countedSources policy
  (counted.length, counted.foldl addSource [])

/-- The policy score of a manifest, with details. -/
def policy (manifest : Json) : Nat × PolicyDetails :=
  match Manifest.policy? manifest with
  | none | some [] => (noPolicyScore, .noPolicy)
  | some t => ((policyOf t).1, .sources (policyOf t).2)

/-- The details as a document. -/
def PolicyDetails.toJson : PolicyDetails → Json
  | .noPolicy => .object [("noCSP", "NO CSP DEFINED")]
  | .sources byDirective =>
    .object (byDirective.map fun (name, counted) => (name, .array (counted.map .text)))

end ExtensionAudit.Score
