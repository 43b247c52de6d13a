import ExtensionAudit.Json.Printer
import ExtensionAudit.Proofs.Manifest.Checked
import ExtensionAudit.Proofs.Score.Permission
import ExtensionAudit.Proofs.Score.Policy
import ExtensionAudit.Score.Manifest
import Mathlib

/-!
# Score — the scores of a manifest, with checked operations

The three scores of a manifest, put together of operations that fail with values of the
wrong kind. None of them fails with any object, and they are the scores that a report
has (`Checked.scoreManifest_eq`). So a report always comes of an object, whatever stands
in it.
-/

namespace ExtensionAudit

namespace Checked

open Score

/-! ## Metadata -/

/-- The metadata score of a manifest. -/
def metadata (manifest : Json) : Result Nat := do
  let author ← get "author" manifest
  let developer ← get "developer" manifest
  let hasMail ← if developer.kind = .object
      then do .ok (← get "email" developer).isTruthy else .ok false
  let privacy ← get "privacy_policy" manifest
  let homepage ← get "homepage_url" manifest
  .ok (pointUnless author.isTruthy + pointUnless hasMail +
    pointUnless privacy.isTruthy + pointUnless homepage.isTruthy)

theorem metadata_object (manifest : Entries Json) :
    metadata (.object manifest) = .ok (metadataOf manifest) := by
  rw [metadata, get_object, bind_ok, get_object, bind_ok, metadataOf, hasDeveloperMail]
  cases Json.member "developer" manifest <;> rfl

/-! ## Policy -/

/-- Counts a source, unless it is the extension itself, and lists it under its
directive. -/
def countSource (directive : Text) (counted : Nat × Json)
    (source : Text) : Result (Nat × Json) := do
  if source = ownSource then .ok counted
  else
    let members ← ofMisuse counted.2.members
    let listed ← append ((members.get? directive).getD (.array [])) (.text source)
    .ok (counted.1 + 1, ← put (.text directive) listed counted.2)

/-- Counts the sources of a segment; one without words has none. -/
def countSegment (counted : Nat × Json) (segment : Text) : Result (Nat × Json) :=
  match Text.words segment with
  | [] => .ok counted
  | directive :: sources => sources.foldlM (countSource directive) counted

/-- The policy score of a manifest, with details. -/
def policy (manifest : Json) : Result (Nat × Json) := do
  let located ← search manifest
  if located.isTruthy then (← split ';' located).foldlM countSegment (0, .object [])
  else .ok (noPolicyScore, .object [("noCSP", "NO CSP DEFINED")])

/-- Sources as a document. -/
def sourceArray (sources : List Text) : Json := .array (sources.map .text)

/-- What has been counted, with the details as a document. -/
def shownSources (counted : Nat × Entries (List Text)) : Nat × Json :=
  (counted.1, .object (counted.2.map fun (name, sources) => (name, sourceArray sources)))

/-- What a counted source does to what has been counted. -/
def withSource (counted : Nat × Entries (List Text))
    (source : Text × Text) : Nat × Entries (List Text) :=
  (counted.1 + 1, addSource counted.2 source)

theorem foldl_withSource (sources : List (Text × Text))
    (counted : Nat × Entries (List Text)) :
    sources.foldl withSource counted =
      (counted.1 + sources.length, sources.foldl addSource counted.2) := by
  induction sources generalizing counted with
  | nil => rfl
  | cons source rest ih =>
    rw [List.foldl_cons, ih, withSource, List.length_cons, Nat.add_right_comm,
      Nat.add_assoc]
    rfl

/-- The list of a directive, with a source at its end. -/
theorem append_listed (details : Entries (List Text)) (directive source : Text) :
    append ((Entries.get? directive (details.map fun (name, sources) =>
      (name, sourceArray sources))).getD (.array []))
      (.text source) =
        .ok (sourceArray ((details.get? directive).getD [] ++ [source])) := by
  rw [Entries.get?_map fun _ sources => sourceArray sources, sourceArray, List.map_append]
  cases details.get? directive <;> rfl

theorem countSource_shown (directive : Text) (counted : Nat × Entries (List Text))
    (source : Text) :
    countSource directive (shownSources counted) source =
      .ok (shownSources (if source != ownSource
        then withSource counted (directive, source) else counted)) := by
  rw [countSource]
  by_cases hown : source = ownSource
  · rw [if_pos hown, hown]
    rfl
  · have hput : put (.text directive)
        (sourceArray ((counted.2.get? directive).getD [] ++ [source]))
        (shownSources counted).2 =
          .ok (shownSources (withSource counted (directive, source))).2 := by
      rw [shownSources, put_text, Entries.put_map sourceArray,
        Entries.put_get? fun sources => sources.getD [] ++ [source]]
      rfl
    rw [if_neg hown, if_pos (bne_iff_ne.mpr hown)]
    change (append _ (.text source) >>= fun listed =>
      put (.text directive) listed (shownSources counted).2 >>= fun details =>
        .ok (counted.1 + 1, details)) = _
    rw [append_listed, bind_ok, hput, bind_ok]
    rfl

theorem countSegment_shown (counted : Nat × Entries (List Text)) (segment : Text) :
    countSegment (shownSources counted) segment =
      .ok (shownSources ((countedIn segment).foldl withSource counted)) := by
  rw [countSegment, countedIn, directiveOf?, chargedIn]
  cases Text.words segment with
  | nil => rfl
  | cons directive sources =>
    change sources.foldlM (countSource directive) (shownSources counted) = _
    rw [foldlM_shown shownSources (countSource_shown directive), List.head?_cons,
      List.tail_cons]
    dsimp only
    rw [List.foldl_map, List.foldl_filter]

/-- Counting the sources of one segment after another comes to the score and the details
of the policy. -/
theorem foldlM_countSegment (t : Text) :
    (Text.split ';' t).foldlM countSegment (0, .object []) =
      .ok ((policyOf t).1, (PolicyDetails.sources (policyOf t).2).toJson) := by
  have hloop := foldlM_shown shownSources countSegment_shown (Text.split ';' t) (0, [])
  rw [← List.foldl_flatMap, ← countedSources_eq_flatMap, foldl_withSource,
    Nat.zero_add] at hloop
  exact hloop

/-- The policy is never scored wrongly for its kind: what is found is a text, or there
is none. -/
theorem policy_eq (manifest : Json) :
    policy manifest =
      .ok ((Score.policy manifest).1, (Score.policy manifest).2.toJson) := by
  rw [policy, search_eq, bind_ok, isTruthy_shownPolicy, Score.policy]
  rcases Manifest.policy? manifest with _ | _ | ⟨c, t⟩
  · rfl
  · rfl
  · exact foldlM_countSegment (c :: t)

/-! ## Permissions -/

/-- The points of the tiers, by their names. -/
def tierPoints : Entries Nat :=
  [("least", 0), ("low", 1), ("medium", 2), ("high", 3), ("critical", 4)]

/-- The name of the tier of a permission. -/
def tierName (permission : Json) : Result Text := do
  if permission.kind = .text then .ok (tierOf (← keyOf permission)).name
  else .ok Tier.least.name

/-- The points of the tier of a name. -/
def pointsFor (tier : Text) : Result Nat :=
  match tierPoints.get? tier with
  | some points => .ok points
  | none => .error (.misuse (.missingKey tier))

/-- Counts a permission, and explains it if it is above the least tier. -/
def countPermission (counted : Nat × Json) (permission : Json) : Result (Nat × Json) := do
  let tier ← tierName permission
  let points ← pointsFor tier
  if tier = Tier.least.name then .ok (counted.1 + points, counted.2)
  else
    let message :=
      "Permission '" ++ permission.shown ++ "' classified as " ++ tier ++ " risk."
    .ok (counted.1 + points, ← put permission (.text message) counted.2)

/-- The permission score of a manifest, with details. -/
def permissions (manifest : Json) : Result (Nat × Json) := do
  let required ← get "permissions" manifest
  let optional ← get "optional_permissions" manifest
  let entries ← add (asList required) (asList optional)
  (← items entries).foldlM countPermission (0, .object [])

/-- What has been counted, with the details as a document. -/
def shownPermissions (counted : Nat × Entries Text) : Nat × Json :=
  (counted.1, permissionDetails counted.2)

/-- What an entry does to what has been counted. -/
def withPermission (counted : Nat × Entries Text) (entry : Json) : Nat × Entries Text :=
  (counted.1 + (tier entry).points, addPermission counted.2 entry)

theorem pointsFor_name (tier : Tier) : pointsFor tier.name = .ok tier.points := by
  cases tier <;> rfl

theorem name_eq_least_iff {tier : Tier} : tier.name = Tier.least.name ↔
    tier = .least := by
  cases tier <;> decide

theorem countPermission_shown (counted : Nat × Entries Text) (entry : Json) :
    countPermission (shownPermissions counted) entry =
      .ok (shownPermissions (withPermission counted entry)) := by
  cases entry with
  | text permission =>
    have htier : tierName (.text permission) = .ok (tierOf permission).name := rfl
    have hput (message : Text) :
        put (.text permission) (.text message) (shownPermissions counted).2 =
        .ok (permissionDetails (counted.2.put permission message)) := by
      rw [shownPermissions, permissionDetails, put_text, Entries.put_map Json.text]
      rfl
    rw [countPermission, htier, bind_ok, pointsFor_name, bind_ok, withPermission,
      addPermission]
    by_cases hleast : tierOf permission = .least
    · rw [if_pos (name_eq_least_iff.mpr hleast), if_pos (beq_iff_eq.mpr hleast)]
      rfl
    · rw [if_neg fun h => hleast (name_eq_least_iff.mp h), if_neg (by simpa using hleast)]
      change (put (.text permission) (.text (permissionMessage permission))
        (shownPermissions counted).2 >>=
        fun details => .ok (counted.1 + (tierOf permission).points, details)) = _
      rw [hput, bind_ok]
      rfl
  | _ => rfl

theorem foldl_withPermission (entries : List Json) (counted : Nat × Entries Text) :
    entries.foldl withPermission counted =
      (counted.1 + scoreOf entries, entries.foldl addPermission counted.2) := by
  induction entries generalizing counted with
  | nil => rfl
  | cons entry rest ih =>
    have hscore : scoreOf (entry :: rest) = (tier entry).points + scoreOf rest := rfl
    rw [List.foldl_cons, ih, withPermission, hscore, Nat.add_assoc]
    rfl

theorem permissions_object (manifest : Entries Json) :
    permissions (.object manifest) =
      .ok ((permissionsOf manifest).1, permissionDetails (permissionsOf manifest).2) := by
  have hloop := foldlM_shown shownPermissions countPermission_shown
    (permissionEntries manifest) (0, [])
  rw [permissions, get_object, bind_ok, get_object, bind_ok, add_asList, bind_ok]
  change (permissionEntries manifest).foldlM countPermission
    (shownPermissions (0, [])) = _
  rw [hloop, foldl_withPermission, Nat.zero_add, permissionsOf_fst,
    ← permissionEntries_eq]
  rfl

/-! ## Everything that is read off a manifest -/

/-- The scores of a manifest with their details, and its facts. -/
def scoreManifest (manifest : Json) :
    Result (Nat × (Nat × Json) × (Nat × Json) × Json) := do
  let metadata ← metadata manifest
  let policy ← policy manifest
  let permissions ← permissions manifest
  let facts ← facts manifest
  .ok (metadata, policy, permissions, facts)

/-- Scores and facts as documents. -/
def shownScores (scores : ManifestScores) : Nat × (Nat × Json) × (Nat × Json) × Json :=
  (scores.metadata, (scores.policy.1, scores.policy.2.toJson),
    (scores.permissions.1, permissionDetails scores.permissions.2), scores.facts.toJson)

/-- Whatever a manifest is, what is read off it with checked operations is what is read
off it, or both fail for want of an object. -/
theorem scoreManifest_eq (manifest : Json) :
    scoreManifest manifest =
      ofMisuse ((ManifestScores.ofJson manifest).map shownScores) := by
  cases manifest with
  | object manifest =>
    rw [scoreManifest, metadata_object, bind_ok, policy_eq, bind_ok, permissions_object,
      bind_ok, facts_object, bind_ok]
    rfl
  | _ => rfl

end Checked

namespace Manifest

/-! ## Source lists -/

/-- The lists that the background scripts are made of: the scripts, and the worker if
there is one. -/
def backgroundSources (manifest : Entries Json) : List (List Json) :=
  match manifest.get? "background" with
  | some (.object background) =>
    [Score.askedIn "scripts" background,
      (present? (Json.member "service_worker" background)).toList]
  | _ => []

/-- The patterns of an object; anything else has none. -/
def patternsOf : Json → List Json
  | .object members => Score.askedIn "matches" members
  | _ => []

/-- The lists that the domains of the content scripts are made of: the patterns of one
script after another. -/
def domainSources (manifest : Entries Json) : List (List Json) :=
  (Score.askedIn "content_scripts" manifest).map patternsOf

theorem matchPatterns_eq (value : Json) : matchPatterns value = patternsOf value := by
  cases value with
  | object members => exact Score.listed_member "matches" members
  | _ => rfl

theorem backgroundScripts_eq (manifest : Entries Json) :
    (factsOf manifest).backgroundScripts = (backgroundSources manifest).flatten := by
  change backgroundScripts (Json.member "background" manifest) = _
  rw [backgroundSources, Json.member]
  cases manifest.get? "background" with
  | none => rfl
  | some value =>
    cases value with
    | object background =>
      rw [Option.getD_some, backgroundScripts, Score.listed_member]
      dsimp only
      rw [present?, List.flatten_cons, List.flatten_singleton]
      cases (Json.member "service_worker" background).isTruthy <;> rfl
    | _ => rfl

theorem contentScriptDomains_eq (manifest : Entries Json) :
    (factsOf manifest).contentScriptDomains = (domainSources manifest).flatten := by
  change (Json.member "content_scripts" manifest).listed.flatMap matchPatterns = _
  rw [domainSources, Score.listed_member, ← List.flatMap_def]
  exact List.flatMap_congr fun script _ => matchPatterns_eq script

end Manifest

/-! ## The report on an object -/

/-- A report always comes of the scores of an object. -/
theorem Report.ofParts_object (manifest : Entries Json) (scores : ManifestScores)
    (libraries : Score.LibraryScore) (usage : Script.Usage) (lint : Lint.Summary) :
    ∃ report, ofParts (.object manifest) scores libraries usage lint = .ok report ∧
      report.details.facts = scores.facts.toJson ∧
      report.total = .int
        (scores.metadata + scores.policy.1 + scores.permissions.1 + libraries.score) :=
  ⟨_, rfl, rfl, rfl⟩

theorem Score.metadataOf_le (manifest : Entries Json) : metadataOf manifest ≤ 4 := by
  have hpoint (condition : Bool) : pointUnless condition ≤
      1 := by cases condition <;> decide
  have hauthor := hpoint (Json.member "author" manifest).isTruthy
  have hmail := hpoint (hasDeveloperMail manifest)
  have hprivacy := hpoint (Json.member "privacy_policy" manifest).isTruthy
  have hhomepage := hpoint (Json.member "homepage_url" manifest).isTruthy
  rw [metadataOf]
  dsimp only
  omega

/-- The information on the developer names an author just if there is one in the
manifest. -/
theorem Manifest.has_author (manifest : Entries Json) (developer : Option Json) :
    Entries.has "author" (optionalMember "author" (factsOf manifest).author ++
      optionalMember "developer" developer) =
      (Json.member "author" manifest).isTruthy := by
  change Entries.has "author"
    (optionalMember "author" (present? (Json.member "author" manifest)) ++
    optionalMember "developer" developer) = _
  rw [present?]
  cases (Json.member "author" manifest).isTruthy with
  | true => rfl
  | false => cases developer <;> rfl

/-- **No manifest makes the scoring fail.** Whatever stands in an object, with checked
operations it is scored without a fault, and that is how it is scored; and with whatever
the other analyses come to, there is a report on it. The metadata score is at most four,
and charges a point for the author just if the information on the developer names none.
The background scripts, the domains of the content scripts and the pages that may
connect are the lists that the manifest has for them, one after another. -/
theorem ManifestScores.ofJson_object (manifest : Entries Json) :
    ∃ scores facts info, ManifestScores.ofJson (.object manifest) = .ok scores ∧
      Checked.scoreManifest (.object manifest) = .ok (Checked.shownScores scores) ∧
      scores.facts.toJson = .object facts ∧
      (∀ libraries usage lint, ∃ report,
        Report.ofParts (.object manifest) scores libraries usage lint = .ok report ∧
        report.details.facts = .object facts ∧
        report.total = .int (scores.metadata + scores.policy.1 + scores.permissions.1 +
          libraries.score)) ∧
      scores.metadata ≤ 4 ∧
      Entries.get? "developerInfo" facts = some (.object info) ∧
      scores.metadata = Score.pointUnless (Entries.has "author" info) +
        Score.pointUnless (Score.hasDeveloperMail manifest) +
        Score.pointUnless (Json.member "privacy_policy" manifest).isTruthy +
        Score.pointUnless (Json.member "homepage_url" manifest).isTruthy ∧
      Entries.get? "backgroundScripts" facts =
        some (.array (Manifest.backgroundSources manifest).flatten) ∧
      Entries.get? "contentScriptsDomains" facts =
        some (.array (Manifest.domainSources manifest).flatten) ∧
      Entries.get? "externallyConnectable" facts =
        some (.array
          (Manifest.patternsOf (Json.member "externally_connectable" manifest))) := by
  have hscores : ofJson (.object manifest) =
      .ok ⟨Score.metadataOf manifest, Score.policy (.object manifest),
      Score.permissionsOf manifest, Manifest.factsOf manifest⟩ := rfl
  refine ⟨_, _, _, hscores, ?_, rfl,
    fun libraries usage lint => Report.ofParts_object manifest _ libraries usage lint,
    Score.metadataOf_le manifest, rfl, ?_, ?_, ?_, ?_⟩
  · rw [Checked.scoreManifest_eq, hscores]
    rfl
  · rw [Manifest.has_author]
    rfl
  · rw [← Manifest.backgroundScripts_eq]
    rfl
  · rw [← Manifest.contentScriptDomains_eq]
    rfl
  · rw [← Manifest.matchPatterns_eq]
    rfl

end ExtensionAudit
