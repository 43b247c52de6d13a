import ExtensionAudit.Manifest.Facts
import ExtensionAudit.Proofs.Json.Checked
import ExtensionAudit.Proofs.Json.Parts
import ExtensionAudit.Proofs.Letter
import ExtensionAudit.Proofs.Text
import Mathlib

/-!
# Manifest — the search and the facts, with checked operations

The search for the policy and the collection of the facts, put together of operations
that fail with values of the wrong kind. Nothing in a manifest makes one of them fail:
every use of a value is behind a look at its kind, and what comes of it is what the
search finds (`Checked.search_eq`) and what the facts are (`Checked.facts_object`). The
keys that the search compares are texts, also where it counts the elements of an array,
and a count is never the name of the policy.
-/

namespace ExtensionAudit.Checked

open Manifest

/-! ## The search -/

/-- Looks at a member, with what a search inside it comes to and what a search of the
other members does. -/
def visit (key value : Json) (inside others : Result Json) : Result Json := do
  if (← lower key) = policyName then
    if value.kind = .text then .ok value
    else if value.kind = .null ∨ value.kind = .object ∨ value.kind = .array then inside
    else others
  else if value.kind = .object ∨ value.kind = .array then do
    let found ← inside
    if found.isTruthy then .ok found else others
  else others

mutual

/-- Searches a value: an object by its keys, an array by its positions, and nothing
else. -/
def search : Json → Result Json
  | .object members => searchMembers members
  | .array elements => searchElements 0 elements
  | _ => .ok .null

/-- Searches the elements of an array from a position on. -/
def searchElements (index : Nat) : List Json → Result Json
  | [] => .ok .null
  | value :: rest =>
    visit (.text (Text.ofNat index)) value (search value)
      (searchElements (index + 1) rest)

/-- Searches the members of an object. -/
def searchMembers : List (Text × Json) → Result Json
  | [] => .ok .null
  | (name, value) :: rest => visit (.text name) value (search value) (searchMembers rest)

end

/-- What is searched in a value: an object by its keys, an array by its positions, and
nothing else. -/
def children (value : Json) : Result (List (Json × Json)) :=
  if value.kind = .object then pairs value
  else if value.kind = .array then numbered value
  else .ok []

theorem searchElements_eq_foldr (elements : List Json) (index : Nat) :
    searchElements index elements =
      ((elements.zipIdx index).map fun (element, index) =>
        (Json.text (Text.ofNat index), element)).foldr
        (fun (key, value) others => visit key value (search value) others)
          (.ok .null) := by
  induction elements generalizing index with
  | nil => rfl
  | cons element rest ih =>
    rw [searchElements, ih]
    rfl

theorem searchMembers_eq_foldr (members : Entries Json) :
    searchMembers members =
      (members.map fun (key, value) => (Json.text key, value)).foldr
        (fun (key, value) others => visit key value (search value) others)
          (.ok .null) := by
  induction members with
  | nil => rfl
  | cons entry rest ih =>
    rw [searchMembers, ih]
    rfl

/-- To search a value is to visit its children, one after another. -/
theorem search_eq_foldr (value : Json) :
    search value = (do
      (← children value).foldr (fun (key, value) others =>
        visit key value (search value) others) (.ok .null)) := by
  cases value with
  | object members => exact searchMembers_eq_foldr members
  | array elements => exact searchElements_eq_foldr elements 0
  | _ => rfl

/-- What is found as a value. -/
def shownPolicy : Option Text → Json
  | some t => .text t
  | none => .null

theorem isTruthy_shownPolicy (found : Option Text) :
    (shownPolicy found).isTruthy = (found.getD [] != []) := by
  cases found <;> rfl

theorem asciiSmall_eq_underscore {c : CodePoint} (h : c.asciiSmall = '_') : c = '_' := by
  rw [CodePoint.asciiSmall] at h
  split at h
  · next hletter =>
    -- A small letter is no underscore.
    simp only [CodePoint.isBetween, Bool.and_eq_true, decide_eq_true_eq] at hletter
    have hval : c.val + 32 = 95 := by
      have hval := congrArg CodePoint.val h
      rwa [CodePoint.ofNat, dif_pos (by omega)] at hval
    omega
  · exact h

/-- The position of an element is not the name of the policy. -/
theorem lower_ofNat_ne_policyName
    (index : Nat) : Text.lower (Text.ofNat index) ≠ policyName := by
  have hascii : ∀ c ∈ policyName, c.val < 0x80 ∧ c ≠ 'k' := by decide
  rw [Ne, Text.lower_eq_iff hascii]
  intro h
  have hmark : CodePoint.ofChar '_' ∈ (Text.ofNat index).map CodePoint.asciiSmall := by
    rw [h]
    decide
  obtain ⟨c, hc, hsmall⟩ := List.mem_map.mp hmark
  rw [asciiSmall_eq_underscore hsmall] at hc
  exact Text.not_mem_ofNat (by decide) index hc

theorem isPolicyName_iff {name : Text} : isPolicyName name = true ↔
    Text.lower name = policyName := beq_iff_eq

/-- A member that is not named for the policy counts if something is found inside it. -/
theorem visit_other {name : Text} (hname : Text.lower name ≠ policyName)
    {value : Json} {others : Option Text}
    (hsearch : search value = .ok (shownPolicy (policy? value))) :
    visit (.text name) value (search value) (.ok (shownPolicy others)) =
      .ok (shownPolicy (match policy? value with
        | some (c :: t) => some (c :: t)
        | _ => others)) := by
  rw [visit, lower_text, bind_ok, if_neg hname, hsearch]
  cases value with
  | array elements =>
    rw [if_pos (.inr rfl), bind_ok, isTruthy_shownPolicy]
    rcases policy? (.array elements) with _ | _ | ⟨c, t⟩ <;> rfl
  | object members =>
    rw [if_pos (.inl rfl), bind_ok, isTruthy_shownPolicy]
    rcases policy? (.object members) with _ | _ | ⟨c, t⟩ <;> rfl
  | _ => rfl

theorem searchElements_eq {elements : List Json}
    (h : ∀ element ∈ elements, search element = .ok (shownPolicy (policy? element)))
    (index : Nat) :
    searchElements index elements = .ok (shownPolicy (policyInElements elements)) := by
  induction elements generalizing index with
  | nil => rfl
  | cons element rest ih =>
    obtain ⟨helement, hrest⟩ := List.forall_mem_cons.mp h
    rw [policyInElements.eq_def, searchElements, ih hrest (index + 1)]
    exact visit_other (lower_ofNat_ne_policyName index) helement

theorem searchMembers_eq {members : Entries Json}
    (h : ∀ entry ∈ members, search entry.2 = .ok (shownPolicy (policy? entry.2))) :
    searchMembers members = .ok (shownPolicy (policyInMembers members)) := by
  induction members with
  | nil => rfl
  | cons entry rest ih =>
    obtain ⟨name, value⟩ := entry
    obtain ⟨hvalue, hrest⟩ := List.forall_mem_cons.mp h
    rw [policyInMembers.eq_def, searchMembers, ih hrest]
    by_cases hname : Text.lower name = policyName
    · -- What the member holds ends the search, unless it is a number or a flag.
      simp only [isPolicyName_iff.mpr hname, if_true, visit, lower_text, bind_ok,
        if_pos hname, hvalue]
      cases value <;> rfl
    · have hother : isPolicyName name = false :=
        Bool.eq_false_iff.mpr fun h => hname (isPolicyName_iff.mp h)
      simp only [hother, Bool.false_eq_true, if_false]
      exact visit_other hname hvalue

/-- The search never fails, and finds the policy. -/
theorem search_eq (value : Json) : search value = .ok (shownPolicy (policy? value)) := by
  induction value using Json.induction with
  | leaf value hleaf => cases value <;> first | rfl | cases hleaf
  | array elements ih =>
    rw [search, policy?]
    exact searchElements_eq ih 0
  | object members ih =>
    rw [search, policy?]
    exact searchMembers_eq ih

/-! ## The facts

What is recorded of a field starts out as what stands for its absence, and is changed
where the manifest has something to record. -/

/-- What stands under a key if it is truthy, and else what is recorded. -/
def truthyOr (key : Text) (manifest recorded : Json) : Result Json := do
  if (← get key manifest).isTruthy then require key manifest else .ok recorded

/-- The names of which something truthy stands in a manifest. -/
def truthyNames (manifest : Json) : List Text → Result (List Json)
  | [] => .ok []
  | name :: rest => do
    let value ← get name manifest
    let names ← truthyNames manifest rest
    .ok (if value.isTruthy then .text name :: names else names)

/-- What is recorded of the policy at the top. -/
def policyFact (manifest : Json) : Result Json := do
  let policy ← get "content_security_policy" manifest
  if policy.isTruthy then .ok (.object [("present", .bool true), ("policy", policy)])
  else .ok (.object [("present", .bool false), ("warning", "No CSP defined.")])

/-- Records the scripts that run in the background, and the worker. -/
def noteBackground (manifest recorded : Json) : Result Json := do
  let background ← get "background" manifest
  if background.kind = .object then
    let scripts := asList (← get "scripts" background)
    if (← get "service_worker" background).isTruthy
      then append scripts (← require "service_worker" background)
    else .ok scripts
  else .ok recorded

/-- Records the patterns of a content script. -/
def addDomains (recorded script : Json) : Result Json := do
  if script.kind = .object then extend recorded (asList (← get "matches" script))
  else .ok recorded

/-- Records the patterns of the content scripts. -/
def noteContentScripts (manifest recorded : Json) : Result Json := do
  (← items (asList (← get "content_scripts" manifest))).foldlM addDomains recorded

/-- Records the patterns of the pages that may connect. -/
def noteConnectable (manifest recorded : Json) : Result Json := do
  let connectable ← get "externally_connectable" manifest
  if connectable.kind = .object then .ok (asList (← get "matches" connectable))
  else .ok recorded

/-- Records whether there is something for signing in. -/
def noteOAuth (manifest recorded : Json) : Result Json := do
  if (← get "oauth2" manifest).isTruthy then .ok (.bool true) else .ok recorded

/-- Records the author. -/
def noteAuthor (manifest recorded : Json) : Result Json := do
  if (← get "author" manifest).isTruthy
    then put (.text "author") (← require "author" manifest) recorded
  else .ok recorded

/-- Records the developer, if that is an object with something in it. -/
def noteDeveloper (manifest recorded : Json) : Result Json := do
  let developer ← get "developer" manifest
  if developer.kind = .object ∧
    developer.isTruthy then put (.text "developer") developer recorded
  else .ok recorded

/-- What is recorded of the versions. -/
def versionFact (manifest : Json) : Result Json := do
  let version ← get "version" manifest
  let minimum ← get "minimum_chrome_version" manifest
  .ok (.object [("version", version),
    ("minChromeVersion", minimum.orElse "Not specified")])

/-- Collects the facts of a manifest. -/
def facts (manifest : Json) : Result Json := do
  let policy ← policyFact manifest
  let backgroundScripts ← noteBackground manifest (.array [])
  let domains ← noteContentScripts manifest (.array [])
  let resources ← truthyOr "web_accessible_resources" manifest (.array [])
  let connectable ← noteConnectable manifest (.array [])
  let updateUrl ← truthyOr "update_url" manifest .null
  let usesOAuth ← noteOAuth manifest (.bool false)
  let overrides ← truthyNames manifest overrideNames
  let developer ← noteAuthor manifest (.object [])
  let developer ← noteDeveloper manifest developer
  let chromeOsKeys ← truthyNames manifest chromeOsNames
  let version ← versionFact manifest
  .ok (.object [
    ("cspAnalysis", policy),
    ("backgroundScripts", backgroundScripts),
    ("contentScriptsDomains", domains),
    ("webAccessibleResources", resources),
    ("externallyConnectable", connectable),
    ("updateUrl", updateUrl),
    ("oauth2", usesOAuth),
    ("specificOverrides", .array overrides),
    ("developerInfo", developer),
    ("chromeOsKeys", .array chromeOsKeys),
    ("versionInfo", version)])

variable {manifest : Entries Json} {value : Json}

theorem truthyOr_object (key : Text) (manifest : Entries Json) (recorded : Json) :
    truthyOr key (.object manifest) recorded =
      .ok ((Json.member key manifest).orElse recorded) := by
  rw [truthyOr, get_object, bind_ok, Json.orElse]
  split
  · next h => exact require_object h
  · rfl

theorem truthyNames_object (manifest : Entries Json) (names : List Text) :
    truthyNames (.object manifest) names =
      .ok ((names.filter fun name =>
        (Json.member name manifest).isTruthy).map .text) := by
  induction names with
  | nil => rfl
  | cons name rest ih =>
    rw [truthyNames, get_object, bind_ok, ih, bind_ok, List.filter_cons]
    split <;> rfl

theorem policyFact_object (manifest : Entries Json) :
    policyFact (.object manifest) = .ok (factsOf manifest).policy.toJson := by
  rw [policyFact, get_object, bind_ok, factsOf, present?]
  split <;> rfl

theorem noteBackground_object (manifest : Entries Json) :
    noteBackground (.object manifest) (.array []) =
      .ok (.array (factsOf manifest).backgroundScripts) := by
  change _ =
    Except.ok (Json.array (backgroundScripts (Json.member "background" manifest)))
  rw [noteBackground, get_object, bind_ok]
  cases Json.member "background" manifest with
  | object background =>
    rw [if_object, get_object, bind_ok, get_object, bind_ok, asList_eq, backgroundScripts]
    split
    · next htruthy => rw [require_object htruthy, bind_ok, append_array]
    · rw [List.append_nil]
  | _ => rfl

/-- A content script adds its patterns, and what is no content script adds none. -/
theorem addDomains_array (domains : List Json) (script : Json) :
    addDomains (.array domains) script =
      .ok (.array (domains ++ matchPatterns script)) := by
  cases script with
  | object members =>
    rw [addDomains, if_object, get_object, bind_ok, extend_asList, matchPatterns]
  | _ =>
    exact congrArg (fun domains => Except.ok (Json.array domains))
      (List.append_nil domains).symm

theorem noteContentScripts_object (manifest : Entries Json) :
    noteContentScripts (.object manifest) (.array []) =
      .ok (.array (factsOf manifest).contentScriptDomains) := by
  have hloop := foldlM_shown Json.array addDomains_array
    (Json.member "content_scripts" manifest).listed []
  rw [noteContentScripts, get_object, bind_ok, items_asList, bind_ok, hloop,
    ← List.flatMap_eq_foldl]
  rfl

theorem noteConnectable_object (manifest : Entries Json) :
    noteConnectable (.object manifest) (.array []) =
      .ok (.array (factsOf manifest).connectable) := by
  change _ = Except.ok
    (Json.array (matchPatterns (Json.member "externally_connectable" manifest)))
  rw [noteConnectable, get_object, bind_ok]
  cases Json.member "externally_connectable" manifest with
  | object connectable => rw [if_object, get_object, bind_ok, asList_eq, matchPatterns]
  | _ => rfl

theorem noteOAuth_object (manifest : Entries Json) :
    noteOAuth (.object manifest) (.bool false) =
      .ok (.bool (factsOf manifest).usesOAuth) := by
  change _ = Except.ok (Json.bool (Json.member "oauth2" manifest).isTruthy)
  rw [noteOAuth, get_object, bind_ok]
  cases (Json.member "oauth2" manifest).isTruthy <;> rfl

theorem noteAuthor_object (manifest : Entries Json) :
    noteAuthor (.object manifest) (.object []) =
      .ok (.object (optionalMember "author" (factsOf manifest).author)) := by
  change _ = Except.ok
    (Json.object (optionalMember "author" (present? (Json.member "author" manifest))))
  rw [noteAuthor, get_object, bind_ok, present?]
  split
  · next htruthy =>
    rw [require_object htruthy, bind_ok, put_text]
    rfl
  · rfl

/-- What is an object with something in it is taken as it is. -/
theorem map_populated? (hkind : value.kind = .object) (htruthy : value.isTruthy = true) :
    (populated? value).map .object = some value := by
  cases value with
  | object members =>
    cases members with
    | nil => cases htruthy
    | cons entry rest => rfl
  | _ => cases hkind

theorem populated?_eq_none (h : ¬ (value.kind = .object ∧ value.isTruthy = true)) :
    populated? value = none := by
  cases value with
  | object members =>
    cases members with
    | nil => rfl
    | cons entry rest => exact absurd ⟨rfl, rfl⟩ h
  | _ => rfl

theorem noteDeveloper_object (manifest : Entries Json) (author : Option Json) :
    noteDeveloper (.object manifest) (.object (optionalMember "author" author)) =
      .ok (.object (optionalMember "author" author ++
        optionalMember "developer" ((factsOf manifest).developer.map .object))) := by
  change _ = Except.ok (Json.object (optionalMember "author" author ++
    optionalMember "developer"
      ((populated? (Json.member "developer" manifest)).map .object)))
  rw [noteDeveloper, get_object, bind_ok]
  split
  · next hdeveloper =>
    rw [map_populated? hdeveloper.1 hdeveloper.2, put_text]
    cases author <;> rfl
  · next hnone =>
    rw [populated?_eq_none hnone, Option.map_none, optionalMember.eq_2, List.append_nil]

theorem versionFact_object (manifest : Entries Json) :
    versionFact (.object manifest) =
      .ok (.object [
        ("version", (factsOf manifest).version),
        ("minChromeVersion", (factsOf manifest).minimumChromeVersion)]) := rfl

/-- The collection never fails, and what it comes to are the facts. -/
theorem facts_object (manifest : Entries Json) :
    facts (.object manifest) = .ok (factsOf manifest).toJson := by
  rw [facts, policyFact_object, bind_ok, noteBackground_object,
    bind_ok, noteContentScripts_object, bind_ok, truthyOr_object,
    bind_ok, noteConnectable_object, bind_ok, truthyOr_object, bind_ok,
    noteOAuth_object, bind_ok, truthyNames_object, bind_ok, noteAuthor_object,
    bind_ok, noteDeveloper_object, bind_ok, truthyNames_object, bind_ok,
    versionFact_object, bind_ok]
  rfl

end ExtensionAudit.Checked
