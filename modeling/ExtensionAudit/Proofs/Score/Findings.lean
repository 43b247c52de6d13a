import ExtensionAudit.Proofs.Entries
import ExtensionAudit.Proofs.Score.Library
import ExtensionAudit.Proofs.Text
import Mathlib.Algebra.GroupWithZero.Nat

/-!
# Score — what a scan counts and what it keeps

A scan whose lists are lists comes down to a sequence of sightings: the records of
vulnerabilities in the order of the document, each with its component and its place in
the list it stands in. Each of them is counted. The findings are kept under keys from
which the component's text and the place can be told, so a later sighting replaces an
earlier one only if both agree in these (`libraries_sightings`).
-/

namespace ExtensionAudit.Score

/-! ## Sightings -/

/-- What is made of an object, and what everything else stands for. -/
def ofObject {γ : Type _} (other : γ) (f : Entries Json → γ) : Json → γ
  | .object members => f members
  | _ => other

/-- The elements of an array; everything else has none. -/
def elementsOf : Json → List Json
  | .array elements => elements
  | _ => []

/-- A record of a vulnerability: of which component, and at which place of its list. -/
structure Sighting where
  component : Json
  index : Nat
  record : Entries Json

namespace Sighting

/-- The key under which the finding is kept. -/
def key (sighting : Sighting) : Text := findingKey sighting.component sighting.index

/-- The points of the severity. -/
def points (sighting : Sighting) : Nat := vulnerabilityOf sighting.record

/-- What the record says. -/
def finding (sighting : Sighting) : Finding where
  component := sighting.component
  severity := match Json.member "severity" sighting.record with
    | .text severity => some (Text.lower severity)
    | _ => none
  info := match Json.member "info" sighting.record with
    | .array info => some (listing info)
    | _ => none
  summary := Json.member "summary" (identifiersOf sighting.record)
  cve := listing (elementsOf (Json.member "CVE" (identifiersOf sighting.record)))

end Sighting

/-- The sightings in a list of vulnerabilities, from a place on; what is no object is
passed over, but has a place. -/
def sightingsFrom (component : Json) (index : Nat)
    (vulnerabilities : List Json) : List Sighting :=
  (vulnerabilities.zipIdx index).flatMap fun (vulnerability, index) =>
    ofObject [] (fun record => [⟨component, index, record⟩]) vulnerability

/-- The sightings of a library. -/
def sightingsOfLibrary : Json → List Sighting :=
  ofObject [] fun library =>
    sightingsFrom (Json.member "component" library) 0
      (elementsOf (Json.member "vulnerabilities" library))

/-- The sightings of a file. -/
def sightingsOfFile : Json → List Sighting :=
  ofObject [] fun file =>
    (elementsOf (Json.member "results" file)).flatMap sightingsOfLibrary

/-- The sightings of a scan, in the order of the document. -/
def sightings (scan : Json) : List Sighting := (elementsOf scan).flatMap sightingsOfFile

/-! ## Scans whose lists are lists -/

/-- An array, or something that stands for an empty one. -/
def IsListing (value : Json) : Prop := value.isTruthy = false ∨ value.kind = .array

instance (value : Json) : Decidable (IsListing value) :=
  inferInstanceAs (Decidable (_ ∨ _))

instance (P : Entries Json → Prop) [DecidablePred P] : DecidablePred (ofObject True P)
  | .object members => inferInstanceAs (Decidable (P members))
  | .null | .bool _ | .int _ | .float _ | .text _ | .array _ => isTrue trivial

/-- A record whose numbers in the catalogue are listed. -/
def IsListedRecord : Json → Prop :=
  ofObject True fun record => IsListing (Json.member "CVE" (identifiersOf record))

instance : DecidablePred IsListedRecord :=
  inferInstanceAs (DecidablePred (ofObject True _))

/-- A library whose vulnerabilities are listed, with such records. -/
def IsListedLibrary : Json → Prop :=
  ofObject True fun library =>
    IsListing (Json.member "vulnerabilities" library) ∧
      ∀ record ∈ elementsOf (Json.member "vulnerabilities" library), IsListedRecord record

instance : DecidablePred IsListedLibrary :=
  inferInstanceAs (DecidablePred (ofObject True _))

/-- A file whose libraries are listed, and are such libraries. -/
def IsListedFile : Json → Prop :=
  ofObject True fun file =>
    IsListing (Json.member "results" file) ∧
      ∀ library ∈ elementsOf (Json.member "results" file), IsListedLibrary library

instance : DecidablePred IsListedFile := inferInstanceAs (DecidablePred (ofObject True _))

/-- A scan whose files are listed, and are such files. -/
def IsListedScan (scan : Json) : Prop :=
  IsListing scan ∧ ∀ file ∈ elementsOf scan, IsListedFile file

instance : DecidablePred IsListedScan := fun _ => inferInstanceAs (Decidable (_ ∧ _))

theorem itemsOf_of_isListing {value : Json} (h : IsListing value) :
    itemsOf value = .ok (elementsOf value) := by
  rw [itemsOf]
  rcases h with hfalsy | hkind
  · rw [hfalsy]
    cases value with
    | array elements =>
      cases elements with
      | nil => rfl
      | cons element rest => cases hfalsy
    | _ => rfl
  · cases value with
    | array elements => cases elements <;> rfl
    | _ => cases hkind

/-! ## Counting and keeping -/

/-- The score and the findings with one more sighting. -/
def noted (total : LibraryScore) (sighting : Sighting) : LibraryScore where
  score := total.score + sighting.points
  findings := total.findings.put sighting.key sighting.finding

theorem addVulnerability_of_isListed {record : Json} (h : IsListedRecord record)
    (component : Json) (index : Nat) (total : LibraryScore) :
    addVulnerability component index total record =
      .ok ((ofObject [] (fun record => [⟨component, index,
        record⟩]) record).foldl noted total) := by
  cases record with
  | object vulnerability =>
    have hfinding : findingOf component vulnerability =
        (itemsOf (Json.member "CVE" (identifiersOf vulnerability)) >>= fun cve =>
          .ok { Sighting.finding ⟨component, index, vulnerability⟩ with
            cve := listing cve }) := rfl
    rw [addVulnerability, hfinding, itemsOf_of_isListing h]
    rfl
  | _ => rfl

theorem addVulnerabilities_of_isListed {records : List Json}
    (h : ∀ record ∈ records, IsListedRecord record) (component : Json) (index : Nat)
    (total : LibraryScore) :
    addVulnerabilities component index total records =
      .ok ((sightingsFrom component index records).foldl noted total) := by
  induction records generalizing index total with
  | nil => rfl
  | cons record rest ih =>
    obtain ⟨hrecord, hrest⟩ := List.forall_mem_cons.mp h
    rw [addVulnerabilities, addVulnerability_of_isListed hrecord, sightingsFrom,
      List.zipIdx_cons, List.flatMap_cons, List.foldl_append, ← sightingsFrom]
    exact ih hrest (index + 1) _

/-- A loop that takes in the parts of one item after another takes in the parts of all. -/
theorem foldlM_eq_ok_foldl {σ α β ε : Type} {step : σ → α → Except ε σ}
    {parts : α → List β} {take : σ → β → σ} {items : List α}
    (h : ∀ item ∈ items, ∀ state, step state item = .ok ((parts item).foldl take state))
    (state : σ) : items.foldlM step state =
    .ok ((items.flatMap parts).foldl take state) := by
  induction items generalizing state with
  | nil => rfl
  | cons item rest ih =>
    obtain ⟨hitem, hrest⟩ := List.forall_mem_cons.mp h
    rw [List.foldlM_cons, hitem, List.flatMap_cons, List.foldl_append]
    exact ih hrest _

theorem addLibrary_of_isListed {library : Json} (h : IsListedLibrary library)
    (total : LibraryScore) :
    addLibrary total library = .ok ((sightingsOfLibrary library).foldl noted total) := by
  cases library with
  | object library =>
    obtain ⟨hlist, hrecords⟩ := h
    rw [addLibrary, itemsOf_of_isListing hlist]
    exact addVulnerabilities_of_isListed hrecords _ 0 total
  | _ => rfl

theorem addFile_of_isListed {file : Json} (h : IsListedFile file) (total : LibraryScore) :
    addFile total file = .ok ((sightingsOfFile file).foldl noted total) := by
  cases file with
  | object file =>
    obtain ⟨hlist, hlibraries⟩ := h
    rw [addFile, itemsOf_of_isListing hlist]
    exact foldlM_eq_ok_foldl (fun library hmem =>
      addLibrary_of_isListed (hlibraries library hmem)) total
  | _ => rfl

/-- The score of a scan takes in its sightings one after another. -/
theorem libraries_of_isListed {scan : Json} (h : IsListedScan scan) :
    libraries scan = .ok ((sightings scan).foldl noted ⟨0, []⟩) := by
  obtain ⟨hlist, hfiles⟩ := h
  rw [libraries, itemsOf_of_isListing hlist]
  exact foldlM_eq_ok_foldl (fun file hmem => addFile_of_isListed (hfiles file hmem)) _

/-! ## What comes of the sightings -/

/-- What stands under a key is the last finding. -/
def latest (_ : Option Finding) (finding : Finding) : Finding := finding

theorem gatherValues_latest (findings : List Finding) :
    Entries.gatherValues latest none findings = findings.getLast? := by
  induction findings using List.reverseRecOn with
  | nil => rfl
  | append_singleton findings finding ih =>
    rw [Entries.gatherValues_concat, List.getLast?_concat]
    rfl

/-- The findings, each with its key. -/
def keyed (seen : List Sighting) : List (Text × Finding) :=
  seen.map fun sighting => (sighting.key, sighting.finding)

theorem foldl_noted (seen : List Sighting) :
    seen.foldl noted ⟨0, []⟩ =
      ⟨(seen.map Sighting.points).sum, Entries.gather latest (keyed seen)⟩ := by
  induction seen using List.reverseRecOn with
  | nil => rfl
  | append_singleton seen sighting ih =>
    have hkeyed : keyed (seen ++ [sighting]) =
        keyed seen ++ [(sighting.key, sighting.finding)] := List.map_append
    rw [List.foldl_append, ih, hkeyed, Entries.gather_concat, List.map_append,
      List.sum_append]
    rfl

theorem get?_gather_latest (seen : List Sighting) (key : Text) :
    (Entries.gather latest (keyed seen)).get? key =
      ((seen.filter fun sighting => sighting.key == key).getLast?).map
        Sighting.finding := by
  have hvalues : Entries.valuesFor key (keyed seen) =
      (seen.filter fun sighting => sighting.key == key).map Sighting.finding := by
    rw [Entries.valuesFor, keyed, List.filter_map, List.map_map]
    rfl
  rw [Entries.get?_gather, gatherValues_latest, hvalues, List.getLast?_map]

theorem gather_latest_append (pairs more : List (Text × Finding)) :
    Entries.gather latest (pairs ++ more) =
      (Entries.gather latest pairs).merge (fun _ new => new)
        (Entries.gather latest more) :=
  Entries.gather_append (fun _ _ => rfl) (fun _ _ _ => rfl) pairs more

/-- The digits of the place are what stands behind the last dash of a key. -/
theorem digits_of_findingKey (component : Json) (index : Nat) :
    ((findingKey component index).reverse.takeWhile (· != ('-' : CodePoint))).reverse =
      Text.ofNat index := by
  have hdash : (Text.ofString "-vuln-").reverse =
      ('-' : CodePoint) :: (Text.ofString "-vuln").reverse := by decide
  have hdigits : ∀ c ∈ (Text.ofNat index).reverse, (c != ('-' : CodePoint)) = true := by
    intro c hc
    rw [bne_iff_ne]
    intro heq
    exact Text.not_mem_ofNat (by decide) index (heq ▸ List.mem_reverse.mp hc)
  rw [findingKey, List.reverse_append, List.reverse_append, hdash,
    List.takeWhile_append_of_pos hdigits]
  simp

/-- The component's text and the place can be told from a key. -/
theorem findingKey_eq_iff {component other : Json} {index place : Nat} :
    findingKey component index = findingKey other place ↔
    component.shown = other.shown ∧ index = place := by
  constructor
  · intro h
    have hindex : index = place := by
      apply Text.ofNat_injective
      rw [← digits_of_findingKey component, ← digits_of_findingKey other, h]
    subst hindex
    rw [findingKey, findingKey, List.append_left_inj, List.append_left_inj] at h
    exact ⟨h, rfl⟩
  · rintro ⟨hshown, rfl⟩
    rw [findingKey, findingKey, hshown]

/-! ## The scan -/

/-- **What a scan comes to.** A scan whose lists are lists has a score: the sum of the
points of all its sightings. Its findings stand in the order in which their keys first
came, and under each key stands what the last sighting with the key says; two sightings
have one key just if their components have one text and they stand at one place. A scan
with more files after it adds to the score what those have by themselves, and has their
findings written over its own. -/
theorem libraries_sightings (scan : Json) (h : IsListedScan scan) :
    ∃ total, libraries scan = .ok total ∧
      total.score = ((sightings scan).map Sighting.points).sum ∧
      total.findings.keys = ((sightings scan).map Sighting.key).eraseDups ∧
      (∀ key, total.findings.get? key =
        ((sightings scan).filter fun sighting => sighting.key == key).getLast?.map
          Sighting.finding) ∧
      (∀ one other : Sighting,
        one.key = other.key ↔ one.component.shown = other.component.shown ∧
        one.index = other.index) ∧
      ∀ more, IsListedScan more → ∃ rest, libraries more = .ok rest ∧
        libraries (.array (elementsOf scan ++ elementsOf more)) =
          .ok ⟨total.score + rest.score,
            total.findings.merge (fun _ new => new) rest.findings⟩ := by
  refine ⟨_, libraries_of_isListed h, ?_⟩
  rw [foldl_noted]
  refine ⟨rfl, ?_, get?_gather_latest (sightings scan),
    fun one other => findingKey_eq_iff, fun more hmore => ?_⟩
  · rw [Entries.keys_gather, keyed, List.map_map]
    rfl
  · refine ⟨_, libraries_of_isListed hmore, ?_⟩
    have hboth : IsListedScan (.array (elementsOf scan ++ elementsOf more)) :=
      ⟨.inr rfl, List.forall_mem_append.mpr ⟨h.2, hmore.2⟩⟩
    have hseen : sightings (.array (elementsOf scan ++ elementsOf more)) =
        sightings scan ++ sightings more :=
      List.flatMap_append
    have hkeyed : keyed (sightings scan ++ sightings more) =
        keyed (sightings scan) ++ keyed (sightings more) :=
      List.map_append
    rw [libraries_of_isListed hboth, foldl_noted, foldl_noted, hseen, hkeyed,
      gather_latest_append, List.map_append, List.sum_append]

/-- A scan in which one component is found in two files, once with a number in the place
of a record. -/
def collidingScan : Json :=
  .array [
    .object [("results", .array [.int 3, .object [
      ("component", "a-vuln-1"),
      ("vulnerabilities", .array [.int 7, .object [("severity", "HIGH")]])]])],
    .null,
    .object [("results", .array [.object [
      ("component", "a-vuln-1"),
      ("vulnerabilities", .array [
        .object [("severity", "low")],
        .object [("severity", "critical"),
          ("identifiers", .object [("CVE", .array ["CVE-1", "CVE-2"])])]])]])]]

/-- Its three records are all counted, and the later one of the same component and place
is kept where the earlier one came first; a scan of nothing after it changes nothing. -/
theorem libraries_sightings_collision :
    IsListedScan collidingScan ∧ IsListedScan .null ∧
      ∃ total, libraries collidingScan = .ok total ∧ total.score = 80 ∧
        total.findings.keys = ["a-vuln-1-vuln-1", "a-vuln-1-vuln-0"] ∧
        (total.findings.get? "a-vuln-1-vuln-1").map Finding.cve = some "CVE-1, CVE-2" ∧
        ∃ rest, libraries .null = .ok rest ∧
          libraries (.array (elementsOf collidingScan ++ elementsOf .null)) =
            .ok ⟨total.score + rest.score,
              total.findings.merge (fun _ new => new) rest.findings⟩ := by
  have hlisted : IsListedScan collidingScan := by decide +kernel
  have hnull : IsListedScan .null := by decide
  obtain ⟨total, htotal, hscore, hkeys, hget, -, hmore⟩ :=
    libraries_sightings collidingScan hlisted
  refine ⟨hlisted, hnull, total, htotal, ?_, ?_, ?_, hmore .null hnull⟩
  · rw [hscore]
    decide +kernel
  · rw [hkeys]
    decide +kernel
  · rw [hget]
    decide +kernel

end ExtensionAudit.Score
