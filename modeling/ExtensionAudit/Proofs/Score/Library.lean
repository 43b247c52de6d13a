import ExtensionAudit.Proofs.Json.Parts
import ExtensionAudit.Proofs.Outcome
import ExtensionAudit.Score.Library

/-!
# Score — the scans that cannot be scored

Files list their results, libraries their vulnerabilities, and vulnerabilities their
numbers in the catalogue. What stands in the place of such a list may be anything falsy,
a text or an object, and what stands in a list may be of any kind. Only true and the
numbers other than zero are neither nothing nor anything that can be listed, and a scan
in which one of them stands in such a place has no score (`libraries_failsJustIf`).
-/

namespace ExtensionAudit.Score

/-! ## What stands in the wrong place -/

/-- The value cannot be listed, or it is an array with an element that is bad. -/
inductive IsBadList (bad : Json → Prop) : Json → Prop
  | number {value : Json} (h : Json.IsTruthyNumber value) : IsBadList bad value
  | element {elements : List Json} {element : Json} (hmem : element ∈ elements)
      (h : bad element) :
    IsBadList bad (.array elements)

/-- A vulnerability whose numbers in the catalogue cannot be listed. -/
inductive IsBadVulnerability : Json → Prop
  | intro {vulnerability identifiers : Entries Json}
    (hmember : Json.member "identifiers" vulnerability = .object identifiers)
    (h : Json.IsTruthyNumber (Json.member "CVE" identifiers)) :
      IsBadVulnerability (.object vulnerability)

/-- A library whose vulnerabilities cannot be listed, or one of whose vulnerabilities is
bad. -/
inductive IsBadLibrary : Json → Prop
  | intro {library : Entries Json}
      (h : IsBadList IsBadVulnerability (Json.member "vulnerabilities" library)) :
    IsBadLibrary (.object library)

/-- A file whose libraries cannot be listed, or one of whose libraries is bad. -/
inductive IsBadFile : Json → Prop
  | intro {file : Entries Json}
      (h : IsBadList IsBadLibrary (Json.member "results" file)) :
    IsBadFile (.object file)

/-- The fault of a value that cannot be listed. -/
def IsNotIterable (misuse : Json.Misuse) : Prop := ∃ kind, misuse = .notIterable kind

/-! ## Lists -/

theorem itemsOf_failsJustIf (value : Json) :
    FailsJustIf (Json.IsTruthyNumber value) IsNotIterable (itemsOf value) := by
  rw [itemsOf]
  rcases value.falsy_or_number_or_items with h | h | ⟨t, rfl⟩ | ⟨elements, rfl⟩ |
    ⟨members, rfl⟩
  · rw [h]
    refine .ok [] fun hnumber => ?_
    exact Bool.false_ne_true (h.symm.trans hnumber.isTruthy)
  · rw [h.isTruthy]
    cases h with
    | flag => exact .error _ .flag ⟨_, rfl⟩
    | integer h => exact .error _ (.integer h) ⟨_, rfl⟩
    | double h => exact .error _ (.double h) ⟨_, rfl⟩
  · split <;> exact .ok _ nofun
  · split <;> exact .ok _ nofun
  · split <;> exact .ok _ nofun

/-- What is listed are the elements of an array, or texts. -/
theorem itemsOf_eq_ok {value : Json} {items : List Json} (h : itemsOf value = .ok items) :
    value = .array items ∨
      (∀ elements, value ≠ .array elements) ∧ ∀ item ∈ items, ∃ t, item = .text t := by
  rw [itemsOf] at h
  cases value with
  | array elements =>
    cases elements <;> exact .inl (congrArg Json.array (Except.ok.inj h))
  | text t => split at h <;> cases h <;> exact .inr ⟨nofun, by simp⟩
  | object members =>
    refine .inr ⟨nofun, fun item hmem => ?_⟩
    split at h
    · cases h
      obtain ⟨entry, -, rfl⟩ := List.mem_map.mp hmem
      exact ⟨entry.1, rfl⟩
    · cases h
      cases hmem
  | _ =>
    split at h
    · cases h
    · cases h
      exact .inr ⟨nofun, by simp⟩

variable {bad : Json → Prop}

theorem isBadList_iff {value : Json} :
    IsBadList bad value ↔
      Json.IsTruthyNumber value ∨ ∃ elements, value = .array elements ∧
      ∃ element ∈ elements, bad element := by
  constructor
  · intro h
    cases h with
    | number h => exact .inl h
    | element hmem h => exact .inr ⟨_, rfl, _, hmem, h⟩
  · rintro (h | ⟨elements, rfl, element, hmem, h⟩)
    · exact .number h
    · exact .element hmem h

/-- A loop over what is listed fails for an element that is bad, if texts are not. -/
theorem itemsOf_bind_failsJustIf {σ : Type} (htext : ∀ t, ¬ bad (.text t))
    {loop : List Json → Except Json.Misuse σ}
    (hloop : ∀ items, FailsJustIf (∃ item ∈ items, bad item) IsNotIterable (loop items))
    (value : Json) :
    FailsJustIf (IsBadList bad value) IsNotIterable (itemsOf value >>= loop) := by
  refine ((itemsOf_failsJustIf value).bind fun items hitems =>
    (hloop items).congr ?_).congr
    isBadList_iff.symm
  rcases itemsOf_eq_ok hitems with rfl | ⟨hother, htexts⟩
  · simp
  · constructor
    · rintro ⟨item, hmem, hbad⟩
      obtain ⟨t, rfl⟩ := htexts item hmem
      exact absurd hbad (htext t)
    · rintro ⟨elements, h, -⟩
      exact absurd h (hother elements)

/-! ## The scan -/

/-- The identifiers of a vulnerability; whatever is not an object stands for none. -/
def identifiersOf (vulnerability : Entries Json) : Entries Json :=
  match Json.member "identifiers" vulnerability with
  | .object identifiers => identifiers
  | _ => []

theorem isBadVulnerability_iff {vulnerability : Entries Json} :
    IsBadVulnerability (.object vulnerability) ↔
      Json.IsTruthyNumber (Json.member "CVE" (identifiersOf vulnerability)) := by
  constructor
  · rintro ⟨hmember, h⟩
    rwa [identifiersOf, hmember]
  · intro h
    rw [identifiersOf] at h
    split at h
    · next hmember => exact .intro hmember h
    · cases h

theorem findingOf_failsJustIf (component : Json) (vulnerability : Entries Json) :
    FailsJustIf (IsBadVulnerability (.object vulnerability)) IsNotIterable
      (findingOf component vulnerability) := by
  have hcve := itemsOf_failsJustIf (Json.member "CVE" (identifiersOf vulnerability))
  exact (hcve.bind fun cve _ => .ok _ not_false).congr
    (by rw [or_false, isBadVulnerability_iff])

theorem addVulnerability_failsJustIf (component : Json) (index : Nat)
    (total : LibraryScore) (record : Json) :
    FailsJustIf (IsBadVulnerability record) IsNotIterable
      (addVulnerability component index total record) := by
  cases record with
  | object vulnerability =>
    rw [addVulnerability]
    exact ((findingOf_failsJustIf component vulnerability).bind fun finding _ =>
      .ok _ not_false).congr
      (by rw [or_false])
  | _ => exact .ok total nofun

theorem addVulnerabilities_failsJustIf (component : Json) (records : List Json)
    (index : Nat) (total : LibraryScore) :
    FailsJustIf (∃ record ∈ records, IsBadVulnerability record) IsNotIterable
      (addVulnerabilities component index total records) := by
  induction records generalizing index total with
  | nil => exact .ok total (by simp)
  | cons record rest ih =>
    rw [addVulnerabilities]
    exact ((addVulnerability_failsJustIf component index total record).bind
      fun next _ => ih (index + 1) next).congr (by simp)

theorem addLibrary_failsJustIf (total : LibraryScore) (library : Json) :
    FailsJustIf (IsBadLibrary library) IsNotIterable (addLibrary total library) := by
  cases library with
  | object library =>
    rw [addLibrary]
    refine (itemsOf_bind_failsJustIf (fun t => nofun) (fun items => ?_) _).congr
      ⟨.intro, fun ⟨h⟩ => h⟩
    exact addVulnerabilities_failsJustIf _ items 0 total
  | _ => exact .ok total nofun

theorem addFile_failsJustIf (total : LibraryScore) (file : Json) :
    FailsJustIf (IsBadFile file) IsNotIterable (addFile total file) := by
  cases file with
  | object file =>
    rw [addFile]
    refine (itemsOf_bind_failsJustIf (fun t => nofun) (fun items => ?_) _).congr
      ⟨.intro, fun ⟨h⟩ => h⟩
    exact .foldlM addLibrary_failsJustIf items total
  | _ => exact .ok total nofun

/-- A scan has a score unless one of its files is bad, and then the fault is that of a
value that cannot be listed. -/
theorem libraries_failsJustIf (entries : List Json) :
    FailsJustIf (∃ file ∈ entries, IsBadFile file) IsNotIterable
      (libraries (.array entries)) := by
  have hitems : itemsOf (.array entries) = .ok entries := by cases entries <;> rfl
  rw [libraries, hitems]
  exact .foldlM addFile_failsJustIf entries ⟨0, []⟩

end ExtensionAudit.Score
