import ExtensionAudit.Proofs.Disk
import ExtensionAudit.Proofs.Json
import ExtensionAudit.Proofs.Json.Reader
import ExtensionAudit.Proofs.Utf8
import ExtensionAudit.Request.Fault
import Mathlib

/-!
# Manifest — what counts as a manifest

A manifest is accepted just if the file spells a document, perhaps after a byte order
mark, and the document is an object (`Manifest.Holds`). Whatever else is found is a
fault of the analysis, unless the file cannot even be looked up for the length of its
path (`Manifest.Refuses`), and the mark makes no difference.
-/

namespace ExtensionAudit

/-! ## Members -/

namespace Entries

variable {α : Type}

theorem ofPairs_eq_gather (pairs : List (Text × α)) :
    ofPairs pairs = gather (fun _ value => value) pairs := rfl

/-- The names stand in the order in which they first came. -/
theorem keys_ofPairs (pairs : List (Text × α)) :
    (ofPairs pairs).keys = (pairs.map (·.1)).eraseDups := by
  rw [ofPairs_eq_gather, keys_gather]

/-- Under a name stands the last value that came for it. -/
theorem get?_ofPairs (pairs : List (Text × α)) (key : Text) :
    (ofPairs pairs).get? key = (valuesFor key pairs).getLast? := by
  rw [ofPairs_eq_gather, get?_gather]
  generalize valuesFor key pairs = values
  induction values using List.reverseRecOn with
  | nil => rfl
  | append_singleton values value ih => rw [gatherValues_concat, List.getLast?_concat]

end Entries

namespace Json

/-- The members that count of those that are written: a name stands where it first came,
with the last value that came for it. -/
structure Collects (pairs : List (Text × Json)) (members : Entries Json) : Prop where
  names : members.keys = (pairs.map (·.1)).eraseDups
  values : ∀ name, members.get? name = (Entries.valuesFor name pairs).getLast?

theorem collects_iff {pairs : List (Text × Json)} {members : Entries Json} :
    Collects pairs members ↔ members = Entries.ofPairs pairs := by
  constructor
  · intro h
    have hdistinct : members.Distinct := by
      rw [Entries.Distinct, h.names]
      exact nodup_eraseDups _
    refine Entries.ext_of_get? hdistinct ?_ fun name => ?_
    · rw [h.names, Entries.keys_ofPairs]
    · rw [h.values, Entries.get?_ofPairs]
  · intro h
    rw [h]
    exact ⟨Entries.keys_ofPairs pairs, Entries.get?_ofPairs pairs⟩

/-- The text is an object with these members, one after another. -/
inductive ObjectOf (t : Text) : List (Text × Json) → Prop
  | empty (h : Lexed t [.openObject, .closeObject]) : ObjectOf t []
  | members {tokens : List Token} {members : List (Text × Json)}
    (h : Lexed t (.openObject :: (tokens ++ [.closeObject])))
    (inside : Phrase tokens (.members members)) :
    ObjectOf t members

theorem document_object_iff {t : Text} {members : Entries Json} :
    Document t (.object members) ↔ ∃ pairs, ObjectOf t pairs ∧
    Collects pairs members := by
  simp only [collects_iff]
  constructor
  · intro h
    obtain ⟨ts, hlexed, hphrase⟩ := h
    have hts := map_tokens_of_lexed hlexed (isApart_of_phrase hphrase) 0
    cases hphrase with
    | scalar =>
      -- no token holds an object
      obtain ⟨entry, hentry, hscalar⟩ := List.mem_map.mp (hts ▸ List.mem_singleton_self _)
      have hplain := isPlain_tokens 0 t entry hentry
      rw [hscalar] at hplain
      cases hplain
    | emptyObject => exact ⟨[], .empty hlexed, rfl⟩
    | object inside => exact ⟨_, .members hlexed inside, rfl⟩
  · intro h
    obtain ⟨pairs, hobject, rfl⟩ := h
    cases hobject with
    | empty h => exact ⟨_, h, .emptyObject⟩
    | members h inside => exact ⟨_, h, .object inside⟩

end Json

namespace Manifest

/-! ## Octets -/

/-- What octets lack that are no manifest, by the fault that is reported: they spell no
text, no text that they spell is a document, or the document is no object. -/
inductive Lacks (content : Bytes) : Fault → Prop
  | text (fault : Utf8.Fault) (h : ∀ t, ¬ Utf8.Spells content t) :
      Lacks content (.encoding fault)
  | document (fault : Json.ReadFault)
      (h : ∀ t value, Utf8.Spells content t → ¬ Json.Document t value) :
    Lacks content (.malformed fault)
  | object {t : Text} {value : Json} (ht : Utf8.Spells content t)
      (hvalue : Json.Document t value)
    (h : ∀ members, value ≠ .object members) : Lacks content .notObject

theorem read_universalNewlines_eq_ok_iff {t : Text} {value : Json} :
    Json.read (Text.universalNewlines t) = .ok value ↔ Json.Document t value := by
  rw [Json.read_eq_ok_iff, Json.document_universalNewlines_iff]

theorem ofBytes_eq_ok_iff_decode {content : Bytes} {members : Entries Json} :
    ofBytes content = .ok members ↔
      ∃ t, Utf8.decode (Utf8.dropSignature content) = .ok t ∧
      Json.Document t (.object members) := by
  rw [ofBytes, bind_eq_ok]
  simp only [bind_eq_ok, mapError_eq_ok, read_universalNewlines_eq_ok_iff]
  constructor
  · intro h
    obtain ⟨t, hdecode, value, hdocument, hobject⟩ := h
    cases value with
    | object found =>
      cases hobject
      exact ⟨t, hdecode, hdocument⟩
    | _ => cases hobject
  · intro h
    obtain ⟨t, hdecode, hdocument⟩ := h
    exact ⟨t, hdecode, _, hdocument, rfl⟩

/-- Octets are accepted just if they spell an object, and its members are returned. -/
theorem ofBytes_eq_ok_iff {content : Bytes} {members : Entries Json} :
    ofBytes content = .ok members ↔ ∃ t, Utf8.Spells content t ∧
    Json.Document t (.object members) := by
  rw [ofBytes_eq_ok_iff_decode]
  constructor
  · intro h
    obtain ⟨t, hdecode, hdocument⟩ := h
    rcases Utf8.spells_of_decode_dropSignature hdecode with hspells | hnil
    · exact ⟨t, hspells, hdocument⟩
    · rw [hnil] at hdocument
      exact absurd hdocument Json.not_document_nil
  · intro h
    obtain ⟨t, hspells, hdocument⟩ := h
    obtain ⟨u, hdecode, hu⟩ := Utf8.decode_dropSignature_of_spells hspells
    rcases hu with rfl | rfl
    · exact ⟨t, hdecode, hdocument⟩
    · exact absurd rfl (Json.head?_ne_of_document hdocument)

theorem lacks_of_ofBytes {content : Bytes} {fault : Fault}
    (h : ofBytes content = .error fault) :
    Lacks content fault := by
  rw [ofBytes] at h
  cases hdecode : Utf8.decode (Utf8.dropSignature content) with
  | error problem =>
    rw [hdecode] at h
    cases h
    refine .text problem fun t hspells => ?_
    obtain ⟨u, hu, _⟩ := Utf8.decode_dropSignature_of_spells hspells
    rw [hdecode] at hu
    cases hu
  | ok t =>
    rw [hdecode] at h
    cases hread : Json.read (Text.universalNewlines t) with
    | error problem =>
      have hfault : fault = .malformed problem := by
        simpa [hread, Except.mapError, Bind.bind, Except.bind] using h.symm
      rw [hfault]
      refine .document problem fun u value hspells hdocument => ?_
      obtain ⟨v, hv, hu⟩ := Utf8.decode_dropSignature_of_spells hspells
      rw [hdecode, Except.ok.injEq] at hv
      rcases hu with rfl | rfl
      · rw [hv, read_universalNewlines_eq_ok_iff.mpr hdocument] at hread
        cases hread
      · exact Json.head?_ne_of_document hdocument rfl
    | ok value =>
      have hdocument := read_universalNewlines_eq_ok_iff.mp hread
      have hspells : Utf8.Spells content t := by
        rcases Utf8.spells_of_decode_dropSignature hdecode with hspells | hnil
        · exact hspells
        · rw [hnil] at hdocument
          exact absurd hdocument Json.not_document_nil
      have hfault : fault = .notObject ∧ ∀ members, value ≠ .object members := by
        cases value <;> simp_all [Except.mapError, Bind.bind, Except.bind]
      rw [hfault.1]
      exact .object hspells hdocument hfault.2

/-- A mark in front of octets without one makes no difference. -/
theorem toOption_ofBytes_signature {content : Bytes} (h : ¬ Utf8.signature <+: content) :
    (ofBytes (Utf8.signature ++ content)).toOption = (ofBytes content).toOption := by
  ext members
  rw [toOption_eq_some, toOption_eq_some, ofBytes_eq_ok_iff, ofBytes_eq_ok_iff]
  constructor
  · intro h
    obtain ⟨t, hspells, hdocument⟩ := h
    rcases Utf8.spells_signature_append hspells with hplain | hmark
    · exact ⟨t, hplain, hdocument⟩
    · exact absurd hmark (Json.head?_ne_of_document hdocument)
  · intro hplain
    obtain ⟨t, hspells, hdocument⟩ := hplain
    cases hspells with
    | plain ht => exact ⟨t, .marked ht, hdocument⟩
    | marked ht => exact absurd (List.prefix_append _ _) h

/-! ## Files -/

variable (disk : Disk) (directory : Path)

/-- The directory holds a manifest with these members. -/
def Holds (members : Entries Json) : Prop :=
  ∃ content t pairs, disk.status (directory.child fileName) = .ok (.file content) ∧
    Utf8.Spells content t ∧
    Json.ObjectOf t pairs ∧ Json.Collects pairs members

/-- Why the directory holds no manifest, by the fault that is reported: nothing has its
name, the name cannot be asked for, a directory has it, or the octets of the file lack
something. -/
inductive Refuses : Fault → Prop
  | absent (h : disk.status (directory.child fileName) = .error .missing ∨
      disk.status (directory.child fileName) = .error .notDirectory) :
        Refuses (.absent directory)
  | unreachable (h : disk.status (directory.child fileName) = .error .nameTooLong) :
    Refuses (.unreachable ⟨.nameTooLong, (directory.child fileName).text⟩)
  | unreadable (h : disk.status (directory.child fileName) = .ok .directory) :
    Refuses (.unreadable ⟨.isDirectory, (directory.child fileName).text⟩)
  | content {content : Bytes} {fault : Fault}
      (h : disk.status (directory.child fileName) = .ok (.file content))
    (hcontent : Lacks content fault) : Refuses fault

variable {disk directory}

theorem read_of_file {content : Bytes}
    (h : disk.status (directory.child fileName) = .ok (.file content)) :
    read disk directory = ofBytes content := by
  simp [read, Disk.read, Disk.about, h, Except.mapError, Bind.bind, Except.bind]

theorem read_of_directory (h : disk.status (directory.child fileName) = .ok .directory) :
    read disk directory =
      .error (.unreadable ⟨.isDirectory, (directory.child fileName).text⟩) := by
  simp [read, Disk.read, Disk.about, h, Except.mapError, Bind.bind, Except.bind]

/-- The fault of a manifest that is not found. -/
def Fault.ofRefusal (directory : Path) : Refusal → Fault
  | .missing | .notDirectory => .absent directory
  | refusal => .unreachable ⟨refusal, (directory.child fileName).text⟩

theorem read_of_nothing {refusal : Refusal}
    (h : disk.status (directory.child fileName) = .error refusal) :
    read disk directory = .error (.ofRefusal directory refusal) := by
  simp only [read, h]
  cases refusal <;> rfl

theorem exists_of_read {members : Entries Json} (h : read disk directory = .ok members) :
    ∃ content, disk.status (directory.child fileName) = .ok (.file content) ∧
    ofBytes content = .ok members := by
  cases hstatus : disk.status (directory.child fileName) with
  | error refusal =>
    rw [read_of_nothing hstatus] at h
    cases h
  | ok node =>
    cases node with
    | directory =>
      rw [read_of_directory hstatus] at h
      cases h
    | file content =>
      rw [read_of_file hstatus] at h
      exact ⟨content, rfl, h⟩

theorem read_eq_ok_iff {members : Entries Json} : read disk directory = .ok members ↔
    Holds disk directory members := by
  constructor
  · intro h
    obtain ⟨content, hstatus, hbytes⟩ := exists_of_read h
    obtain ⟨t, hspells, hdocument⟩ := ofBytes_eq_ok_iff.mp hbytes
    obtain ⟨pairs, hobject, hcollects⟩ := Json.document_object_iff.mp hdocument
    exact ⟨content, t, pairs, hstatus, hspells, hobject, hcollects⟩
  · intro h
    obtain ⟨content, t, pairs, hstatus, hspells, hobject, hcollects⟩ := h
    rw [read_of_file hstatus, ofBytes_eq_ok_iff]
    exact ⟨t, hspells, Json.document_object_iff.mpr ⟨pairs, hobject, hcollects⟩⟩

theorem refuses_of_read {fault : Fault} (h : read disk directory = .error fault) :
    Refuses disk directory fault := by
  cases hstatus : disk.status (directory.child fileName) with
  | error refusal =>
    rw [read_of_nothing hstatus] at h
    cases h
    rcases Disk.status_eq_error hstatus with rfl | rfl | rfl
    · exact .absent (.inl hstatus)
    · exact .absent (.inr hstatus)
    · exact .unreachable hstatus
  | ok node =>
    cases node with
    | directory =>
      rw [read_of_directory hstatus] at h
      cases h
      exact .unreadable hstatus
    | file content =>
      rw [read_of_file hstatus] at h
      exact .content hstatus (lacks_of_ofBytes h)

/-- What is wrong is a fault of the analysis, unless the system refuses to look the file
up. -/
theorem Refuses.kind {fault : Fault} (h : Refuses disk directory fault) :
    if disk.status (directory.child fileName) = .error .nameTooLong then
      (ExtensionAudit.Fault.manifest fault).kind = .system
    else (ExtensionAudit.Fault.manifest fault).kind = .analysis := by
  cases h with
  | absent h =>
    rw [if_neg (by rcases h with h | h <;> simp [h])]
    rfl
  | unreachable h =>
    rw [if_pos h]
    rfl
  | unreadable h =>
    rw [if_neg (by simp [h])]
    rfl
  | content h hcontent =>
    rw [if_neg (by simp [h])]
    cases hcontent <;> rfl

/-- A directory's manifest is read just if the directory holds one, and its members are
returned, each name once. In every other case a fault says what is wrong: one of the
system just if the file cannot be looked up for the length of a name, which in a
directory that is there means the length of the whole path, and otherwise one of the
analysis. A byte order mark in front of a file that has none changes neither. -/
theorem read_iff_holds (disk : Disk) (directory : Path) :
    (∀ members, read disk directory = .ok members ↔ Holds disk directory members) ∧
    (∀ fault, read disk directory = .error fault →
      Refuses disk directory fault ∧
        if disk.status (directory.child fileName) = .error .nameTooLong then
          (ExtensionAudit.Fault.manifest fault).kind = .system
        else (ExtensionAudit.Fault.manifest fault).kind = .analysis) ∧
    (disk.status directory = .ok .directory →
      (disk.status (directory.child fileName) = .error .nameTooLong ↔
        Disk.pathLimit < (Utf8.encode (directory.child fileName).text).length)) ∧
    ∀ (marked : Disk) (content : Bytes),
      disk.status (directory.child fileName) = .ok (.file content) →
      ¬ Utf8.signature <+: content →
      marked.status (directory.child fileName) = .ok (.file (Utf8.signature ++ content)) →
      (read marked directory).toOption = (read disk directory).toOption := by
  refine ⟨fun members => read_eq_ok_iff, fun fault h => ?_, fun h => ?_, ?_⟩
  · exact ⟨refuses_of_read h, (refuses_of_read h).kind⟩
  · exact Disk.status_child_eq_nameTooLong_iff h (by decide)
  · intro marked content hstatus hplain hmarked
    rw [read_of_file hstatus, read_of_file hmarked]
    exact toOption_ofBytes_signature hplain

/-- An object that gives a name twice, on two lines. -/
def repeatedName : Bytes := Utf8.encode "\x7b\"a\": 1, \"b\": null,\r\n\"a\": 2\x7d"

/-- A directory with a manifest of this content. -/
def holding (content : Bytes) : Disk :=
  ⟨[(["x"], .directory), (["x", fileName], .file content)]⟩

theorem status_holding (content : Bytes) :
    (holding content).status ((Path.ofNames ["x"]).child fileName) =
      .ok (.file content) := by cbv

theorem ofBytes_repeatedName : ofBytes repeatedName =
    .ok [("a", .int 2), ("b", .null)] := by cbv

theorem ofBytes_marked_marked_repeatedName :
    ofBytes (Utf8.signature ++ (Utf8.signature ++ repeatedName)) =
      .error (.malformed (.malformed .byteOrderMark ⟨1, 1, 0⟩)) := by cbv

/-- The name stands where it was first, with the later value, and so it does behind a
mark; behind two marks there is no document. -/
theorem read_repeatedName :
    read (holding repeatedName) (.ofNames ["x"]) = .ok [("a", .int 2), ("b", .null)] ∧
      (read (holding (Utf8.signature ++ repeatedName)) (.ofNames ["x"])).toOption =
        (read (holding repeatedName) (.ofNames ["x"])).toOption ∧
      Refuses (holding (Utf8.signature ++ (Utf8.signature ++ repeatedName)))
        (.ofNames ["x"])
        (.malformed (.malformed .byteOrderMark ⟨1, 1, 0⟩)) := by
  have hread : read (holding repeatedName) (.ofNames ["x"]) =
      .ok [("a", .int 2), ("b", .null)] := by
    rw [read_of_file (status_holding repeatedName), ofBytes_repeatedName]
  have hplain : ¬ Utf8.signature <+: repeatedName := by decide
  have hmark := (read_iff_holds (holding repeatedName) (.ofNames ["x"])).2.2.2
    (holding (Utf8.signature ++ repeatedName)) repeatedName
      (status_holding repeatedName) hplain (status_holding _)
  have hrefuses :=
    (read_iff_holds (holding (Utf8.signature ++ (Utf8.signature ++ repeatedName)))
    (.ofNames ["x"])).2.1 (.malformed (.malformed .byteOrderMark ⟨1, 1, 0⟩)) (by
      rw [read_of_file (status_holding _), ofBytes_marked_marked_repeatedName])
  exact ⟨hread, hmark, hrefuses.1⟩

/-- A directory by a name that no directory can have. -/
def namedAtLength : Path := .ofNames [List.replicate 300 'x']

/-- The system refuses to look for a manifest there, and nobody says that it is about a
manifest. -/
theorem read_namedAtLength :
    read .empty namedAtLength =
        .error (.unreachable ⟨.nameTooLong, (namedAtLength.child fileName).text⟩) ∧
      ∃ fault, read .empty namedAtLength = .error fault ∧
        (ExtensionAudit.Fault.manifest fault).kind ≠ .analysis := by
  have hstatus : Disk.empty.status (namedAtLength.child fileName) =
      .error .nameTooLong := by
    decide +kernel
  rw [read_of_nothing hstatus]
  exact ⟨rfl, _, rfl, nofun⟩

end Manifest

end ExtensionAudit
