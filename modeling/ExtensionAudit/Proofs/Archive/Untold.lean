import ExtensionAudit.Proofs.Archive.Stored
import ExtensionAudit.Request.Fault
import Mathlib

/-!
# Archive — the faults that no caller is told of

Of what can be wrong with an archive, callers are told when it is damaged, asks for what
is not supported, or cannot be written. An extraction can stop in other ways: at a name
that is no text, in the directory or in a header, at a header before the first octet or
beyond all reach, at a member that needs a password, at one without a name where that is
refused, at data that the library for LZMA refuses, and at a member with too many
missing directories above it (`Stops`). Those are all the ways, and `extract_untold_iff`
says so.
-/

namespace ExtensionAudit.Archive

/-- Is the fault of the kind that a caller of an extraction is told of? -/
def Fault.IsTold (fault : Fault) : Prop :=
  (ExtensionAudit.Fault.archive fault).kind = .extraction

@[simp] theorem Fault.isTold_corrupt (damage : Damage) :
    (Fault.corrupt damage).IsTold := rfl

/-- A result, or a fault that a caller is told of. -/
def IsTold {α : Type} : Except Fault α → Prop
  | .ok _ => True
  | .error fault => fault.IsTold

theorem isTold_iff {α : Type} {result : Except Fault α} :
    IsTold result ↔ ∀ fault, ¬ (result = .error fault ∧ ¬ fault.IsTold) := by
  cases result with
  | ok a => exact iff_of_true trivial nofun
  | error fault => simp [IsTold]

theorem IsTold.not_untold {α : Type} {result : Except Fault α} (h : IsTold result)
    (fault : Fault) : ¬ (result = .error fault ∧ ¬ fault.IsTold) := isTold_iff.mp h fault

theorem IsTold.bind {α β : Type} {x : Except Fault α} {f : α → Except Fault β}
    (h : IsTold x) (hf : ∀ a, IsTold (f a)) : IsTold (x >>= f) := by
  cases x with
  | ok a => exact hf a
  | error fault => exact h

/-! ## Names -/

/-- A name that should be UTF-8 and is not. -/
def IsMisspelt (flags : Nat) (bytes : Bytes) (fault : Utf8.Fault) : Prop :=
  flags.testBit 11 = true ∧ Utf8.decode bytes = .error fault

theorem readName_eq_error_iff {flags : Nat} {bytes : Bytes} {fault : Fault} :
    readName flags bytes = .error fault ↔
      ∃ misspelling, IsMisspelt flags bytes misspelling ∧
      fault = .nameEncoding misspelling := by
  rw [readName]
  by_cases hflag : flags.testBit 11 = true
  · rw [if_pos hflag]
    cases hdecode : Utf8.decode bytes with
    | ok t => simp [IsMisspelt, hdecode, Except.mapError]
    | error found => simp [IsMisspelt, hdecode, hflag, Except.mapError, eq_comm]
  · rw [if_neg hflag]
    simp [IsMisspelt, hflag]

/-! ## The directory -/

theorem isTold_widen (wide : WideField) (isFull : Bool) (value : Nat) (data : Bytes) :
    IsTold (widen wide isFull value data) := by
  rw [widen]
  split
  · trivial
  · split <;> trivial

theorem isTold_widenEntry (e : Entry) (data : Bytes) : IsTold (widenEntry e data) := by
  refine (isTold_widen _ _ _ _).bind fun size => ?_
  refine (isTold_widen _ _ _ _).bind fun packedSize => ?_
  exact (isTold_widen _ _ _ _).bind fun offset => trivial

theorem isTold_readExtra (e : Entry) (extra : Bytes) : IsTold (readExtra e extra) := by
  rw [readExtra]
  split
  · trivial
  · dsimp only
    split
    · trivial
    · have hrest (e : Entry) : IsTold (readExtra e (extra.drop (field 2 2 extra + 4))) :=
        isTold_readExtra e _
      split
      · exact (isTold_widenEntry _ _).bind hrest
      · exact hrest e
termination_by extra.length
decreasing_by simp only [List.length_drop]; omega

/-- The octets are long enough for an entry of the directory, and start like one. -/
structure StartsEntry (bytes : Bytes) : Prop where
  whole : entrySize ≤ bytes.length
  magic : entryMagic.isPrefixOf bytes = true

/-- An entry of the directory whose name is no text. -/
def IsMisnamed (bytes : Bytes) (fault : Utf8.Fault) : Prop :=
  IsMisspelt (field 8 2 bytes) (Bytes.slice entrySize (field 28 2 bytes) bytes) fault

/-- The directory has an entry whose name is no text, and all entries before it can be
read. -/
inductive HasMisnamed : Bytes → Utf8.Fault → Prop
  | here {bytes : Bytes} {fault : Utf8.Fault} (starts : StartsEntry bytes)
      (h : IsMisnamed bytes fault) :
    HasMisnamed bytes fault
  | later {bytes : Bytes} {e : Entry} {fault : Utf8.Fault} (starts : StartsEntry bytes)
      (read : readEntry bytes = .ok e)
      (h : HasMisnamed (bytes.drop (entryLength bytes)) fault) :
    HasMisnamed bytes fault

/-- Reading an entry of which the name can be read goes wrong only in ways that are
told. -/
theorem readEntry_cases (bytes : Bytes) :
    (∃ fault, IsMisnamed bytes fault ∧ readEntry bytes = .error (.nameEncoding fault)) ∨
      ((∀ fault, ¬ IsMisnamed bytes fault) ∧ IsTold (readEntry bytes)) := by
  rw [readEntry]
  cases hname :
    readName (field 8 2 bytes) (Bytes.slice entrySize (field 28 2 bytes) bytes) with
  | error fault =>
    obtain ⟨misspelling, hmisspelt, rfl⟩ := readName_eq_error_iff.mp hname
    exact .inl ⟨misspelling, hmisspelt, rfl⟩
  | ok listedName =>
    refine .inr ⟨fun fault hmisnamed => ?_, ?_⟩
    · cases hname.symm.trans (readName_eq_error_iff.mpr ⟨fault, hmisnamed, rfl⟩)
    · refine IsTold.bind (x := .ok listedName) trivial fun name => ?_
      dsimp only
      split
      · trivial
      · exact isTold_readExtra _ _

theorem HasMisnamed.starts {bytes : Bytes} {misspelling : Utf8.Fault}
    (h : HasMisnamed bytes misspelling) : StartsEntry bytes := by
  cases h with
  | here starts h => exact starts
  | later starts read h => exact starts

/-- An entry in front of what is read changes no fault. -/
theorem cons_eq_error_iff {e : Entry} {result : Except Fault (List Entry)}
    {fault : Fault} : (do .ok (e :: (← result))) = .error fault ↔
      result = .error fault := by
  cases result with
  | ok more => exact iff_of_false nofun nofun
  | error found => exact Iff.rfl

theorem readEntries_untold_iff {bytes : Bytes} {fault : Fault} :
    (readEntries bytes = .error fault ∧ ¬ fault.IsTold) ↔
      ∃ misspelling, HasMisnamed bytes misspelling ∧
      fault = .nameEncoding misspelling := by
  -- The induction is on the entries that are read.
  induction bytes using readEntries.induct generalizing fault with
  | case1 =>
    rw [readEntries, if_pos rfl]
    refine iff_of_false nofun ?_
    rintro ⟨misspelling, hmisnamed, -⟩
    exact absurd hmisnamed.starts.whole (by decide)
  | case2 bytes hne hshort =>
    have htold : IsTold (readEntries bytes) := by
      rw [readEntries, if_neg hne, if_pos hshort]
      rfl
    refine iff_of_false (htold.not_untold fault) ?_
    rintro ⟨misspelling, hmisnamed, -⟩
    exact absurd hmisnamed.starts.whole (Nat.not_le_of_lt hshort)
  | case3 bytes hne hlong hmagic =>
    have htold : IsTold (readEntries bytes) := by
      rw [readEntries, if_neg hne, if_neg hlong, if_pos hmagic]
      rfl
    refine iff_of_false (htold.not_untold fault) ?_
    rintro ⟨misspelling, hmisnamed, -⟩
    simp [hmisnamed.starts.magic] at hmagic
  | case4 bytes hne hlong hmagic ih =>
    have hstarts : StartsEntry bytes :=
      ⟨Nat.le_of_not_lt hlong, by simpa using hmagic⟩
    rw [readEntries, if_neg hne, if_neg hlong, if_neg hmagic]
    rcases readEntry_cases bytes with ⟨misspelling, hhere, hread⟩ | ⟨hnamed, htold⟩
    · rw [hread]
      constructor
      · rintro ⟨h, -⟩
        cases h
        exact ⟨misspelling, .here hstarts hhere, rfl⟩
      · rintro ⟨other, hmisnamed, rfl⟩
        cases hmisnamed with
        | here starts h =>
          exact ⟨by rw [Except.error.inj (hhere.2.symm.trans h.2)]; rfl, nofun⟩
        | later starts read h => cases hread.symm.trans read
    · cases hread : readEntry bytes with
      | error found =>
        rw [hread] at htold
        refine iff_of_false ?_ ?_
        · rintro ⟨h, huntold⟩
          cases h
          exact huntold htold
        · rintro ⟨misspelling, hmisnamed, -⟩
          cases hmisnamed with
          | here starts h => exact hnamed _ h
          | later starts read h => cases hread.symm.trans read
      | ok e =>
        -- The name of this entry is read, so a name that is not stands after it.
        refine ((and_congr_left fun _ => cons_eq_error_iff).trans ih).trans
          (exists_congr fun misspelling => and_congr_left fun _ => ?_)
        constructor
        · exact .later hstarts hread
        · intro hmisnamed
          cases hmisnamed with
          | here starts h => exact absurd h (hnamed _)
          | later starts read h => exact h

/-- The directory of an archive can be found and has an entry whose name is no text. -/
inductive MisnamedDirectory (archive : Bytes) (fault : Utf8.Fault) : Prop
  | intro {record : EndRecord} (found : endRecord archive = .ok record)
      (start : 0 ≤ record.directoryStart)
      (h : HasMisnamed
        (Bytes.slice record.directoryStart.toNat record.directorySize archive) fault) :
    MisnamedDirectory archive fault

/-- Where the directory of an archive is found is said by its end record. -/
theorem misnamedDirectory_iff {archive : Bytes} {record : EndRecord}
    (hrecord : endRecord archive = .ok record) {fault : Utf8.Fault} :
    MisnamedDirectory archive fault ↔
      0 ≤ record.directoryStart ∧
        HasMisnamed (Bytes.slice record.directoryStart.toNat record.directorySize
          archive) fault := by
  constructor
  · rintro ⟨hfound, hstart, h⟩
    cases hrecord.symm.trans hfound
    exact ⟨hstart, h⟩
  · rintro ⟨hstart, h⟩
    exact .intro hrecord hstart h

theorem isTold_endRecord (archive : Bytes) : IsTold (endRecord archive) := by
  rw [endRecord]
  split
  · trivial
  · dsimp only
    split
    · trivial
    · split
      · trivial
      · split <;> trivial

theorem entries_untold_iff {archive : Bytes} {fault : Fault} :
    (entries archive = .error fault ∧ ¬ fault.IsTold) ↔
      ∃ misspelling, MisnamedDirectory archive misspelling ∧
      fault = .nameEncoding misspelling := by
  rw [entries]
  cases hrecord : endRecord archive with
  | error found =>
    have htold := isTold_endRecord archive
    rw [hrecord] at htold
    refine iff_of_false ?_ ?_
    · rintro ⟨h, huntold⟩
      cases h
      exact huntold htold
    · rintro ⟨misspelling, ⟨hfound, -, -⟩, -⟩
      cases hrecord.symm.trans hfound
  | ok record =>
    simp only [misnamedDirectory_iff hrecord]
    by_cases hstart : record.directoryStart < 0
    · refine iff_of_false ?_ ?_
      · rintro ⟨h, huntold⟩
        simp only [bind, Except.bind, if_pos hstart, Except.error.injEq] at h
        subst h
        exact huntold rfl
      · rintro ⟨misspelling, ⟨hnonneg, -⟩, -⟩
        exact absurd hstart (Int.not_lt.mpr hnonneg)
    · have hlist := @readEntries_untold_iff
        (Bytes.slice record.directoryStart.toNat record.directorySize archive) fault
      simp only [bind, Except.bind, if_neg hstart, Int.not_lt.mp hstart, true_and]
      rw [← hlist]
      cases readEntries
        (Bytes.slice record.directoryStart.toNat record.directorySize archive) with
      | ok listed => exact iff_of_false nofun nofun
      | error found => exact Iff.rfl

/-! ## Members -/

namespace Entry

/-- The octets from the header of a member on. -/
def header (archive : Bytes) (e : Entry) : Bytes := archive.drop e.offset.toNat

/-- The name in the header of a member. -/
def headerName (archive : Bytes) (e : Entry) : Bytes :=
  Bytes.slice headerSize (field 26 2 (e.header archive)) (e.header archive)

/-- Where the data of a member start. -/
def dataPlace (archive : Bytes) (e : Entry) : Nat :=
  min archive.length
    (e.offset.toNat + headerSize + field 26 2 (e.header archive) +
      field 28 2 (e.header archive))

/-- A member has a header where its entry says, and needs nothing that is not
supported. -/
structure HasHeader (archive : Bytes) (e : Entry) : Prop where
  reachable : isReachable e.offset = true
  inside : 0 ≤ e.offset
  whole : headerSize ≤ (e.header archive).length
  magic : headerMagic.isPrefixOf (e.header archive) = true
  unpatched : e.hasFlag 5 = false
  weak : e.hasFlag 6 = false

/-- A member cannot be opened, and no caller is told of that. -/
inductive IsShut (archive : Bytes) (e : Entry) : Fault → Prop
  | beyondReach (far : isReachable e.offset = false) : IsShut archive e .beyondReach
  | beforeStart (near : isReachable e.offset = true) (h : e.offset < 0) :
    IsShut archive e (.beforeStart e.offset)
  | nameEncoding {fault : Utf8.Fault} (header : e.HasHeader archive)
      (h : IsMisspelt (field 6 2 (e.header archive)) (e.headerName archive) fault) :
    IsShut archive e (.nameEncoding fault)
  | encrypted (header : e.HasHeader archive)
      (name : readName (field 6 2 (e.header archive)) (e.headerName archive) =
        .ok e.listedName)
      (room : e.dataPlace archive + e.packedSize ≤ e.limit) (h : e.hasFlag 0 = true) :
    IsShut archive e (.encrypted e)

variable {archive : Bytes} {e : Entry} {fault : Fault}

/-- Once the header is there, the name in it is held against the one in the directory,
and then the room for the data and the password are looked at. -/
theorem dataStart_of_hasHeader (h : e.HasHeader archive) :
    e.dataStart archive = (do
      let name ← readName (field 6 2 (e.header archive)) (e.headerName archive)
      if name != e.listedName
        then .error (.corrupt (.names e.listedName (e.headerName archive)))
      else if e.limit < e.dataPlace archive + e.packedSize
        then .error (.corrupt (.overlap e.listedName))
      else if e.hasFlag 0 then .error (.encrypted e)
      else if !e.isReadable then .error (.unsupported .method)
      else .ok (e.dataPlace archive)) := by
  rw [dataStart, if_neg (by simp [h.reachable]), if_neg (Int.not_lt.mpr h.inside)]
  dsimp only
  rw [← header, if_neg (Nat.not_lt.mpr h.whole), if_neg (by simp [h.magic]),
    if_neg (by simp [h.unpatched]), if_neg (by simp [h.weak])]
  rfl

/-- What keeps a header from being there is told. -/
theorem isTold_dataStart (hnear : isReachable e.offset = true) (hinside : 0 ≤ e.offset)
    (h : ¬ e.HasHeader archive) : IsTold (e.dataStart archive) := by
  rw [dataStart, if_neg (by simp [hnear]), if_neg (Int.not_lt.mpr hinside)]
  dsimp only
  rw [← header]
  by_cases hwhole : (e.header archive).length < headerSize
  · rw [if_pos hwhole]
    trivial
  by_cases hmagic : headerMagic.isPrefixOf (e.header archive) = true
  · rw [if_neg hwhole, if_neg (by simp [hmagic])]
    cases hpatched : e.hasFlag 5 with
    | true => trivial
    | false =>
      cases hstrong : e.hasFlag 6 with
      | true => trivial
      | false =>
        exact absurd ⟨hnear, hinside, Nat.not_lt.mp hwhole, hmagic, hpatched, hstrong⟩ h
  · rw [if_neg hwhole, if_pos (by simp [eq_false_of_ne_true hmagic])]
    trivial

theorem IsShut.dataStart (h : e.IsShut archive fault) :
    e.dataStart archive = .error fault := by
  cases h with
  | beyondReach far => rw [Entry.dataStart, if_pos (by simp [far])]
  | beforeStart near h => rw [Entry.dataStart, if_neg (by simp [near]), if_pos h]
  | nameEncoding header h =>
    rw [dataStart_of_hasHeader header, readName_eq_error_iff.mpr ⟨_, h, rfl⟩]
    rfl
  | encrypted header name room h =>
    rw [dataStart_of_hasHeader header, name]
    simp [bind, Except.bind, Int.not_lt.mpr room, h]

theorem IsShut.not_isTold (h : e.IsShut archive fault) : ¬ fault.IsTold := by
  cases h <;> exact nofun

/-- With its header there, a member stays shut only for its name or its password. -/
theorem isShut_of_hasHeader (hheader : e.HasHeader archive)
    (h : e.dataStart archive = .error fault) (huntold : ¬ fault.IsTold) :
    e.IsShut archive fault := by
  rw [dataStart_of_hasHeader hheader] at h
  cases hname : readName (field 6 2 (e.header archive)) (e.headerName archive) with
  | error found =>
    obtain ⟨misspelling, hmisspelt, rfl⟩ := readName_eq_error_iff.mp hname
    rw [hname] at h
    cases h
    exact .nameEncoding hheader hmisspelt
  | ok name =>
    simp only [hname, bind, Except.bind] at h
    -- The two names differ, there is no room, a password is needed, or the method is
    -- not supported: callers are told of all but the password.
    split at h
    · cases h
      exact absurd rfl huntold
    rename_i hsame
    split at h
    · cases h
      exact absurd rfl huntold
    rename_i hroom
    split at h
    · rename_i hlocked
      cases h
      obtain rfl : name = e.listedName := by simpa using hsame
      exact .encrypted hheader hname (Int.not_lt.mp hroom) hlocked
    · split at h
      · cases h
        exact absurd rfl huntold
      · cases h

theorem dataStart_untold_iff :
    (e.dataStart archive = .error fault ∧ ¬ fault.IsTold) ↔ e.IsShut archive fault := by
  refine ⟨fun ⟨h, huntold⟩ => ?_, fun h => ⟨h.dataStart, h.not_isTold⟩⟩
  cases hnear : isReachable e.offset with
  | false =>
    cases h.symm.trans (IsShut.beyondReach hnear).dataStart
    exact .beyondReach hnear
  | true =>
    by_cases hinside : 0 ≤ e.offset
    · by_cases hheader : e.HasHeader archive
      · exact isShut_of_hasHeader hheader h huntold
      · have htold := isTold_dataStart hnear hinside hheader
        rw [h] at htold
        exact absurd htold huntold
    · cases h.symm.trans (IsShut.beforeStart hnear (Int.not_le.mp hinside)).dataStart
      exact .beforeStart hnear (Int.not_le.mp hinside)

end Entry

/-! ## Contents -/

/-- Callers are told what is wrong with the content of a member, if anything is. -/
def Content.IsSound (content : Content) : Prop :=
  ∀ fault, content.fault = some fault → fault.IsTold

theorem Entry.isSound_failing {fault : Fault} (h : fault.IsTold) (octets : Bytes)
    (position : Nat) :
    (Entry.failing octets position fault).IsSound := by
  rintro found ⟨⟩
  exact h

theorem Entry.isSound_verified (e : Entry) (octets : Bytes) (position : Nat) :
    (e.verified octets position).IsSound := by
  rw [verified]
  split
  · exact nofun
  · exact isSound_failing (Fault.isTold_corrupt _) _ _

theorem Entry.isSound_storedContent (e : Entry)
    (data : Bytes) : (e.storedContent data).IsSound := by
  rw [storedContent]
  split
  · exact isSound_failing (Fault.isTold_corrupt _) _ _
  · exact e.isSound_verified _ _

theorem Inflation.isSound_content (e : Entry) (fuel : Nat) (i : Inflation) :
    (Inflation.content e fuel i).IsSound := by
  -- The induction is on the portions that may still be inflated.
  induction fuel generalizing i with
  | zero => exact Entry.isSound_failing (Fault.isTold_corrupt _) _ _
  | succ fuel ih =>
    rw [Inflation.content]
    split
    · exact Entry.isSound_failing (Fault.isTold_corrupt _) _ _
    · split
      · exact Entry.isSound_failing (Fault.isTold_corrupt _) _ _
      · exact e.isSound_verified _ _
      · split
        · exact e.isSound_verified _ _
        · split
          · exact e.isSound_verified _ _
          · exact ih _

/-- What is wrong with a content that a library unpacks is told, or the library has
refused its data. -/
theorem Unpacking.fault_of_content {codec : Codec}
    {refused : Text → Fault} {e : Entry} {u : Unpacking} {fault : Fault}
    (h : (Unpacking.content codec refused e u).fault = some fault) :
    fault.IsTold ∨ ∃ given problem, codec given = .error problem ∧
      fault = refused problem := by
  rw [Unpacking.content] at h
  dsimp only at h
  split at h
  · exact .inl (Entry.isSound_failing (Fault.isTold_corrupt _) _ _ _ h)
  · split at h
    · rename_i problem hrefused
      cases h
      exact .inr ⟨_, problem, hrefused, rfl⟩
    · split at h
      · exact .inl (e.isSound_verified _ _ _ h)
      · exact Unpacking.fault_of_content h
termination_by u.owed
decreasing_by exact u.owed_lt ‹_› ‹_›

theorem Entry.content_untold_iff {platform : Platform} {archive : Bytes} {e : Entry}
    {fault : Fault} :
    (e.content platform archive = .error fault ∧ ¬ fault.IsTold) ↔
      e.IsShut archive fault := by
  rw [← dataStart_untold_iff, content]
  cases e.dataStart archive with
  | ok start => exact iff_of_false nofun nofun
  | error found => simp only [bind, Except.bind, Except.error.injEq]

/-- What is wrong with a content is told, unless it is that the library for LZMA has
refused the data. -/
theorem Entry.fault_of_content {platform : Platform} {archive : Bytes} {e : Entry}
    {found : Content} {fault : Fault} (h : e.content platform archive = .ok found)
    (hfault : found.fault = some fault) :
    fault.IsTold ∨ e.method = 14 ∧
      ∃ given problem, platform.lzma given = .error problem ∧ fault = .lzma problem := by
  obtain ⟨start, -, hfound⟩ := bind_eq_ok.mp h
  cases hfound
  split at hfault
  · exact .inl (e.isSound_storedContent _ _ hfault)
  · rcases Unpacking.fault_of_content hfault with htold | ⟨given, problem, -, rfl⟩
    · exact .inl htold
    · exact .inl rfl
  · exact (Unpacking.fault_of_content hfault).imp_right fun hrefused => ⟨‹_›, hrefused⟩
  · exact .inl (Inflation.isSound_content e _ _ _ hfault)

/-! ## Actions -/

/-- A member stops an extraction at which it is next, and no caller is told of that: it
has no name and that is refused, or it is a file that cannot be opened, or the library
for LZMA refuses its data once what comes before could be written. -/
inductive Entry.Untold (platform : Platform) (root : Path) (archive : Bytes)
    (disk : Disk) (e : Entry) :
    Fault → Prop
  | nameless (h : (platform.refusesNameless && e.name == []) = true) :
    Untold platform root archive disk e .nameless
  | shut {fault : Fault} (name : (platform.refusesNameless && e.name == []) = false)
      (file : e.isDirectory = false) (h : e.IsShut archive fault) :
    Untold platform root archive disk e fault
  | lzma {content : Content} {later : Disk} {given : List Bytes} {problem : Text}
      (name : (platform.refusesNameless && e.name == []) = false)
      (file : e.isDirectory = false)
      (method : e.method = 14) (opened : e.content platform archive = .ok content)
      (written : (Action.write e.place content.octets).run root disk = .ok later)
      (refuses : platform.lzma given = .error problem)
        (h : content.fault = some (.lzma problem)) :
    Untold platform root archive disk e (.lzma problem)

section Runs

variable {platform : Platform} {root : Path} {disk : Disk} {archive : Bytes}
    {fault : Fault}

theorem runActions_append (root : Path) (first second : List Action) (disk : Disk) :
    runActions root (first ++ second) disk =
      match runActions root first disk with
      | (later, .ok ()) => runActions root second later
      | (later, .error fault) => (later, .error fault) := by
  induction first generalizing disk with
  | nil => rfl
  | cons action rest ih =>
    rw [List.cons_append, runActions, runActions]
    cases action.run root disk with
    | error fault => rfl
    | ok next => exact ih next

theorem isTold_mapError {α : Type} (result : Except SystemFault α) :
    IsTold (result.mapError .unwritable) := by
  cases result <;> trivial

theorem isTold_ensureDirectory (disk : Disk)
    (path : Path) : IsTold (ensureDirectory disk path) := by
  rw [ensureDirectory_eq]
  split
  · trivial
  · exact isTold_mapError _

theorem isTold_makeDirectory (root : Path) (disk : Disk) (place : List Text) :
    IsTold ((Action.makeDirectory place).run root disk) := by
  rw [Action.run]
  split
  · trivial
  · exact isTold_mapError _

theorem isTold_runActions {list : List Action}
    (h : ∀ action ∈ list, ∀ disk, IsTold (action.run root disk)) :
    IsTold (runActions root list disk).2 := by
  induction list generalizing disk with
  | nil => trivial
  | cons action rest ih =>
    rw [List.forall_mem_cons] at h
    have htold := h.1 disk
    rw [runActions]
    cases hrun : action.run root disk with
    | error found =>
      rw [hrun] at htold
      exact htold
    | ok next => exact ih h.2

theorem missing_nil (root : Path) (disk : Disk) : missing root disk [] = 0 := rfl

/-- Making sure of what is above a place goes wrong in ways that are told, unless too
much is missing. -/
theorem aboveActions_untold_iff {levels : Nat} {place : List Text} :
    ((runActions root (aboveActions levels place) disk).2 = .error fault ∧
      ¬ fault.IsTold) ↔
      fault = .tooDeep ∧ levels < missing root disk place := by
  cases place with
  | nil =>
    rw [missing_nil]
    refine iff_of_false ?_ fun h => absurd h.2 (Nat.not_lt_zero _)
    rintro ⟨h, -⟩
    cases h
  | cons name rest =>
    rw [aboveActions, beginnings_cons]
    dsimp only
    rw [runActions, Action.run]
    by_cases hdeep : levels < missing root disk (name :: rest)
    · rw [if_pos hdeep, and_iff_left hdeep]
      constructor
      · rintro ⟨h, -⟩
        exact (Except.error.inj h).symm
      · rintro rfl
        exact ⟨rfl, fun htold => by cases htold⟩
    · rw [if_neg hdeep]
      refine iff_of_false (IsTold.not_untold ?_ fault) fun h => hdeep h.2
      have hroot := isTold_ensureDirectory disk root
      cases hensure : ensureDirectory disk root with
      | error found =>
        rw [hensure] at hroot
        exact hroot
      | ok next =>
        refine isTold_runActions fun action ha disk => ?_
        obtain ⟨above, -, rfl⟩ := List.mem_map.mp ha
        exact isTold_ensureDirectory disk _

/-- The actions of a file that can be opened write its octets, and then come to what is
wrong with it. -/
theorem fileActions_error_iff {e : Entry} {content : Content}
    (hcontent : e.content platform archive = .ok content) :
    ((runActions root (fileActions platform archive e) disk).2 = .error fault ∧
      ¬ fault.IsTold) ↔
      (∃ later, (Action.write e.place content.octets).run root disk = .ok later) ∧
        content.fault = some fault ∧ ¬ fault.IsTold := by
  rw [fileActions, hcontent]
  dsimp only
  rw [runActions]
  cases hwrite : (Action.write e.place content.octets).run root disk with
  | error found =>
    have htold : IsTold ((Action.write e.place content.octets).run root disk) :=
      isTold_mapError _
    rw [hwrite] at htold
    refine iff_of_false ?_ ?_
    · rintro ⟨h, huntold⟩
      cases h
      exact huntold htold
    · rintro ⟨⟨later, h⟩, -⟩
      cases h
  | ok later =>
    have hwritten : ∃ next, (.ok later : Except Fault Disk) = .ok next := ⟨later, rfl⟩
    refine Iff.trans (and_congr_left fun _ => ?_) (and_iff_right hwritten).symm
    cases content.fault with
    | none => exact iff_of_false (fun h => by cases h) fun h => by cases h
    | some found =>
      rw [Option.some.injEq]
      exact ⟨Except.error.inj, congrArg Except.error⟩

/-- Of the members with a name only a file stops an extraction untold. -/
theorem Entry.Untold.isFile {e : Entry} (h : e.Untold platform root archive disk fault)
    (hname : (platform.refusesNameless && e.name == []) = false) :
    e.isDirectory = false := by
  cases h with
  | nameless h => cases hname.symm.trans h
  | shut name file h => exact file
  | lzma name file method opened written refuses h => exact file

/-- A file stops an extraction untold if it cannot be opened, or if its octets can be
written and what is wrong with them is not told. -/
theorem fileActions_untold_iff {e : Entry}
    (hname : (platform.refusesNameless && e.name == []) = false)
    (hfile : e.isDirectory = false) :
    ((runActions root (fileActions platform archive e) disk).2 = .error fault ∧
      ¬ fault.IsTold) ↔
      e.Untold platform root archive disk fault := by
  cases hcontent : e.content platform archive with
  | error found =>
    rw [fileActions, hcontent]
    have hshut := @Entry.content_untold_iff platform archive e fault
    rw [hcontent, Except.error.injEq] at hshut
    simp only [runActions, Action.run, Except.error.injEq]
    rw [hshut]
    refine ⟨.shut hname hfile, fun h => ?_⟩
    cases h with
    | nameless h => cases hname.symm.trans h
    | shut name file h => exact h
    | lzma name file method opened written refuses h => cases hcontent.symm.trans opened
  | ok content =>
    rw [fileActions_error_iff hcontent]
    constructor
    · rintro ⟨⟨later, hwrite⟩, hfault, huntold⟩
      obtain ⟨hmethod, given, problem, hrefuses, rfl⟩ :=
        (Entry.fault_of_content hcontent hfault).resolve_left huntold
      exact .lzma hname hfile hmethod hcontent hwrite hrefuses hfault
    · intro h
      cases h with
      | nameless h => cases hname.symm.trans h
      | shut name file h => cases hcontent.symm.trans (Entry.content_untold_iff.mpr h).1
      | lzma name file method opened written refuses h =>
        cases hcontent.symm.trans opened
        exact ⟨⟨_, written⟩, h, fun htold => by cases htold⟩

theorem ownActions_untold_iff {e : Entry} :
    ((runActions root (ownActions platform archive e) disk).2 = .error fault ∧
      ¬ fault.IsTold) ↔
      e.Untold platform root archive disk fault := by
  cases hname : platform.refusesNameless && e.name == [] with
  | true =>
    rw [ownActions, if_pos hname]
    constructor
    · rintro ⟨h, -⟩
      cases h
      exact .nameless hname
    · intro h
      cases h with
      | nameless h => exact ⟨rfl, fun htold => by cases htold⟩
      | shut name file h => cases hname.symm.trans name
      | lzma name file method opened written refuses h => cases hname.symm.trans name
  | false =>
    rw [ownActions, hname, if_neg Bool.false_ne_true]
    cases hdirectory : e.isDirectory with
    | true =>
      have htold : IsTold (runActions root [.makeDirectory e.place] disk).2 :=
        isTold_runActions (by simp [isTold_makeDirectory])
      rw [if_pos rfl]
      exact iff_of_false (htold.not_untold fault) fun h => by
        cases hdirectory.symm.trans (h.isFile hname)
    | false =>
      rw [if_neg Bool.false_ne_true]
      exact fileActions_untold_iff hname hdirectory

/-- A member stops an extraction, and no caller is told, when too much above it is
missing, or when all of that can be put and the member itself stops it. -/
theorem memberActions_untold_iff {e : Entry} :
    ((runActions root (memberActions platform archive e) disk).2 = .error fault ∧
      ¬ fault.IsTold) ↔
      (fault = .tooDeep ∧ platform.making < missing root disk e.place) ∨
        ∃ later, runActions root (aboveActions platform.making e.place) disk =
          (later, .ok ()) ∧
          e.Untold platform root archive later fault := by
  have habove := @aboveActions_untold_iff root disk fault platform.making e.place
  rw [memberActions, runActions_append, ← habove]
  cases hrun : runActions root (aboveActions platform.making e.place) disk with
  | mk later outcome =>
    cases outcome with
    | ok done =>
      simp only [ownActions_untold_iff]
      constructor
      · exact fun h => .inr ⟨later, rfl, h⟩
      · rintro (⟨h, -⟩ | ⟨_, h, huntold⟩)
        · cases h
        · cases h
          exact huntold
    | error found =>
      constructor
      · exact .inl
      · rintro (h | ⟨_, h, -⟩)
        · exact h
        · cases h

/-- Actions that are put together entry by entry fail at the first entry at which they
do. -/
theorem runActions_flatMap_error_iff {f : Entry → List Action} {list : List Entry} :
    (runActions root (list.flatMap f) disk).2 = .error fault ↔
      ∃ before e after later, list = before ++ e :: after ∧
        runActions root (before.flatMap f) disk = (later, .ok ()) ∧
        (runActions root (f e) later).2 = .error fault := by
  induction list generalizing disk with
  | nil => simp [runActions]
  | cons first rest ih =>
    rw [List.flatMap_cons, runActions_append]
    cases hfirst : runActions root (f first) disk with
    | mk next outcome =>
      cases outcome with
      | error found =>
        constructor
        · intro h
          exact ⟨[], first, rest, disk, rfl, rfl, by rw [hfirst]; exact h⟩
        · rintro ⟨before, e, after, later, hsplit, hrun, h⟩
          cases before with
          | nil =>
            cases hsplit
            cases hrun
            rw [hfirst] at h
            exact h
          | cons one more =>
            cases hsplit
            rw [List.flatMap_cons, runActions_append, hfirst] at hrun
            cases hrun
      | ok done =>
        refine ih.trans ⟨?_, ?_⟩
        -- The first entry is one of those before the entry at which they fail.
        · rintro ⟨before, e, after, later, rfl, hrun, h⟩
          refine ⟨first :: before, e, after, later, rfl, ?_, h⟩
          rw [List.flatMap_cons, runActions_append, hfirst]
          exact hrun
        · rintro ⟨before, e, after, later, hsplit, hrun, h⟩
          cases before with
          | nil =>
            cases hsplit
            cases hrun
            rw [hfirst] at h
            cases h
          | cons one more =>
            cases hsplit
            rw [List.flatMap_cons, runActions_append, hfirst] at hrun
            exact ⟨more, e, after, later, rfl, hrun, h⟩

end Runs

/-! ## The extraction -/

/-- An extraction stops with a fault that no caller is told of: the directory has a name
that is no text, or the members up to some member can all be put and there is too much
missing above that, or all of it can be put, too, and the member itself stops the
extraction. -/
inductive Stops (platform : Platform) (root : Path) (archive : Bytes)
    (disk : Disk) : Fault → Prop
  | directory {fault : Utf8.Fault} (h : MisnamedDirectory archive fault) :
    Stops platform root archive disk (.nameEncoding fault)
  | tooDeep {before after : List Entry} {e : Entry} {later : Disk}
      (read : entries archive = .ok (before ++ e :: after))
      (reached : runActions root
        (before.flatMap fun other =>
          memberActions platform archive (lastNamed (before ++ e :: after) other)) disk =
        (later, .ok ()))
      (h : platform.making < missing root later e.place) :
    Stops platform root archive disk .tooDeep
  | member {before after : List Entry} {e : Entry} {later : Disk} {fault : Fault}
      (read : entries archive = .ok (before ++ e :: after))
      (reached : runActions root
        ((before.flatMap fun other =>
          memberActions platform archive (lastNamed (before ++ e :: after) other)) ++
          aboveActions platform.making e.place) disk = (later, .ok ()))
      (h : (lastNamed (before ++ e :: after) e).Untold platform root archive
        later fault) :
    Stops platform root archive disk fault

section Extraction

variable {platform : Platform} {root : Path} {archive : Bytes} {disk : Disk}
    {fault : Fault}

theorem extract_snd (platform : Platform) (root : Path) (archive : Bytes) (disk : Disk) :
    (extract platform root archive disk).2 =
      (runActions root (planned platform archive) disk).2.map fun _ =>
        countFiles archive := rfl

theorem extract_eq_error_iff :
    (extract platform root archive disk).2 = .error fault ↔
      (runActions root (planned platform archive) disk).2 = .error fault := by
  rw [extract_snd]
  cases (runActions root (planned platform archive) disk).2 with
  | ok done => exact iff_of_false nofun nofun
  | error found => simp only [Except.map, Except.error.injEq]

/-- The directory stops an extraction only with a name that is no text. -/
theorem stops_of_entries {found : Fault} (hentries : entries archive = .error found)
    (h : (extract platform root archive disk).2 = .error fault)
    (huntold : ¬ fault.IsTold) :
    Stops platform root archive disk fault := by
  rw [extract_eq_error_iff, planned, hentries] at h
  cases h
  obtain ⟨misspelling, hmisnamed, rfl⟩ := entries_untold_iff.mp ⟨hentries, huntold⟩
  exact .directory hmisnamed

/-- With the directory read, an extraction fails at the first member that cannot be
put. -/
theorem extract_error_iff {found : List Entry} (hentries : entries archive = .ok found) :
    (extract platform root archive disk).2 = .error fault ↔
      ∃ before e after later, found = before ++ e :: after ∧
        runActions root (before.flatMap fun other =>
          memberActions platform archive (lastNamed found other)) disk =
          (later, .ok ()) ∧
        (runActions root (memberActions platform archive (lastNamed found e)) later).2 =
          .error fault := by
  rw [extract_eq_error_iff, planned, hentries]
  exact runActions_flatMap_error_iff

theorem stops_of_untold (h : (extract platform root archive disk).2 = .error fault)
    (huntold : ¬ fault.IsTold) : Stops platform root archive disk fault := by
  cases hentries : entries archive with
  | error found => exact stops_of_entries hentries h huntold
  | ok found =>
    obtain ⟨before, e, after, middle, rfl, hrun, h⟩ := (extract_error_iff hentries).mp h
    -- The member that is put is the last of its name, and it goes to the same place.
    have hplace := Entry.place_congr (name_lastNamed (before ++ e :: after) e)
    rcases memberActions_untold_iff.mp ⟨h, huntold⟩ with ⟨rfl, hdeep⟩ |
      ⟨later, habove, hmember⟩
    · rw [hplace] at hdeep
      exact .tooDeep hentries hrun hdeep
    · rw [hplace] at habove
      refine .member hentries ?_ hmember
      rw [runActions_append, hrun]
      exact habove

theorem Stops.extract (h : Stops platform root archive disk fault) :
    (extract platform root archive disk).2 = .error fault ∧ ¬ fault.IsTold := by
  cases h with
  | directory h =>
    obtain ⟨hentries, huntold⟩ := entries_untold_iff.mpr ⟨_, h, rfl⟩
    rw [extract_eq_error_iff, planned, hentries]
    exact ⟨rfl, huntold⟩
  | @tooDeep before after e later read reached h =>
    rw [← Entry.place_congr (name_lastNamed (before ++ e :: after) e)] at h
    obtain ⟨hfault, huntold⟩ := memberActions_untold_iff.mpr (.inl ⟨rfl, h⟩)
    exact ⟨(extract_error_iff read).mpr ⟨before, e, after, later, rfl, reached, hfault⟩,
      huntold⟩
  | @member before after e last fault read reached h =>
    rw [runActions_append] at reached
    cases hrun : runActions root (before.flatMap fun other =>
        memberActions platform archive (lastNamed (before ++ e :: after) other)) disk with
    | mk later outcome =>
      rw [hrun] at reached
      cases outcome with
      | error failed => cases reached
      | ok done =>
        rw [← Entry.place_congr (name_lastNamed (before ++ e :: after) e)] at reached
        obtain ⟨hfault, huntold⟩ :=
          memberActions_untold_iff.mpr (.inr ⟨last, reached, h⟩)
        exact ⟨(extract_error_iff read).mpr ⟨before, e, after, later, rfl, hrun, hfault⟩,
          huntold⟩

theorem stops_iff :
    ((extract platform root archive disk).2 = .error fault ∧ ¬ fault.IsTold) ↔
      Stops platform root archive disk fault :=
  ⟨fun h => stops_of_untold h.1 h.2, Stops.extract⟩

end Extraction

/-- **What no caller is told of.** An extraction ends with the number of entries that
are no directories, just if all can be put, or with a fault that its caller is told of,
unless something stops it of which no caller is told. Then that is the fault. -/
theorem extract_untold_iff (platform : Platform) (root : Path) (archive : Bytes)
    (disk : Disk) :
    (∀ count, (extract platform root archive disk).2 = .ok count ↔
      ∃ found, entries archive = .ok found ∧
        (runActions root (actions platform archive found) disk).2 = .ok () ∧
        count = found.countP fun e => !e.isDirectory) ∧
    (IsTold (extract platform root archive disk).2 ↔
      ¬ ∃ fault, Stops platform root archive disk fault) ∧
    (∀ fault, ((extract platform root archive disk).2 = .error fault ∧ ¬ fault.IsTold) ↔
      Stops platform root archive disk fault) := by
  refine ⟨fun count => ?_, ?_, fun fault => stops_iff⟩
  · rw [extract_snd, planned, countFiles]
    cases hentries : entries archive with
    | error found =>
      refine iff_of_false (fun h => by cases h) ?_
      rintro ⟨_, h, -⟩
      cases h
    | ok found =>
      cases hrun : (runActions root (actions platform archive found) disk).2 with
      | ok done => simp [hrun, Except.map, fileCount, eq_comm]
      | error fault => simp [hrun, Except.map]
  · rw [isTold_iff, not_exists]
    exact forall_congr' fun fault => not_congr stops_iff

/-- What the directory of an archive with one file says of it, which is that it needs a
password. -/
def lockedEntry : Entry where
  listedName := "a.js"
  flags := 2 ^ 11 + 1
  method := 0
  checksum := checksumOf [0x78]
  packedSize := 1
  size := 1
  attributes := 0
  offset := 0
  limit := 35

/-- The archive; the flags of the file are in its header and in its entry. -/
def locked : Bytes := ((stored [("a.js", [0x78])]).set 6 1).set 43 1

set_option maxRecDepth 10000 in
theorem planned_locked :
    planned .plain locked =
      [.enter Platform.plain.making ["a.js"], .stop (.encrypted lockedEntry)] := by
  cbv

/-- Nothing is wrong with its form, and yet its extraction fails, and nobody is told
why. -/
theorem not_isTold_locked :
    (extract .plain (.ofNames ["work"]) locked ⟨[(["work"], .directory)]⟩).2 =
        .error (.encrypted lockedEntry) ∧
      ¬ IsTold
        (extract .plain (.ofNames ["work"]) locked ⟨[(["work"], .directory)]⟩).2 := by
  have hextract :
      (extract .plain (.ofNames ["work"]) locked ⟨[(["work"], .directory)]⟩).2 =
      .error (.encrypted lockedEntry) := by
    rw [extract_eq_error_iff, planned_locked]
    decide
  rw [hextract]
  exact ⟨rfl, nofun⟩

end ExtensionAudit.Archive
