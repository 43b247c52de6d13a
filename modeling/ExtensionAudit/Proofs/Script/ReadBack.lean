import ExtensionAudit.Proofs.Archive.Stored
import ExtensionAudit.Proofs.Script.Search
import Mathlib

/-!
# Script — reading back what was extracted

The scripts that are read back from a directory into which an archive was extracted are
the archive's own: every script among its entries is there once, with the content of the
last entry for its path. But no script comes back when there are too many directories on
the way to any entry.
-/

namespace ExtensionAudit.Script

open Archive (Entry lastAt octets?)
open Disk (IsPlain)

/-! ## Reading -/

theorem pathText_injOn {first second : List Text} (hf : first ≠ []) (hs : second ≠ [])
    (hfirst : ∀ part ∈ first, IsPlain part) (hsecond : ∀ part ∈ second, IsPlain part)
    (h : pathText first = pathText second) : first = second := by
  rw [← Text.split_join hf fun part hp => (hfirst part hp).not_slash,
    ← Text.split_join hs fun part hp => (hsecond part hp).not_slash]
  exact congrArg _ h

/-- Files that can all be read are read one by one. -/
theorem readAll_ok {disk : Disk} {directory : Path} {names : List (List Text)}
    {R : List Text → Bytes → Prop} (h : ∀ file ∈ names, ∃ octets,
      disk.read (directory.descend file) = .ok octets ∧ R file octets) :
    ∃ files, readAll disk directory names = .ok files ∧
      List.Forall₂ (fun file entry => ∃ octets, R file octets ∧
        entry = (pathText file, textOf octets))
        names files := by
  induction names with
  | nil => exact ⟨[], rfl, .nil⟩
  | cons file rest ih =>
    rw [List.forall_mem_cons] at h
    obtain ⟨octets, hread, hr⟩ := h.1
    obtain ⟨files, hfiles, hall⟩ := ih h.2
    refine ⟨(pathText file, textOf octets) :: files, ?_, .cons ⟨octets, hr, rfl⟩ hall⟩
    simp [readAll, read, hread, hfiles, Bind.bind, Except.bind]

/-! ## The scripts of an archive -/

/-- The scripts that are read back are those of an archive with these entries: the names
listed, in order and each but once, are those of the entries that are scripts, and each
stands for the text of the last entry for it. No name leads out of the directory. -/
structure IsReadBack (platform : Platform) (archive : Bytes) (entries : List Entry)
    (names : List (List Text)) (files : Entries Text) : Prop where
  complete : ∀ file, file ∈ names ↔
    isNamed ending file = true ∧ ∃ e ∈ entries, e.isDirectory = false ∧ e.place = file
  texts : List.Forall₂ (fun file entry => ∃ e octets, lastAt file entries = some e ∧
    octets? platform archive e = some octets ∧
    entry = (pathText file, textOf octets)) names files
  ordered : names.Pairwise fun a b => Path.namesBefore a b = true
  plain : ∀ file ∈ names, file ≠ [] ∧ ∀ part ∈ file, IsPlain part
  distinct : (files.map (·.1)).Nodup

/-- The keys of entries that go along with names are the paths of the names. -/
theorem keys_of_forall₂ {R : List Text → Bytes → Prop} {names : List (List Text)}
    {files : Entries Text} (h : List.Forall₂ (fun file entry =>
      ∃ octets, R file octets ∧ entry = (pathText file, textOf octets)) names files) :
    files.map (·.1) = names.map pathText := by
  induction h with
  | nil => rfl
  | cons hentry _ ih =>
    obtain ⟨octets, -, rfl⟩ := hentry
    rw [List.map_cons, List.map_cons, ih]

/-- Two entries for one path, and a directory that is called like a script. -/
def twiceNamed : Bytes :=
  Archive.stored [("a.js", [0x31]), ("b.js/", []), ("//a.js", [0x32, 0xFF])]

/-- A disk with one directory. -/
def oneDirectory : Disk := ⟨[(["w"], .directory)]⟩

/-- The disk with what `twiceNamed` puts into the directory. -/
def twiceNamedDisk : Disk :=
  ⟨[(["w"], .directory), (["w", "a.js"],
    .file [0x32, 0xFF]), (["w", "b.js"], .directory)]⟩

set_option maxRecDepth 20000 in
theorem extract_twiceNamed :
    Archive.extract .plain (Path.ofNames ["w"]) twiceNamed oneDirectory =
      (twiceNamedDisk, .ok 2) := by
  cbv

theorem files_twiceNamedDisk :
    Script.files Platform.plain.listing ending twiceNamedDisk (Path.ofNames ["w"]) =
      .ok [("a.js", ['2', .replacement])] := by
  cbv

/-- A platform on which only one directory below another can be searched. -/
def shallow : Platform := { Platform.plain with listing := 1 }

/-- One script, two directories down. -/
def buried : Bytes := Archive.stored [("a/b/x.js", [0x31])]

/-- The disk with what `buried` puts into the directory. -/
def buriedDisk : Disk :=
  ⟨[(["w"], .directory), (["w", "a"], .directory), (["w", "a", "b"], .directory),
    (["w", "a", "b", "x.js"], .file [0x31])]⟩

end ExtensionAudit.Script
