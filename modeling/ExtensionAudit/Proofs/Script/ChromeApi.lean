import ExtensionAudit.Proofs.Entries
import ExtensionAudit.Proofs.Script.Scan
import ExtensionAudit.Script.ChromeApi
import Mathlib.Data.List.TakeWhile

/-!
# Script — the interfaces that a script names

The names of interfaces are the longest ones that can be read where a name begins, from
the left. Every script falls into such names and the gaps between them, in one way only,
and the names that are reported are those, each where it first came
(`chromeApis_takenApart`).
-/

namespace ExtensionAudit.Script

/-! ## Names -/

/-- One ASCII word character or more. -/
structure IsWord (word : Text) : Prop where
  ne_nil : word ≠ []
  isAsciiWord : ∀ c ∈ word, c.isAsciiWord = true

/-- The text begins with an ASCII word character. -/
def OpensWord (t : Text) : Prop := ∃ c ∈ t.head?, c.isAsciiWord = true

/-- The text begins with a point and an ASCII word character. -/
def OpensMember (t : Text) : Prop := ∃ rest : Text, t = "." ++ rest ∧ OpensWord rest

/-- The text begins with `chrome.` and an ASCII word character. -/
def OpensName (t : Text) : Prop := ∃ rest : Text, t = "chrome." ++ rest ∧ OpensWord rest

/-- The name of an interface that stands in front of a text and is as long as it can be
there. -/
inductive IsName : Text → Text → Prop
  | short {word rest : Text} (hword : IsWord word) (hend : ¬ OpensWord rest)
      (hmember : ¬ OpensMember rest) :
    IsName ("chrome." ++ word) rest
  | long {word member rest : Text} (hword : IsWord word) (hmember : IsWord member)
      (hend : ¬ OpensWord rest) :
    IsName ("chrome." ++ word ++ "." ++ member) rest

/-! ## Reading a name -/

theorem word?_eq_some_iff {t word : Text} :
    word? t = some word ↔ ∃ rest, t = word ++ rest ∧ IsWord word ∧ ¬ OpensWord rest := by
  have hnot : ∀ rest : Text, ¬ OpensWord rest ↔
      ∀ c ∈ rest.head?, c.isAsciiWord = false := by
    simp [OpensWord]
  constructor
  · intro h
    rw [word?] at h
    split at h
    · cases h
    · rename_i hne
      cases h
      exact ⟨t.dropWhile CodePoint.isAsciiWord, List.takeWhile_append_dropWhile.symm,
        ⟨hne, fun c hc => List.mem_takeWhile_imp hc⟩,
        (hnot _).mpr Text.eq_false_of_mem_head?_dropWhile⟩
  · rintro ⟨rest, rfl, hword, hend⟩
    rw [word?, (Text.span_run hword.isAsciiWord ((hnot _).mp hend)).1]
    cases word with
    | nil => exact absurd rfl hword.ne_nil
    | cons c more => rfl

theorem word?_eq_none_iff {t : Text} : word? t = none ↔ ¬ OpensWord t := by
  rw [word?]
  cases t with
  | nil => simp [OpensWord]
  | cons c rest => cases hc : c.isAsciiWord <;> simp [OpensWord, hc]

theorem OpensWord.append {word : Text} (h : IsWord word)
    (rest : Text) : OpensWord (word ++ rest) := by
  cases word with
  | nil => exact absurd rfl h.ne_nil
  | cons c more => exact ⟨c, rfl, h.isAsciiWord c (.head _)⟩

/-- A text that begins with a word character begins with a word. -/
theorem OpensWord.exists_word {t : Text} (h : OpensWord t) :
    ∃ word rest, t = word ++ rest ∧ IsWord word ∧ ¬ OpensWord rest := by
  cases hword : word? t with
  | none => exact absurd h (word?_eq_none_iff.mp hword)
  | some word => exact ⟨word, word?_eq_some_iff.mp hword⟩

/-- The second word of a name, with the point before it. -/
def member? (t : Text) : Option Text := (Text.dropStart? "." t).bind word?

theorem member?_eq_some_iff {t member : Text} :
    member? t = some member ↔ ∃ rest, t = "." ++ (member ++ rest) ∧ IsWord member ∧
    ¬ OpensWord rest := by
  rw [member?, Option.bind_eq_some_iff]
  constructor
  · rintro ⟨_, hpoint, hread⟩
    obtain ⟨rest, rfl, hword⟩ := word?_eq_some_iff.mp hread
    exact ⟨rest, Text.dropStart?_eq_some.mp hpoint, hword⟩
  · rintro ⟨rest, rfl, hword⟩
    exact ⟨_, Text.dropStart?_eq_some.mpr rfl, word?_eq_some_iff.mpr ⟨rest, rfl, hword⟩⟩

theorem member?_eq_none_iff {t : Text} : member? t = none ↔ ¬ OpensMember t := by
  rw [member?, Option.bind_eq_none_iff]
  constructor
  · rintro h ⟨rest, rfl, hopens⟩
    exact word?_eq_none_iff.mp (h rest (Text.dropStart?_eq_some.mpr rfl)) hopens
  · intro h rest hpoint
    exact word?_eq_none_iff.mpr fun hopens =>
      h ⟨rest, Text.dropStart?_eq_some.mp hpoint, hopens⟩

/-- A point is no word character. -/
theorem not_opensWord_point (rest : Text) : ¬ OpensWord ("." ++ rest) := by
  rintro ⟨c, hc, hword⟩
  obtain rfl := Option.some.inj hc
  cases hword

theorem apiName?_of_word {word rest : Text} (hword : IsWord word)
    (hend : ¬ OpensWord rest) :
    apiName? ("chrome." ++ (word ++ rest)) =
      match member? rest with
      | some member => some ("chrome." ++ word ++ "." ++ member)
      | none => some ("chrome." ++ word) := by
  have hroot : Text.dropStart? "chrome." ("chrome." ++ (word ++ rest)) =
      some (word ++ rest) :=
    Text.dropStart?_eq_some.mpr rfl
  have hfirst : word? (word ++ rest) = some word :=
    word?_eq_some_iff.mpr ⟨rest, rfl, hword, hend⟩
  rw [apiName?, hroot]
  simp only [Option.bind_eq_bind, Option.bind_some, hfirst, List.drop_left]
  rfl

theorem apiName?_eq_none_iff {t : Text} : apiName? t = none ↔ ¬ OpensName t := by
  constructor
  · rintro h ⟨rest, rfl, hopens⟩
    obtain ⟨word, rest, rfl, hword, hend⟩ := hopens.exists_word
    rw [apiName?_of_word hword hend] at h
    cases hmember : member? rest <;> rw [hmember] at h <;> cases h
  · intro h
    rw [apiName?]
    cases hroot : Text.dropStart? "chrome." t with
    | none => rfl
    | some rest =>
      have hnone : word? rest = none :=
        word?_eq_none_iff.mpr fun hopens =>
          h ⟨rest, Text.dropStart?_eq_some.mp hroot, hopens⟩
      simp [hnone]

theorem apiName?_eq_some_iff {t name : Text} :
    apiName? t = some name ↔ ∃ rest, t = name ++ rest ∧ IsName name rest := by
  constructor
  · intro h
    have hopens : OpensName t := by
      by_contra hnot
      rw [apiName?_eq_none_iff.mpr hnot] at h
      cases h
    obtain ⟨_, rfl, hopens⟩ := hopens
    obtain ⟨word, rest, rfl, hword, hend⟩ := hopens.exists_word
    rw [apiName?_of_word hword hend] at h
    cases hmember : member? rest with
    | none =>
      rw [hmember] at h
      obtain rfl := Option.some.inj h
      exact ⟨rest, (List.append_assoc _ _ _).symm,
        .short hword hend (member?_eq_none_iff.mp hmember)⟩
    | some member =>
      rw [hmember] at h
      obtain rfl := Option.some.inj h
      obtain ⟨rest, rfl, hmember, hend⟩ := member?_eq_some_iff.mp hmember
      exact ⟨rest, by simp, .long hword hmember hend⟩
  · rintro ⟨rest, rfl, hname⟩
    cases hname with
    | @short word rest hword hend hmember =>
      rw [List.append_assoc, apiName?_of_word hword hend, member?_eq_none_iff.mpr hmember]
    | @long word member rest hword hmember hend =>
      have hsecond : member? ("." ++ (member ++ rest)) = some member :=
        member?_eq_some_iff.mpr ⟨rest, rfl, hmember, hend⟩
      rw [List.append_assoc, List.append_assoc, List.append_assoc,
        apiName?_of_word hword (not_opensWord_point _), hsecond]

/-- What is read at the front of a script are its names. -/
theorem finds_apiName? : Finds apiName? IsName OpensName where
  eq_some_iff _ _ := apiName?_eq_some_iff
  eq_none_iff _ := apiName?_eq_none_iff
  ne_nil := by
    rintro name rest (⟨hword, hend, hmember⟩ | ⟨hword, hmember, hend⟩)
      <;> simp [Text.ofString]

/-! ## The names of a script -/

theorem apiNamesFrom_eq (skip : Nat)
    (t : Text) : apiNamesFrom skip t = foundFrom apiName? skip t := by
  fun_induction apiNamesFrom skip t with
  | case1 => simp [foundFrom]
  | case2 skip c rest ih => rw [foundFrom, ih]
  | case3 c rest name hname ih => rw [foundFrom, hname, ih]
  | case4 c rest hname ih => rw [foundFrom, hname, ih]

theorem distinct_eq (ts : List Text) : distinct ts = ts.eraseDups := by
  induction ts using List.reverseRecOn with
  | nil => rfl
  | append_singleton ts t ih =>
    rw [distinct] at ih
    rw [distinct, List.foldl_append, ih]
    by_cases h : t ∈ ts
    · rw [eraseDups_concat_of_mem h]
      simp [h]
    · rw [eraseDups_concat_of_not_mem h]
      simp [h]

theorem chromeApisOf_eq {script last : Text} {pieces : List (Text × Text)}
    (h : TakenApart IsName OpensName script pieces last) :
    chromeApisOf script = (pieces.map (·.2)).eraseDups := by
  rw [chromeApisOf, distinct_eq, apiNamesFrom_eq, h.found finds_apiName?]

/-- **The names of a script.** Every script can be taken apart in one way, and only one,
into gaps and names that are as long as they can be, such that at no position of a gap a
name begins. A script that is surveyed together with others is left out just if there is
no name in it; otherwise what is reported of it are these names, each once, in the order
in which they first came. -/
theorem chromeApis_takenApart (script : Text) :
    ∃ pieces last, TakenApart IsName OpensName script pieces last ∧
      script = (pieces.flatMap fun piece => piece.1 ++ piece.2) ++ last ∧
      (∀ pieces' last', TakenApart IsName OpensName script pieces' last' →
        pieces = pieces' ∧ last = last') ∧
      (pieces.map (·.2)).eraseDups.Nodup ∧
      ∀ files : Entries Text, files.Distinct → ∀ file, files.get? file = some script →
        (pieces = [] → (chromeApis files).get? file = none) ∧
        (pieces ≠ [] → (chromeApis files).get? file =
          some (pieces.map (·.2)).eraseDups) := by
  obtain ⟨pieces, last, hapart⟩ := TakenApart.exists_of_finds finds_apiName? script
  refine ⟨pieces, last, hapart, hapart.text,
    fun _ _ hother => hapart.unique finds_apiName? hother rfl,
    nodup_eraseDups _, fun files hd file hfile => ?_⟩
  have hget : (chromeApis files).get? file =
      ((files.get? file).map chromeApisOf).filter (· != []) :=
    Entries.get?_map_filter chromeApisOf (· != []) hd
  rw [hfile, Option.map_some, chromeApisOf_eq hapart] at hget
  constructor
  · rintro rfl
    exact hget
  · intro hne
    have hfound : (pieces.map (·.2)).eraseDups ≠ [] := by
      obtain ⟨piece, hpiece⟩ := List.exists_mem_of_ne_nil _ hne
      exact List.ne_nil_of_mem (List.mem_eraseDups.mpr (List.mem_map_of_mem hpiece))
    rw [Option.filter_some, if_pos (bne_iff_ne.mpr hfound)] at hget
    exact hget

/-- A script in which a name goes on as another one does, one name comes twice, and a
letter that is not ASCII follows the root. -/
def chainedScript : Text :=
  "chrome.chrome.a.chrome.b(chrome.tabs.query); chrome.\u00E9 chrome.b"

/-- That script with one in which there is no name. -/
def chainedFiles : Entries Text := [("a.js", chainedScript), ("b.js", "window.chrome")]

/-- The name that goes on is read as far as two words reach, and the other one behind
it. -/
theorem chromeApis_takenApart_chained :
    chainedFiles.Distinct ∧ chainedFiles.get? "a.js" = some chainedScript ∧
      ∃ pieces last, TakenApart IsName OpensName chainedScript pieces last ∧
        (pieces.map (·.2)).eraseDups =
        (["chrome.chrome.a", "chrome.b", "chrome.tabs.query"] : List Text) ∧
        (chromeApis chainedFiles).get? "a.js" = some (pieces.map (·.2)).eraseDups ∧
        (chromeApis chainedFiles).get? "b.js" = none := by
  have hd : chainedFiles.Distinct := by decide +kernel
  have hfile : chainedFiles.get? "a.js" = some chainedScript := by decide +kernel
  have hreported : (chromeApis chainedFiles).get? "a.js" =
      some (["chrome.chrome.a", "chrome.b", "chrome.tabs.query"] : List Text) := by
        decide +kernel
  obtain ⟨pieces, last, hapart, -, -, -, hreport⟩ := chromeApis_takenApart chainedScript
  obtain ⟨hempty, hnames⟩ := hreport chainedFiles hd "a.js" hfile
  have hne : pieces ≠ [] := by
    intro hnil
    rw [hempty hnil] at hreported
    cases hreported
  have hsame := Option.some.inj ((hnames hne).symm.trans hreported)
  exact ⟨hd, hfile, pieces, last, hapart, hsame, hnames hne, by decide +kernel⟩

end ExtensionAudit.Script
