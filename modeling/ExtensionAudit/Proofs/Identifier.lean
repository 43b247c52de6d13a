import ExtensionAudit.Proofs.Letter
import ExtensionAudit.Proofs.Text
import ExtensionAudit.Request.Basic

/-!
# Identifier — the grammar

What names an extension, written down part by part: an identifier by itself, or the
address of a detail page in the store (`Names`). The reader accepts just these texts
(`resolve?_eq_some`), an address has one reading (`Address.text_injOn`), and only an
ASCII alphanumeric identifier goes on to the store.
-/

namespace ExtensionAudit

namespace Text

/-! ## Parts of a text -/

/-- A part that may be missing. -/
def optional (isThere : Bool) (part : Text) : Text := if isThere then part else []

/-- An optional part is read if it is there. -/
theorem exists_optional (part t : Text) :
    ∃ isThere, t = optional isThere part ++ (dropStart? part t).getD t := by
  cases h : dropStart? part t with
  | none => exact ⟨false, rfl⟩
  | some rest => exact ⟨true, dropStart?_eq_some.mp h⟩

/-- Nothing is mistaken for an optional part that is missing, if what follows begins
otherwise. -/
theorem getD_dropStart?_optional {part rest : Text} (h : ¬ part <+: rest)
    (isThere : Bool) :
    (dropStart? part (optional isThere part ++ rest)).getD
      (optional isThere part ++ rest) = rest := by
  cases isThere with
  | true =>
    have hread : dropStart? part (part ++ rest) = some rest := dropStart?_eq_some.mpr rfl
    show (dropStart? part (part ++ rest)).getD (part ++ rest) = rest
    rw [hread, Option.getD_some]
  | false =>
    show (dropStart? part rest).getD rest = rest
    rw [dropStart?, if_neg (by rwa [List.isPrefixOf_iff_prefix]), Option.getD_none]

/-- Whether an optional part is there can be told by what follows it, if that begins
otherwise. -/
theorem optional_append_inj {part rest other : Text} {isThere isThere' : Bool}
    (hr : ¬ part <+: rest) (ho : ¬ part <+: other)
    (h : optional isThere part ++ rest = optional isThere' part ++ other) :
    isThere = isThere' ∧ rest = other := by
  cases isThere <;> cases isThere'
  · exact ⟨rfl, h⟩
  · exact absurd ⟨other, h.symm⟩ hr
  · exact absurd ⟨rest, h⟩ ho
  · exact ⟨rfl, List.append_cancel_left h⟩

end Text

namespace Identifier

/-- A run is as long as it can be. -/
theorem takeRun?_eq_some {p : CodePoint → Bool} {t run rest : Text} :
    takeRun? p t = some (run, rest) ↔
      t = run ++ rest ∧ run ≠ [] ∧ (∀ c ∈ run, p c = true) ∧
      ∀ c ∈ rest.head?, p c = false := by
  constructor
  · intro h
    rw [takeRun?] at h
    split at h
    · cases h
    · rename_i hne
      cases h
      exact ⟨List.takeWhile_append_dropWhile.symm, hne,
        fun c hc => List.mem_takeWhile_imp hc,
        Text.eq_false_of_mem_head?_dropWhile⟩
  · rintro ⟨rfl, hne, hrun, hrest⟩
    obtain ⟨htake, hdrop⟩ := Text.span_run hrun hrest
    rw [takeRun?, htake, hdrop]
    cases run with
    | nil => exact absurd rfl hne
    | cons c more => rfl

/-! ## Addresses -/

/-- The parts of the address of a detail page. -/
structure Address where
  isSecure : Bool
  host : Text
  isInWebstore : Bool
  slug : Text
  id : Text
  isClosed : Bool
  trailer : Option (CodePoint × Text)

namespace Address

/-- The scheme of an address. -/
def scheme (a : Address) : Text := if a.isSecure then "https" else "http"

/-- The query or the fragment of an address, with its mark. -/
def trailerText (a : Address) : Text :=
  match a.trailer with
  | some (mark, rest) => mark :: rest
  | none => []

/-- An address up to its query or fragment. -/
def base (a : Address) : Text :=
  a.scheme ++ ("://" : Text) ++ a.host ++ Text.optional a.isInWebstore "/webstore" ++
    ("/detail/" : Text) ++ a.slug ++ ("/" : Text) ++ a.id ++ Text.optional a.isClosed "/"

/-- An address as it is written. -/
def text (a : Address) : Text := a.base ++ a.trailerText

/-- The slug, the identifier and the trailer are made of what they may be made of. -/
structure IsSpelt (a : Address) : Prop where
  slug_ne_nil : a.slug ≠ []
  slug : ∀ c ∈ a.slug, isSlugChar c = true
  id_ne_nil : a.id ≠ []
  id : ∀ c ∈ a.id, c.isAsciiAlphanumeric = true
  mark : ∀ mark rest, a.trailer = some (mark, rest) → mark = '?' ∨ mark = '#'
  line : ∀ mark rest, a.trailer = some (mark, rest) → CodePoint.ofChar '\n' ∉ rest

/-- Some text is the host. -/
structure HasHost (a : Address) : Prop where
  ne_nil : a.host ≠ []
  unended : ∀ c ∈ a.host, isHostEnd c = false

/-- The host is one of the store's, but for the case of its letters. -/
def IsInStore (a : Address) : Prop := a.host.map CodePoint.asciiSmall ∈ storeHosts

instance (a : Address) : Decidable a.IsInStore :=
  inferInstanceAs (Decidable (a.host.map CodePoint.asciiSmall ∈ storeHosts))

theorem isAscii_of_mem_storeHosts : ∀ host ∈ storeHosts, ∀ c ∈ host,
    c.IsAscii ∧ c ≠ 'k' ∧ isHostEnd c = false := by
  simp only [CodePoint.IsAscii]
  decide

theorem lower_mem_storeHosts {host : Text} :
    Text.lower host ∈ storeHosts ↔ host.map CodePoint.asciiSmall ∈ storeHosts := by
  have hsame : ∀ store ∈ storeHosts,
      Text.lower host = store ↔ host.map CodePoint.asciiSmall = store := by
    intro store hs
    refine Text.lower_eq_iff fun c hc => ?_
    obtain ⟨hascii, hk, -⟩ := isAscii_of_mem_storeHosts store hs c hc
    exact ⟨hascii, hk⟩
  constructor
  · intro h
    rwa [(hsame _ h).mp rfl]
  · intro h
    rwa [(hsame _ h).mpr rfl]

theorem IsInStore.hasHost {a : Address} (h : a.IsInStore) : a.HasHost := by
  constructor
  · intro hnil
    rw [IsInStore, hnil] at h
    exact absurd h (by decide)
  · intro c hc
    have hmem : c.asciiSmall ∈ a.host.map CodePoint.asciiSmall := List.mem_map_of_mem hc
    have hend := (isAscii_of_mem_storeHosts _ h _ hmem).2.2
    -- A character that ends the host is no capital letter, so its small letter is itself.
    by_contra hc'
    have hsmall : c.asciiSmall = c := by
      simp only [isHostEnd, Bool.not_eq_false, Bool.or_eq_true, beq_iff_eq] at hc'
      rcases hc' with (rfl | rfl) | rfl <;> rfl
    rw [hsmall] at hend
    exact hc' hend

/-- What follows the identifier in an address, if its slash is missing. -/
theorem not_slash_prefix_trailerText {a : Address} (h : a.IsSpelt) :
    ¬ ("/" : Text) <+: a.trailerText := by
  rintro ⟨more, hm⟩
  rw [trailerText] at hm
  split at hm
  · rename_i mark rest ht
    cases hm
    rcases h.mark _ _ ht with hmark | hmark <;> exact absurd hmark (by decide)
  · cases hm

theorem isTrailer_trailerText {a : Address}
    (h : a.IsSpelt) : isTrailer a.trailerText = true := by
  rw [trailerText]
  split
  · rename_i mark rest ht
    have hline := h.line _ _ ht
    have hall : rest.all (· != '\n') = true := by
      rw [List.all_eq_true]
      intro c hc
      rw [bne_iff_ne]
      rintro rfl
      exact hline hc
    rcases h.mark _ _ ht with rfl | rfl <;> exact hall
  · rfl

/-- The text of an address, nested as it is read. -/
theorem text_eq (a : Address) :
    a.text = ("http" : Text) ++ (Text.optional a.isSecure "s" ++
    (("://" : Text) ++
      (a.host ++ (Text.optional a.isInWebstore "/webstore" ++ (("/detail/" : Text) ++
      (a.slug ++ (("/" : Text) ++
        (a.id ++ (Text.optional a.isClosed "/" ++ a.trailerText))))))))) := by
  have hscheme : a.scheme = ("http" : Text) ++ Text.optional a.isSecure "s" := by
    rw [scheme]
    cases a.isSecure <;> rfl
  simp only [text, base, hscheme, List.append_assoc]

/-- What follows the scheme does not go on with it. -/
theorem not_prefix_afterScheme (rest : Text) :
    ¬ ("s" : Text) <+: ("://" : Text) ++ rest := by
  rintro ⟨more, hm⟩
  cases hm

/-- What follows the host is not mistaken for the directory of the store. -/
theorem not_prefix_afterHost (rest : Text) : ¬ ("/webstore" : Text) <+:
    ("/detail/" : Text) ++ rest := by
  rintro ⟨more, hm⟩
  cases hm

/-- The parts of an address are read back. -/
theorem read?_text {a : Address} (h : a.IsSpelt) (hh : a.HasHost) :
    DetailPage.read? a.text = some ⟨a.host, a.slug, a.id⟩ := by
  -- Every part ends where the next one begins with a character that cannot go on with it.
  have hhost : ∀ rest : Text, ∀ c ∈
      (Text.optional a.isInWebstore "/webstore" ++ (("/detail/" : Text) ++ rest)).head?,
        (!isHostEnd c) = false := by
    intro rest c hc
    cases hw : a.isInWebstore <;> rw [hw] at hc <;> cases hc <;> rfl
  have hslug : ∀ rest : Text, ∀ c ∈ (("/" : Text) ++ rest).head?,
      isSlugChar c = false := by
    intro rest c hc
    cases hc
    rfl
  have hid : ∀ c ∈ (Text.optional a.isClosed "/" ++ a.trailerText).head?,
      c.isAsciiAlphanumeric = false := by
    intro c hc
    cases hclosed : a.isClosed with
    | true =>
      rw [hclosed] at hc
      cases hc
      rfl
    | false =>
      have hc : c ∈ a.trailerText.head? := by simpa [hclosed, Text.optional] using hc
      rw [trailerText] at hc
      split at hc
      · rename_i mark rest ht
        cases hc
        rcases h.mark _ _ ht with rfl | rfl <;> rfl
      · cases hc
  rw [text_eq, DetailPage.read?]
  simp only [Option.bind_eq_bind, Option.bind_eq_some_iff]
  refine ⟨_, Text.dropStart?_eq_some.mpr rfl, ?_⟩
  rw [Text.getD_dropStart?_optional (not_prefix_afterScheme _)]
  refine ⟨_, Text.dropStart?_eq_some.mpr rfl, ?_⟩
  refine ⟨_, takeRun?_eq_some.mpr ⟨rfl, hh.ne_nil,
    fun c hc => by simp [hh.unended c hc], hhost _⟩, ?_⟩
  rw [Text.getD_dropStart?_optional (not_prefix_afterHost _)]
  refine ⟨_, Text.dropStart?_eq_some.mpr rfl, ?_⟩
  refine ⟨_, takeRun?_eq_some.mpr ⟨rfl, h.slug_ne_nil, h.slug, hslug _⟩, ?_⟩
  refine ⟨_, Text.dropStart?_eq_some.mpr rfl, ?_⟩
  refine ⟨_, takeRun?_eq_some.mpr ⟨rfl, h.id_ne_nil, h.id, hid⟩, ?_⟩
  rw [Text.getD_dropStart?_optional (not_slash_prefix_trailerText h),
    if_pos (isTrailer_trailerText h)]

/-- What is read as a trailer is one. -/
theorem exists_trailer {t : Text} (h : isTrailer t = true) :
    ∃ trailer : Option (CodePoint × Text),
    (∀ a : Address, a.trailer = trailer → a.trailerText = t) ∧
    ∀ mark rest, trailer = some (mark, rest) →
      (mark = '?' ∨ mark = '#') ∧ CodePoint.ofChar '\n' ∉ rest := by
  cases t with
  | nil =>
    refine ⟨none, fun a ha => by rw [trailerText, ha], ?_⟩
    intro mark rest hm
    cases hm
  | cons c more =>
    rw [isTrailer, Bool.and_eq_true, Bool.or_eq_true, beq_iff_eq, beq_iff_eq] at h
    refine ⟨some (c, more), fun a ha => by rw [trailerText, ha], ?_⟩
    intro mark rest hm
    cases hm
    refine ⟨h.1, fun hline => ?_⟩
    exact absurd (List.all_eq_true.mp h.2 _ hline) (by decide)

/-- What is read as the page of an address is one. -/
theorem exists_of_read? {t : Text} {page : DetailPage}
    (h : DetailPage.read? t = some page) :
    ∃ a : Address, a.IsSpelt ∧ a.HasHost ∧ a.text = t ∧
      page = ⟨a.host, a.slug, a.id⟩ := by
  rw [DetailPage.read?] at h
  simp only [Option.bind_eq_bind, Option.bind_eq_some_iff] at h
  obtain ⟨t₁, h₁, t₂, h₂, ⟨host, t₃⟩, h₃, t₄, h₄, ⟨slug, t₅⟩, h₅, t₆, h₆,
    ⟨id, t₇⟩, h₇, h₈⟩ := h
  obtain ⟨isSecure, hsecure⟩ := Text.exists_optional "s" t₁
  obtain ⟨isInWebstore, hwebstore⟩ := Text.exists_optional "/webstore" t₃
  obtain ⟨isClosed, hclosed⟩ := Text.exists_optional "/" t₇
  obtain ⟨hhost, hhost_ne, hunended, -⟩ := takeRun?_eq_some.mp h₃
  obtain ⟨hslug, hslug_ne, hslugs, -⟩ := takeRun?_eq_some.mp h₅
  obtain ⟨hid, hid_ne, hids, -⟩ := takeRun?_eq_some.mp h₇
  split at h₈
  · rename_i htrailer
    cases h₈
    obtain ⟨trailer, htext, hparts⟩ := exists_trailer htrailer
    have htext := htext ⟨isSecure, host, isInWebstore, slug, id, isClosed, trailer⟩ rfl
    refine ⟨⟨isSecure, host, isInWebstore, slug, id, isClosed, trailer⟩,
      ⟨hslug_ne, hslugs, hid_ne, hids, fun mark rest hm => (hparts mark rest hm).1,
        fun mark rest hm => (hparts mark rest hm).2⟩,
      ⟨hhost_ne, fun c hc => by simpa using hunended c hc⟩, ?_, rfl⟩
    rw [text_eq, htext, ← hclosed, ← hid, ← Text.dropStart?_eq_some.mp h₆,
      ← hslug, ← Text.dropStart?_eq_some.mp h₄, ← hwebstore, ← hhost,
      ← Text.dropStart?_eq_some.mp h₂, ← hsecure, ← Text.dropStart?_eq_some.mp h₁]
  · cases h₈

theorem trailer_eq_of_trailerText {a b : Address} (h : a.trailerText = b.trailerText) :
    a.trailer = b.trailer := by
  rw [trailerText, trailerText] at h
  cases ha : a.trailer <;> cases hb : b.trailer <;> simp [ha, hb] at h
  · rfl
  · obtain ⟨hmark, hrest⟩ := h
    rw [Option.some_inj, Prod.ext_iff]
    exact ⟨hmark, hrest⟩

/-- An address has one reading. -/
theorem text_injOn {a b : Address} (ha : a.IsSpelt) (hha : a.HasHost) (hb : b.IsSpelt)
    (hhb : b.HasHost) (h : a.text = b.text) : a = b := by
  have hread := read?_text ha hha
  rw [h, read?_text hb hhb, Option.some_inj, DetailPage.mk.injEq] at hread
  obtain ⟨hhost, hslug, hid⟩ := hread
  -- With host, slug and identifier the same, the optional parts are told apart one by
  -- one.
  rw [text_eq, text_eq, hhost, hslug, hid] at h
  obtain ⟨hsecure, h⟩ :=
    Text.optional_append_inj (not_prefix_afterScheme _) (not_prefix_afterScheme _)
    (List.append_cancel_left h)
  obtain ⟨hwebstore, h⟩ :=
    Text.optional_append_inj (not_prefix_afterHost _) (not_prefix_afterHost _)
    (List.append_cancel_left (List.append_cancel_left h))
  have h := List.append_cancel_left (List.append_cancel_left (List.append_cancel_left h))
  obtain ⟨hclosed, h⟩ := Text.optional_append_inj (not_slash_prefix_trailerText ha)
    (not_slash_prefix_trailerText hb) (List.append_cancel_left h)
  have htrailer := trailer_eq_of_trailerText h
  cases a
  cases b
  simp_all only

/-- The address of a detail page in the store. -/
structure IsStorePage (a : Address) : Prop where
  spelt : a.IsSpelt
  inStore : a.IsInStore

end Address

/-! ## What names an extension -/

/-- A text names an extension by its identifier, or by the address of its page in the
store. -/
inductive Names : Text → Text → Prop
  | bare {t : Text} (ne_nil : t ≠ [])
      (alphanumeric : ∀ c ∈ t, c.isAsciiAlphanumeric = true) : Names t t
  | page {a : Address} (h : a.IsStorePage) : Names a.text a.id

theorem isBare_iff {t : Text} :
    isBare t = true ↔ t ≠ [] ∧ ∀ c ∈ t, c.isAsciiAlphanumeric = true := by
  rw [isBare, Bool.and_eq_true, bne_iff_ne, List.all_eq_true]

/-- An address is no identifier by itself. -/
theorem Address.isBare_text (a : Address) : isBare a.text = false := by
  rw [← Bool.not_eq_true, isBare_iff]
  rintro ⟨-, h⟩
  have hcolon : CodePoint.ofChar ':' ∈ a.text := by
    simp [Address.text, Address.base, Text.ofString]
  exact absurd (h _ hcolon) (by decide)

/-- The page that a text is the address of, if it is one in the store. -/
theorem onPage_eq_some {t id : Text} :
    (do
      let page ← DetailPage.read? t
      if storeHosts.contains (Text.lower page.host) then some page.id
      else none) = some id ↔
    ∃ a : Address, a.IsStorePage ∧ a.text = t ∧ a.id = id := by
  rw [Option.bind_eq_bind, Option.bind_eq_some_iff]
  constructor
  · rintro ⟨page, hread, hpage⟩
    obtain ⟨a, hs, -, htext, rfl⟩ := Address.exists_of_read? hread
    split at hpage
    · rename_i hstore
      cases hpage
      have hstore : Text.lower a.host ∈ storeHosts := by simpa using hstore
      exact ⟨a, ⟨hs, Address.lower_mem_storeHosts.mp hstore⟩, htext, rfl⟩
    · cases hpage
  · rintro ⟨a, ⟨hs, hstore⟩, rfl, rfl⟩
    refine ⟨_, Address.read?_text hs hstore.hasHost, ?_⟩
    rw [if_pos (by simpa using Address.lower_mem_storeHosts.mpr hstore)]

/-- A text is resolved to what it names, blanks around it ignored. -/
theorem resolve?_eq_some {t id : Text} : resolve? t = some id ↔
    Names (Text.trim t) id := by
  rw [resolve?]
  constructor
  · intro h
    split at h
    · rename_i found hfound
      cases h
      obtain ⟨a, ha, htext, rfl⟩ := onPage_eq_some.mp hfound
      rw [← htext]
      exact .page ha
    · split at h
      · rename_i hbare
        cases h
        obtain ⟨hne, hall⟩ := isBare_iff.mp hbare
        exact .bare hne hall
      · cases h
  · intro h
    generalize Text.trim t = named at h ⊢
    cases h with
    | bare hne hall =>
      -- An identifier by itself is the address of no page, so it is taken as it is.
      have hbare := isBare_iff.mpr ⟨hne, hall⟩
      split
      · rename_i found hfound
        obtain ⟨a, -, htext, -⟩ := onPage_eq_some.mp hfound
        rw [← htext, a.isBare_text] at hbare
        cases hbare
      · rw [if_pos hbare]
    | page ha =>
      rw [onPage_eq_some.mpr ⟨_, ha, rfl, rfl⟩]

/-! ## What is named -/

theorem isBlank_of_isAsciiAlphanumeric {c : CodePoint}
    (h : c.isAsciiAlphanumeric = true) :
    c.isBlank = false := by
  simp only [CodePoint.isAsciiAlphanumeric, CodePoint.isAsciiLetter,
    CodePoint.isAsciiDigit, CodePoint.isBetween, Bool.or_eq_true, Bool.and_eq_true,
    decide_eq_true_eq] at h
  simp only [CodePoint.isBlank, CodePoint.isBetween, Bool.or_eq_false_iff,
    Bool.and_eq_false_iff, decide_eq_false_iff_not, beq_eq_false_iff_ne]
  omega

theorem Names.ne_nil {t id : Text} (h : Names t id) : id ≠ [] := by
  cases h with
  | bare hne hall => exact hne
  | page ha => exact ha.spelt.id_ne_nil

theorem Names.isAsciiAlphanumeric {t id : Text} (h : Names t id) :
    ∀ c ∈ id, c.isAsciiAlphanumeric = true := by
  cases h with
  | bare hne hall => exact hall
  | page ha => exact ha.spelt.id

theorem Names.isInfix {t id : Text} (h : Names t id) : id <:+: t := by
  cases h with
  | bare hne hall => exact List.infix_rfl
  | @page a ha =>
    refine ⟨a.scheme ++ ("://" : Text) ++ a.host ++
      Text.optional a.isInWebstore "/webstore" ++
      ("/detail/" : Text) ++ a.slug ++ ("/" : Text),
        Text.optional a.isClosed "/" ++ a.trailerText, ?_⟩
    simp only [Address.text, Address.base, List.append_assoc]

/-- An identifier names itself. -/
theorem Names.resolve?_self {t id : Text} (h : Names t id) : resolve? id = some id := by
  have htrim : Text.trim id = id :=
    Text.trim_eq_self fun c hc =>
      isBlank_of_isAsciiAlphanumeric (h.isAsciiAlphanumeric c hc)
  rw [resolve?_eq_some, htrim]
  exact .bare h.ne_nil h.isAsciiAlphanumeric

theorem isAscii_of_isAsciiAlphanumeric {c : CodePoint}
    (h : c.isAsciiAlphanumeric = true) :
    c.IsAscii := by
  simp only [CodePoint.isAsciiAlphanumeric, CodePoint.isAsciiLetter,
    CodePoint.isAsciiDigit, CodePoint.isBetween, Bool.or_eq_true, Bool.and_eq_true,
    decide_eq_true_eq] at h
  show c.val < 0x80
  omega

/-- The small letters of an identifier do not cut the parameter that they stand in. -/
theorem asciiSmall_ne_ampersand {c : CodePoint} (h : c.isAsciiAlphanumeric = true) :
    c.asciiSmall ≠ '&' := by
  intro hc
  by_cases hcapital : c.isBetween 65 90 = true
  · rw [CodePoint.asciiSmall, if_pos hcapital, CodePoint.ofNat] at hc
    simp only [CodePoint.isBetween, Bool.and_eq_true, decide_eq_true_eq] at hcapital
    split at hc
    · have hval : c.val + 32 = 38 := congrArg CodePoint.val hc
      omega
    · omega
  · rw [CodePoint.asciiSmall, if_neg hcapital] at hc
    subst hc
    exact absurd h (by decide)

/-- The selector of an identifier is cut at each ampersand into its three parts. -/
theorem split_selector {id : Text} (h : ∀ c ∈ id, c.isAsciiAlphanumeric = true) :
    Text.split '&' (Fetch.selector id) =
      [("id=" : Text) ++ id.map CodePoint.asciiSmall, ("installsource=ondemand" : Text),
        ("uc" : Text)] := by
  have hlower : Text.lower id = id.map CodePoint.asciiSmall :=
    Text.lower_of_isAscii fun c hc => isAscii_of_isAsciiAlphanumeric (h c hc)
  have hrest : ("&installsource=ondemand&uc" : Text) =
      ("&" : Text) ++
        (("installsource=ondemand" : Text) ++ (("&" : Text) ++ ("uc" : Text))) := rfl
  have hjoin : Fetch.selector id = Text.join [CodePoint.ofChar '&']
      [("id=" : Text) ++ id.map CodePoint.asciiSmall, ("installsource=ondemand" : Text),
        ("uc" : Text)] := by
    rw [Fetch.selector, hlower, hrest]
    simp only [Text.join, List.append_assoc]
    rfl
  rw [hjoin, Text.split_join (by simp)]
  simp only [List.forall_mem_cons]
  refine ⟨?_, by decide, by decide, by simp⟩
  rw [List.mem_append]
  rintro (hm | hm)
  · exact absurd hm (by decide)
  · obtain ⟨c, hc, hsmall⟩ := List.mem_map.mp hm
    exact asciiSmall_ne_ampersand (h c hc) hsmall

/-! ## What is not looked at -/

namespace Address

/-- Up to its trailer, an address has no mark of one. -/
theorem not_mark_of_mem_base {a : Address} (h : a.IsSpelt) (hh : a.HasHost) :
    ∀ c ∈ a.base, c ≠ '?' ∧ c ≠ '#' := by
  have hoptional : ∀ (isThere : Bool) (part : Text), (∀ c ∈ part, c ≠ '?' ∧ c ≠ '#') →
      ∀ c ∈ Text.optional isThere part, c ≠ '?' ∧ c ≠ '#' := by
    intro isThere part hp
    cases isThere
    · exact fun c hc => absurd hc List.not_mem_nil
    · exact hp
  have hscheme : ∀ c ∈ a.scheme, c ≠ '?' ∧ c ≠ '#' := by
    rw [scheme]
    split <;> decide
  have hslug : ∀ c, isSlugChar c = true → c ≠ '?' ∧ c ≠ '#' := by
    intro c hc
    constructor <;> rintro rfl <;> exact absurd hc (by decide)
  have hid : ∀ c : CodePoint, c.isAsciiAlphanumeric = true → c ≠ '?' ∧ c ≠ '#' := by
    intro c hc
    constructor <;> rintro rfl <;> exact absurd hc (by decide)
  have hhost : ∀ c, isHostEnd c = false → c ≠ '?' ∧ c ≠ '#' := by
    intro c hc
    constructor <;> rintro rfl <;> exact absurd hc (by decide)
  simp only [base, List.forall_mem_append]
  refine ⟨⟨⟨⟨⟨⟨⟨⟨hscheme, by decide⟩, ?_⟩, ?_⟩, by decide⟩, ?_⟩, by decide⟩, ?_⟩, ?_⟩
  · exact fun c hc => hhost c (hh.unended c hc)
  · exact hoptional _ _ (by decide)
  · exact fun c hc => hslug c (h.slug c hc)
  · exact fun c hc => hid c (h.id c hc)
  · exact hoptional _ _ (by decide)

/-- An address with another query or fragment. -/
def withTrailer (a : Address) (trailer : Option (CodePoint × Text)) : Address :=
  { a with trailer := trailer }

theorem text_withTrailer (a : Address) (trailer : Option (CodePoint × Text)) :
    (a.withTrailer trailer).text = a.base ++ (a.withTrailer trailer).trailerText := rfl

end Address

theorem isTrailer_append {t rest : Text} {mark : CodePoint}
    (hmark : mark = '?' ∨ mark = '#') (hline : CodePoint.ofChar '\n' ∉ rest) :
    isTrailer (t ++ mark :: rest) = true ↔ isTrailer t = true := by
  have hrest : rest.all (· != '\n') = true := by
    rw [List.all_eq_true]
    intro c hc
    rw [bne_iff_ne]
    rintro rfl
    exact hline hc
  have hstart : (mark == '?' || mark == '#') = true := by simpa using hmark
  have hnewline : (mark != '\n') = true := by
    rcases hmark with rfl | rfl <;> decide
  cases t with
  | nil =>
    have hread : isTrailer (mark :: rest) = true := by
      rw [isTrailer, hstart, hrest]
      rfl
    exact iff_of_true hread rfl
  | cons c more =>
    rw [List.cons_append, isTrailer, isTrailer, List.all_append, List.all_cons,
      hnewline, hrest]
    simp

/-- What is no identifier by itself has to be an address, whatever its query or
fragment. -/
theorem names_iff_base {t id : Text} (hbare : isBare t = false) :
    Names t id ↔ ∃ a : Address, a.IsStorePage ∧ a.id = id ∧
      ∃ trailer, isTrailer trailer = true ∧ t = a.base ++ trailer := by
  constructor
  · intro h
    cases h with
    | bare hne hall =>
      rw [isBare_iff.mpr ⟨hne, hall⟩] at hbare
      cases hbare
    | @page a ha =>
      exact ⟨a, ha, rfl, a.trailerText, Address.isTrailer_trailerText ha.spelt, rfl⟩
  · rintro ⟨a, ha, rfl, written, hwritten, rfl⟩
    obtain ⟨trailer, htext, hparts⟩ := Address.exists_trailer hwritten
    have hpage : (a.withTrailer trailer).IsStorePage :=
      ⟨⟨ha.spelt.slug_ne_nil, ha.spelt.slug, ha.spelt.id_ne_nil, ha.spelt.id,
        fun mark rest hm => (hparts mark rest hm).1, fun mark rest hm =>
          (hparts mark rest hm).2⟩,
        ha.inStore⟩
    rw [← htext (a.withTrailer trailer) rfl, ← Address.text_withTrailer]
    exact .page hpage

/-- A query or a fragment on one line changes nothing about what a text names. -/
theorem names_append_trailer {t rest id : Text} {mark : CodePoint}
    (hbare : isBare t = false) (hmark : mark = '?' ∨ mark = '#')
    (hline : CodePoint.ofChar '\n' ∉ rest) :
    Names (t ++ mark :: rest) id ↔ Names t id := by
  have hbare' : isBare (t ++ mark :: rest) = false := by
    rw [← Bool.not_eq_true, isBare_iff]
    rintro ⟨-, h⟩
    have hm := h mark (List.mem_append_right _ List.mem_cons_self)
    rcases hmark with rfl | rfl <;> exact absurd hm (by decide)
  rw [names_iff_base hbare, names_iff_base hbare']
  constructor
  · rintro ⟨a, ha, rfl, trailer, ht, h⟩
    -- The mark cannot stand before the trailer of the address, so the text goes at
    -- least as far.
    rcases List.append_eq_append_iff.mp h with ⟨more, hbase, hmore⟩ | ⟨more, htext, hmore⟩
    · cases more with
      | nil =>
        exact ⟨a, ha, rfl, [], rfl, by rw [hbase, List.append_nil, List.append_nil]⟩
      | cons c more =>
        rw [List.cons_append, List.cons.injEq] at hmore
        have hm := Address.not_mark_of_mem_base ha.spelt ha.inStore.hasHost mark
          (by rw [hbase, ← hmore.1]; simp)
        exact absurd hmark (not_or.mpr hm)
    · rw [hmore] at ht
      exact ⟨a, ha, rfl, more, (isTrailer_append hmark hline).mp ht, htext⟩
  · rintro ⟨a, ha, rfl, trailer, ht, rfl⟩
    exact ⟨a, ha, rfl, trailer ++ mark :: rest,
      (isTrailer_append hmark hline).mpr ht, by simp⟩

theorem resolve?_append_trailer {t rest : Text} {mark : CodePoint}
    (hend : ∀ c ∈ t.getLast?, c.isBlank = false) (hbare : isBare (Text.trim t) = false)
    (hmark : mark = '?' ∨ mark = '#') (hline : CodePoint.ofChar '\n' ∉ rest) :
    resolve? (t ++ mark :: rest) = resolve? t := by
  have hblank : mark.isBlank = false := by
    rcases hmark with rfl | rfl <;> decide
  have hline' : CodePoint.ofChar '\n' ∉ Text.trimEnd rest := fun h =>
    hline ((List.rdropWhile_prefix _ _).subset h)
  refine Option.ext fun id => ?_
  rw [resolve?_eq_some, resolve?_eq_some, Text.trim_append_cons hblank hend]
  exact names_append_trailer hbare hmark hline'

/-! ## The grammar -/

theorem ofJson?_eq_some {value : Json} {id : Text} :
    ofJson? value = some id ↔ ∃ t, value = .text t ∧ Names (Text.trim t) id := by
  constructor
  · intro h
    cases value with
    | text t => exact ⟨t, rfl, resolve?_eq_some.mp h⟩
    | _ => cases h
  · rintro ⟨t, rfl, h⟩
    exact resolve?_eq_some.mpr h

/-- A request for what names no extension fails as an invalid one, before the store is
asked. -/
theorem step_of_names_nothing {target : Json}
    (h : ∀ t id, target = .text t → ¬ Names (Text.trim t) id) (auditor : Auditor)
    (reply : Fetch.Reply) (directory : Path) (disk : Disk) :
    (Request.ofTarget directory target).step auditor reply disk =
      ((Request.ofTarget directory target).fail .target, disk) := by
  have hnone : ofJson? target = none := by
    rw [Option.eq_none_iff_forall_ne_some]
    intro id hid
    obtain ⟨t, ht, hnames⟩ := ofJson?_eq_some.mp hid
    exact h t id ht hnames
  simp only [Request.step, Request.ofTarget, hnone]

/-- **The grammar of identifiers.** A value is resolved just if it is a text that,
without the blanks around it, names an extension, and then to what it names; an address
names it in one way. Every other request is refused as an invalid one. So what is
resolved is an ASCII alphanumeric part of the text, which names itself and stands alone
in the parameter that the store is asked with; blanks around the text, a query and a
fragment make no difference. -/
theorem resolve?_grammar :
    (∀ (value : Json) (id : Text),
      ofJson? value = some id ↔ ∃ t, value = .text t ∧ Names (Text.trim t) id) ∧
    (∀ a b : Address, a.IsStorePage → b.IsStorePage → a.text = b.text → a = b) ∧
    (∀ a : Address, isBare a.text = false) ∧
    (∀ target : Json, (∀ t id, target = .text t → ¬ Names (Text.trim t) id) →
      ∀ (auditor : Auditor) (reply : Fetch.Reply) (directory : Path) (disk : Disk),
        (Request.ofTarget directory target).step auditor reply disk =
          ((Request.ofTarget directory target).fail .target, disk)) ∧
    Fault.target.kind = .invalidInput ∧
    (∀ t id : Text, resolve? t = some id →
      id ≠ [] ∧ (∀ c ∈ id, c.isAsciiAlphanumeric = true) ∧ id <:+: t ∧
      resolve? id = some id ∧
      ∀ terms : Fetch.Terms, ∃ selector,
        Entries.get? Fetch.selectorName (Fetch.request terms id).parameters =
          some selector ∧
        Text.split '&' selector = [("id=" : Text) ++ id.map CodePoint.asciiSmall,
          ("installsource=ondemand" : Text), ("uc" : Text)]) ∧
    (∀ left t right : Text, (∀ c ∈ left, c.isBlank = true) →
      (∀ c ∈ right, c.isBlank = true) →
      resolve? (left ++ t ++ right) = resolve? t) ∧
    ∀ (t rest : Text) (mark : CodePoint), (∀ c ∈ t.getLast?, c.isBlank = false) →
      isBare (Text.trim t) = false → (mark = '?' ∨ mark = '#') →
      CodePoint.ofChar '\n' ∉ rest →
        resolve? (t ++ mark :: rest) = resolve? t := by
  refine ⟨fun value id => ofJson?_eq_some, ?_, Address.isBare_text, ?_, rfl, ?_, ?_, ?_⟩
  · intro a b ha hb h
    exact Address.text_injOn ha.spelt ha.inStore.hasHost hb.spelt hb.inStore.hasHost h
  · intro target h auditor reply directory disk
    exact step_of_names_nothing h auditor reply directory disk
  · intro t id h
    have hnames := resolve?_eq_some.mp h
    refine ⟨hnames.ne_nil, hnames.isAsciiAlphanumeric,
      hnames.isInfix.trans (Text.trim_infix t),
      hnames.resolve?_self, fun terms => ⟨Fetch.selector id, rfl, ?_⟩⟩
    exact split_selector hnames.isAsciiAlphanumeric
  · intro left t right hl hr
    rw [resolve?, resolve?, Text.trim_append_blanks hl hr]
  · intro t rest mark hend hbare hmark hline
    exact resolve?_append_trailer hend hbare hmark hline

/-- The address of a page in the older store. -/
def webstoreAddress : Address where
  isSecure := true
  host := "Chrome.Google.com"
  isInWebstore := true
  slug := "a_b-1"
  id := "AbC9"
  isClosed := true
  trailer := none

/-- The address is resolved to the identifier with its case, also with a query and with
blanks. -/
theorem resolve?_grammar_webstoreAddress :
    webstoreAddress.text =
    ("https://Chrome.Google.com/webstore/detail/a_b-1/AbC9/" : Text) ∧
    resolve? webstoreAddress.text = some ("AbC9" : Text) ∧
    resolve? (webstoreAddress.text ++ ('?' : CodePoint) :: ("id=1#2" : Text)) = some
    ("AbC9" : Text) ∧
    resolve? (("\t" : Text) ++ webstoreAddress.text ++ (" \n" : Text)) = some
    ("AbC9" : Text) ∧
    ("AbC9" : Text) <:+: webstoreAddress.text := by
  obtain ⟨haccept, -, hbare, -, -, hresult, hblank, htrailer⟩ := resolve?_grammar
  have hpage : webstoreAddress.IsStorePage := by
    refine ⟨⟨by decide, by decide, by decide, by decide, ?_, ?_⟩, by decide⟩
      <;> rintro mark rest ⟨⟩
  have htrim : Text.trim webstoreAddress.text = webstoreAddress.text := by decide
  have hresolve : resolve? webstoreAddress.text = some ("AbC9" : Text) := by
    refine (haccept (.text webstoreAddress.text) _).mpr ⟨_, rfl, ?_⟩
    rw [htrim]
    exact .page hpage
  have hnotBare : isBare (Text.trim webstoreAddress.text) = false := by
    rw [htrim]
    exact hbare webstoreAddress
  have hquery :=
    htrailer webstoreAddress.text ("id=1#2" : Text) '?' (by decide) hnotBare (.inl rfl)
    (by decide)
  have hblanks :=
    hblank ("\t" : Text) webstoreAddress.text (" \n" : Text) (by decide) (by decide)
  exact ⟨rfl, hresolve, hquery.trans hresolve, hblanks.trans hresolve,
    (hresult _ _ hresolve).2.2.1⟩

end Identifier

end ExtensionAudit
