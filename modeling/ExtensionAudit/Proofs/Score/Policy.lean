import ExtensionAudit.Proofs.Entries
import ExtensionAudit.Proofs.Text
import ExtensionAudit.Score.Policy
import Mathlib.Algebra.GroupWithZero.Nat

/-!
# Score — the policy score and its details

A policy is cut into segments, and a segment into words: a directive and its sources.
The details of a policy are what a loop over the counted sources gathers under their
directives, so they can be read off its segments, and the details of two policies in a
row are those of the first with those of the second written over them. Written out as a
policy again, the details have the same details (`policy_auditable`).
-/

namespace ExtensionAudit.Score

/-! ## Segments -/

/-- The directive of a segment: its first word. -/
def directiveOf? (segment : Text) : Option Text := (Text.words segment).head?

/-- The sources of a segment that cost a point: its other words, without the extension
itself. -/
def chargedIn (segment : Text) : List Text :=
  (Text.words segment).tail.filter (· != ownSource)

/-- The counted sources of a segment, each with its directive. -/
def countedIn (segment : Text) : List (Text × Text) :=
  match directiveOf? segment with
  | none => []
  | some name => (chargedIn segment).map fun source => (name, source)

theorem countedSources_eq_flatMap (policy : Text) :
    countedSources policy = (Text.split ';' policy).flatMap countedIn := by
  rw [countedSources, directives]
  induction Text.split ';' policy with
  | nil => rfl
  | cons segment rest ih =>
    rw [List.flatMap_cons, ← ih, List.filterMap_cons, directive?, countedIn,
      directiveOf?, chargedIn]
    cases Text.words segment <;> rfl

theorem chargedIn_eq_nil {segment : Text} (h : directiveOf? segment = none) :
    chargedIn segment = [] := by
  rw [directiveOf?, List.head?_eq_none_iff] at h
  rw [chargedIn, h]
  rfl

theorem length_countedIn (segment : Text) : (countedIn segment).length =
    (chargedIn segment).length := by
  rw [countedIn]
  cases h : directiveOf? segment with
  | none =>
    rw [chargedIn_eq_nil h]
    rfl
  | some name => exact List.length_map _

theorem map_fst_countedIn (segment : Text) :
    (countedIn segment).map (·.1) = (chargedIn segment).filterMap fun _ =>
      directiveOf? segment := by
  rw [countedIn]
  cases h : directiveOf? segment with
  | none => simp
  | some name => simp [Function.comp_def]

theorem valuesFor_countedIn (name segment : Text) :
    Entries.valuesFor name (countedIn segment) =
      if directiveOf? segment == some name then chargedIn segment else [] := by
  rw [countedIn, Entries.valuesFor]
  cases h : directiveOf? segment with
  | none => rfl
  | some other =>
    by_cases heq : other = name
    · simp [heq, List.filter_map, Function.comp_def]
    · simp [heq, List.filter_map, Function.comp_def]

/-- The counted sources of a directive are those of its segments. -/
theorem valuesFor_countedSources (name policy : Text) :
    Entries.valuesFor name (countedSources policy) =
      ((Text.split ';' policy).filter fun segment => directiveOf? segment ==
        some name).flatMap chargedIn := by
  rw [countedSources_eq_flatMap]
  induction Text.split ';' policy with
  | nil => rfl
  | cons segment rest ih =>
    rw [List.flatMap_cons, Entries.valuesFor_append, ih, valuesFor_countedIn,
      List.filter_cons]
    split <;> rfl

theorem countedSources_append (first second : Text) :
    countedSources (first ++ ";" ++ second) =
      countedSources first ++ countedSources second := by
  have hsplit : Text.split ';' (first ++ ";" ++ second) =
      Text.split ';' first ++ Text.split ';' second := by
    rw [List.append_assoc]
    exact Text.split_append ';' first second
  rw [countedSources_eq_flatMap, countedSources_eq_flatMap, countedSources_eq_flatMap,
    hsplit, List.flatMap_append]

/-! ## What is gathered -/

/-- The sources of a directive with one more. -/
def appended (sources : Option (List Text)) (source : Text) : List Text :=
  sources.getD [] ++ [source]

theorem policyOf_eq_gather (policy : Text) :
    policyOf policy = ((countedSources policy).length,
      Entries.gather appended (countedSources policy)) := rfl

/-- The number of the sources in the details. -/
def total (details : Entries (List Text)) : Nat :=
  (details.map fun entry => entry.2.length).sum

theorem gatherValues_appended_some (old sources : List Text) :
    Entries.gatherValues appended (some old) sources = some (old ++ sources) := by
  induction sources generalizing old with
  | nil => simp [Entries.gatherValues]
  | cons source rest ih =>
    rw [Entries.gatherValues, List.foldl_cons, ← Entries.gatherValues, ih]
    simp [appended]

/-- The sources for one directive are gathered as they come. -/
theorem gatherValues_appended_eq_some_iff {sources gathered : List Text} :
    Entries.gatherValues appended none sources = some gathered ↔ sources ≠ [] ∧
    sources = gathered := by
  cases sources with
  | nil => simp [Entries.gatherValues]
  | cons source rest =>
    rw [Entries.gatherValues, List.foldl_cons, ← Entries.gatherValues,
      gatherValues_appended_some]
    simp [appended]

theorem getD_gatherValues_appended (sources : List Text) :
    (Entries.gatherValues appended none sources).getD [] = sources := by
  cases sources with
  | nil => rfl
  | cons source rest =>
    rw [gatherValues_appended_eq_some_iff.mpr ⟨List.cons_ne_nil _ _, rfl⟩,
      Option.getD_some]

theorem gather_appended_append (pairs more : List (Text × Text)) :
    Entries.gather appended (pairs ++ more) =
      (Entries.gather appended pairs).merge (· ++ ·) (Entries.gather appended more) := by
  refine Entries.gather_append (fun old source => rfl) (fun old new source =>
    ?_) pairs more
  exact List.append_assoc old new [source]

theorem total_alter_appended (name source : Text) (details : Entries (List Text)) :
    total (details.alter name fun sources => appended sources source) =
      total details + 1 := by
  induction details with
  | nil => rfl
  | cons entry rest ih =>
    obtain ⟨other, sources⟩ := entry
    simp only [total] at ih
    by_cases h : other = name
    · simp [Entries.alter, total, h, appended]
      omega
    · simp [Entries.alter, total, h, ih]
      omega

/-- Each source that comes is one more in the details. -/
theorem total_gather (pairs : List (Text × Text)) :
    total (Entries.gather appended pairs) = pairs.length := by
  induction pairs using List.reverseRecOn with
  | nil => rfl
  | append_singleton pairs pair ih =>
    rw [Entries.gather_concat, total_alter_appended, ih, List.length_append]; rfl

/-! ## Details that can be spelled -/

/-- A text that stands as one word in a segment. -/
structure IsWord (word : Text) : Prop where
  ne_nil : word ≠ []
  not_blank : ∀ c ∈ word, c.isBlank = false
  not_separator : (';' : CodePoint) ∉ word

/-- Details that a policy can have: each directive stands once, with sources that are
counted. -/
structure IsSpellable (details : Entries (List Text)) : Prop where
  distinct : details.Distinct
  directive : ∀ entry ∈ details, IsWord entry.1
  sources_ne_nil : ∀ entry ∈ details, entry.2 ≠ []
  source : ∀ entry ∈ details, ∀ source ∈ entry.2, IsWord source ∧ source ≠ ownSource

/-- The details as a policy: each directive with its sources, and the directives one
after another. -/
def spelled (details : Entries (List Text)) : Text :=
  Text.join ";" (details.map fun (name, sources) => Text.join " " (name :: sources))

theorem isWord_of_mem_words {policy segment word : Text}
    (hsegment : segment ∈ Text.split ';' policy) (h : word ∈ Text.words segment) :
    IsWord word := by
  obtain ⟨hpiece, hne⟩ := List.mem_filter.mp h
  refine ⟨bne_iff_ne.mp hne, Text.not_cut_of_mem_pieces hpiece, fun hmem => ?_⟩
  exact Text.not_mem_of_mem_split hsegment (Text.mem_of_mem_pieces hpiece _ hmem)

theorem mem_countedSources {policy name source : Text}
    (h : (name, source) ∈ countedSources policy) :
    IsWord name ∧ IsWord source ∧ source ≠ ownSource := by
  rw [countedSources_eq_flatMap, List.mem_flatMap] at h
  obtain ⟨segment, hsegment, h⟩ := h
  rw [countedIn] at h
  cases hname : directiveOf? segment with
  | none =>
    rw [hname] at h
    cases h
  | some other =>
    rw [hname] at h
    obtain ⟨_, hsource, heq⟩ := List.mem_map.mp h
    cases heq
    obtain ⟨hword, hne⟩ := List.mem_filter.mp hsource
    exact ⟨isWord_of_mem_words hsegment (List.mem_of_mem_head? hname),
      isWord_of_mem_words hsegment (List.mem_of_mem_tail hword), bne_iff_ne.mp hne⟩

/-- The details of a policy can be spelled. -/
theorem isSpellable_policyOf (policy : Text) : IsSpellable (policyOf policy).2 := by
  have hd : (policyOf policy).2.Distinct := Entries.distinct_gather appended _
  have hentry : ∀ entry ∈ (policyOf policy).2,
      entry.2 ≠ [] ∧ ∀ source ∈ entry.2, (entry.1, source) ∈ countedSources policy := by
    rintro ⟨name, sources⟩ hmem
    have hget := (Entries.get?_eq_some_iff hd).mpr hmem
    rw [policyOf_eq_gather, Entries.get?_gather,
      gatherValues_appended_eq_some_iff] at hget
    obtain ⟨hne, rfl⟩ := hget
    refine ⟨hne, fun source hsource => ?_⟩
    obtain ⟨⟨other, _⟩, hpair, rfl⟩ := List.mem_map.mp hsource
    obtain ⟨hpair, hother⟩ := List.mem_filter.mp hpair
    rwa [← beq_iff_eq.mp hother]
  refine ⟨hd, fun entry hmem => ?_, fun entry hmem => (hentry entry hmem).1,
    fun entry hmem source hsource => ?_⟩
  · obtain ⟨hne, hsources⟩ := hentry entry hmem
    obtain ⟨source, hsource⟩ := List.exists_mem_of_ne_nil _ hne
    exact (mem_countedSources (hsources source hsource)).1
  · exact (mem_countedSources ((hentry entry hmem).2 source hsource)).2

theorem words_join {words : List Text} (hne : words ≠ [])
    (h : ∀ word ∈ words, IsWord word) :
    Text.words (Text.join " " words) = words := by
  have hblank : CodePoint.isBlank (' ' : CodePoint) = true := rfl
  have hcut : Text.pieces CodePoint.isBlank (Text.join " " words) = words :=
    Text.pieces_join hblank hne fun word hword => (h word hword).not_blank
  rw [Text.words, hcut, List.filter_eq_self]
  exact fun word hword => bne_iff_ne.mpr (h word hword).ne_nil

theorem gather_directive {name : Text} {sources : List Text} (hne : sources ≠ []) :
    Entries.gather appended (sources.map fun source => (name, source)) =
      [(name, sources)] := by
  induction sources using List.reverseRecOn with
  | nil => exact absurd rfl hne
  | append_singleton sources source ih =>
    rw [List.map_append, List.map_singleton, Entries.gather_concat]
    cases sources with
    | nil => rfl
    | cons first rest =>
      rw [ih (List.cons_ne_nil first rest)]
      simp [Entries.alter, appended]

/-- Gathering the sources of details gives the details back. -/
theorem gather_details {details : Entries (List Text)} (hd : details.Distinct)
    (hne : ∀ entry ∈ details, entry.2 ≠ []) :
    Entries.gather appended (details.flatMap fun (name, sources) =>
      sources.map fun source => (name, source)) =
      details := by
  induction details with
  | nil => rfl
  | cons entry rest ih =>
    obtain ⟨name, sources⟩ := entry
    obtain ⟨hname, hrest⟩ := List.nodup_cons.mp hd
    obtain ⟨hsources, hne⟩ := List.forall_mem_cons.mp hne
    rw [List.flatMap_cons, gather_appended_append, ih hrest hne,
      gather_directive hsources, Entries.merge_singleton hname]

theorem countedSources_spelled {details : Entries (List Text)} (h : IsSpellable details)
    (hne : details ≠ []) :
    countedSources (spelled details) =
      details.flatMap fun (name, sources) => sources.map fun source =>
        (name, source) := by
  have hwords : ∀ entry ∈ details, ∀ word ∈ entry.1 :: entry.2, IsWord word :=
    fun entry hentry =>
    List.forall_mem_cons.mpr ⟨h.directive entry hentry,
      fun source hsource => (h.source entry hentry source hsource).1⟩
  have hsplit : Text.split ';' (spelled details) =
      details.map fun (name, sources) => Text.join " " (name :: sources) := by
    refine Text.split_join (by simpa using hne) fun part hpart hmem => ?_
    obtain ⟨entry, hentry, rfl⟩ := List.mem_map.mp hpart
    rcases Text.mem_or_of_mem_join hmem with hblank | ⟨word, hword, hmem⟩
    · exact absurd hblank (by decide)
    · exact (hwords entry hentry word hword).not_separator hmem
  rw [countedSources_eq_flatMap, hsplit, List.flatMap_map]
  refine List.flatMap_congr fun entry hentry => ?_
  obtain ⟨name, sources⟩ := entry
  have hcut := words_join (List.cons_ne_nil name sources) (hwords _ hentry)
  have hcharged : sources.filter (· != ownSource) = sources :=
    List.filter_eq_self.mpr fun source hsource =>
      bne_iff_ne.mpr (h.source _ hentry source hsource).2
  rw [countedIn, directiveOf?, chargedIn, hcut, List.tail_cons, hcharged]
  rfl

/-- **Spelling.** Details that can be spelled are the details of the policy that spells
them. -/
theorem policyOf_spelled {details : Entries (List Text)} (h : IsSpellable details)
    (hne : details ≠ []) :
    policyOf (spelled details) = (total details, details) := by
  have hgather := gather_details h.distinct h.sources_ne_nil
  rw [← countedSources_spelled h hne] at hgather
  rw [policyOf_eq_gather, ← total_gather, hgather]

/-! ## The score of a manifest -/

theorem policy_of_located {manifest : Json} {t : Text} (hne : t ≠ [])
    (h : Manifest.policy? manifest = some t) :
    Score.policy manifest = (total (policyOf t).2, .sources (policyOf t).2) := by
  have htotal : total (policyOf t).2 = (policyOf t).1 := total_gather (countedSources t)
  rw [Score.policy, h, htotal]
  cases t with
  | nil => exact absurd rfl hne
  | cons c rest => rfl

theorem policy_of_not_located {manifest : Json}
    (h : ∀ t, t ≠ [] → Manifest.policy? manifest ≠ some t) :
    Score.policy manifest = (noPolicyScore, .noPolicy) := by
  rw [Score.policy]
  cases hlocated : Manifest.policy? manifest with
  | none => rfl
  | some t =>
    cases t with
    | nil => rfl
    | cons c rest => exact absurd hlocated (h _ (List.cons_ne_nil c rest))

theorem policy_noPolicy_iff {manifest : Json} :
    (Score.policy manifest).2 = .noPolicy ↔ ∀ t, t ≠ [] →
    Manifest.policy? manifest ≠ some t := by
  constructor
  · intro h t hne ht
    rw [policy_of_located hne ht] at h
    cases h
  · intro h
    rw [policy_of_not_located h]

/-- The mark that there is no policy is a text, and never a list of sources. -/
theorem toJson_eq_noPolicy_iff {details : PolicyDetails} :
    details.toJson = .object [("noCSP", .text "NO CSP DEFINED")] ↔
    details = .noPolicy := by
  cases details with
  | noPolicy => exact iff_of_true rfl rfl
  | sources byDirective =>
    refine iff_of_false (fun h => ?_) nofun
    rw [PolicyDetails.toJson, Json.object.injEq] at h
    cases byDirective with
    | nil => cases h
    | cons entry rest =>
      exact Json.noConfusion (congrArg Prod.snd (List.cons_eq_cons.mp h).1)

/-- **The policy score can be audited.** The details say that there is no policy exactly
if none was located, or an empty one. Otherwise the score is the number of the sources
in the details, which is the number of the charged words of the segments; under each
directive stand the charged words of its segments, in order, and the directives stand in
the order of their first charged word. Two policies in a row have the sum of their
scores, and the details of the first with those of the second written after them. If
there are details, the policy that spells them has the same ones, and the same score. -/
theorem policy_auditable (manifest : Json) :
    ((Score.policy manifest).2.toJson = .object [("noCSP", .text "NO CSP DEFINED")] ↔
      ∀ t, t ≠ [] → Manifest.policy? manifest ≠ some t) ∧
    ∀ t, t ≠ [] → Manifest.policy? manifest = some t → ∃ details : Entries (List Text),
      Score.policy manifest = (total details, .sources details) ∧
      total details =
        ((Text.split ';' t).map fun segment => (chargedIn segment).length).sum ∧
      (∀ name, (details.get? name).getD [] =
        ((Text.split ';' t).filter fun segment => directiveOf? segment ==
          some name).flatMap chargedIn) ∧
      details.keys =
        ((Text.split ';' t).flatMap fun segment =>
          (chargedIn segment).filterMap fun _ => directiveOf? segment).eraseDups ∧
      (∀ other both t', t' ≠ [] → Manifest.policy? other = some t' →
        Manifest.policy? both = some (t ++ ";" ++ t') → ∃ details' : Entries (List Text),
          Score.policy other = (total details', .sources details') ∧
          Score.policy both = (total details + total details',
            .sources (details.merge (· ++ ·) details'))) ∧
      (details ≠ [] → ∀ again, Manifest.policy? again = some (spelled details) →
        Score.policy again = Score.policy manifest) := by
  refine ⟨toJson_eq_noPolicy_iff.trans policy_noPolicy_iff, fun t hne ht => ?_⟩
  have hdetails : (policyOf t).2 = Entries.gather appended (countedSources t) := rfl
  refine ⟨(policyOf t).2, policy_of_located hne ht, ?_, fun name => ?_, ?_, ?_, ?_⟩
  · rw [hdetails, total_gather, countedSources_eq_flatMap, List.length_flatMap]
    exact congrArg _ (List.map_congr_left fun segment _ => length_countedIn segment)
  · rw [hdetails, Entries.get?_gather, getD_gatherValues_appended,
      valuesFor_countedSources]
  · rw [hdetails, Entries.keys_gather, countedSources_eq_flatMap, List.map_flatMap]
    exact congrArg _ (List.flatMap_congr fun segment _ => map_fst_countedIn segment)
  · intro other both t' hne' hother hboth
    refine ⟨(policyOf t').2, policy_of_located hne' hother, ?_⟩
    have hsum : (policyOf (t ++ ";" ++ t')).2 =
        (policyOf t).2.merge (· ++ ·) (policyOf t').2 := by
      rw [policyOf_eq_gather, countedSources_append]
      exact gather_appended_append _ _
    have htotal : total (policyOf (t ++ ";" ++ t')).2 =
        total (policyOf t).2 + total (policyOf t').2 := by
      rw [policyOf_eq_gather, policyOf_eq_gather, policyOf_eq_gather, total_gather,
        total_gather, total_gather, countedSources_append, List.length_append]
    rw [policy_of_located (by simp [hne]) hboth, htotal, hsum]
  · intro hdne again hagain
    have hspelled := policyOf_spelled (isSpellable_policyOf t) hdne
    have hsne : spelled (policyOf t).2 ≠ [] := by
      intro hnil
      rw [hnil] at hspelled
      exact hdne (congrArg Prod.snd hspelled).symm
    rw [policy_of_located hsne hagain, policy_of_located hne ht, hspelled]

/-- A manifest with the policy at its root. -/
def policyManifest (policy : Text) : Json := .object [(Manifest.policyName, .text policy)]

theorem policy?_policyManifest (policy : Text) :
    Manifest.policy? (policyManifest policy) = some policy := by
  have hname : Manifest.isPolicyName Manifest.policyName = true := by decide
  rw [policyManifest, Manifest.policy?, Manifest.policyInMembers, if_pos hname]

/-- A policy in which a directive comes again, and another is called like the mark that
there is none. -/
def repeatedPolicy : Text :=
  "script-src 'self' a.com a.com;; noCSP b.com ;script-src\ta.com; img-src 'self'"

/-- That policy has four counted sources, so it can be spelled from its details, and
with another one after it has the sum of the scores. -/
theorem policy_auditable_repeated :
    Manifest.policy? (policyManifest repeatedPolicy) = some repeatedPolicy ∧
      ∃ details : Entries (List Text), Score.policy (policyManifest repeatedPolicy) =
        (4, .sources details) ∧
        details.keys = ["script-src", "noCSP"] ∧
        Score.policy (policyManifest (spelled details)) =
          Score.policy (policyManifest repeatedPolicy) ∧
        (Score.policy (policyManifest (repeatedPolicy ++ ";" ++ repeatedPolicy))).1 =
          8 := by
  have hne : repeatedPolicy ≠ [] := by decide
  have hlocated := policy?_policyManifest repeatedPolicy
  obtain ⟨-, haudit⟩ := policy_auditable (policyManifest repeatedPolicy)
  obtain ⟨details, hpolicy, htotal, -, hkeys, hsum, hspelled⟩ :=
    haudit repeatedPolicy hne hlocated
  have hfour : total details = 4 := by rw [htotal]; decide +kernel
  have hdne : details ≠ [] := by
    rintro rfl
    cases hfour
  obtain ⟨details', hother, hboth⟩ :=
    hsum (policyManifest repeatedPolicy) _ repeatedPolicy hne hlocated
      (policy?_policyManifest _)
  have hsame : total details' = 4 :=
    (congrArg Prod.fst (hother.symm.trans hpolicy)).trans hfour
  refine ⟨hlocated, details, by rw [hpolicy, hfour], ?_,
    hspelled hdne _ (policy?_policyManifest _), ?_⟩
  · rw [hkeys]
    decide +kernel
  · rw [hboth, hfour, hsame]

end ExtensionAudit.Score
