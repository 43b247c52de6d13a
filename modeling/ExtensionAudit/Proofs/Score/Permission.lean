import ExtensionAudit.Proofs.Entries
import ExtensionAudit.Proofs.Text
import ExtensionAudit.Score.Permission
import Mathlib.Algebra.GroupWithZero.Nat
import Mathlib.Algebra.Order.BigOperators.Group.List
import Mathlib.Algebra.Order.Group.Nat

/-!
# Score — the permission score and its details

The score of the permissions is a sum over all entries of the two fields, so neither
their order nor the field they stand in matters. The details name each permission above
the least tier once, in the order in which they first came. What the score has beyond
the points of the named permissions are the points of those that stand there again
(`permissions_auditable`).
-/

namespace ExtensionAudit

/-! ## Repetitions -/

/-- The elements of a list that stand in it before their place already. -/
def repeatedIn (list : List Text) : List Text :=
  (list.zipIdx.filter fun (t, i) => (list.take i).contains t).map (·.1)

theorem repeatedIn_concat (list : List Text) (t : Text) :
    repeatedIn (list ++ [t]) = repeatedIn list ++ if t ∈ list then [t] else [] := by
  have hfront : list.zipIdx.filter (fun (u, i) => ((list ++ [t]).take i).contains u) =
      list.zipIdx.filter fun (u, i) => (list.take i).contains u := by
    refine List.filter_congr fun (u, i) hmem => ?_
    have hi : i < list.length := by
      have := (List.mem_zipIdx hmem).2.1
      omega
    show ((list ++ [t]).take i).contains u = (list.take i).contains u
    rw [List.take_append_of_le_length hi.le]
  rw [repeatedIn, List.zipIdx_append, List.filter_append, hfront,
    List.map_append, ← repeatedIn]
  by_cases h : t ∈ list <;> simp [h]

/-- What stands there for the first time and what stands there again make up the list. -/
theorem sum_map_eq_eraseDups_add_repeatedIn (weight : Text → Nat) (list : List Text) :
    (list.map weight).sum =
      (list.eraseDups.map weight).sum + ((repeatedIn list).map weight).sum := by
  induction list using List.reverseRecOn with
  | nil => rfl
  | append_singleton list t ih =>
    rw [repeatedIn_concat]
    by_cases h : t ∈ list
    · rw [eraseDups_concat_of_mem h]
      simp [h, ih]
      omega
    · rw [eraseDups_concat_of_not_mem h]
      simp [h, ih]
      omega

theorem nodup_filter_iff (p : Text → Bool) (list : List Text) :
    (list.filter p).Nodup ↔ ∀ t ∈ repeatedIn list, p t = false := by
  induction list using List.reverseRecOn with
  | nil => simp [repeatedIn]
  | append_singleton list t ih =>
    rw [repeatedIn_concat, List.filter_append, List.forall_mem_append, ← ih]
    cases hp : p t with
    | false => by_cases h : t ∈ list <;> simp [hp, h]
    | true =>
      by_cases h : t ∈ list <;> simp [hp, h, List.nodup_append]
      intro _ u hu _ heq
      exact h (heq ▸ hu)

namespace Score

/-! ## Tiers -/

theorem Tier.holds_ofString (tier : Tier) (name : String) :
    tier.holds (Text.ofString name) = tier.permissions.contains name := by
  rw [holds, List.contains_eq_any_beq]
  refine List.any_congr rfl fun other => ?_
  rw [Bool.eq_iff_iff, beq_iff_eq, beq_iff_eq, Text.ofString_injective.eq_iff, eq_comm]

/-- The tier of a name: the first one that lists it. -/
def tierOfName (name : String) : Tier :=
  ([.low, .medium, .high,
    .critical].find? fun tier : Tier => tier.permissions.contains name).getD .least

theorem tierOf_ofString (name : String) : tierOf name = tierOfName name := by
  rw [tierOf, tierOfName]
  simp only [Tier.holds_ofString]

/-- No permission is listed under two tiers. -/
theorem tierOf_of_mem {tier : Tier} {name : String}
    (h : name ∈ tier.permissions) : tierOf name = tier := by
  have hlow : ∀ name ∈ Tier.low.permissions, tierOfName name = .low := by decide +kernel
  have hmedium : ∀ name ∈ Tier.medium.permissions, tierOfName name =
      .medium := by decide +kernel
  have hhigh : ∀ name ∈ Tier.high.permissions, tierOfName name =
      .high := by decide +kernel
  have hcritical : ∀ name ∈ Tier.critical.permissions, tierOfName name =
      .critical := by decide +kernel
  rw [tierOf_ofString]
  cases tier with
  | least => cases h
  | low => exact hlow name h
  | medium => exact hmedium name h
  | high => exact hhigh name h
  | critical => exact hcritical name h

theorem exists_mem_of_tierOf {permission : Text} (h : tierOf permission ≠ .least) :
    ∃ name ∈ (tierOf permission).permissions, permission = Text.ofString name := by
  rw [tierOf] at h ⊢
  cases hfound :
    [Tier.low, .medium, .high, .critical].find? (Tier.holds · permission) with
  | none =>
    rw [hfound] at h
    exact absurd rfl h
  | some tier =>
    have hholds := List.find?_some (p := (Tier.holds · permission)) hfound
    obtain ⟨name, hname, heq⟩ := List.any_eq_true.mp hholds
    exact ⟨name, hname, (beq_iff_eq.mp heq).symm⟩

theorem tierOf_eq_iff {permission : Text} {tier : Tier} (h : tier ≠ .least) :
    tierOf permission = tier ↔ ∃ name ∈ tier.permissions, permission =
      Text.ofString name := by
  constructor
  · rintro rfl
    exact exists_mem_of_tierOf h
  · rintro ⟨name, hname, rfl⟩
    exact tierOf_of_mem hname

theorem Tier.points_eq_zero_iff {tier : Tier} : tier.points = 0 ↔ tier = .least := by
  cases tier <;> simp [Tier.points]

theorem Tier.points_le (tier : Tier) : tier.points ≤ 4 := by
  cases tier <;> decide

/-- The points of a permission. -/
def pointsOf (permission : Text) : Nat := (tierOf permission).points

/-! ## What is asked for -/

/-- The entries of a field: none if it is absent or null, the elements of an array, and
any other value by itself. -/
def askedIn (field : Text) (manifest : Entries Json) : List Json :=
  match manifest.get? field with
  | none | some .null => []
  | some (.array entries) => entries
  | some value => [value]

/-- What a manifest asks for: the entries of the one field and then those of the other. -/
def asked (manifest : Entries Json) : List Json :=
  askedIn "permissions" manifest ++ askedIn "optional_permissions" manifest

theorem listed_member (field : Text) (manifest : Entries Json) :
    (Json.member field manifest).listed = askedIn field manifest := by
  rw [Json.member, askedIn]
  cases manifest.get? field with
  | none => rfl
  | some value => cases value <;> rfl

theorem permissionEntries_eq (manifest : Entries Json) :
    permissionEntries manifest = asked manifest := by
  rw [permissionEntries, listed_member, listed_member, asked]

/-- The text that an entry is. -/
def text? : Json → Option Text
  | .text t => some t
  | _ => none

/-- The texts among the entries, in order. -/
def textsIn (entries : List Json) : List Text := entries.filterMap text?

/-- The texts among the entries that are above the least tier, in order. -/
def chargedAmong (entries : List Json) : List Text :=
  (textsIn entries).filter fun t => tierOf t != .least

theorem chargedAmong_append (entries others : List Json) :
    chargedAmong (entries ++ others) = chargedAmong entries ++ chargedAmong others := by
  rw [chargedAmong, textsIn, List.filterMap_append, List.filter_append]
  rfl

/-! ## The sum -/

/-- The score of entries: the sum of their points. -/
def scoreOf (entries : List Json) : Nat :=
  (entries.map fun entry => (tier entry).points).sum

theorem permissionsOf_fst (manifest : Entries Json) :
    (permissionsOf manifest).1 = scoreOf (asked manifest) := by
  rw [permissionsOf, scoreOf, permissionEntries_eq, List.sum, List.foldr_map]

theorem scoreOf_perm {entries others : List Json}
    (h : entries.Perm others) : scoreOf entries = scoreOf others :=
  (h.map _).sum_eq

theorem scoreOf_le (entries : List Json) : scoreOf entries ≤ 4 * entries.length := by
  induction entries with
  | nil => rfl
  | cons entry rest ih =>
    have hentry := (tier entry).points_le
    simp only [scoreOf, List.map_cons, List.sum_cons, List.length_cons] at ih ⊢
    omega

theorem points_tier_eq_zero_iff {entry : Json} :
    (tier entry).points = 0 ↔ ∀ tier : Tier, ∀ name ∈ tier.permissions, entry ≠
      .text (Text.ofString name) := by
  rw [Tier.points_eq_zero_iff]
  constructor
  · rintro h tier name hname rfl
    have hleast : tier = .least := (tierOf_of_mem hname).symm.trans h
    rw [hleast] at hname
    cases hname
  · intro h
    cases entry with
    | text t =>
      by_contra hne
      obtain ⟨name, hname, rfl⟩ := exists_mem_of_tierOf hne
      exact h _ name hname rfl
    | _ => rfl

/-- Only texts have points. -/
theorem scoreOf_eq (entries : List Json) :
    scoreOf entries = ((textsIn entries).map pointsOf).sum := by
  induction entries with
  | nil => rfl
  | cons entry rest ih =>
    have hcons : scoreOf (entry :: rest) = (tier entry).points + scoreOf rest := rfl
    rw [hcons, ih]
    cases entry with
    | text t => rfl
    | _ => exact Nat.zero_add _

theorem sum_points_filter (texts : List Text) :
    ((texts.filter fun t => tierOf t != .least).map pointsOf).sum =
      (texts.map pointsOf).sum := by
  induction texts with
  | nil => rfl
  | cons t rest ih =>
    by_cases h : tierOf t = .least
    · have hzero : pointsOf t = 0 := Tier.points_eq_zero_iff.mpr h
      simp [h, ih, hzero]
    · simp [h, ih]

/-- The score is that of the distinct permissions and that of the repeated ones. -/
theorem scoreOf_eq_add (entries : List Json) :
    scoreOf entries = ((chargedAmong entries).eraseDups.map pointsOf).sum +
      ((repeatedIn (textsIn entries)).map pointsOf).sum := by
  rw [scoreOf_eq, sum_map_eq_eraseDups_add_repeatedIn, chargedAmong, eraseDups_filter,
    sum_points_filter]

theorem sum_repeated_eq_zero_iff (entries : List Json) :
    ((repeatedIn (textsIn entries)).map pointsOf).sum = 0 ↔
    (chargedAmong entries).Nodup := by
  rw [chargedAmong, nodup_filter_iff, List.sum_eq_zero_iff (M := Nat)]
  simp [pointsOf, Tier.points_eq_zero_iff]

/-! ## The details -/

/-- A permission with its message. -/
def told (permission : Text) : Text × Text := (permission, permissionMessage permission)

/-- The details take in the permissions above the least tier one after another. -/
theorem foldl_addPermission (entries : List Json) :
    entries.foldl addPermission [] =
      Entries.gather (fun _ message => message) ((chargedAmong entries).map told) := by
  induction entries using List.reverseRecOn with
  | nil => rfl
  | append_singleton entries entry ih =>
    rw [List.foldl_append, ih, chargedAmong_append, List.map_append]
    cases entry with
    | text t =>
      by_cases h : tierOf t = .least
      · have hnone : chargedAmong [.text t] =
            [] := by simp [chargedAmong, textsIn, text?, h]
        simp [hnone, addPermission, h]
      · have hone : chargedAmong [.text t] = [t] := by
          simp [chargedAmong, textsIn, text?, h]
        rw [hone, List.map_singleton, told, Entries.gather_concat]
        simp [addPermission, h, Entries.put]
    | _ =>
      show _ = Entries.gather _ (_ ++ [])
      rw [List.append_nil]
      rfl

theorem message_of_mem {entries : List Json} {entry : Text × Text}
    (h : entry ∈ entries.foldl addPermission []) :
    entry.2 = permissionMessage entry.1 := by
  induction entries using List.reverseRecOn with
  | nil => cases h
  | append_singleton entries last ih =>
    rw [List.foldl_append] at h
    cases last with
    | text t =>
      by_cases hleast : tierOf t = .least
      · exact ih (by simpa [addPermission, hleast] using h)
      · have hput : entry ∈
            Entries.put t (permissionMessage t) (entries.foldl addPermission []) := by
          simpa [addPermission, hleast] using h
        rcases Entries.mem_put hput with hold | rfl
        · exact ih hold
        · rfl
    | _ => exact ih h

theorem keys_details (entries : List Json) :
    Entries.keys (entries.foldl addPermission []) = (chargedAmong entries).eraseDups := by
  have hkeys : ((chargedAmong entries).map told).map (·.1) = chargedAmong entries := by
    rw [List.map_map]
    exact List.map_id _
  rw [foldl_addPermission, Entries.keys_gather, hkeys]

theorem get?_details {entries : List Json} {key : Text}
    (h : key ∈ Entries.keys (entries.foldl addPermission [])) :
    Entries.get? key (entries.foldl addPermission []) = some (permissionMessage key) := by
  have hd : Entries.Distinct (entries.foldl addPermission []) := by
    rw [foldl_addPermission]
    exact Entries.distinct_gather _ _
  obtain ⟨entry, hentry, rfl⟩ := List.mem_map.mp h
  rw [Entries.get?_eq_some_iff hd, ← message_of_mem hentry]
  exact hentry

/-! ## The permissions -/

/-- **The permission score can be audited.** A manifest always has one: the sum of the
points of all entries that it asks for. An entry has none exactly if no tier lists it,
so what is not a text has none; it has those of the tier that lists it, of which there
is one at most. So the score is the same for the same entries in any order and in either
field, and at most four for each. The details name the permissions above the least tier,
each once and in the order in which they first came, with the tier of each. What the
score is beyond the points of these are the points of the entries that stand there
again, and it is nothing more exactly if no permission above the least tier does. -/
theorem permissions_auditable (manifest : Entries Json) :
    ∃ score details, permissions (.object manifest) = .ok (score, details) ∧
      score = ((asked manifest).map fun entry => (tier entry).points).sum ∧
      (∀ entry, (tier entry).points = 0 ↔
        ∀ tier : Tier, ∀ name ∈ tier.permissions, entry ≠ .text (Text.ofString name)) ∧
      (∀ permission tier, tier ≠ .least →
        (tierOf permission = tier ↔ ∃ name ∈ tier.permissions, permission =
          Text.ofString name)) ∧
      (∀ other, (asked manifest).Perm (asked other) →
        ∃ details', permissions (.object other) = .ok (score, details')) ∧
      score ≤ 4 * (asked manifest).length ∧
      details.keys = (chargedAmong (asked manifest)).eraseDups ∧
      (∀ key ∈ details.keys, details.get? key =
        some ("Permission '" ++ key ++ "' classified as " ++
          (tierOf key).name ++ " risk.")) ∧
      score = (details.keys.map pointsOf).sum +
        ((repeatedIn (textsIn (asked manifest))).map pointsOf).sum ∧
      (score = (details.keys.map pointsOf).sum ↔
        (chargedAmong (asked manifest)).Nodup) := by
  have hresult : permissions (.object manifest) =
      .ok (scoreOf (asked manifest), (asked manifest).foldl addPermission []) := by
    rw [← permissionsOf_fst, ← permissionEntries_eq]
    rfl
  refine ⟨_, _, hresult, rfl, fun entry => points_tier_eq_zero_iff,
    fun permission tier => tierOf_eq_iff, ?_,
    scoreOf_le _, keys_details _, fun key hkey => get?_details hkey, ?_, ?_⟩
  · intro other hperm
    refine ⟨(permissionsOf other).2, ?_⟩
    rw [scoreOf_perm hperm, ← permissionsOf_fst]
    rfl
  · rw [keys_details]
    exact scoreOf_eq_add _
  · rw [keys_details, ← sum_repeated_eq_zero_iff, scoreOf_eq_add]
    omega

/-- A manifest that asks for one permission in both fields, and for something that is no
permission. -/
def repeatingManifest : Entries Json :=
  [("permissions", .array ["cookies", "tabs", .int 4]), ("optional_permissions", "tabs")]

/-- The same entries, all of them optional. -/
def optionalManifest : Entries Json :=
  [("permissions", .null), ("optional_permissions", .array ["tabs", "cookies",
    .int 4, "tabs"])]

/-- The repeated permission counts twice and is named once, and the score is that of the
other manifest. -/
theorem permissions_auditable_repeated :
    ∃ details, permissions (.object repeatingManifest) = .ok (8, details) ∧
      (∃ details', permissions (.object optionalManifest) = .ok (8, details')) ∧
      tierOf "tabs" = .medium ∧
      details.keys = ["cookies", "tabs"] ∧
      details.get? "tabs" = some "Permission 'tabs' classified as medium risk." := by
  obtain ⟨score, details, hresult, hscore, -, htier, hperm, -, hkeys, hget, -, -⟩ :=
    permissions_auditable repeatingManifest
  have hcookies : tierOf "cookies" = .critical :=
    (htier _ .critical nofun).mpr ⟨"cookies", .head _, rfl⟩
  have htabs : tierOf "tabs" = .medium :=
    (htier _ .medium nofun).mpr ⟨"tabs", by decide, rfl⟩
  have hasked : asked repeatingManifest =
      ([.text "cookies", .text "tabs", .int 4, .text "tabs"] : List Json) := rfl
  have height : score = 8 := by
    rw [hscore, hasked]
    simp [tier, hcookies, htabs, Tier.points]
  have hnamed : details.keys = ["cookies", "tabs"] := by
    have htexts : textsIn (asked repeatingManifest) = ["cookies", "tabs", "tabs"] := rfl
    have hcharged : chargedAmong (asked repeatingManifest) =
        ["cookies", "tabs", "tabs"] := by
      rw [chargedAmong, htexts]
      simp [hcookies, htabs]
    rw [hkeys, hcharged]
    decide
  subst height
  refine ⟨details, hresult, hperm optionalManifest (.swap _ _ _), htabs, hnamed, ?_⟩
  rw [hget _ (by simp [hnamed]), htabs]
  rfl

end Score

end ExtensionAudit
