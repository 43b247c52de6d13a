import ExtensionAudit.Manifest.Facts
import ExtensionAudit.Proofs.Json.Parts
import ExtensionAudit.Score.Policy

/-!
# Manifest — the two views of the policy

A report tells of the policy twice: the facts look at the member at the top of the
manifest, the score at what a search of the whole manifest finds. Where the name of the
policy is not to be found elsewhere or in another spelling, the search finds the text at
the top and nothing else (`Manifest.policy?_object`). So the two views differ just where
something other than a text stands there and is truthy.
-/

namespace ExtensionAudit.Manifest

/-! ## The search -/

/-- No member anywhere in the document has the name of the policy, in any case. -/
def LacksPolicy (value : Json) : Prop :=
  ∀ members, Json.Occurs (.object members) value →
    ∀ entry ∈ members, isPolicyName entry.1 = false

theorem LacksPolicy.of_leaf {value : Json} (hleaf : value.isContainer = false) :
    LacksPolicy value := by
  intro members inside
  cases inside.eq_of_leaf hleaf
  cases hleaf

theorem LacksPolicy.element {elements : List Json} {element : Json}
    (h : LacksPolicy (.array elements)) (hmem : element ∈ elements) :
    LacksPolicy element :=
  fun members inside => h members (.element hmem inside)

theorem LacksPolicy.member {members : Entries Json} {entry : Text × Json}
    (h : LacksPolicy (.object members)) (hmem : entry ∈ members) : LacksPolicy entry.2 :=
  fun deep inside => h deep (.member hmem inside)

theorem policyInElements_eq_none {elements : List Json}
    (h : ∀ element ∈ elements, policy? element = none) :
    policyInElements elements = none := by
  induction elements with
  | nil => rfl
  | cons element rest ih =>
    rw [List.forall_mem_cons] at h
    rw [policyInElements, h.1]
    exact ih h.2

theorem policyInMembers_cons {name : Text} {value : Json}
    (hname : isPolicyName name = false) (hvalue : policy? value = none)
    (rest : Entries Json) :
    policyInMembers ((name, value) :: rest) = policyInMembers rest := by
  rw [policyInMembers.eq_def]
  simp only [hname, Bool.false_eq_true, if_false, hvalue]

/-- Members that are not named for the policy and in which none is found are passed
over. -/
theorem policyInMembers_append {first : Entries Json}
    (hname : ∀ entry ∈ first, isPolicyName entry.1 = false)
    (hvalue : ∀ entry ∈ first, policy? entry.2 = none) (rest : Entries Json) :
    policyInMembers (first ++ rest) = policyInMembers rest := by
  induction first with
  | nil => rfl
  | cons entry more ih =>
    obtain ⟨name, value⟩ := entry
    rw [List.forall_mem_cons] at hname hvalue
    rw [List.cons_append, policyInMembers_cons hname.1 hvalue.1]
    exact ih hname.2 hvalue.2

theorem policyInMembers_eq_none {members : Entries Json}
    (hname : ∀ entry ∈ members, isPolicyName entry.1 = false)
    (hvalue : ∀ entry ∈ members, policy? entry.2 = none) :
    policyInMembers members = none := by
  have happend := policyInMembers_append hname hvalue []
  rw [List.append_nil] at happend
  exact happend

/-- Where nothing is named for the policy, none is found. -/
theorem policy?_eq_none {value : Json} (h : LacksPolicy value) :
    policy? value = none := by
  induction value using Json.induction with
  | leaf value hleaf => cases value <;> first | rfl | cases hleaf
  | array elements ih =>
    rw [policy?]
    exact policyInElements_eq_none fun element hmem => ih element hmem (h.element hmem)
  | object members ih =>
    rw [policy?]
    exact policyInMembers_eq_none (h members .here) fun entry hmem =>
      ih entry hmem (h.member hmem)

/-! ## A policy in its place -/

/-- A manifest in which the name of the policy stands, in any case, for at most one
member: one of the manifest itself, spelt as it should be. -/
structure HasPolicyInPlace (manifest : Entries Json) : Prop where
  once : (manifest.filter fun entry => isPolicyName entry.1).length ≤ 1
  spelt : ∀ entry ∈ manifest, isPolicyName entry.1 = true → entry.1 = policyName
  within : ∀ entry ∈ manifest, LacksPolicy entry.2

variable {manifest : Entries Json}

theorem isPolicyName_policyName : isPolicyName policyName = true := by decide

theorem get?_policyName_append {first : Entries Json}
    (h : ∀ entry ∈ first, isPolicyName entry.1 = false) (rest : Entries Json) :
    Entries.get? policyName (first ++ rest) = Entries.get? policyName rest := by
  induction first with
  | nil => rfl
  | cons entry more ih =>
    obtain ⟨name, value⟩ := entry
    rw [List.forall_mem_cons] at h
    have hne : (name == policyName) = false := by
      rw [beq_eq_false_iff_ne]
      rintro rfl
      exact Bool.false_ne_true (h.1.symm.trans isPolicyName_policyName)
    rw [List.cons_append, Entries.get?, hne, if_neg Bool.false_ne_true]
    exact ih h.2

/-- Either nothing in the manifest is named for the policy, or the policy stands among
members that are not. -/
theorem HasPolicyInPlace.cases (h : HasPolicyInPlace manifest) :
    (∀ entry ∈ manifest, isPolicyName entry.1 = false) ∨
    ∃ first value rest, manifest = first ++ (policyName, value) :: rest ∧
      (∀ entry ∈ first, isPolicyName entry.1 = false) ∧
      ∀ entry ∈ rest, isPolicyName entry.1 = false := by
  by_cases hany : ∃ entry ∈ manifest, isPolicyName entry.1 = true
  · obtain ⟨⟨name, value⟩, hmem, hname⟩ := hany
    obtain rfl : name = policyName := h.spelt _ hmem hname
    obtain ⟨first, rest, rfl⟩ := List.append_of_mem hmem
    have honce := h.once
    simp only [List.filter_append, List.filter_cons, hname, if_true, List.length_append,
      List.length_cons] at honce
    have hfirst : (first.filter fun entry => isPolicyName entry.1) = [] :=
      List.length_eq_zero_iff.mp (by omega)
    have hrest : (rest.filter fun entry => isPolicyName entry.1) = [] :=
      List.length_eq_zero_iff.mp (by omega)
    simp only [List.filter_eq_nil_iff, Bool.not_eq_true] at hfirst hrest
    exact .inr ⟨first, value, rest, rfl, hfirst, hrest⟩
  · simp only [not_exists, not_and, Bool.not_eq_true] at hany
    exact .inl hany

/-- The search finds the text that stands for the policy at the top, and nothing else. -/
theorem policy?_object (h : HasPolicyInPlace manifest) :
    policy? (.object manifest) =
      match Json.member policyName manifest with
      | .text t => some t
      | _ => none := by
  have hnone : ∀ entry ∈ manifest, policy? entry.2 = none :=
    fun entry hmem => policy?_eq_none (h.within entry hmem)
  rw [policy?]
  rcases h.cases with hname | ⟨first, value, rest, rfl, hfirst, hrest⟩
  · have habsent := get?_policyName_append hname []
    rw [List.append_nil] at habsent
    rw [policyInMembers_eq_none hname hnone, Json.member, habsent]
    rfl
  · have hmember :
        Json.member policyName (first ++ (policyName, value) :: rest) = value := by
      rw [Json.member, get?_policyName_append hfirst, Entries.get?,
        beq_self_eq_true, if_pos rfl]
      rfl
    simp only [List.forall_mem_append, List.forall_mem_cons] at hnone
    obtain ⟨hbefore, hvalue, hafter⟩ := hnone
    rw [hmember, policyInMembers_append hfirst hbefore, policyInMembers.eq_def]
    simp only [isPolicyName_policyName, if_true]
    -- A container ends the search with what is inside it, which is nothing; a number or
    -- a flag does not.
    cases value with
    | text t => rfl
    | null => rfl
    | array elements => exact hvalue
    | object members => exact hvalue
    | bool b => exact policyInMembers_eq_none hrest hafter
    | int n => exact policyInMembers_eq_none hrest hafter
    | float x => exact policyInMembers_eq_none hrest hafter

/-! ## The two views -/

/-- Do the facts tell of a policy? -/
def PolicyFact.isPresent : PolicyFact → Bool
  | .present _ => true
  | .missing => false

/-- The score charges the price of having no policy. -/
def IsCharged (manifest : Entries Json) : Prop :=
  Score.policy (.object manifest) = (Score.noPolicyScore, .noPolicy)

/-- The score counts the sources of this policy. -/
def IsScored (manifest : Entries Json) (policy : Text) : Prop :=
  Score.policy (.object manifest) =
    ((Score.policyOf policy).1, .sources (Score.policyOf policy).2)

theorem IsScored.not_isCharged {policy : Text} (h : IsScored manifest policy) :
    ¬ IsCharged manifest := by
  intro hcharged
  have hdetails := congrArg Prod.snd (h.symm.trans hcharged)
  cases hdetails

/-- A value that is truthy and not a text: true, a number other than zero, or an array
or object that is not empty. -/
inductive IsTruthyNonText : Json → Prop
  | number {value : Json} (h : Json.IsTruthyNumber value) : IsTruthyNonText value
  | array (element : Json) (rest : List Json) : IsTruthyNonText (.array (element :: rest))
  | object (entry : Text × Json) (rest : Entries Json) :
      IsTruthyNonText (.object (entry :: rest))

theorem IsTruthyNonText.isTruthy {value : Json} (h : IsTruthyNonText value) :
    value.isTruthy = true := by
  cases h with
  | number h => exact h.isTruthy
  | array element rest => rfl
  | object entry rest => rfl

theorem IsTruthyNonText.ne_text {value : Json} (h : IsTruthyNonText value) (t : Text) :
    value ≠ .text t := by
  rintro rfl
  cases h with
  | number h => cases h

/-- A value is falsy, or a text that is not empty, or truthy and not a text. -/
theorem falsy_or_text_or_truthy (value : Json) :
    value.isTruthy = false ∨ (∃ t, t ≠ [] ∧ value = .text t) ∨ IsTruthyNonText value := by
  rcases value.falsy_or_number_or_items with h | h | ⟨t, rfl⟩ | ⟨elements, rfl⟩ |
    ⟨members, rfl⟩
  · exact .inl h
  · exact .inr (.inr (.number h))
  · by_cases h : t = []
    · exact .inl (by simp [Json.isTruthy, h])
    · exact .inr (.inl ⟨t, h, rfl⟩)
  · cases elements with
    | nil => exact .inl rfl
    | cons element rest => exact .inr (.inr (.array element rest))
  · cases members with
    | nil => exact .inl rfl
    | cons entry rest => exact .inr (.inr (.object entry rest))

/-- What the facts and the score make of the value that stands for the policy at the
top. -/
inductive Views (manifest : Entries Json) (value : Json) (fact : PolicyFact) : Prop
  | absent (falsy : value.isTruthy = false) (missing : fact = .missing)
      (charged : IsCharged manifest)
  | shared (policy : Text) (nonempty : policy ≠ []) (text : value = .text policy)
    (present : fact = .present (.text policy)) (scored : IsScored manifest policy)
  | opposed (truthy : IsTruthyNonText value) (present : fact = .present value)
    (charged : IsCharged manifest)

theorem factsOf_policy (manifest : Entries Json) :
    (factsOf manifest).policy =
      if (Json.member policyName manifest).isTruthy
        then .present (Json.member policyName manifest)
      else .missing := by
  rw [policyName]
  cases h : (Json.member "content_security_policy" manifest).isTruthy
    <;> simp [factsOf, present?, h]

theorem isCharged_of_not_text (h : HasPolicyInPlace manifest)
    (hvalue : ∀ t, t ≠ [] → Json.member policyName manifest ≠ .text t) :
    IsCharged manifest := by
  rw [IsCharged, Score.policy, policy?_object h]
  generalize Json.member policyName manifest = value at hvalue
  cases value with
  | text t =>
    cases t with
    | nil => rfl
    | cons c rest => exact absurd rfl (hvalue _ (List.cons_ne_nil c rest))
  | _ => rfl

theorem isScored_of_text (h : HasPolicyInPlace manifest) {t : Text} (hne : t ≠ [])
    (hvalue : Json.member policyName manifest = .text t) : IsScored manifest t := by
  rw [IsScored, Score.policy, policy?_object h, hvalue]
  cases t with
  | nil => exact absurd rfl hne
  | cons c rest => rfl

theorem views (h : HasPolicyInPlace manifest) :
    Views manifest (Json.member policyName manifest) (factsOf manifest).policy := by
  rw [factsOf_policy]
  rcases falsy_or_text_or_truthy (Json.member policyName manifest) with hfalsy |
    ⟨t, hne, ht⟩ | htruthy
  · refine .absent hfalsy (by simp [hfalsy]) (isCharged_of_not_text h fun t hne ht => ?_)
    rw [ht] at hfalsy
    simp [Json.isTruthy, hne] at hfalsy
  · refine .shared t hne ht ?_ (isScored_of_text h hne ht)
    rw [ht, if_pos (by simp [Json.isTruthy, hne])]
  · exact .opposed htruthy (by simp [htruthy.isTruthy])
      (isCharged_of_not_text h fun t _ => htruthy.ne_text t)

/-- **The two views of the policy.** Where the policy is in its place, the facts and the
score agree, a policy being present just if none is missed, exactly if the facts tell of
none or of a text that is not empty; that text is the policy that is scored. They
contradict each other exactly if what stands there is truthy and not a text, and then a
policy is present and the price of having none is charged. -/
theorem policy_views_agree_iff (h : HasPolicyInPlace manifest) :
    ∃ facts, Manifest.facts (.object manifest) = .ok facts ∧
      ((facts.policy.isPresent = true ↔ ¬ IsCharged manifest) ↔
        facts.policy.isPresent = false ∨ ∃ t, t ≠ [] ∧
        facts.policy = .present (.text t)) ∧
      (∀ t, facts.policy = .present (.text t) → IsScored manifest t) ∧
      (¬ (facts.policy.isPresent = true ↔ ¬ IsCharged manifest) ↔
        IsTruthyNonText (Json.member policyName manifest)) ∧
      (IsTruthyNonText (Json.member policyName manifest) →
        facts.policy = .present (Json.member policyName manifest) ∧
        IsCharged manifest) := by
  refine ⟨factsOf manifest, rfl, ?_⟩
  cases views h with
  | absent falsy missing charged =>
    have hnot : ¬ IsTruthyNonText (Json.member policyName manifest) := by
      intro htruthy
      exact Bool.false_ne_true (falsy.symm.trans htruthy.isTruthy)
    simp [missing, PolicyFact.isPresent, charged, hnot]
  | shared policy nonempty text present scored =>
    have hnot : ¬ IsTruthyNonText (Json.member policyName manifest) := fun htruthy =>
      htruthy.ne_text policy text
    refine ⟨?_, ?_, ?_, fun htruthy => absurd htruthy hnot⟩
    · simp [present, PolicyFact.isPresent, scored.not_isCharged, nonempty]
    · intro t ht
      rw [present] at ht
      cases ht
      exact scored
    · simp [present, PolicyFact.isPresent, scored.not_isCharged, hnot]
  | opposed truthy present charged =>
    have hne : ∀ t, (factsOf manifest).policy ≠ .present (.text t) := by
      intro t ht
      rw [present] at ht
      exact truthy.ne_text t (PolicyFact.present.inj ht)
    refine ⟨?_, fun t ht => absurd ht (hne t), ?_, fun _ => ⟨present, charged⟩⟩
    · simp [present, PolicyFact.isPresent, charged, truthy.ne_text]
    · simp [present, PolicyFact.isPresent, charged, truthy]

/-- A manifest whose policy is an object with the policy of its pages. -/
def nestedPolicyManifest : Entries Json :=
  [("name", .text "x"),
    (policyName, .object [("extension_pages", .text "script-src 'self'")])]

theorem hasPolicyInPlace_nested : HasPolicyInPlace nestedPolicyManifest where
  once := by decide
  spelt := by decide
  within := by
    simp only [nestedPolicyManifest, List.forall_mem_cons, List.not_mem_nil,
      IsEmpty.forall_iff, implies_true, and_true]
    refine ⟨.of_leaf rfl, ?_⟩
    intro members inside
    cases inside with
    | here => decide
    | member hmem inside =>
      obtain rfl := List.mem_singleton.mp hmem
      exact LacksPolicy.of_leaf rfl members inside

/-- The facts of that manifest tell of the object as its policy, and the score charges
it for having none. -/
theorem policy_views_nested :
    HasPolicyInPlace nestedPolicyManifest ∧
      (factsOf nestedPolicyManifest).policy =
        .present (.object [("extension_pages", .text "script-src 'self'")]) ∧
      IsCharged nestedPolicyManifest := by
  obtain ⟨facts, hfacts, -, -, -, hopposed⟩ :=
    policy_views_agree_iff hasPolicyInPlace_nested
  obtain rfl := Except.ok.inj hfacts
  exact ⟨hasPolicyInPlace_nested, hopposed (.object _ [])⟩

end ExtensionAudit.Manifest
