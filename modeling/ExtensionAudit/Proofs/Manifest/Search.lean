import ExtensionAudit.Proofs.Json.Address
import ExtensionAudit.Proofs.Json.Parts
import ExtensionAudit.Proofs.Score.Policy

/-!
# Manifest — the policy that is found

What the search for the policy finds, said without the search. A hit is a member that is
named for the policy and holds a text that is not empty. It is blocked if on the way to
it, in the object that holds it or in one further up, a member named for the policy
comes earlier and ends the search there, which every value does that is no number and no
flag. The search finds the first hit that is not blocked
(`Manifest.policy?_first_open`).
-/

namespace ExtensionAudit.Manifest

open Json

/-! ## Hits -/

/-- At the address there is a member named for the policy that holds this text, which is
not empty. -/
def IsHit (value : Json) (address : List Nat) (t : Text) : Prop :=
  ∃ above index name, address = above ++ [index] ∧
    value.HasMember above index (name, .text t) ∧
    isPolicyName name = true ∧ t ≠ []

/-- A value with which the search ends at a member named for the policy. -/
inductive EndsSearch : Json → Prop
  | text (t : Text) : EndsSearch (.text t)
  | null : EndsSearch .null
  | array (elements : List Json) : EndsSearch (.array elements)
  | object (members : Entries Json) : EndsSearch (.object members)

/-- In some object on the way to the address, a member named for the policy with which
the search ends comes before the member that the way goes through. -/
def IsBlocked (value : Json) (address : List Nat) : Prop :=
  ∃ above index below earlier name held, address = above ++ index :: below ∧
    earlier < index ∧
    value.HasMember above earlier (name, held) ∧ isPolicyName name = true ∧
    EndsSearch held

/-- A hit that is not blocked. -/
def IsOpen (value : Json) (address : List Nat) (t : Text) : Prop :=
  IsHit value address t ∧ ¬ IsBlocked value address

variable {value : Json} {index : Nat} {rest : List Nat} {t : Text}

theorem not_isHit_nil : ¬ IsHit value [] t := by
  rintro ⟨above, index, name, haddress, -⟩
  exact List.append_ne_nil_of_right_ne_nil above (List.cons_ne_nil index []) haddress.symm

theorem not_isBlocked_nil : ¬ IsBlocked value [] := by
  rintro ⟨above, index, below, earlier, name, held, haddress, -⟩
  exact List.append_ne_nil_of_right_ne_nil above
    (List.cons_ne_nil index below) haddress.symm

theorem not_isOpen_nil : ¬ IsOpen value [] t := fun h => not_isHit_nil h.1

/-- A hit is a member of the value itself, or a hit in one of its parts. -/
theorem isHit_cons_iff :
    IsHit value (index :: rest) t ↔
      (rest = [] ∧ ∃ name, value.HasMember [] index (name, .text t) ∧
        isPolicyName name = true ∧ t ≠ []) ∨
      ∃ child, value.children[index]? = some child ∧ IsHit child rest t := by
  constructor
  · rintro ⟨above, last, name, haddress, hmember, hname, hne⟩
    cases above with
    | nil =>
      obtain ⟨rfl, rfl⟩ := List.cons.inj haddress
      exact .inl ⟨rfl, name, hmember, hname, hne⟩
    | cons first above =>
      obtain ⟨rfl, rfl⟩ := List.cons.inj haddress
      obtain ⟨child, hchild, hmember⟩ := hasMember_cons_iff.mp hmember
      exact .inr ⟨child, hchild, above, last, name, rfl, hmember, hname, hne⟩
  · rintro (⟨rfl, name, hmember, hname, hne⟩ | ⟨child, hchild, above, last, name, rfl,
      hmember, hname, hne⟩)
    · exact ⟨[], index, name, rfl, hmember, hname, hne⟩
    · exact ⟨index :: above, last, name, rfl,
        hasMember_cons_iff.mpr ⟨child, hchild, hmember⟩, hname, hne⟩

/-- An earlier member of the value itself is named for the policy and ends the search. -/
def IsBarred (value : Json) (index : Nat) : Prop :=
  ∃ earlier name held, earlier < index ∧ value.HasMember [] earlier (name, held) ∧
    isPolicyName name = true ∧
    EndsSearch held

/-- A way is blocked in the value itself, or in the part that it goes through. -/
theorem isBlocked_cons_iff :
    IsBlocked value (index :: rest) ↔
      IsBarred value index ∨ ∃ child, value.children[index]? = some child ∧
      IsBlocked child rest := by
  constructor
  · rintro ⟨above, place, below, earlier, name, held, haddress, hlt,
      hmember, hname, hends⟩
    cases above with
    | nil =>
      obtain ⟨rfl, rfl⟩ := List.cons.inj haddress
      exact .inl ⟨earlier, name, held, hlt, hmember, hname, hends⟩
    | cons first above =>
      obtain ⟨rfl, rfl⟩ := List.cons.inj haddress
      obtain ⟨child, hchild, hmember⟩ := hasMember_cons_iff.mp hmember
      exact .inr ⟨child, hchild, above, place, below, earlier, name, held, rfl, hlt,
        hmember, hname, hends⟩
  · rintro (⟨earlier, name, held, hlt, hmember, hname, hends⟩ |
      ⟨child, hchild, above, place, below, earlier, name, held, rfl, hlt, hmember,
        hname, hends⟩)
    · exact ⟨[], index, rest, earlier, name, held, rfl, hlt, hmember, hname, hends⟩
    · exact ⟨index :: above, place, below, earlier, name, held, rfl, hlt,
        hasMember_cons_iff.mpr ⟨child, hchild, hmember⟩, hname, hends⟩

/-- An open hit is a member of the value itself, or an open hit in one of its parts,
with nothing that ends the search before it. -/
theorem isOpen_cons_iff :
    IsOpen value (index :: rest) t ↔ ¬ IsBarred value index ∧
      ((rest = [] ∧ ∃ name, value.HasMember [] index (name, .text t) ∧
        isPolicyName name = true ∧ t ≠ []) ∨
      ∃ child, value.children[index]? = some child ∧ IsOpen child rest t) := by
  rw [IsOpen, isHit_cons_iff, isBlocked_cons_iff, not_or, and_left_comm]
  refine and_congr_right fun _ => ?_
  constructor
  · rintro ⟨hhere | ⟨child, hchild, hhit⟩, hfree⟩
    · exact .inl hhere
    · exact .inr ⟨child, hchild, hhit, fun hblocked => hfree ⟨child, hchild, hblocked⟩⟩
  · rintro (⟨rfl, hhere⟩ | ⟨child, hchild, hhit, hopen⟩)
    · exact ⟨.inl ⟨rfl, hhere⟩, fun ⟨_, _, hblocked⟩ => not_isBlocked_nil hblocked⟩
    · refine ⟨.inr ⟨child, hchild, hhit⟩, ?_⟩
      rintro ⟨other, hother, hblocked⟩
      cases hchild.symm.trans hother
      exact hopen hblocked

/-! ## Arrays and objects -/

theorem not_isBarred_array (elements : List Json) :
    ¬ IsBarred (.array elements) index := by
  rintro ⟨earlier, name, held, -, hmember, -⟩
  obtain ⟨members, h, -⟩ := hasMember_nil_iff.mp hmember
  cases h

theorem isOpen_array_iff {elements : List Json} :
    IsOpen (.array elements) (index :: rest) t ↔
    ∃ child, elements[index]? = some child ∧ IsOpen child rest t := by
  rw [isOpen_cons_iff, and_iff_right (not_isBarred_array elements), or_iff_right]
  · rfl
  · rintro ⟨-, name, hmember, -⟩
    obtain ⟨members, h, -⟩ := hasMember_nil_iff.mp hmember
    cases h

/-- No element of an array is a hit itself. -/
theorem splits_array (element : Json) (others : List Json) :
    Splits (IsOpen (.array (element :: others))) (IsOpen element)
      (IsOpen (.array others)) where
  nil _ := not_isOpen_nil
  zero address t := by simp [isOpen_array_iff]
  succ index address t := by simp [isOpen_array_iff]

theorem isBarred_object_iff {members : Entries Json} :
    IsBarred (.object members) index ↔ ∃ earlier name held, earlier < index ∧
      members[earlier]? = some (name, held) ∧ isPolicyName name = true ∧
      EndsSearch held := by
  simp only [IsBarred, hasMember_nil_iff, Json.object.injEq, exists_eq_left']

theorem isOpen_object_iff {members : Entries Json} :
    IsOpen (.object members) (index :: rest) t ↔ ¬ IsBarred (.object members) index ∧
      ∃ name held, members[index]? = some (name, held) ∧
        ((rest = [] ∧ held = .text t ∧ isPolicyName name = true ∧ t ≠ []) ∨
          IsOpen held rest t) := by
  rw [isOpen_cons_iff]
  refine and_congr_right fun _ => ?_
  simp only [hasMember_nil_iff, Json.object.injEq, exists_eq_left', Json.children,
    List.getElem?_map, Option.map_eq_some_iff]
  constructor
  · rintro (⟨hrest, name, hmember, hname, hne⟩ | ⟨child,
      ⟨⟨name, held⟩, hmember, rfl⟩, hopen⟩)
    · exact ⟨name, _, hmember, .inl ⟨hrest, rfl, hname, hne⟩⟩
    · exact ⟨name, held, hmember, .inr hopen⟩
  · rintro ⟨name, held, hmember, ⟨hrest, rfl, hname, hne⟩ | hopen⟩
    · exact .inl ⟨hrest, name, hmember, hname, hne⟩
    · exact .inr ⟨held, ⟨(name, held), hmember, rfl⟩, hopen⟩

theorem isBarred_succ_iff {name : Text} {held : Json} {others : Entries Json} :
    IsBarred (.object ((name, held) :: others)) (index + 1) ↔
      (isPolicyName name = true ∧ EndsSearch held) ∨ IsBarred (.object others) index := by
  simp only [isBarred_object_iff]
  constructor
  · rintro ⟨earlier, found, value, hlt, hmember, hname, hends⟩
    cases earlier with
    | zero =>
      obtain ⟨rfl, rfl⟩ := Prod.mk.inj (Option.some.inj hmember)
      exact .inl ⟨hname, hends⟩
    | succ earlier =>
      exact .inr ⟨earlier, found, value, Nat.lt_of_succ_lt_succ hlt,
        hmember, hname, hends⟩
  · rintro (⟨hname, hends⟩ | ⟨earlier, found, value, hlt, hmember, hname, hends⟩)
    · exact ⟨0, name, held, Nat.succ_pos index, rfl, hname, hends⟩
    · exact ⟨earlier + 1, found, value, Nat.succ_lt_succ hlt, hmember, hname, hends⟩

/-- The first member of an object is a hit itself, or has hits in it, and may bar the
way to the others. -/
theorem splits_object (name : Text) (held : Json) (others : Entries Json) :
    Splits (IsOpen (.object ((name, held) :: others)))
      (fun address t => (address = [] ∧ held = .text t ∧ isPolicyName name = true ∧
        t ≠ []) ∨ IsOpen held address t)
      (fun address t => ¬ (isPolicyName name = true ∧ EndsSearch held) ∧
        IsOpen (.object others) address t) where
  nil _ := not_isOpen_nil
  zero address t := by
    have hfree : ¬ IsBarred (.object ((name, held) :: others)) 0 := by
      rintro ⟨earlier, -, -, hlt, -⟩
      exact Nat.not_lt_zero earlier hlt
    simp [isOpen_object_iff, hfree]
  succ index address t := by
    rw [isOpen_object_iff, isOpen_object_iff, isBarred_succ_iff, not_or, and_assoc]
    rfl

/-! ## The search -/

theorem not_isOpen_of_leaf (hleaf : value.isContainer = false)
    (address : List Nat) (t : Text) :
    ¬ IsOpen value address t := by
  intro h
  cases address with
  | nil => exact not_isOpen_nil h
  | cons index rest =>
    rcases (isOpen_cons_iff.mp h).2 with ⟨-, name, hmember, -⟩ | ⟨child, hchild, -⟩
    · obtain ⟨members, rfl, -⟩ := hasMember_nil_iff.mp hmember
      cases hleaf
    · cases value <;> first | cases hchild | cases hleaf

theorem finds_elements {elements : List Json}
    (h : ∀ element ∈ elements, Finds (IsOpen element) (policy? element)) :
    Finds (IsOpen (.array elements)) (policyInElements elements) := by
  induction elements with
  | nil =>
    refine .nothing fun address t hopen => ?_
    cases address with
    | nil => exact not_isOpen_nil hopen
    | cons index rest =>
      obtain ⟨child, hchild, -⟩ := isOpen_array_iff.mp hopen
      cases hchild
  | cons element others ih =>
    obtain ⟨helement, hothers⟩ := List.forall_mem_cons.mp h
    have hsplit := splits_array element others
    rw [policyInElements]
    split
    · next c t hfound => exact .ofFirst hsplit (hfound ▸ helement) (List.cons_ne_nil c t)
    · next hfound =>
      refine .ofOthers hsplit (helement.not_found fun t hne ht => ?_)
        (fun _ => not_isOpen_nil) (ih hothers)
      cases t with
      | nil => exact hne rfl
      | cons c t => exact hfound c t ht

/-- A member that is named for the policy ends the search with what it comes to. -/
theorem finds_named {name : Text} (hname : isPolicyName name = true) {held : Json}
    (hends : EndsSearch held) (hheld : Finds (IsOpen held) (policy? held))
    (others : Entries Json) :
    Finds (IsOpen (.object ((name, held) :: others)))
      (policyInMembers ((name, held) :: others)) := by
  have hsplit : Splits (IsOpen (.object ((name, held) :: others)))
      (fun address t => (address = [] ∧ held = .text t ∧ t ≠ []) ∨
        IsOpen held address t) fun _ _ => False :=
    (splits_object name held others).congr (fun address t => by simp [hname])
      fun address t => by simp [hname, hends]
  rw [policyInMembers.eq_def]
  simp only [hname, if_true]
  cases hends with
  | text t =>
    have hleaf : ∀ address u, ¬ IsOpen (.text t) address u := not_isOpen_of_leaf rfl
    refine .alone hsplit ?_
    by_cases hne : t = []
    · subst hne
      exact .empty (by simp [hleaf])
    · -- The text itself comes first, and nothing else is open.
      refine .first ⟨.inl ⟨rfl, rfl, hne⟩, ?_⟩ hne
      rintro other u (⟨rfl, -⟩ | hopen)
      · exact .inl rfl
      · exact absurd hopen (hleaf other u)
  | null =>
    have hleaf : ∀ address u, ¬ IsOpen .null address u := not_isOpen_of_leaf rfl
    exact .alone hsplit (.nothing (by simp [hleaf]))
  | array elements =>
    exact .alone (hsplit.congr (fun address t => by simp) fun _ _ => Iff.rfl) hheld
  | object members =>
    exact .alone (hsplit.congr (fun address t => by simp) fun _ _ => Iff.rfl) hheld

theorem policyInMembers_named_of_leaf {name : Text} (hname : isPolicyName name = true)
    {held : Json} (hends : ¬ EndsSearch held) (others : Entries Json) :
    policyInMembers ((name, held) :: others) = policyInMembers others := by
  rw [policyInMembers.eq_def]
  simp only [hname, if_true]
  cases held with
  | null => exact absurd .null hends
  | text t => exact absurd (.text t) hends
  | array elements => exact absurd (.array elements) hends
  | object members => exact absurd (.object members) hends
  | _ => rfl

theorem isContainer_of_not_endsSearch {held : Json}
    (hends : ¬ EndsSearch held) : held.isContainer = false := by
  cases held with
  | array elements => exact absurd (.array elements) hends
  | object members => exact absurd (.object members) hends
  | _ => rfl

theorem finds_members {members : Entries Json}
    (h : ∀ entry ∈ members, Finds (IsOpen entry.2) (policy? entry.2)) :
    Finds (IsOpen (.object members)) (policyInMembers members) := by
  -- A member that is called so ends the search among the members, if it is of a kind
  -- that can; any other one is searched, and after it the rest.
  induction members with
  | nil =>
    refine .nothing fun address t hopen => ?_
    cases address with
    | nil => exact not_isOpen_nil hopen
    | cons index rest =>
      obtain ⟨-, name, held, hmember, -⟩ := isOpen_object_iff.mp hopen
      cases hmember
  | cons entry others ih =>
    obtain ⟨name, held⟩ := entry
    obtain ⟨hheld, hothers⟩ := List.forall_mem_cons.mp h
    by_cases hname : isPolicyName name = true
    · by_cases hends : EndsSearch held
      · exact finds_named hname hends hheld others
      · -- A number or a flag is passed over, whatever its member is called.
        have hleaf := not_isOpen_of_leaf (isContainer_of_not_endsSearch hends)
        have hsplit : Splits (IsOpen (.object ((name, held) :: others))) (IsOpen held)
            (IsOpen (.object others)) := by
          refine (splits_object name held others).congr (fun address t =>
            or_iff_right ?_) fun address t =>
            and_iff_right fun hboth => hends hboth.2
          rintro ⟨-, rfl, -⟩
          exact hends (.text t)
        rw [policyInMembers_named_of_leaf hname hends]
        exact .ofOthers hsplit hleaf (fun _ => not_isOpen_nil) (ih hothers)
    · have hsplit : Splits (IsOpen (.object ((name, held) :: others))) (IsOpen held)
          (IsOpen (.object others)) :=
        (splits_object name held others).congr (fun address t => by simp [hname])
          fun address t => by simp [hname]
      rw [policyInMembers.eq_def]
      simp only [if_neg hname]
      split
      · next c t hfound => exact .ofFirst hsplit (hfound ▸ hheld) (List.cons_ne_nil c t)
      · next hfound =>
        refine .ofOthers hsplit (hheld.not_found fun t hne ht => ?_)
          (fun _ => not_isOpen_nil) (ih hothers)
        cases t with
        | nil => exact hne rfl
        | cons c t => exact hfound c t ht

/-- What the search of a document comes to. -/
theorem finds_policy? (value : Json) : Finds (IsOpen value) (policy? value) := by
  induction value using Json.induction with
  | leaf value hleaf =>
    have hnone : policy? value = none := by cases value <;> first | rfl | cases hleaf
    rw [hnone]
    exact .nothing (not_isOpen_of_leaf hleaf)
  | array elements ih =>
    rw [policy?]
    exact finds_elements ih
  | object members ih =>
    rw [policy?]
    exact finds_members ih

/-! ## What is passed over -/

/-- An element that has no parts is passed over, also if it is a text. -/
theorem policyInElements_insert {element : Json} (hleaf : element.isContainer = false)
    (first rest : List Json) :
    policyInElements (first ++ element :: rest) = policyInElements (first ++ rest) := by
  induction first with
  | nil =>
    have hnone : policy? element = none := by cases element <;> first | rfl | cases hleaf
    rw [List.nil_append, List.nil_append, policyInElements, hnone]
  | cons other more ih =>
    rw [List.cons_append, List.cons_append, policyInElements, policyInElements, ih]

/-- A member with a number or a flag is passed over, also if it is named for the
policy. -/
theorem policyInMembers_insert {held : Json} (hends : ¬ EndsSearch held) (name : Text)
    (first rest : Entries Json) :
    policyInMembers (first ++ (name, held) :: rest) =
      policyInMembers (first ++ rest) := by
  induction first with
  | nil =>
    by_cases hname : isPolicyName name = true
    · exact policyInMembers_named_of_leaf hname hends rest
    · have hleaf := isContainer_of_not_endsSearch hends
      have hnone : policy? held = none := by cases held <;> first | rfl | cases hleaf
      rw [List.nil_append, List.nil_append, policyInMembers.eq_def]
      simp only [if_neg hname, hnone]
  | cons other more ih =>
    obtain ⟨found, value⟩ := other
    rw [List.cons_append, List.cons_append, policyInMembers.eq_def,
      policyInMembers.eq_def]
    simp only [ih]

/-! ## The first open hit -/

theorem policy_eq_noPolicy_iff {value : Json} :
    Score.policy value = (Score.noPolicyScore, .noPolicy) ↔ ∀ t, t ≠ [] →
    policy? value ≠ some t :=
  ⟨fun h => Score.policy_noPolicy_iff.mp (congrArg Prod.snd h),
    Score.policy_of_not_located⟩

/-- **The policy that is found.** If there is an open hit, the search finds the text of
the first one in the order of the document; otherwise it finds nothing or an empty text,
and exactly then the price of having no policy is charged. Whatever an array holds is
passed over unless it has parts, and so is a member with a number or a flag. -/
theorem policy?_first_open (manifest : Json) :
    ((∃ address t, IsOpen manifest address t) →
      ∃ address t, IsFirst (IsOpen manifest) address t ∧ policy? manifest = some t) ∧
    ((∀ address t, ¬ IsOpen manifest address t) → policy? manifest = none ∨
      policy? manifest = some []) ∧
    (Score.policy manifest = (25, .noPolicy) ↔ ∀ address t, ¬ IsOpen manifest address t) ∧
    (∀ element : Json, element.isContainer = false → ∀ first rest,
      policy? (.array (first ++ element :: rest)) = policy? (.array (first ++ rest))) ∧
    ∀ held, ¬ EndsSearch held → ∀ name first rest,
      policy? (.object (first ++ (name, held) :: rest)) =
        policy? (.object (first ++ rest)) := by
  have hcharged : Score.policy manifest = (25, .noPolicy) ↔ ∀ t, t ≠ [] →
      policy? manifest ≠ some t :=
    policy_eq_noPolicy_iff
  have hfinds := finds_policy? manifest
  refine ⟨?_, ?_, ?_, fun element hleaf first rest => ?_,
    fun held hends name first rest => ?_⟩
  · intro ⟨address, t, hopen⟩
    generalize policy? manifest = result at hfinds
    cases hfinds with
    | first hfirst hne => exact ⟨_, _, hfirst, rfl⟩
    | nothing h => exact absurd hopen (h address t)
    | empty h => exact absurd hopen (h address t)
  · intro hnone
    generalize policy? manifest = result at hfinds
    cases hfinds with
    | first hfirst hne => exact absurd hfirst.isFound (hnone _ _)
    | nothing h => exact .inl rfl
    | empty h => exact .inr rfl
  · rw [hcharged]
    constructor
    · intro hresult address t
      exact hfinds.not_found hresult address t
    · intro hnone t hne ht
      rw [ht] at hfinds
      cases hfinds with
      | first hfirst _ => exact hnone _ _ hfirst.isFound
      | empty h => exact hne rfl
  · rw [policy?, policy?, policyInElements_insert hleaf]
  · rw [policy?, policy?, policyInMembers_insert hends]

/-- A manifest with a flag for its policy, an object in which the policy is blocked, and
one in an array in which it is not. -/
def scatteredPolicyManifest : Json :=
  .object [
    ("Content_Security_Policy", .bool true),
    ("app", .object [(policyName, .null),
      ("sandbox", .object [(policyName, .text "img-src a")])]),
    ("pages", .array [.text "x",
      .object [("CONTENT_SECURITY_POLICY", .text "img-src b")]]),
    ("rest", .object [(policyName, .text "img-src c")])]

/-- The policy in the array is open, so a policy is found in that manifest, and the
price of having none is not charged. -/
theorem policy?_scattered :
    IsOpen scatteredPolicyManifest [2, 1, 0] "img-src b" ∧
      (∃ address t, IsFirst (IsOpen scatteredPolicyManifest) address t ∧
        policy? scatteredPolicyManifest = some t) ∧
      Score.policy scatteredPolicyManifest ≠ (25, .noPolicy) := by
  have hopen : IsOpen scatteredPolicyManifest [2, 1, 0] "img-src b" := by
    refine isOpen_object_iff.mpr ⟨?_, _, _, rfl, .inr ?_⟩
    · rintro ⟨earlier, name, held, hlt, hmember, hname, hends⟩
      obtain ⟨members, hmembers, hmember⟩ := hasMember_nil_iff.mp hmember
      cases hmembers
      match earlier, hlt with
      | 0, _ => cases hmember; cases hends
      | 1, _ => cases hmember; cases hname
    · refine isOpen_array_iff.mpr ⟨_, rfl, ?_⟩
      refine isOpen_object_iff.mpr ⟨?_, _, _, rfl, .inl ⟨rfl, rfl, by decide, by decide⟩⟩
      rintro ⟨earlier, -, -, hlt, -⟩
      exact Nat.not_lt_zero earlier hlt
  obtain ⟨hfirst, -, hcharged, -⟩ := policy?_first_open scatteredPolicyManifest
  exact ⟨hopen, hfirst ⟨_, _, hopen⟩, fun h => hcharged.mp h _ _ hopen⟩

end ExtensionAudit.Manifest
