import ExtensionAudit.Proofs.Number
import ExtensionAudit.Request.Fault
import Mathlib.Tactic.Common

/-!
# Fetch — the faults that no caller is told of

A fetch that gives no package tells of the exchange, with two exceptions: the response
declares its length in digits that are not an integer, or a size has to be told that is
too large for a double. When these happen is said of the response alone
(`Response.IsUnreadable`, `Response.IsUntellable`), and `untold_iff` says that the fetch
fails in these ways just then, and in no other that a caller is not told of.
-/

namespace ExtensionAudit.Fetch

/-! ## What a response declares -/

/-- The header for the length consists of digits of some kind. -/
structure Response.Spells (r : Response) (t : Text) : Prop where
  header : r.header? "content-length" = some t
  nonempty : t ≠ []
  digits : ∀ c ∈ t, c.isDigit = true

/-- The length that a response declares: the number that its header spells in decimal
digits, and none where it spells none. -/
inductive Response.Declares (r : Response) : Int → Prop
  | length {t : Text} (spells : r.Spells t)
      (decimal : ∀ c ∈ t, Numeral.isDecimal c = true)
    (few : t.length ≤ Numeral.digitLimit) :
      r.Declares (Numeral.ofDigits (t.map Numeral.digitValue))
  | none (silent : ∀ t, ¬ r.Spells t) : r.Declares 0

/-- The header for the length consists of digits that are not an integer: one of them is
not decimal, or there are too many. -/
def Response.IsUnreadable (r : Response) : Prop :=
  ∃ t, r.Spells t ∧
    ((∃ c ∈ t, Numeral.isDecimal c = false) ∨ Numeral.digitLimit < t.length)

variable {r : Response} {limit : Int} {interruption : Option Text}

theorem Response.Declares.nonneg {n : Int} (h : r.Declares n) : 0 ≤ n := by
  cases h with
  | length spells decimal few => exact Int.natCast_nonneg _
  | none silent => exact Int.le_refl 0

theorem declaredLength_of_spells {t : Text} (h : r.Spells t) :
    r.declaredLength = (Numeral.readInt t).mapError .badLength := by
  have hdigits : (t != [] && t.all CodePoint.isDigit) = true := by
    simpa [h.nonempty] using h.digits
  rw [Response.declaredLength, h.header]
  simp only [hdigits, if_true]

theorem declaredLength_of_silent (h : ∀ t, ¬ r.Spells t) : r.declaredLength = .ok 0 := by
  rw [Response.declaredLength]
  cases hheader : r.header? "content-length" with
  | none => rfl
  | some t =>
    have hdigits : ¬ (t != [] && t.all CodePoint.isDigit) = true := by
      intro hdigits
      simp only [Bool.and_eq_true, bne_iff_ne, List.all_eq_true] at hdigits
      exact h t ⟨hheader, hdigits.1, hdigits.2⟩
    simp only [hdigits, Bool.false_eq_true, if_false]

/-- Either a length is declared and read, or the digits are not an integer and that is
what is objected. -/
theorem declaredLength_cases (r : Response) :
    (∃ n, r.Declares n ∧ r.declaredLength = .ok n) ∨
      r.IsUnreadable ∧ ∃ fault, r.declaredLength = .error (.badLength fault) := by
  by_cases hspells : ∃ t, r.Spells t
  · obtain ⟨t, ht⟩ := hspells
    rw [declaredLength_of_spells ht]
    rcases Numeral.readInt_cases ht.nonempty ht.digits with ⟨⟨hdecimal, hfew⟩, h⟩ |
      ⟨hbad, fault, h⟩
    · rw [h]
      exact .inl ⟨_, .length ht hdecimal hfew, rfl⟩
    · rw [h]
      exact .inr ⟨⟨t, ht, hbad⟩, fault, rfl⟩
  · rw [not_exists] at hspells
    exact .inl ⟨0, .none hspells, declaredLength_of_silent hspells⟩

theorem Response.Declares.not_isUnreadable {n : Int}
    (h : r.Declares n) : ¬ r.IsUnreadable := by
  rintro ⟨t, ht, hbad⟩
  cases h with
  | length spells decimal few =>
    obtain rfl := Option.some.inj (ht.header.symm.trans spells.header)
    rcases hbad with ⟨c, hmem, hc⟩ | hmany
    · exact Bool.false_ne_true (hc.symm.trans (decimal c hmem))
    · exact absurd few (Nat.not_le_of_lt hmany)
  | none silent => exact silent t ht

theorem Response.Declares.unique {m n : Int} (hm : r.Declares m)
    (hn : r.Declares n) : m = n := by
  cases hm with
  | length spells =>
    cases hn with
    | length spells' =>
      obtain rfl := Option.some.inj (spells.header.symm.trans spells'.header)
      rfl
    | none silent => exact absurd spells (silent _)
  | none silent =>
    cases hn with
    | length spells => exact absurd spells (silent _)
    | none => rfl

/-! ## Sizes that cannot be told -/

/-- A size that is too large for a double, in bytes if it is less than 1024 of them,
otherwise in kilobytes. -/
def IsUntellable (n : Int) : Prop := n ≤ -Binary64.overflow ∨ 1024 * Binary64.overflow ≤ n

theorem sizeText_cases (n : Int) :
    (¬ IsUntellable n ∧ ∃ t, sizeText n = .ok t) ∨
      IsUntellable n ∧ ∃ misuse, sizeText n = .error (.badSize misuse) := by
  rw [sizeText, IsUntellable]
  rcases Size.ofInt_cases n with ⟨hn, h⟩ | ⟨hn, h⟩ | ⟨hn, t, h⟩
  · rw [h]
    exact .inr ⟨.inl hn, _, rfl⟩
  · rw [h]
    exact .inr ⟨.inr hn, _, rfl⟩
  · rw [h]
    exact .inl ⟨by omega, t, rfl⟩

/-- A size has to be told and cannot be: the response declares or has a body beyond the
limit, and the size declared or the limit is too large. -/
def Response.IsUntellable (r : Response) (limit : Int) : Prop :=
  ∃ n, r.Declares n ∧
    ((limit < n ∧ (Fetch.IsUntellable n ∨ Fetch.IsUntellable limit)) ∨
      (n ≤ limit ∧ limit < r.chunks.flatten.length ∧ Fetch.IsUntellable limit))

/-! ## The body -/

/-- A body that stays within the limit is read to its end or to where it is cut off. -/
theorem readBody_of_le {chunks : List Bytes} {body : Bytes}
    (h : ((body ++ chunks.flatten).length : Int) ≤ limit) :
    (readBody limit interruption body chunks).2 =
      match interruption with
      | some reason => .error (.interrupted reason)
      | none => .ok (body ++ chunks.flatten) := by
  induction chunks generalizing body with
  | nil =>
    simp only [List.flatten_nil, List.append_nil]
    rfl
  | cons chunk rest ih =>
    rw [List.flatten_cons, ← List.append_assoc] at h ⊢
    have hfits : (chunk != [] && decide (limit < (body ++ chunk).length)) = false := by
      simp only [List.length_append] at h ⊢
      simp only [Bool.and_eq_false_iff, decide_eq_false_iff_not]
      right
      omega
    simp only [readBody, hfits, Bool.false_eq_true, if_false]
    exact ih h

/-- A body that grows beyond the limit is given up, and the limit is told. -/
theorem readBody_of_lt {chunks : List Bytes}
    {body : Bytes} (hbody : (body.length : Int) ≤ limit)
    (h : limit < (body ++ chunks.flatten).length) :
    (readBody limit interruption body chunks).2 =
      (do .error (.tooLong (← sizeText limit))) := by
  induction chunks generalizing body with
  | nil =>
    rw [List.flatten_nil, List.append_nil] at h
    omega
  | cons chunk rest ih =>
    rw [List.flatten_cons, ← List.append_assoc] at h
    by_cases hover : limit < (body ++ chunk).length
    · have hchunk : chunk ≠ [] := by
        rintro rfl
        rw [List.append_nil] at hover
        omega
      have hgiven : (chunk != [] && decide (limit < (body ++ chunk).length)) = true := by
        rw [Bool.and_eq_true, bne_iff_ne, decide_eq_true_eq]
        exact ⟨hchunk, hover⟩
      simp only [readBody, hgiven, if_true]
    · simp only [readBody, hover, decide_false, Bool.and_false,
        Bool.false_eq_true, if_false]
      exact ih (by omega) h

/-! ## The faults -/

/-- The response is not refused for its status or the kind of its content. -/
structure Response.IsOffered (r : Response) : Prop where
  accepted : r.isRejected = false
  package : r.isPage = false

/-- A package, or a fault of the kind that a caller of a fetch is told of. -/
def IsTold : Except Fault Bytes → Prop
  | .ok _ => True
  | .error fault => (ExtensionAudit.Fault.fetch fault).kind = .fetch

variable {terms : Terms} {id : Text}

theorem isTold_of_refused (h : ¬ r.IsOffered) : IsTold (r.package terms id).2 := by
  rw [Response.package, Response.read, Response.admit]
  cases hrejected : r.isRejected with
  | true =>
    rw [if_pos rfl]
    by_cases hstatus : (r.status == 404) = true
    · rw [if_pos hstatus]
      rfl
    · rw [if_neg hstatus]
      rfl
  | false =>
    have hpage : r.isPage = true := by
      by_contra hpage
      exact h ⟨hrejected, Bool.not_eq_true _ ▸ hpage⟩
    rw [if_neg Bool.false_ne_true, if_pos hpage]
    rfl

theorem Response.IsUntellable.of_declares {n : Int} (hn : r.Declares n)
    (h : r.IsUntellable limit) :
    (limit < n ∧ (Fetch.IsUntellable n ∨ Fetch.IsUntellable limit)) ∨
      (n ≤ limit ∧ limit < r.chunks.flatten.length ∧ Fetch.IsUntellable limit) := by
  obtain ⟨m, hm, h⟩ := h
  obtain rfl := hm.unique hn
  exact h

theorem admit_of_isOffered (h : r.IsOffered) :
    r.admit terms id = (do
      let declared ← r.declaredLength
      if terms.limit < declared then
        .error (.declaredTooLong (← sizeText declared) (← sizeText terms.limit))
      else .ok ()) := by
  unfold Response.admit
  rw [h.accepted, h.package, if_neg Bool.false_ne_true, if_neg Bool.false_ne_true]

/-- A length beyond the limit is told together with the limit, if both can be told. -/
theorem package_of_beyond (h : r.IsOffered) {n : Int} (hread : r.declaredLength = .ok n)
    (hbeyond : terms.limit < n) :
    (IsTold (r.package terms id).2 ∧ ¬ IsUntellable n ∧ ¬ IsUntellable terms.limit) ∨
      (IsUntellable n ∨ IsUntellable terms.limit) ∧
        ∃ misuse, (r.package terms id).2 = .error (.badSize misuse) := by
  have hadmit : r.admit terms id = (do
      .error (.declaredTooLong (← sizeText n) (← sizeText terms.limit))) := by
    rw [admit_of_isOffered h, hread]
    exact if_pos hbeyond
  rw [Response.package, Response.read, hadmit]
  rcases sizeText_cases n with ⟨hn, t, ht⟩ | ⟨hn, misuse, ht⟩
  · rw [ht]
    rcases sizeText_cases terms.limit with ⟨hlimit, u, hu⟩ | ⟨hlimit, misuse, hu⟩
    · rw [hu]
      exact .inl ⟨rfl, hn, hlimit⟩
    · rw [hu]
      exact .inr ⟨.inr hlimit, misuse, rfl⟩
  · rw [ht]
    exact .inr ⟨.inl hn, misuse, rfl⟩

/-- Where the length is not beyond the limit, the body is read, and the limit told if
the body is. -/
theorem package_of_within (h : r.IsOffered) {n : Int} (hread : r.declaredLength = .ok n)
    (hnonneg : 0 ≤ n) (hwithin : n ≤ terms.limit) :
    (IsTold (r.package terms id).2 ∧
      ¬ (terms.limit < r.chunks.flatten.length ∧ IsUntellable terms.limit)) ∨
      (terms.limit < r.chunks.flatten.length ∧ IsUntellable terms.limit) ∧
        ∃ misuse, (r.package terms id).2 = .error (.badSize misuse) := by
  have hadmit : r.admit terms id = .ok () := by
    rw [admit_of_isOffered h, hread]
    exact if_neg (Int.not_lt.mpr hwithin)
  have hpackage : (r.package terms id).2 =
      (readBody terms.limit r.interruption [] r.chunks).2 := by
    rw [Response.package, Response.read, hadmit]
  rw [hpackage]
  by_cases hlong : terms.limit < r.chunks.flatten.length
  · rw [readBody_of_lt (by simpa using Int.le_trans hnonneg hwithin)
      (by simpa using hlong)]
    rcases sizeText_cases terms.limit with ⟨hlimit, t, ht⟩ | ⟨hlimit, misuse, ht⟩
    · rw [ht]
      exact .inl ⟨rfl, fun hbad => hlimit hbad.2⟩
    · rw [ht]
      exact .inr ⟨⟨hlong, hlimit⟩, misuse, rfl⟩
  · rw [readBody_of_le (by simpa using hlong)]
    refine .inl ⟨?_, fun hbad => hlong hbad.1⟩
    cases r.interruption with
    | none => exact trivial
    | some reason => rfl

theorem package_of_declares (h : r.IsOffered) {n : Int} (hn : r.Declares n)
    (hread : r.declaredLength = .ok n) :
    (IsTold (r.package terms id).2 ∧ ¬ r.IsUntellable terms.limit) ∨
      r.IsUntellable terms.limit ∧ ∃ misuse, (r.package terms id).2 =
        .error (.badSize misuse) := by
  by_cases hbeyond : terms.limit < n
  · rcases package_of_beyond h hread hbeyond with ⟨htold, hsize, hlimit⟩ | ⟨hbad, hmisuse⟩
    · refine .inl ⟨htold, fun huntellable => ?_⟩
      rcases huntellable.of_declares hn with ⟨-, hbad⟩ | ⟨hwithin, -⟩
      · exact hbad.elim hsize hlimit
      · omega
    · exact .inr ⟨⟨n, hn, .inl ⟨hbeyond, hbad⟩⟩, hmisuse⟩
  · have hwithin : n ≤ terms.limit := Int.not_lt.mp hbeyond
    rcases package_of_within h hread hn.nonneg hwithin with ⟨htold, hgood⟩ |
      ⟨hbad, hmisuse⟩
    · refine .inl ⟨htold, fun huntellable => ?_⟩
      rcases huntellable.of_declares hn with ⟨hlt, -⟩ | ⟨-, hbad⟩
      · omega
      · exact hgood hbad
    · exact .inr ⟨⟨n, hn, .inr ⟨hwithin, hbad⟩⟩, hmisuse⟩

theorem package_of_isUnreadable (h : r.IsOffered) {fault : Numeral.Fault}
    (hread : r.declaredLength = .error (.badLength fault)) :
    (r.package terms id).2 = .error (.badLength fault) := by
  rw [Response.package, Response.read, admit_of_isOffered h, hread]
  rfl

/-- What becomes of a response, and what it takes. -/
theorem package_cases (r : Response) (terms : Terms) (id : Text) :
    (IsTold (r.package terms id).2 ∧
      ¬ (r.IsOffered ∧ (r.IsUnreadable ∨ r.IsUntellable terms.limit))) ∨
    ((r.IsOffered ∧ r.IsUnreadable) ∧ ¬ r.IsUntellable terms.limit ∧
      ∃ fault, (r.package terms id).2 = .error (.badLength fault)) ∨
    ((r.IsOffered ∧ r.IsUntellable terms.limit) ∧ ¬ r.IsUnreadable ∧
      ∃ misuse, (r.package terms id).2 = .error (.badSize misuse)) := by
  by_cases hoffered : r.IsOffered
  · rcases declaredLength_cases r with ⟨n, hn, hread⟩ | ⟨hunreadable, fault, hread⟩
    · rcases package_of_declares hoffered hn hread with ⟨htold, hnot⟩ |
        ⟨huntellable, hbad⟩
      · exact .inl ⟨htold, by simp [hn.not_isUnreadable, hnot]⟩
      · exact .inr (.inr ⟨⟨hoffered, huntellable⟩, hn.not_isUnreadable, hbad⟩)
    · have hnot : ¬ r.IsUntellable terms.limit := by
        rintro ⟨n, hn, -⟩
        exact hn.not_isUnreadable hunreadable
      exact .inr (.inl ⟨⟨hoffered, hunreadable⟩, hnot, fault,
        package_of_isUnreadable hoffered hread⟩)
  · exact .inl ⟨isTold_of_refused hoffered, fun h => hoffered h.1⟩

/-- **What no caller is told of.** A fetch ends with a package or with a fault that its
caller is told of, unless a response that is not refused for its status or the kind of
its content declares its length in digits that are not an integer, or calls for a size
to be told that is too large for a double. Then that is the fault. -/
theorem untold_iff (terms : Terms) (reply : Reply) (id : Text) :
    (IsTold (fetch terms reply id).outcome ↔
      ¬ ∃ r, reply = .response r ∧ r.IsOffered ∧
      (r.IsUnreadable ∨ r.IsUntellable terms.limit)) ∧
    ((∃ fault, (fetch terms reply id).outcome = .error (.badLength fault)) ↔
      ∃ r, reply = .response r ∧ r.IsOffered ∧ r.IsUnreadable) ∧
    ((∃ misuse, (fetch terms reply id).outcome = .error (.badSize misuse)) ↔
      ∃ r, reply = .response r ∧ r.IsOffered ∧ r.IsUntellable terms.limit) := by
  cases reply with
  | failure reason => simp [fetch, IsTold, ExtensionAudit.Fault.kind]
  | response r =>
    have houtcome : (fetch terms (.response r) id).outcome = (r.package terms id).2 := rfl
    rw [houtcome]
    rcases package_cases r terms id with ⟨htold, hnot⟩ | ⟨hbad, hnot, fault, h⟩ |
      ⟨hbad, hnot, misuse, h⟩
    · have hlength : ∀ fault, (r.package terms id).2 ≠ .error (.badLength fault) := by
        intro fault h
        rw [h] at htold
        cases htold
      have hsize : ∀ misuse, (r.package terms id).2 ≠ .error (.badSize misuse) := by
        intro misuse h
        rw [h] at htold
        cases htold
      rw [not_and_or, not_or] at hnot
      rcases hnot with hnot | hnot
      · simp [htold, hlength, hsize, hnot]
      · simp [htold, hlength, hsize, hnot]
    · simp [h, IsTold, ExtensionAudit.Fault.kind, hbad, hnot]
    · simp [h, IsTold, ExtensionAudit.Fault.kind, hbad, hnot]

/-- A response whose length is a superscript two. -/
def superscriptLength : Response where
  address := serviceAddress
  status := 200
  reason := some "OK"
  headers := [("Content-Length", "²")]
  chunks := [[0x43, 0x72]]
  interruption := none

/-- Its fetch fails, and nobody is told why. -/
theorem not_isTold_superscriptLength :
    (fetch .default (.response superscriptLength)
      "cjpalhdlnbpafiamejdnhcphjbkeiagm").outcome =
        .error (.badLength (.notInteger "²")) ∧
      ¬ IsTold (fetch .default (.response superscriptLength)
        "cjpalhdlnbpafiamejdnhcphjbkeiagm").outcome := by
  have houtcome : (fetch .default (.response superscriptLength)
      "cjpalhdlnbpafiamejdnhcphjbkeiagm").outcome =
        .error (.badLength (.notInteger "²")) := by
    decide
  rw [houtcome]
  exact ⟨rfl, fun htold => nomatch htold⟩

end ExtensionAudit.Fetch
