import ExtensionAudit.Proofs.Fetch
import Mathlib

/-!
# Fetch — the limit on a package

Reading goes on for as long as what has come is within the limit (`readBody_resume`). So
a body is given up with the first chunk that takes it beyond the limit (`CrossesAt`),
and one that never goes beyond it comes out whole, however it was cut into chunks. What
becomes of a response is said of the length it declares, its chunks and where it is cut
off, and of nothing else (`Response.Ends`).
-/

namespace ExtensionAudit

/-! ## Lengths that are declared -/

namespace Numeral

theorem ofDigits_concat (digits : List Nat)
    (d : Nat) : ofDigits (digits ++ [d]) = 10 * ofDigits digits + d := by
  rw [ofDigits, List.foldl_append]
  rfl

theorem ofDigits_lt {digits : List Nat} (h : ∀ d ∈ digits, d < 10) :
    ofDigits digits < 10 ^ digits.length := by
  induction digits using List.reverseRecOn with
  | nil => exact Nat.one_pos
  | append_singleton digits d ih =>
    obtain ⟨hdigits, hd⟩ := List.forall_mem_append.mp h
    have hd : d < 10 := hd d (List.mem_singleton_self d)
    have hlt : ofDigits digits < 10 ^ digits.length := ih hdigits
    rw [ofDigits_concat, List.length_append, List.length_singleton, Nat.pow_succ]
    omega

theorem decimalValue?_of_isAsciiDigit {c : CodePoint} (h : c.isAsciiDigit = true) :
    c.decimalValue? = some (c.val - 48) := by
  have hfirst : CodePoint.zeros.find? (fun start => c.isBetween start (start + 9)) =
      some 0x30 := by
    rw [CodePoint.isAsciiDigit] at h
    simp only [CodePoint.zeros, List.find?_cons, h]
  rw [CodePoint.decimalValue?, hfirst]
  rfl

end Numeral

namespace Fetch

/-- The header for the length, if it consists of digits at all, is a decimal number of
at most 18 ASCII digits. -/
def Response.IsMeasured (r : Response) : Prop :=
  ∀ t, r.Spells t → (∀ c ∈ t, c.isAsciiDigit = true) ∧ t.length ≤ 18

variable {r : Response} {limit : Int} {interruption : Option Text}

theorem Response.IsMeasured.exists_declares (h : r.IsMeasured) :
    ∃ declared, r.Declares declared ∧ declared < 10 ^ 18 := by
  by_cases hspells : ∃ t, r.Spells t
  · obtain ⟨t, ht⟩ := hspells
    obtain ⟨hascii, hfew⟩ := h t ht
    have hdecimal (c : CodePoint) (hc : c ∈ t) : Numeral.isDecimal c = true := by
      rw [Numeral.isDecimal, Numeral.decimalValue?_of_isAsciiDigit (hascii c hc)]
      rfl
    have hdigits : ∀ d ∈ t.map Numeral.digitValue, d < 10 := by
      refine List.forall_mem_map.mpr fun c hc => ?_
      have hrange := hascii c hc
      rw [CodePoint.isAsciiDigit, CodePoint.isBetween, Bool.and_eq_true,
        decide_eq_true_eq, decide_eq_true_eq] at hrange
      rw [Numeral.digitValue, Numeral.decimalValue?_of_isAsciiDigit (hascii c hc),
        Option.getD_some]
      omega
    refine ⟨_, .length ht hdecimal (Nat.le_trans hfew (by decide)), ?_⟩
    have hlt := Numeral.ofDigits_lt hdigits
    rw [List.length_map] at hlt
    exact_mod_cast Nat.lt_of_lt_of_le hlt (Nat.pow_le_pow_right (by decide) hfew)
  · rw [not_exists] at hspells
    exact ⟨0, .none hspells, by decide⟩

theorem declaredLength_of_declares {declared : Int}
    (h : r.Declares declared) : r.declaredLength = .ok declared := by
  rcases declaredLength_cases r with ⟨found, hfound, hread⟩ | ⟨hunreadable, -⟩
  · rw [hread, hfound.unique h]
  · exact absurd hunreadable h.not_isUnreadable

theorem not_isUntellable_of_lt {n : Int} (hnonneg : 0 ≤ n)
    (h : n < 10 ^ 18) : ¬ IsUntellable n := by
  have hlarge : 10 ^ 18 < 1024 * Binary64.overflow := by decide +kernel
  rw [IsUntellable]
  omega

/-! ## Chunks -/

/-- How many octets have come with so many chunks. -/
def received (chunks : List Bytes) (count : Nat) : Nat :=
  (chunks.take count).flatten.length

/-- The limit is crossed with so many chunks, and with no fewer. -/
structure CrossesAt (chunks : List Bytes) (limit : Int) (count : Nat) : Prop where
  present : count ≤ chunks.length
  beyond : limit < received chunks count
  shortest : ∀ fewer < count, (received chunks fewer : Int) ≤ limit

variable {chunks : List Bytes} {body : Bytes} {count : Nat}

theorem received_length (chunks : List Bytes) : received chunks chunks.length =
    chunks.flatten.length := by
  rw [received, List.take_length]

theorem received_le (chunks : List Bytes)
    (count : Nat) : received chunks count ≤ chunks.flatten.length :=
  ((List.take_sublist count chunks).flatten).length_le

theorem received_succ {chunk : Bytes} (h : chunks[count]? = some chunk) :
    received chunks (count + 1) = received chunks count + chunk.length := by
  simp [received, List.take_add_one, h]

/-- A body crosses the limit somewhere, or it is within the limit as a whole. -/
theorem crosses_or_fits (chunks : List Bytes) (limit : Int) :
    (∃ count, CrossesAt chunks limit count) ∨ (chunks.flatten.length : Int) ≤ limit := by
  by_cases hcrosses : ∃ count, limit < received chunks count
  · refine .inl ⟨Nat.find hcrosses, ?_, Nat.find_spec hcrosses, fun fewer hfewer => ?_⟩
    · -- All chunks together are at least as long as any number of them.
      refine Nat.find_min' hcrosses ?_
      rw [received_length]
      exact Int.lt_of_lt_of_le hcrosses.choose_spec
        (Int.ofNat_le.mpr (received_le chunks _))
    · exact Int.not_lt.mp (Nat.find_min hcrosses hfewer)
  · rw [not_exists] at hcrosses
    rw [← received_length]
    exact .inr (Int.not_lt.mp (hcrosses _))

theorem CrossesAt.not_fits (h : CrossesAt chunks limit count) :
    ¬ (chunks.flatten.length : Int) ≤ limit := by
  have hle : (received chunks count : Int) ≤ chunks.flatten.length :=
    Int.ofNat_le.mpr (received_le chunks count)
  have hbeyond := h.beyond
  omega

/-! ## Reading -/

/-- As long as what has come is within the limit, reading goes on from there. -/
theorem readBody_resume (hcount : count ≤ chunks.length)
    (h : ((body ++ (chunks.take count).flatten).length : Int) ≤ limit) :
    readBody limit interruption body chunks =
      let rest := readBody limit interruption (body ++ (chunks.take count).flatten)
        (chunks.drop count)
      (List.replicate count .take ++ rest.1, rest.2) := by
  induction count generalizing body chunks with
  | zero => simp
  | succ count ih =>
    cases chunks with
    | nil => simp at hcount
    | cons chunk rest =>
      rw [List.take_succ_cons, List.flatten_cons, ← List.append_assoc] at h ⊢
      have hfits : (chunk != [] && decide (limit < (body ++ chunk).length)) = false := by
        simp only [List.length_append] at h ⊢
        simp only [Bool.and_eq_false_iff, decide_eq_false_iff_not]
        right
        omega
      have hrest := ih (Nat.le_of_succ_le_succ hcount) h
      simp only [readBody, hfits, Bool.false_eq_true, if_false, hrest,
        List.drop_succ_cons]
      rfl

/-- A body that crosses the limit is given up with the chunk that takes it there. -/
theorem readBody_of_crossesAt (hlimit : 0 ≤ limit) (h : CrossesAt chunks limit count) :
    readBody limit interruption [] chunks =
      (List.replicate count .take, do .error (.tooLong (← sizeText limit))) := by
  cases count with
  | zero =>
    have hbeyond : limit < 0 := h.beyond
    omega
  | succ before =>
    have hpresent : before < chunks.length := h.present
    have hwithin :
        ((([] : Bytes) ++ (chunks.take before).flatten).length : Int) ≤ limit := by
      simpa [received] using h.shortest before (Nat.lt_succ_self before)
    have hbeyond : limit < ((chunks.take before).flatten ++ chunks[before]).length := by
      have hbeyond := h.beyond
      rwa [received_succ (List.getElem?_eq_getElem hpresent), received,
        ← List.length_append] at hbeyond
    have hchunk : chunks[before] ≠ [] := by
      intro hempty
      rw [hempty, List.append_nil] at hbeyond
      rw [List.nil_append] at hwithin
      omega
    have hgiven : (chunks[before] != [] &&
        decide (limit < ((chunks.take before).flatten ++ chunks[before]).length)) =
          true := by
      rw [Bool.and_eq_true, bne_iff_ne, decide_eq_true_eq]
      exact ⟨hchunk, hbeyond⟩
    rw [readBody_resume (Nat.le_of_lt hpresent) hwithin,
      List.drop_eq_getElem_cons hpresent, List.nil_append]
    simp only [readBody, hgiven, if_true, List.replicate_succ']

/-- A body that stays within the limit is taken chunk by chunk to its end. -/
theorem acts_of_fits (h : (chunks.flatten.length : Int) ≤ limit) :
    (readBody limit interruption [] chunks).1 = List.replicate chunks.length .take := by
  have hwithin :
      ((([] : Bytes) ++ (chunks.take chunks.length).flatten).length : Int) ≤ limit := by
    rwa [List.take_length, List.nil_append]
  rw [readBody_resume (Nat.le_refl _) hwithin, List.drop_length]
  exact List.append_nil _

/-! ## What becomes of a response -/

/-- What becomes of a response that declares a length: how many of its chunks are taken,
and what comes of it. -/
inductive Response.Ends (r : Response) (limit declared : Int) : Nat →
    Except Fault Bytes → Prop
  | declaredTooLong (hdeclared : limit < declared) :
    r.Ends limit declared 0
      (do .error (.declaredTooLong (← sizeText declared) (← sizeText limit)))
  | tooLong {count : Nat} (hdeclared : declared ≤ limit)
      (hcrosses : CrossesAt r.chunks limit count) :
    r.Ends limit declared count (do .error (.tooLong (← sizeText limit)))
  | interrupted {reason : Text} (hdeclared : declared ≤ limit)
      (hfits : (r.chunks.flatten.length : Int) ≤ limit)
      (hcut : r.interruption = some reason) :
    r.Ends limit declared r.chunks.length (.error (.interrupted reason))
  | whole (hdeclared : declared ≤ limit) (hfits : (r.chunks.flatten.length : Int) ≤ limit)
      (hcut : r.interruption = none) :
    r.Ends limit declared r.chunks.length (.ok r.chunks.flatten)

variable {terms : Terms} {id : Text} {declared : Int} {taken : Nat}
    {outcome : Except Fault Bytes}

theorem read_ends (hlimit : 0 ≤ terms.limit) (hoffered : r.IsOffered)
    (hdeclares : r.Declares declared) (id : Text) :
    ∃ taken, (r.read terms id).1 = List.replicate taken .take ∧
      r.Ends terms.limit declared taken (r.read terms id).2 := by
  have hread := declaredLength_of_declares hdeclares
  by_cases hdeclared : terms.limit < declared
  · -- More is declared than may come, so nothing is taken.
    have hadmit : r.admit terms id = (do
        .error (.declaredTooLong (← sizeText declared) (← sizeText terms.limit))) := by
      rw [admit_of_isOffered hoffered, hread]
      exact if_pos hdeclared
    have hrefused : r.read terms id =
        ([], do
          .error (.declaredTooLong (← sizeText declared) (← sizeText terms.limit))) := by
      rw [Response.read, hadmit]
      cases sizeText declared with
      | error fault => rfl
      | ok t => cases sizeText terms.limit <;> rfl
    rw [hrefused]
    exact ⟨0, rfl, .declaredTooLong hdeclared⟩
  · have hdeclared : declared ≤ terms.limit := Int.not_lt.mp hdeclared
    have hadmit : r.admit terms id = .ok () := by
      rw [admit_of_isOffered hoffered, hread]
      exact if_neg (Int.not_lt.mpr hdeclared)
    have hbody : r.read terms id = readBody terms.limit r.interruption [] r.chunks := by
      rw [Response.read, hadmit]
    rw [hbody]
    -- Whatever was declared, what comes is counted.
    rcases crosses_or_fits r.chunks terms.limit with ⟨count, hcrosses⟩ | hfits
    · rw [readBody_of_crossesAt hlimit hcrosses]
      exact ⟨count, rfl, .tooLong hdeclared hcrosses⟩
    · have hroom : ((([] : Bytes) ++ r.chunks.flatten).length : Int) ≤
          terms.limit := hfits
      refine ⟨r.chunks.length, acts_of_fits hfits, ?_⟩
      rw [readBody_of_le hroom]
      cases hcut : r.interruption with
      | some reason => exact .interrupted hdeclared hfits hcut
      | none => exact .whole hdeclared hfits hcut

/-- Every fault is one that the caller is told of, unless so many octets have come that
their number in kilobytes is too large for a double. -/
theorem Response.Ends.told (hlimit : 0 ≤ limit) (hnonneg : 0 ≤ declared)
    (hsmall : declared < 10 ^ 18) (h : r.Ends limit declared taken outcome) :
    IsTold outcome ∨ 1024 * Binary64.overflow ≤ received r.chunks taken := by
  cases h with
  | declaredTooLong hdeclared =>
    -- The limit is below the length declared, which is small.
    rcases sizeText_cases declared with ⟨-, t, ht⟩ | ⟨huntellable, -⟩
    · rcases sizeText_cases limit with ⟨-, u, hu⟩ | ⟨huntellable, -⟩
      · rw [ht, hu]
        exact .inl rfl
      · exact absurd huntellable
          (not_isUntellable_of_lt hlimit (Int.lt_trans hdeclared hsmall))
    · exact absurd huntellable (not_isUntellable_of_lt hnonneg hsmall)
  | tooLong hdeclared hcrosses =>
    rcases sizeText_cases limit with ⟨-, t, ht⟩ | ⟨huntellable, -⟩
    · rw [ht]
      exact .inl rfl
    · have hbeyond := hcrosses.beyond
      rw [Fetch.IsUntellable] at huntellable
      right
      omega
  | interrupted hdeclared hfits hcut => exact .inl rfl
  | whole hdeclared hfits hcut => exact .inl trivial

/-- A package comes of a response just if it is whole and within the limit. -/
theorem Response.Ends.eq_ok_iff (h : r.Ends limit declared taken outcome) :
    outcome = .ok body ↔
      declared ≤ limit ∧ (r.chunks.flatten.length : Int) ≤ limit ∧
      r.interruption = none ∧ r.chunks.flatten = body := by
  cases h with
  | declaredTooLong hdeclared =>
    have hbad : (do
        .error (.declaredTooLong (← sizeText declared) (← sizeText limit)) :
          Except Fault Bytes) ≠ .ok body := by
      cases sizeText declared with
      | error fault => exact nofun
      | ok t => cases sizeText limit <;> exact nofun
    simp only [hbad, false_iff]
    omega
  | tooLong hdeclared hcrosses =>
    have hbad : (do .error (.tooLong (← sizeText limit)) : Except Fault Bytes) ≠
        .ok body := by
      cases sizeText limit <;> exact nofun
    simp only [hbad, hcrosses.not_fits, false_and, and_false]
  | interrupted hdeclared hfits hcut => simp [hcut]
  | whole hdeclared hfits hcut =>
    rw [Except.ok.injEq]
    exact ⟨fun heq => ⟨hdeclared, hfits, hcut, heq⟩, fun hall => hall.2.2.2⟩

/-- What is held never goes beyond the limit by more than the last chunk. -/
theorem Response.Ends.held (h : r.Ends limit declared taken outcome) {index : Nat}
    {chunk : Bytes} (hindex : index < taken) (hchunk : r.chunks[index]? = some chunk) :
    (received r.chunks (index + 1) : Int) ≤ limit + chunk.length := by
  have hwithin (hbefore : (received r.chunks index : Int) ≤ limit) :
      (received r.chunks (index + 1) : Int) ≤ limit + chunk.length := by
    rw [received_succ hchunk]
    omega
  have hall (hfits : (r.chunks.flatten.length : Int) ≤ limit) :
      (received r.chunks index : Int) ≤ limit :=
    Int.le_trans (Int.ofNat_le.mpr (received_le r.chunks index)) hfits
  cases h with
  | declaredTooLong hdeclared => exact absurd hindex (Nat.not_lt_zero index)
  | tooLong hdeclared hcrosses => exact hwithin (hcrosses.shortest index hindex)
  | interrupted hdeclared hfits hcut => exact hwithin (hall hfits)
  | whole hdeclared hfits hcut => exact hwithin (hall hfits)

/-- How a body is cut into chunks makes no difference to what comes of it. -/
theorem outcome_of_flatten {others : List Bytes} (hlimit : 0 ≤ limit)
    (h : others.flatten = chunks.flatten) :
    (readBody limit interruption [] others).2 =
      (readBody limit interruption [] chunks).2 := by
  by_cases hfits : (([] ++ chunks.flatten : Bytes).length : Int) ≤ limit
  · rw [readBody_of_le hfits, readBody_of_le (h ▸ hfits), h]
  · rw [readBody_of_lt hlimit (Int.not_le.mp hfits),
      readBody_of_lt hlimit (h ▸ Int.not_le.mp hfits)]

theorem package_of_flatten {others : List Bytes} (hlimit : 0 ≤ terms.limit)
    (h : others.flatten = r.chunks.flatten) :
    (Response.package { r with chunks := others } terms id).2 =
      (r.package terms id).2 := by
  have hadmit : Response.admit { r with chunks := others } terms id =
      r.admit terms id := rfl
  rw [Response.package, Response.package, Response.read, Response.read, hadmit]
  cases r.admit terms id with
  | error fault => rfl
  | ok admitted => exact outcome_of_flatten hlimit h

/-- **The limit is exact.** A response that is not refused declares a length. Beyond the
limit it is given up before any chunk is taken; otherwise the body is given up with the
first chunk that takes it beyond the limit; otherwise it fails if it is cut off, and
comes out whole if not. The fault is one that the caller is told of, unless so many
octets have come that their number in kilobytes is too large for a double. So a package
is never longer than the limit and may be just as long, what is held is never beyond the
limit by more than the last chunk, and it makes no difference how the body is cut into
chunks. In every case the response is closed once, after the last chunk that is
taken. -/
theorem fetch_limited (hlimit : 0 ≤ terms.limit) (hoffered : r.IsOffered)
    (hmeasured : r.IsMeasured) (id : Text) :
    ∃ declared taken outcome, r.Declares declared ∧
      fetch terms (.response r) id =
        ⟨request terms id, some (List.replicate taken .take ++ [.close]), outcome⟩ ∧
      r.Ends terms.limit declared taken outcome ∧
      (IsTold outcome ∨ 1024 * Binary64.overflow ≤ received r.chunks taken) ∧
      (∀ body, outcome = .ok body ↔
        declared ≤ terms.limit ∧ (r.chunks.flatten.length : Int) ≤ terms.limit ∧
          r.interruption = none ∧ r.chunks.flatten = body) ∧
      (∀ index chunk, index < taken → r.chunks[index]? = some chunk →
        (received r.chunks (index + 1) : Int) ≤ terms.limit + chunk.length) ∧
      ∀ others : List Bytes, others.flatten = r.chunks.flatten →
        (fetch terms (.response { r with chunks := others }) id).outcome = outcome := by
  obtain ⟨declared, hdeclares, hsmall⟩ := hmeasured.exists_declares
  obtain ⟨taken, hacts, hends⟩ := read_ends hlimit hoffered hdeclares id
  refine ⟨declared, taken, (r.read terms id).2, hdeclares, ?_, hends,
    hends.told hlimit hdeclares.nonneg hsmall, fun body => hends.eq_ok_iff,
    fun index chunk => hends.held, fun others h => package_of_flatten hlimit h⟩
  rw [← hacts]
  rfl

/-- A response that declares less than it has, in chunks of which one is empty, and is
cut off in the end. -/
def understatedLength : Response where
  address := serviceAddress
  status := 200
  reason := some "OK"
  headers := [("Content-Length", "3")]
  chunks := [[0x43, 0x72], [], [0x32], [0x34, 0x02], [0x00]]
  interruption := some "connection lost"

/-- With a limit of four octets it is given up with its fourth chunk, and the cut is
never reached. -/
theorem fetch_limited_understatedLength :
    understatedLength.IsOffered ∧ understatedLength.IsMeasured ∧
      ∃ declared taken outcome, understatedLength.Declares declared ∧
        understatedLength.Ends 4 declared taken outcome ∧ taken = 4 ∧
        outcome = .error (.tooLong "4.00 B") := by
  have hlimit : (0 : Int) ≤ Terms.limit { Terms.default with limit := 4 } := by decide
  have hoffered : understatedLength.IsOffered := ⟨rfl, by decide⟩
  have hmeasured : understatedLength.IsMeasured := by
    intro t ht
    obtain rfl : t = "3" := Option.some.inj (ht.header.symm.trans (by decide))
    decide
  obtain ⟨declared, taken, outcome, hdeclares, hfetch, hends, -⟩ :=
    fetch_limited hlimit hoffered hmeasured "cjpalhdlnbpafiamejdnhcphjbkeiagm"
  have hpackage : understatedLength.package { Terms.default with limit := 4 }
      "cjpalhdlnbpafiamejdnhcphjbkeiagm" =
        ([.take, .take, .take, .take, .close], .error (.tooLong "4.00 B")) := by decide
  have hacts := congrArg Exchange.acts hfetch
  have houtcome := congrArg Exchange.outcome hfetch
  simp only [fetch, hpackage, Option.some.injEq] at hacts houtcome
  have htaken : taken = 4 := by
    have hlength := congrArg List.length hacts
    simp only [List.length_append, List.length_replicate, List.length_cons,
      List.length_nil] at hlength
    omega
  exact ⟨hoffered, hmeasured, declared, taken, outcome, hdeclares, hends, htaken,
    houtcome.symm⟩

end Fetch

end ExtensionAudit
