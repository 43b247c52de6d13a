import ExtensionAudit.Proofs.Json.Parts
import ExtensionAudit.Proofs.Utf8
import ExtensionAudit.Web.Answer

/-!
# Web — the documents that can be answered

A document can be answered just if all its numbers are finite and no surrogate stands in
a text or a name of it (`Web.isSome_encoded?`). What the writer adds of its own are
characters, and no character is a surrogate.
-/

namespace ExtensionAudit

/-! ## What the writer adds -/

theorem Decimal.isScalar_scientific (d : Decimal) : d.scientific.IsScalar := by
  have hdigits := Text.isScalar_ofNat d.coefficient
  rw [scientific]
  simp only [Text.isScalar_append]
  refine ⟨⟨⟨?_, by simp⟩, by simp⟩, .ite (by simp) (by simp)⟩
  generalize Text.ofNat d.coefficient = digits at hdigits
  cases digits with
  | nil => simp
  | cons first rest =>
    rw [Text.isScalar_cons] at hdigits
    exact .ite (by simp [hdigits.1]) (by simp [hdigits])

theorem Decimal.isScalar_positional {whole : Text} (h : whole.IsScalar) (d : Decimal) :
    (d.positional whole).IsScalar := by
  have hdigits := Text.isScalar_ofNat d.coefficient
  rw [positional]
  exact .ite (by simp) (.ite (by simp [h]) (by simp [hdigits.take, hdigits.drop]))

theorem Binary64.isScalar_shortestText (negative : Bool) (mantissa : Nat)
    (exponent : Int) :
    (finite negative mantissa exponent).shortestText.IsScalar := by
  have hsign : (sign negative).IsScalar := by cases negative <;> simp [sign]
  rw [shortestText]
  refine .ite (by simp [hsign]) (Text.isScalar_append.mpr ⟨hsign, .ite ?_ ?_⟩)
  · exact Decimal.isScalar_positional (Text.isScalar_ofString ".0") _
  · exact Decimal.isScalar_scientific _

namespace Json

/-- A surrogate is written as itself, and every other character as characters. -/
theorem isScalar_escapedChar (c : CodePoint) :
    Text.IsScalar (escapedChar c) ↔ c.isSurrogate = false := by
  rw [escapedChar]
  cases hc : c.isSurrogate with
  | false =>
    refine iff_of_true ?_ rfl
    refine .ite (by simp) (.ite (by simp) (.ite (by simp) (.ite (by simp) (.ite (by simp)
      (.ite (by simp) (.ite (by simp) (.ite ?_ (by simp [hc]))))))))
    exact Text.isScalar_append.mpr ⟨by simp, Text.isScalar_hex 4 c.val⟩
  | true =>
    refine iff_of_false ?_ nofun
    have hne (d : Char) : (c == CodePoint.ofChar d) = false := by
      rw [beq_eq_false_iff_ne]
      rintro rfl
      exact Bool.false_ne_true ((Text.isSurrogate_ofChar d).symm.trans hc)
    have hlow : 0xD800 ≤ c.val := by
      rw [CodePoint.isSurrogate, CodePoint.isBetween, Bool.and_eq_true,
        decide_eq_true_eq] at hc
      exact hc.1
    have hvalue {n : Nat} (hn : n < 0xD800) : (c.val == n) = false := by
      rw [beq_eq_false_iff_ne]
      omega
    have hcontrol : ¬ c.val < 0x20 := by omega
    simp [hne, hvalue, hcontrol, hc]

theorem isScalar_string (t : Text) : Text.IsScalar (string t) ↔ t.IsScalar := by
  have hpart : Text.IsScalar (t.flatMap escapedChar) ↔ t.IsScalar := by
    induction t with
    | nil => simp
    | cons c rest ih => simp [ih, isScalar_escapedChar]
  simp [string, hpart]

/-- The document has a form in which no surrogate stands. -/
def IsWritten (value : Json) : Prop := ∃ t, value.compact? = some t ∧ t.IsScalar

theorem compactElements?_iff (elements : List Json) :
    (∃ parts, compactElements? elements = some parts ∧
      ∀ part ∈ parts, Text.IsScalar part) ↔
      ∀ element ∈ elements, element.IsWritten := by
  induction elements with
  | nil => simp [compactElements?]
  | cons element rest ih =>
    rw [List.forall_mem_cons, ← ih, compactElements?, IsWritten]
    cases compact? element with
    | none => simp
    | some t => cases compactElements? rest <;> simp

theorem compactMembers?_iff (members : Entries Json) :
    (∃ parts, compactMembers? members = some parts ∧ ∀ part ∈ parts, Text.IsScalar part) ↔
      ∀ entry ∈ members, entry.1.IsScalar ∧ entry.2.IsWritten := by
  induction members with
  | nil => simp [compactMembers?]
  | cons entry rest ih =>
    obtain ⟨name, value⟩ := entry
    rw [List.forall_mem_cons, ← ih, compactMembers?, IsWritten]
    cases compact? value with
    | none => simp
    | some t => cases compactMembers? rest <;> simp [isScalar_string, and_assoc]

theorem isWritten_array (elements : List Json) :
    IsWritten (.array elements) ↔ ∀ element ∈ elements, element.IsWritten := by
  rw [← compactElements?_iff, IsWritten, compact?]
  cases compactElements? elements <;> simp [Text.isScalar_join]

theorem isWritten_object (members : Entries Json) :
    IsWritten (.object members) ↔ ∀ entry ∈ members, entry.1.IsScalar ∧
    entry.2.IsWritten := by
  rw [← compactMembers?_iff, IsWritten, compact?]
  cases compactMembers? members <;> simp [Text.isScalar_join]

end Json

/-! ## Documents -/

namespace Web

/-- A document without numbers that are not finite, and without surrogates in its texts
and names. -/
structure IsWritable (value : Json) : Prop where
  finite : ∀ x, Json.Occurs (.float x) value →
    ∃ negative mantissa exponent, x = .finite negative mantissa exponent
  scalar : ∀ t, Json.Occurs (.text t) value → t.IsScalar
  named : ∀ members, Json.Occurs (.object members) value →
    ∀ entry ∈ members, entry.1.IsScalar

theorem isWritable_leaf {value : Json} (hleaf : value.isContainer = false) :
    IsWritable value ↔
      (∀ x, value = .float x → ∃ negative mantissa exponent, x =
        .finite negative mantissa exponent) ∧
        ∀ t, value = .text t → t.IsScalar := by
  constructor
  · intro h
    exact ⟨fun x hx => h.finite x (hx ▸ .here), fun t ht => h.scalar t (ht ▸ .here)⟩
  · rintro ⟨hfinite, hscalar⟩
    refine ⟨fun x inside => hfinite x (inside.eq_of_leaf hleaf).symm,
      fun t inside => hscalar t (inside.eq_of_leaf hleaf).symm, fun members inside => ?_⟩
    rw [← inside.eq_of_leaf hleaf] at hleaf
    cases hleaf

theorem isWritable_array (elements : List Json) :
    IsWritable (.array elements) ↔ ∀ element ∈ elements, IsWritable element := by
  constructor
  · intro h element hmem
    exact ⟨fun x inside => h.finite x (.element hmem inside),
      fun t inside => h.scalar t (.element hmem inside),
      fun members inside => h.named members (.element hmem inside)⟩
  · intro h
    refine ⟨fun x inside => ?_, fun t inside => ?_, fun members inside => ?_⟩
    · cases inside with
      | element hmem inside => exact (h _ hmem).finite x inside
    · cases inside with
      | element hmem inside => exact (h _ hmem).scalar t inside
    · cases inside with
      | element hmem inside => exact (h _ hmem).named members inside

theorem isWritable_object (members : Entries Json) :
    IsWritable (.object members) ↔ ∀ entry ∈ members, entry.1.IsScalar ∧
    IsWritable entry.2 := by
  constructor
  · intro h entry hmem
    exact ⟨h.named members .here entry hmem,
      fun x inside => h.finite x (.member hmem inside),
      fun t inside => h.scalar t (.member hmem inside),
      fun deep inside => h.named deep (.member hmem inside)⟩
  · intro h
    refine ⟨fun x inside => ?_, fun t inside => ?_, fun deep inside => ?_⟩
    · cases inside with
      | member hmem inside => exact (h _ hmem).2.finite x inside
    · cases inside with
      | member hmem inside => exact (h _ hmem).2.scalar t inside
    · cases inside with
      | here => exact fun entry hmem => (h entry hmem).1
      | member hmem inside => exact (h _ hmem).2.named deep inside

theorem isWritten_iff (value : Json) : value.IsWritten ↔ IsWritable value := by
  induction value using Json.induction with
  | leaf value hleaf =>
    rw [isWritable_leaf hleaf, Json.IsWritten]
    cases value with
    | null => simp [Json.compact?]
    | bool b => cases b <;> simp [Json.compact?]
    | int n => simp [Json.compact?, Text.isScalar_ofInt]
    | text t => simp [Json.compact?, Json.isScalar_string]
    | float x => cases x <;> simp [Json.compact?, Binary64.isScalar_shortestText]
    | array elements => cases hleaf
    | object members => cases hleaf
  | array elements ih =>
    rw [Json.isWritten_array, isWritable_array]
    exact forall₂_congr ih
  | object members ih =>
    rw [Json.isWritten_object, isWritable_object]
    exact forall₂_congr fun entry hmem => and_congr_right fun _ => ih entry hmem

/-- A document can be answered just if its numbers are finite and it holds no
surrogate. -/
theorem isSome_encoded? (value : Json) : (encoded? value).isSome = true ↔
    IsWritable value := by
  rw [← isWritten_iff, encoded?, Json.IsWritten]
  cases value.compact? with
  | none => simp
  | some t =>
    simp only [Option.bind_eq_bind, Option.bind_some, Option.some.injEq, exists_eq_left',
      ← Text.exists_encodeStrict]
    cases Utf8.encodeStrict t <;> simp

end Web

end ExtensionAudit
