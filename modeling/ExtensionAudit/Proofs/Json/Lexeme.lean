import ExtensionAudit.Proofs.Json.Grammar
import ExtensionAudit.Proofs.Text
import Mathlib.Data.List.TakeWhile

/-!
# Json — the reader and the lexemes

One token is read just where one lexeme stands. A string is read up to its closing
quote, whatever comes after it, and so is a literal. A number is read as far as it goes,
so what comes after it must not go on with it (`Json.EndsNumber`).
-/

namespace ExtensionAudit.Json

/-! ## Strings -/

theorem withPiece_eq_ok_iff {piece : Piece}
    {result : Except (Problem × Nat) (List Piece × Text)} {pieces : List Piece}
    {rest : Text} :
    withPiece piece result = .ok (pieces, rest) ↔ ∃ more, pieces = piece :: more ∧
      result = .ok (more, rest) := by
  cases result with
  | error fault => simp [withPiece]
  | ok found =>
    obtain ⟨more, after⟩ := found
    simp only [withPiece, Except.ok.injEq, Prod.mk.injEq]
    constructor
    · intro h
      exact ⟨more, h.1.symm, rfl, h.2⟩
    · intro h
      obtain ⟨_, hpieces, hmore, hafter⟩ := h
      exact ⟨by rw [hpieces, hmore], hafter⟩

theorem takeString_of_spelling {body : Text} {pieces : List Piece}
    (h : Spelling body pieces) (start offset : Nat) (rest : Text) : takeString start
    offset (body ++ ('"' : CodePoint) :: rest) = .ok (pieces, rest) := by
  induction h generalizing offset with
  | nil =>
    rw [List.nil_append]
    unfold takeString
    rw [if_pos (by decide)]
  | @plain c body pieces hquote hbackslash hcontrol more ih =>
    rw [List.cons_append]
    unfold takeString
    rw [if_neg (by simpa using hquote), if_neg (by omega),
      if_neg (by simpa using hbackslash), ih]
    rfl
  | @escaped e c body pieces h more ih =>
    have he : (e == 'u') = false := by
      rw [beq_eq_false_iff_ne]
      intro hu
      rw [hu] at h
      cases h
    rw [List.cons_append, List.cons_append]
    unfold takeString
    rw [if_neg (by decide), if_neg (by decide), if_pos (by decide)]
    simp only [he, Bool.false_eq_true, if_false, h, ih]
    rfl
  | @code h₁ h₂ h₃ h₄ unit body pieces h more ih =>
    -- the four digits never end the text, as the closing quote comes after them
    obtain ⟨next, after, hnext⟩ : ∃ next after, body ++ ('"' : CodePoint) :: rest =
      next :: after := by
      cases body with
      | nil => exact ⟨_, _, rfl⟩
      | cons c more => exact ⟨_, _, rfl⟩
    have hmore := ih (offset + 6)
    simp only [List.cons_append, hnext] at hmore ⊢
    unfold takeString
    rw [if_neg (by decide), if_neg (by decide), if_pos (by decide)]
    simp only [h, hmore]
    rfl

/-- Reading a string, one step: it ends here, or a piece of it is spelled here and it
goes on. -/
theorem takeString_cases {start offset : Nat}
    {c : CodePoint} {tail rest : Text} {pieces : List Piece}
    (h : takeString start offset (c :: tail) = .ok (pieces, rest)) :
    (c = '"' ∧ pieces = [] ∧ tail = rest) ∨
      ∃ piece spelled later u, c :: tail = spelled ++ u ∧ u.length ≤ tail.length ∧
        withPiece piece (takeString start later u) = .ok (pieces, rest) ∧
        ∀ body more, Spelling body more → Spelling (spelled ++ body) (piece :: more) := by
  unfold takeString at h
  split at h
  · rename_i hquote
    cases h
    exact .inl ⟨eq_of_beq hquote, rfl, rfl⟩
  right
  rename_i hquote
  split at h
  · cases h
  rename_i hcontrol
  -- A backslash spells a piece with what comes after it, anything else spells itself.
  split at h
  · rename_i hbackslash
    rw [eq_of_beq hbackslash]
    split at h
    · cases h
    rename_i e after
    split at h
    · rename_i hu
      rw [eq_of_beq hu]
      split at h
      · rename_i h₁ h₂ h₃ h₄ next after
        split at h
        · cases h
        · rename_i unit hunit
          refine ⟨.code unit, ['\\', 'u', h₁, h₂, h₃, h₄], offset + 6, next :: after,
            rfl, ?_, h, ?_⟩
          · simp only [List.length_cons]
            omega
          · exact fun body more hmore => .code hunit hmore
      · cases h
    · split at h
      · cases h
      · rename_i value hvalue
        refine ⟨.plain value, ['\\', e], offset + 2, after, rfl, Nat.le_succ _, h, ?_⟩
        exact fun body more hmore => .escaped hvalue hmore
  · rename_i hbackslash
    refine ⟨.plain c, [c], offset + 1, tail, rfl, Nat.le_refl _, h,
      fun body more hmore => ?_⟩
    apply Spelling.plain
    · simpa using hquote
    · simpa using hbackslash
    · omega
    · exact hmore

theorem exists_spelling {start offset : Nat} {t rest : Text} {pieces : List Piece}
    (h : takeString start offset t = .ok (pieces, rest)) :
    ∃ body, t = body ++ ('"' : CodePoint) :: rest ∧ Spelling body pieces := by
  induction hn : t.length using Nat.strongRecOn generalizing offset t pieces with
  | ind n ih =>
    cases t with
    | nil => cases h
    | cons c tail =>
      rcases takeString_cases h with ⟨rfl, rfl, rfl⟩ |
        ⟨piece, spelled, later, u, hspelled, hle, hread, hspelling⟩
      · exact ⟨[], rfl, .nil⟩
      · obtain ⟨more, rfl, hmore⟩ := withPiece_eq_ok_iff.mp hread
        have hshorter : u.length < n := by
          rw [← hn, List.length_cons]
          omega
        obtain ⟨body, rfl, hbody⟩ := ih u.length hshorter hmore rfl
        refine ⟨spelled ++ body, ?_, hspelling body more hbody⟩
        rw [hspelled, List.append_assoc]

/-! ## Digits -/

/-- A digit is no character that is not one. -/
theorem beq_eq_false_of_isAsciiDigit {c d : CodePoint} (hc : c.isAsciiDigit = true)
    (hd : d.isAsciiDigit = false) :
    (c == d) = false := by
  rw [beq_eq_false_iff_ne]
  intro heq
  rw [heq, hd] at hc
  cases hc

theorem digitValues_ne_nil {digits : Text} (h : IsDigits digits) :
    digitValues digits ≠ [] := by
  intro hnil
  exact h.1 (List.map_eq_nil_iff.mp hnil)

theorem takeAsciiDigits_append {digits rest : Text}
    (hdigits : ∀ c ∈ digits, c.isAsciiDigit = true)
    (hrest : ∀ c ∈ rest.head?, c.isAsciiDigit = false) :
    takeAsciiDigits (digits ++ rest) = (digitValues digits, rest) := by
  obtain ⟨htake, hdrop⟩ := Text.span_run hdigits hrest
  rw [takeAsciiDigits, htake, hdrop]
  rfl

theorem exists_digits {t rest : Text} {values : List Nat}
    (h : takeAsciiDigits t = (values, rest)) :
    ∃ digits, t = digits ++ rest ∧ values = digitValues digits ∧
      ∀ c ∈ digits, c.isAsciiDigit = true := by
  cases h
  refine ⟨t.takeWhile CodePoint.isAsciiDigit, List.takeWhile_append_dropWhile.symm, rfl,
    fun c hc => ?_⟩
  exact List.mem_takeWhile_imp hc

/-- Digits, if there are some. -/
theorem exists_isDigits {t rest : Text} {values : List Nat}
    (h : takeAsciiDigits t = (values, rest)) (hne : values ≠ []) :
    ∃ digits, t = digits ++ rest ∧ values = digitValues digits ∧ IsDigits digits := by
  obtain ⟨digits, ht, rfl, hdigits⟩ := exists_digits h
  refine ⟨digits, ht, rfl, ?_, hdigits⟩
  intro hnil
  rw [hnil] at hne
  exact hne rfl

theorem eq_nil_of_isWhole_zero {more : Text} (h : IsWhole (('0' : CodePoint) :: more)) :
    more = [] := by
  have hlength := h.2 rfl
  simpa using hlength

/-! ## Fractions and powers -/

/-- What does not go on with a number. -/
def EndsNumber (rest : Text) : Prop :=
  ∀ c ∈ rest.head?, c.isAsciiDigit = false ∧ c ≠ '.' ∧ c ≠ 'e' ∧ c ≠ 'E'

theorem takePoint_append {fraction rest : Text} {places : List Nat}
    (h : Fraction fraction places) (hdigit : ∀ c ∈ rest.head?, c.isAsciiDigit = false)
    (hpoint : ∀ c ∈ rest.head?, c ≠ '.') :
    takePoint (fraction ++ rest) = (places, rest) := by
  cases h with
  | absent =>
    rw [List.nil_append]
    cases rest with
    | nil => rfl
    | cons c more =>
      have hc : (c == '.') = false := by simpa using hpoint c rfl
      rw [takePoint]
      split
      · rw [hc]
        rfl
      · rfl
  | @places digits hdigits =>
    rw [List.cons_append, takePoint, takeAsciiDigits_append hdigits.2 hdigit]
    obtain ⟨d, more, hvalues⟩ := List.exists_cons_of_ne_nil (digitValues_ne_nil hdigits)
    rw [hvalues]
    rfl

theorem exists_fraction {t rest : Text} {places : List Nat}
    (h : takePoint t = (places, rest)) :
    ∃ fraction, t = fraction ++ rest ∧ Fraction fraction places := by
  cases t with
  | nil =>
    cases h
    exact ⟨[], rfl, .absent⟩
  | cons c tail =>
    rw [takePoint] at h
    split at h
    · rename_i d ds after hdigits
      split at h
      · rename_i hpoint
        cases h
        obtain ⟨digits, rfl, hvalues, hdigits⟩ :=
          exists_isDigits hdigits (List.cons_ne_nil d ds)
        rw [hvalues, eq_of_beq hpoint]
        exact ⟨_, rfl, .places hdigits⟩
      · cases h
        exact ⟨[], rfl, .absent⟩
    · cases h
      exact ⟨[], rfl, .absent⟩

theorem takeSign_append {sign digits : Text} {negative : Bool}
    (h : PowerSign sign negative) (hdigits : IsDigits digits) (rest : Text) :
    Numeral.takeSign (sign ++ (digits ++ rest)) = (negative, digits ++ rest) := by
  cases h with
  | plus => rfl
  | minus => rfl
  | absent =>
    obtain ⟨c, more, rfl⟩ := List.exists_cons_of_ne_nil hdigits.1
    have hc := hdigits.2 c List.mem_cons_self
    have hminus : (c == '-') = false := beq_eq_false_of_isAsciiDigit hc (by decide)
    have hplus : (c == '+') = false := beq_eq_false_of_isAsciiDigit hc (by decide)
    simp [Numeral.takeSign, hminus, hplus]

theorem exists_powerSign {t rest : Text} {negative : Bool}
    (h : Numeral.takeSign t = (negative, rest)) :
    ∃ sign, t = sign ++ rest ∧ PowerSign sign negative := by
  cases t with
  | nil =>
    cases h
    exact ⟨[], rfl, .absent⟩
  | cons c tail =>
    rw [Numeral.takeSign] at h
    split at h
    · rename_i hminus
      cases h
      rw [eq_of_beq hminus]
      exact ⟨_, rfl, .minus⟩
    · split at h
      · rename_i hplus
        cases h
        rw [eq_of_beq hplus]
        exact ⟨_, rfl, .plus⟩
      · cases h
        exact ⟨[], rfl, .absent⟩

theorem takeExponent_append {power rest : Text} {exponent : Option Int}
    (h : Power power exponent) (hrest : EndsNumber rest) :
    takeExponent (power ++ rest) = (exponent, rest) := by
  cases h with
  | absent =>
    rw [List.nil_append]
    cases rest with
    | nil => rfl
    | cons c more =>
      obtain ⟨_, _, he, hE⟩ := hrest c rfl
      rw [takeExponent, if_neg (by simp [he, hE])]
  | @power mark sign digits negative hmark hsign hdigits =>
    have hmark : (mark == 'e' || mark == 'E') = true := by simpa using hmark
    have hdigit : ∀ c ∈ rest.head?, c.isAsciiDigit = false := fun c hc => (hrest c hc).1
    obtain ⟨d, more, hvalues⟩ := List.exists_cons_of_ne_nil (digitValues_ne_nil hdigits)
    rw [List.cons_append, List.append_assoc, takeExponent, if_pos hmark,
      takeSign_append hsign hdigits]
    simp only [takeAsciiDigits_append hdigits.2 hdigit, hvalues]

theorem exists_power {t rest : Text} {exponent : Option Int}
    (h : takeExponent t = (exponent, rest)) :
    ∃ power, t = power ++ rest ∧ Power power exponent := by
  cases t with
  | nil =>
    cases h
    exact ⟨[], rfl, .absent⟩
  | cons c tail =>
    rw [takeExponent] at h
    split at h
    · rename_i hmark
      split at h
      rename_i negative body htake
      obtain ⟨sign, rfl, hsign⟩ := exists_powerSign htake
      split at h
      · rename_i d ds after hdigits
        cases h
        obtain ⟨digits, rfl, hvalues, hdigits⟩ :=
          exists_isDigits hdigits (List.cons_ne_nil d ds)
        rw [hvalues]
        refine ⟨c :: (sign ++ digits), ?_, .power ?_ hsign hdigits⟩
        · simp
        · simpa using hmark
      · cases h
        exact ⟨[], rfl, .absent⟩
    · cases h
      exact ⟨[], rfl, .absent⟩

theorem head?_power {power rest : Text} {exponent : Option Int}
    (h : Power power exponent) (hrest : EndsNumber rest) :
    ∀ c ∈ (power ++ rest).head?, c.isAsciiDigit = false ∧ c ≠ '.' := by
  cases h with
  | absent => exact fun c hc => ⟨(hrest c hc).1, (hrest c hc).2.1⟩
  | power hmark =>
    intro c hc
    cases hc
    rcases hmark with rfl | rfl <;> decide

theorem head?_fraction {fraction rest : Text} {places : List Nat}
    (h : Fraction fraction places) (hrest : ∀ c ∈ rest.head?, c.isAsciiDigit = false) :
    ∀ c ∈ (fraction ++ rest).head?, c.isAsciiDigit = false := by
  cases h with
  | absent => exact hrest
  | places =>
    intro c hc
    cases hc
    decide

theorem places_eq_nil_iff {fraction : Text} {places : List Nat}
    (h : Fraction fraction places) :
    places = [] ↔ fraction = [] := by
  cases h with
  | absent => exact iff_of_true rfl rfl
  | places hdigits =>
    exact iff_of_false (digitValues_ne_nil hdigits) (List.cons_ne_nil _ _)

theorem exponent_eq_none_iff {power : Text} {exponent : Option Int}
    (h : Power power exponent) :
    exponent = none ↔ power = [] := by
  cases h with
  | absent => exact iff_of_true rfl rfl
  | power => exact iff_of_false (Option.some_ne_none _) (List.cons_ne_nil _ _)

/-! ## Numbers -/

/-- Is this a token of a document? The others carry a fault. -/
def Token.IsSound : Token → Prop
  | .junk => False
  | .longNumber _ => False
  | .brokenString _ _ => False
  | _ => True

theorem takeNumber_integer (negative : Bool) {values : List Nat} {rest : Text}
    (hlimit : values.length ≤ Numeral.digitLimit) (hrest : EndsNumber rest) :
    takeNumber negative values rest =
      (.scalar (.int (Binary64.signed negative (Numeral.ofDigits values))), rest) := by
  have hpoint : takePoint rest = ([], rest) :=
    takePoint_append .absent (fun c hc => (hrest c hc).1) fun c hc => (hrest c hc).2.1
  have hexponent : takeExponent rest = (none, rest) := takeExponent_append .absent hrest
  simp [takeNumber, hpoint, hexponent, Nat.not_lt.mpr hlimit]

theorem takeNumber_double (negative : Bool) (values : List Nat)
    {fraction power rest : Text} {places : List Nat} {exponent : Option Int}
    (hfraction : Fraction fraction places) (hpower : Power power exponent)
    (hsome : fraction ≠ [] ∨ power ≠ []) (hrest : EndsNumber rest) :
    takeNumber negative values (fraction ++ (power ++ rest)) =
      (.scalar (.float (Binary64.ofDecimal negative (Numeral.ofDigits (values ++ places))
        (exponent.getD 0 - places.length))), rest) := by
  have hhead := head?_power hpower hrest
  have hpoint := takePoint_append hfraction (fun c hc => (hhead c hc).1) fun c hc =>
    (hhead c hc).2
  have hexponent := takeExponent_append hpower hrest
  have hneither : (places.isEmpty && exponent.isNone) = false := by
    rw [Bool.and_eq_false_iff, ← Bool.not_eq_true, ← Bool.not_eq_true,
      List.isEmpty_iff, Option.isNone_iff_eq_none, places_eq_nil_iff hfraction,
      exponent_eq_none_iff hpower]
    exact hsome
  simp [takeNumber, hpoint, hexponent, hneither]

/-- The number that begins with these digits, as far as it goes. -/
theorem exists_number {negative : Bool} {whole t rest : Text}
    {token : Token} (hwhole : IsWhole whole)
    (h : takeNumber negative (digitValues whole) t = (token, rest))
    (hsound : token.IsSound) :
    ∃ more value, t = more ++ rest ∧ token = .scalar value ∧
      IsNumber (minus negative ++ (whole ++ more)) value := by
  rw [takeNumber] at h
  split at h
  rename_i places middle hpoint
  split at h
  rename_i exponent after hexponent
  obtain ⟨fraction, rfl, hfraction⟩ := exists_fraction hpoint
  obtain ⟨power, rfl, hpower⟩ := exists_power hexponent
  have hneither : (places.isEmpty && exponent.isNone) = true ↔ fraction = [] ∧
      power = [] := by
    rw [Bool.and_eq_true, List.isEmpty_iff, Option.isNone_iff_eq_none,
      places_eq_nil_iff hfraction, exponent_eq_none_iff hpower]
  split at h
  · rename_i hempty
    obtain ⟨rfl, rfl⟩ := hneither.mp hempty
    split at h
    · cases h
      cases hsound
    · rename_i hlimit
      cases h
      rw [digitValues, List.length_map, Nat.not_lt] at hlimit
      refine ⟨[], _, rfl, rfl, ?_⟩
      rw [List.append_nil]
      exact .integer negative hwhole hlimit
  · rename_i hempty
    cases h
    refine ⟨fraction ++ power, _, ?_, rfl, .double negative hwhole hfraction hpower ?_⟩
    · rw [List.append_assoc]
    · rw [hneither, not_and_or] at hempty
      exact hempty

/-- The digits in front of the point are read to their end. -/
theorem takeUnsigned_append (negative : Bool) {c : CodePoint} {more rest : Text}
    (h : IsWhole (c :: more)) (hrest : ∀ d ∈ rest.head?, d.isAsciiDigit = false) :
    takeUnsigned negative c (more ++ rest) =
      takeNumber negative (digitValues (c :: more)) rest := by
  rw [takeUnsigned]
  split
  · rename_i hzero
    rw [eq_of_beq hzero] at h ⊢
    rw [eq_nil_of_isWhole_zero h]
    rfl
  · have hmore : ∀ d ∈ more, d.isAsciiDigit = true :=
      fun d hd => h.1.2 d (List.mem_cons_of_mem c hd)
    simp only [takeAsciiDigits_append hmore hrest]
    rfl

theorem exists_whole (negative : Bool) {c : CodePoint}
    (hc : c.isAsciiDigit = true) (t : Text) :
    ∃ more rest, t = more ++ rest ∧ IsWhole (c :: more) ∧
      takeUnsigned negative c t = takeNumber negative (digitValues (c :: more)) rest := by
  rw [takeUnsigned]
  split
  · rename_i hzero
    rw [eq_of_beq hzero]
    refine ⟨[], t, rfl, ⟨⟨List.cons_ne_nil _ _, ?_⟩, fun _ => rfl⟩, rfl⟩
    simp only [List.mem_singleton, forall_eq]
    decide
  · rename_i hzero
    cases htake : takeAsciiDigits t with
    | mk values rest =>
      obtain ⟨digits, ht, rfl, hdigits⟩ := exists_digits htake
      refine ⟨digits, rest, ht, ⟨⟨List.cons_ne_nil _ _, ?_⟩, ?_⟩, rfl⟩
      · rw [List.forall_mem_cons]
        exact ⟨hc, hdigits⟩
      · intro hhead
        rw [List.head?_cons, Option.some.injEq] at hhead
        simp [hhead] at hzero

/-- A number begins with a digit, perhaps after a minus sign, and is read to its end. -/
theorem exists_takeUnsigned {t : Text} {value : Json} (h : IsNumber t value) :
    ∃ negative c more, t = minus negative ++ c :: more ∧ c.isAsciiDigit = true ∧
      ∀ rest, EndsNumber rest → takeUnsigned negative c (more ++ rest) =
        (.scalar value, rest) := by
  cases h with
  | @integer negative whole h hlimit =>
    obtain ⟨c, more, rfl⟩ := List.exists_cons_of_ne_nil h.1.1
    refine ⟨negative, c, more, rfl, h.1.2 c List.mem_cons_self, fun rest hrest => ?_⟩
    rw [takeUnsigned_append negative h fun d hd => (hrest d hd).1,
      takeNumber_integer negative ?_ hrest]
    rwa [digitValues, List.length_map]
  | @double negative whole fraction power places exponent h hfraction hpower hsome =>
    obtain ⟨c, more, rfl⟩ := List.exists_cons_of_ne_nil h.1.1
    refine ⟨negative, c, more ++ (fraction ++ power), rfl, h.1.2 c List.mem_cons_self,
      fun rest hrest => ?_⟩
    have hhead := head?_fraction hfraction fun d hd => (head?_power hpower hrest d hd).1
    rw [List.append_assoc, List.append_assoc, takeUnsigned_append negative h hhead,
      takeNumber_double negative _ hfraction hpower hsome hrest]

theorem exists_number_of_takeUnsigned {negative : Bool} {c : CodePoint}
    {t rest : Text} {token : Token} (hc : c.isAsciiDigit = true)
    (h : takeUnsigned negative c t = (token, rest)) (hsound : token.IsSound) :
    ∃ more value, t = more ++ rest ∧ token = .scalar value ∧
      IsNumber (minus negative ++ c :: more) value := by
  obtain ⟨whole, after, rfl, hwhole, htake⟩ := exists_whole negative hc t
  rw [htake] at h
  obtain ⟨more, value, rfl, htoken, hnumber⟩ := exists_number hwhole h hsound
  refine ⟨whole ++ more, value, ?_, htoken, hnumber⟩
  rw [List.append_assoc]

/-! ## Tokens -/

theorem isSpace_eq_false_of_isAsciiDigit {c : CodePoint}
    (hc : c.isAsciiDigit = true) : isSpace c = false := by
  have hblank : (c == ' ') = false := beq_eq_false_of_isAsciiDigit hc (by decide)
  have htab : (c == '\t') = false := beq_eq_false_of_isAsciiDigit hc (by decide)
  have hfeed : (c == '\n') = false := beq_eq_false_of_isAsciiDigit hc (by decide)
  have hreturn : (c == '\r') = false := beq_eq_false_of_isAsciiDigit hc (by decide)
  rw [isSpace, hblank, htab, hfeed, hreturn]
  rfl

theorem next_digit (offset : Nat) {c : CodePoint} (hc : c.isAsciiDigit = true)
    (rest : Text) :
    Token.next offset c rest = takeUnsigned false c rest := by
  have hmarks : ∀ mark ∈ marks, (c == mark.1) = false := by
    have hdigit : ∀ mark ∈ marks, mark.1.isAsciiDigit = false := by decide
    intro mark hmark
    exact beq_eq_false_of_isAsciiDigit hc (hdigit mark hmark)
  have hquote : (c == '"') = false := beq_eq_false_of_isAsciiDigit hc (by decide)
  simp only [marks, List.forall_mem_cons] at hmarks
  simp [Token.next, hmarks, hquote, hc]

/-- No literal begins with a minus sign and a digit. -/
theorem find?_literals_minus {d : CodePoint} (hd : d.isAsciiDigit = true) (rest : Text) :
    (literals.find? fun (word, _) => word.isPrefixOf (('-' : CodePoint) :: d :: rest)) =
      none := by
  have hletter : CodePoint.ofChar 'I' ≠ d := by
    intro heq
    rw [← heq] at hd
    cases hd
  rw [List.find?_eq_none]
  simp [literals, Text.ofString, Text.ofChar_injective.eq_iff, hletter]

theorem next_minus (offset : Nat) {d : CodePoint} (hd : d.isAsciiDigit = true)
    (rest : Text) :
    Token.next offset '-' (d :: rest) = takeUnsigned true d rest := by
  have hdigit : (('-' : CodePoint).isAsciiDigit) = false := by decide
  unfold Token.next
  rw [find?_literals_minus hd]
  simp [Text.ofChar_injective.eq_iff, hdigit, hd]

theorem exists_cons_of_mem_literals {word : Text} {value : Json}
    (h : (word, value) ∈ literals) :
    ∃ c more, word = c :: more ∧ isSpace c = false := by
  simp only [literals, List.mem_cons, List.not_mem_nil, or_false] at h
  rcases h with h | h | h | h | h | h <;> (cases h; exact ⟨_, _, rfl, rfl⟩)

theorem literal_of_find? {c : CodePoint} {t word : Text} {value : Json} (h :
      (literals.find? fun (word, _) => word.isPrefixOf (c :: t)) = some (word, value)) :
    (word, value) ∈ literals ∧ c :: t = word ++ t.drop (word.length - 1) := by
  have hmem := List.mem_of_find?_eq_some h
  have hfound := List.find?_some h
  have hopens : word <+: c :: t := List.isPrefixOf_iff_prefix.mp hfound
  obtain ⟨d, more, rfl, _⟩ := exists_cons_of_mem_literals hmem
  obtain ⟨rfl, hmore⟩ := List.cons_prefix_cons.mp hopens
  obtain ⟨rest, rfl⟩ := hmore
  refine ⟨hmem, ?_⟩
  simp

theorem next_literal (offset : Nat) {c : CodePoint} {more rest : Text}
    {value : Json} (h : (c :: more, value) ∈ literals) :
    Token.next offset c (more ++ rest) = (.scalar value, rest) := by
  simp only [literals, List.mem_cons, List.not_mem_nil, or_false] at h
  rcases h with h | h | h | h | h | h <;> (cases h; rfl)

/-- Is the token a scalar? -/
def Token.IsScalar : Token → Prop
  | .scalar _ => True
  | _ => False

/-- A lexeme is read as its token, if what comes after a scalar does not go on with a
number. -/
theorem next_of_lexeme {word : Text} {token : Token} (h : Lexeme word token) :
    ∃ c more, word = c :: more ∧ isSpace c = false ∧
    ∀ offset rest, (token.IsScalar → EndsNumber rest) →
      Token.next offset c (more ++ rest) = (token, rest) := by
  cases h with
  | @mark c token h =>
    have hspace : ∀ mark ∈ marks, isSpace mark.1 = false := by decide
    refine ⟨c, [], rfl, hspace _ h, fun offset rest _ => ?_⟩
    simp only [marks, List.mem_cons, List.not_mem_nil, or_false] at h
    rcases h with h | h | h | h | h | h <;> (cases h; rfl)
  | @string body pieces h =>
    refine ⟨'"', _, rfl, by decide, fun offset rest _ => ?_⟩
    have htake : takeString offset (offset + 1) (body ++ ('"' : CodePoint) :: rest) =
        .ok (pieces, rest) :=
      takeString_of_spelling h offset (offset + 1) rest
    rw [List.append_assoc, List.singleton_append]
    simp [Token.next, Text.ofChar_injective.eq_iff, htake]
  | literal h =>
    obtain ⟨c, more, rfl, hspace⟩ := exists_cons_of_mem_literals h
    exact ⟨c, more, rfl, hspace, fun offset rest _ => next_literal offset h⟩
  | number h =>
    obtain ⟨negative, c, more, rfl, hc, htake⟩ := exists_takeUnsigned h
    cases negative with
    | false =>
      refine ⟨c, more, rfl, isSpace_eq_false_of_isAsciiDigit hc,
        fun offset rest hrest => ?_⟩
      rw [next_digit offset hc, htake rest (hrest trivial)]
    | true =>
      refine ⟨'-', c :: more, rfl, by decide, fun offset rest hrest => ?_⟩
      rw [List.cons_append, next_minus offset hc, htake rest (hrest trivial)]

theorem not_isScalar_of_mem_marks {mark : CodePoint × Token}
    (h : mark ∈ marks) : ¬ mark.2.IsScalar := by
  simp only [marks, List.mem_cons, List.not_mem_nil, or_false] at h
  rcases h with rfl | rfl | rfl | rfl | rfl | rfl <;> exact id

/-- A token that carries no fault is read where a lexeme stands. -/
theorem exists_lexeme {offset : Nat} {c : CodePoint} {t rest : Text} {token : Token}
    (h : Token.next offset c t = (token, rest)) (hsound : token.IsSound) :
    ∃ word, c :: t = word ++ rest ∧ Lexeme word token := by
  by_cases hmark : ∃ mark ∈ marks, mark.1 = c
  · obtain ⟨mark, hmem, rfl⟩ := hmark
    obtain ⟨_, _, heq, _, hnext⟩ := next_of_lexeme (.mark hmem)
    cases heq
    have hscalar : mark.2.IsScalar → EndsNumber t :=
      fun hs => absurd hs (not_isScalar_of_mem_marks hmem)
    rw [← List.nil_append t, hnext offset t hscalar] at h
    cases h
    exact ⟨[mark.1], rfl, .mark hmem⟩
  · simp only [marks, List.mem_cons, List.not_mem_nil, or_false, exists_eq_or_imp,
      exists_eq_left, not_or] at hmark
    obtain ⟨h₁, h₂, h₃, h₄, h₅, h₆⟩ := hmark
    simp only [Token.next, beq_iff_eq, Ne.symm h₁, Ne.symm h₂, Ne.symm h₃, Ne.symm h₄,
      Ne.symm h₅, Ne.symm h₆, if_false] at h
    -- What is no mark is a string, a number, a literal, or a number after a minus.
    split at h
    · rename_i hquote
      split at h
      · rename_i pieces after htake
        cases h
        obtain ⟨body, rfl, hspelling⟩ := exists_spelling htake
        rw [hquote]
        refine ⟨('"' : CodePoint) :: (body ++ [('"' : CodePoint)]), ?_, .string hspelling⟩
        simp
      · cases h
        cases hsound
    · split at h
      · rename_i hdigit
        obtain ⟨more, value, rfl, rfl, hnumber⟩ :=
          exists_number_of_takeUnsigned hdigit h hsound
        exact ⟨c :: more, rfl, .number hnumber⟩
      · split at h
        · rename_i word value hfind
          cases h
          obtain ⟨hword, ht⟩ := literal_of_find? hfind
          exact ⟨word, ht, .literal hword⟩
        · split at h
          · rename_i d more _ _
            split at h
            · rename_i hminus
              rw [Bool.and_eq_true, beq_iff_eq] at hminus
              obtain ⟨more, value, rfl, rfl, hnumber⟩ :=
                exists_number_of_takeUnsigned hminus.2 h hsound
              rw [hminus.1]
              exact ⟨_, rfl, .number hnumber⟩
            · cases h
              cases hsound
          · cases h
            cases hsound

end ExtensionAudit.Json
