import ExtensionAudit.Proofs.Json.Phrase
import ExtensionAudit.Proofs.Json.Lexeme
import Mathlib.Data.List.Chain

/-!
# Json — what the reader accepts

The reader accepts the documents and nothing else, and what it returns is the value of
the document (`Json.read_eq_ok_iff`). A text can be cut into lexemes in more than one
way, as `12` can; but where a document is cut, no two scalars meet (`Json.IsApart`), and
then there is one way only, which is that of the reader.

No lexeme has a line end in it. So it is all one for a document how its lines end.
-/

namespace ExtensionAudit.Json

/-! ## Tokens that carry no fault -/

theorem lexed_tokens {offset : Nat} {t : Text}
    (h : ∀ entry ∈ tokens offset t, entry.2.IsSound) :
    Lexed t ((tokens offset t).map (·.2)) := by
  fun_induction tokens offset t with
  | case1 offset => exact .nil
  | case2 offset c rest hspace ih => exact .blank hspace (ih h)
  | case3 offset c rest hspace after ih =>
    rw [List.forall_mem_cons] at h
    have hnext : Token.next offset c rest = ((Token.next offset c rest).1, after) := rfl
    obtain ⟨word, hword, hlexeme⟩ := exists_lexeme hnext h.1
    rw [hword]
    exact .lexeme hlexeme (ih h.2)

theorem isSound_of_phrase {tokens : List Token} {meaning : Meaning}
    (h : Phrase tokens meaning) :
    ∀ token ∈ tokens, token.IsSound := by
  induction h with
  | element h ih => exact ih
  | text t => simp [Token.IsSound]
  | scalar value => simp [Token.IsSound]
  | emptyArray => simp [Token.IsSound]
  | emptyObject => simp [Token.IsSound]
  | array inside ih => simpa [Token.IsSound, or_imp, forall_and] using ih
  | object inside ih => simpa [Token.IsSound, or_imp, forall_and] using ih
  | elements before h ihbefore ih =>
    simpa [Token.IsSound, or_imp, forall_and] using ⟨ihbefore, ih⟩
  | member name h ih => simpa [Token.IsSound] using ih
  | members name before h ihbefore ih =>
    simpa [Token.IsSound, or_imp, forall_and] using ⟨ihbefore, ih⟩

/-! ## Scalars apart -/

/-- No two scalars stand side by side. -/
def IsApart (tokens : List Token) : Prop :=
  tokens.IsChain fun token next => token.IsScalar → ¬ next.IsScalar

theorem IsApart.nil : IsApart [] := List.IsChain.nil

/-- What is no scalar keeps what is before it apart from what is after it. -/
theorem IsApart.join {tokens more : List Token} {token : Token}
    (htoken : ¬ token.IsScalar) (h : IsApart tokens)
    (hmore : IsApart more) : IsApart (tokens ++ token :: more) := by
  have hafter : IsApart (token :: more) := by
    rw [IsApart, List.isChain_cons]
    exact ⟨fun _ _ hscalar => absurd hscalar htoken, hmore⟩
  rw [IsApart, List.isChain_append]
  refine ⟨h, hafter, ?_⟩
  intro before _ next hnext _
  rw [List.head?_cons, Option.mem_some] at hnext
  rwa [← hnext]

theorem IsApart.cons {tokens : List Token} {token : Token} (htoken : ¬ token.IsScalar)
    (h : IsApart tokens) :
    IsApart (token :: tokens) := IsApart.nil.join htoken h

theorem isApart_of_phrase {tokens : List Token} {meaning : Meaning}
    (h : Phrase tokens meaning) : IsApart tokens := by
  induction h with
  | element h ih => exact ih
  | text t => exact .singleton _
  | scalar value => exact .singleton _
  | emptyArray => exact .cons id (.singleton _)
  | emptyObject => exact .cons id (.singleton _)
  | array inside ih => exact .cons id (ih.join id .nil)
  | object inside ih => exact .cons id (ih.join id .nil)
  | elements before h ihbefore ih => exact ihbefore.join id ih
  | member name h ih => exact .cons id (.cons id ih)
  | members name before h ihbefore ih => exact ihbefore.join id (.cons id (.cons id ih))

theorem endsNumber_of_space {c : CodePoint} (h : isSpace c = true)
    (rest : Text) : EndsNumber (c :: rest) := by
  intro d hd
  rw [List.head?_cons, Option.mem_some] at hd
  rw [← hd]
  simp only [isSpace, Bool.or_eq_true, beq_iff_eq] at h
  rcases h with ((rfl | rfl) | rfl) | rfl <;> decide

/-- A lexeme that is no scalar does not go on with a number. -/
theorem endsNumber_of_lexeme {word : Text} {token : Token} (h : Lexeme word token)
    (htoken : ¬ token.IsScalar) (rest : Text) : EndsNumber (word ++ rest) := by
  cases h with
  | @mark c token h =>
    have hmarks : ∀ mark ∈ marks,
        mark.1.isAsciiDigit = false ∧ mark.1 ≠ '.' ∧ mark.1 ≠ 'e' ∧
        mark.1 ≠ 'E' := by decide
    intro d hd
    rw [List.singleton_append, List.head?_cons, Option.mem_some] at hd
    rw [← hd]
    exact hmarks _ h
  | string h =>
    intro d hd
    rw [List.cons_append, List.head?_cons, Option.mem_some] at hd
    rw [← hd]
    decide
  | literal h => exact absurd trivial htoken
  | number h => exact absurd trivial htoken

theorem endsNumber_of_lexed {t : Text} {tokens : List Token} (h : Lexed t tokens)
    (hhead : ∀ token ∈ tokens.head?, ¬ token.IsScalar) : EndsNumber t := by
  cases h with
  | nil => exact fun c hc => by cases hc
  | blank h more => exact endsNumber_of_space h _
  | lexeme h more => exact endsNumber_of_lexeme h (hhead _ rfl) _

/-- Where no two scalars meet there is one way to cut a text into lexemes. -/
theorem map_tokens_of_lexed {t : Text} {ts : List Token} (h : Lexed t ts)
    (hapart : IsApart ts) (offset : Nat) :
    (tokens offset t).map (·.2) = ts := by
  induction h generalizing offset with
  | nil => rw [tokens]; rfl
  | @blank c rest ts hspace more ih => 
    rw [tokens, if_pos hspace, ih hapart]
  | @lexeme word rest token ts hlexeme more ih =>
    obtain ⟨hnext, hrest⟩ := List.isChain_cons.mp hapart
    obtain ⟨c, tail, rfl, hspace, hread⟩ := next_of_lexeme hlexeme
    have hends : token.IsScalar → EndsNumber rest := by
      intro hscalar
      exact endsNumber_of_lexed more fun next hmem => hnext next hmem hscalar
    rw [List.cons_append, tokens, if_neg (by simp [hspace]), hread offset rest hends,
      List.map_cons, ih hrest]

/-! ## Documents -/

/-- A document is told by its tokens. -/
theorem document_iff {t : Text} {value : Json} :
    Document t value ↔ Phrase ((tokens 0 t).map (·.2)) (.value value) := by
  constructor
  · intro h
    obtain ⟨ts, hlexed, hphrase⟩ := h
    rwa [map_tokens_of_lexed hlexed (isApart_of_phrase hphrase)]
  · intro h
    have hsound := isSound_of_phrase h
    exact ⟨_,
      lexed_tokens fun entry hentry => hsound entry.2 (List.mem_map_of_mem hentry), h⟩

theorem next_byteOrderMark (offset : Nat) (rest : Text) :
    Token.next offset CodePoint.byteOrderMark rest = (.junk, rest) := by
  cases rest <;> rfl

/-- No document begins with a byte order mark. -/
theorem head?_ne_of_document {t : Text} {value : Json} (h : Document t value) :
    t.head? ≠ some CodePoint.byteOrderMark := by
  intro hhead
  obtain ⟨rest, rfl⟩ := List.head?_eq_some_iff.mp hhead
  have hsound := isSound_of_phrase (document_iff.mp h)
  rw [tokens, if_neg (by decide), next_byteOrderMark, List.map_cons,
    List.forall_mem_cons] at hsound
  exact hsound.1

/-- The reader accepts the documents, and returns their values. -/
theorem read_eq_ok_iff {t : Text} {value : Json} : read t = .ok value ↔
    Document t value := by
  by_cases hmark : t.head? = some CodePoint.byteOrderMark
  · have hrefused : ¬ Document t value := fun h => head?_ne_of_document h hmark
    rw [read, if_pos (by simp [hmark])]
    exact iff_of_false (by simp) hrefused
  · have hassemble : assemble t.length .value [] (tokens 0 t) = .ok value ↔
        Document t value := by
      rw [assemble_eq_ok_iff, document_iff]
    rw [← hassemble, read, if_neg (by simpa using hmark)]
    split <;> simp_all

theorem not_document_nil {value : Json} : ¬ Document [] value := by
  intro h
  have hread := read_eq_ok_iff.mpr h
  rw [read, tokens] at hread
  cases hread

/-! ## Line ends -/

/-- What is no control character. -/
def IsVisible (t : Text) : Prop := ∀ c ∈ t, 0x20 ≤ c.val

theorem IsVisible.append {t u : Text} (ht : IsVisible t)
    (hu : IsVisible u) : IsVisible (t ++ u) := by
  intro c hc
  rcases List.mem_append.mp hc with hc | hc
  · exact ht c hc
  · exact hu c hc

theorem IsVisible.cons {c : CodePoint} {t : Text} (hc : 0x20 ≤ c.val)
    (ht : IsVisible t) : IsVisible (c :: t) :=
  List.forall_mem_cons.mpr ⟨hc, ht⟩

theorem isVisible_nil : IsVisible [] := fun c hc => by cases hc

theorem le_of_hexValue? {c : CodePoint} {value : Nat}
    (h : c.hexValue? = some value) : 0x20 ≤ c.val := by
  simp only [CodePoint.hexValue?, CodePoint.isBetween, Bool.and_eq_true,
    decide_eq_true_eq] at h
  split at h
  · omega
  · split at h
    · omega
    · split at h
      · omega
      · cases h

theorem le_of_escaped? {e c : CodePoint} (h : escaped? e = some c) : 0x20 ≤ e.val := by
  by_contra hlt
  have hne (d : CodePoint) (hd : 0x20 ≤ d.val) : (e == d) = false := by
    rw [beq_eq_false_iff_ne]
    intro heq
    exact hlt (heq ▸ hd)
  simp [escaped?, hne '"' (by decide), hne '\\' (by decide), hne '/' (by decide),
    hne 'b' (by decide), hne 'f' (by decide), hne 'n' (by decide), hne 'r' (by decide),
    hne 't' (by decide)] at h

theorem isVisible_of_spelling {body : Text} {pieces : List Piece}
    (h : Spelling body pieces) : IsVisible body := by
  induction h with
  | nil => exact isVisible_nil
  | plain hquote hbackslash hcontrol more ih => exact .cons hcontrol ih
  | escaped h more ih => exact .cons (by decide) (.cons (le_of_escaped? h) ih)
  | @code h₁ h₂ h₃ h₄ unit body pieces h more ih =>
    simp only [hexUnit?, Option.bind_eq_bind, Option.bind_eq_some_iff] at h
    obtain ⟨_, hfirst, _, hsecond, _, hthird, _, hfourth, _⟩ := h
    have hdigits : IsVisible [h₁, h₂, h₃, h₄] :=
      .cons (le_of_hexValue? hfirst) (.cons (le_of_hexValue? hsecond)
      (.cons (le_of_hexValue? hthird) (.cons (le_of_hexValue? hfourth) isVisible_nil)))
    exact .cons (by decide) (.cons (by decide) (hdigits.append ih))

theorem isVisible_of_isDigits {digits : Text}
    (h : IsDigits digits) : IsVisible digits := by
  intro c hc
  have hdigit := h.2 c hc
  simp only [CodePoint.isAsciiDigit, CodePoint.isBetween, Bool.and_eq_true,
    decide_eq_true_eq] at hdigit
  omega

theorem isVisible_minus (negative : Bool) : IsVisible (minus negative) := by
  cases negative <;> (unfold IsVisible; decide)

theorem isVisible_of_number {t : Text} {value : Json}
    (h : IsNumber t value) : IsVisible t := by
  cases h with
  | integer negative h =>
    exact (isVisible_minus negative).append (isVisible_of_isDigits h.1)
  | double negative h hfraction hpower =>
    refine (isVisible_minus negative).append
      ((isVisible_of_isDigits h.1).append (.append ?_ ?_))
    · cases hfraction with
      | absent => exact isVisible_nil
      | places hdigits => exact .cons (by decide) (isVisible_of_isDigits hdigits)
    · cases hpower with
      | absent => exact isVisible_nil
      | power hmark hsign hdigits =>
        refine .cons ?_ (.append ?_ (isVisible_of_isDigits hdigits))
        · rcases hmark with rfl | rfl <;> decide
        · cases hsign <;> (unfold IsVisible; decide)

/-- No lexeme has a control character in it. -/
theorem isVisible_of_lexeme {word : Text} {token : Token}
    (h : Lexeme word token) : IsVisible word := by
  cases h with
  | mark h =>
    have hmarks : ∀ mark ∈ marks, 0x20 ≤ mark.1.val := by decide
    exact .cons (hmarks _ h) isVisible_nil
  | string h =>
    exact .cons (by decide)
      ((isVisible_of_spelling h).append (.cons (by decide) isVisible_nil))
  | literal h =>
    have hwords : ∀ literal ∈ literals, IsVisible literal.1 := by unfold IsVisible; decide
    exact hwords _ h
  | number h => exact isVisible_of_number h

theorem universalNewlines_cons {c : CodePoint} (hc : c ≠ '\r') (rest : Text) :
    Text.universalNewlines (c :: rest) = c :: Text.universalNewlines rest := by
  rw [Text.universalNewlines.eq_def]
  simp [hc]

/-- A carriage return is read as a line feed, together with a line feed after it. -/
theorem universalNewlines_return (rest : Text) :
    ∃ more, (rest = more ∨ rest = ('\n' : CodePoint) :: more) ∧
      Text.universalNewlines (('\r' : CodePoint) :: rest) =
      ('\n' : CodePoint) :: Text.universalNewlines more := by
  cases rest with
  | nil => exact ⟨[], .inl rfl, by simp [Text.universalNewlines]⟩
  | cons d more =>
    by_cases hd : d = '\n'
    · rw [hd]
      exact ⟨more, .inr rfl, by simp [Text.universalNewlines]⟩
    · exact ⟨d :: more, .inl rfl, by simp [Text.universalNewlines, hd]⟩

theorem exists_of_universalNewlines_cons {c : CodePoint} {t u : Text} (hc : c ≠ '\n')
    (h : Text.universalNewlines t = c :: u) : ∃ rest, t = c :: rest ∧
    Text.universalNewlines rest = u := by
  cases t with
  | nil => simp [Text.universalNewlines] at h
  | cons d rest =>
    by_cases hd : d = '\r'
    · obtain ⟨more, _, hmore⟩ := universalNewlines_return rest
      rw [hd, hmore, List.cons.injEq] at h
      exact absurd h.1.symm hc
    · rw [universalNewlines_cons hd, List.cons.injEq] at h
      exact ⟨rest, by rw [h.1], h.2⟩

theorem IsVisible.ne {c : CodePoint} {t : Text} (h : IsVisible (c :: t)) : c ≠ '\n' ∧
    c ≠ '\r' := by
  have hc : 0x20 ≤ c.val := h c List.mem_cons_self
  constructor
  · intro heq
    rw [heq] at hc
    exact absurd hc (by decide)
  · intro heq
    rw [heq] at hc
    exact absurd hc (by decide)

/-- What has no control characters stays when line ends are read, and is there before. -/
theorem universalNewlines_append {word : Text} (h : IsVisible word) (rest : Text) :
    Text.universalNewlines (word ++ rest) = word ++ Text.universalNewlines rest := by
  induction word with
  | nil => rfl
  | cons c more ih =>
    have hmore : IsVisible more := fun d hd => h d (List.mem_cons_of_mem c hd)
    rw [List.cons_append, universalNewlines_cons h.ne.2, ih hmore, List.cons_append]

theorem exists_of_universalNewlines_append {word t u : Text} (hword : IsVisible word)
    (h : Text.universalNewlines t = word ++ u) : ∃ rest, t = word ++ rest ∧
    Text.universalNewlines rest = u := by
  induction word generalizing t with
  | nil => exact ⟨t, rfl, h⟩
  | cons c more ih =>
    have hmore : IsVisible more := fun d hd => hword d (List.mem_cons_of_mem c hd)
    obtain ⟨tail, rfl, htail⟩ := exists_of_universalNewlines_cons hword.ne.1 h
    obtain ⟨rest, rfl, hrest⟩ := ih hmore htail
    exact ⟨rest, rfl, hrest⟩

theorem lexed_universalNewlines {t : Text} {ts : List Token} (h : Lexed t ts) :
    Lexed (Text.universalNewlines t) ts := by
  induction h with
  | nil => exact .nil
  | @blank c rest ts hspace more ih =>
    by_cases hc : c = '\r'
    · rw [hc]
      obtain ⟨tail, hrest, htail⟩ := universalNewlines_return rest
      rw [htail]
      rcases hrest with rfl | rfl
      · exact .blank (by decide) ih
      · rwa [universalNewlines_cons (by decide)] at ih
    · rw [universalNewlines_cons hc]
      exact .blank hspace ih
  | lexeme hlexeme more ih =>
    rw [universalNewlines_append (isVisible_of_lexeme hlexeme)]
    exact .lexeme hlexeme ih

theorem lexed_of_universalNewlines {t u : Text} {ts : List Token}
    (hu : Text.universalNewlines t = u) (h : Lexed u ts) :
    Lexed t ts := by
  induction h generalizing t with
  | nil =>
    cases t with
    | nil => exact .nil
    | cons c rest =>
      by_cases hc : c = '\r'
      · obtain ⟨more, _, hmore⟩ := universalNewlines_return rest
        rw [hc, hmore] at hu
        cases hu
      · rw [universalNewlines_cons hc] at hu
        cases hu
  | @blank c rest ts hspace more ih =>
    cases t with
    | nil => cases hu
    | cons d tail =>
      by_cases hd : d = '\r'
      · obtain ⟨after, htail, hafter⟩ := universalNewlines_return tail
        rw [hd, hafter, List.cons.injEq] at hu
        have hlexed := ih hu.2
        rw [hd]
        rcases htail with rfl | rfl
        · exact .blank (by decide) hlexed
        · exact .blank (by decide) (.blank (by decide) hlexed)
      · rw [universalNewlines_cons hd, List.cons.injEq] at hu
        rw [hu.1]
        exact .blank hspace (ih hu.2)
  | lexeme hlexeme more ih =>
    obtain ⟨rest, rfl, hrest⟩ :=
      exists_of_universalNewlines_append (isVisible_of_lexeme hlexeme) hu
    exact .lexeme hlexeme (ih hrest)

/-- How its lines end makes no difference to a document. -/
theorem document_universalNewlines_iff {t : Text} {value : Json} :
    Document (Text.universalNewlines t) value ↔ Document t value := by
  constructor
  · intro h
    obtain ⟨ts, hlexed, hphrase⟩ := h
    exact ⟨ts, lexed_of_universalNewlines rfl hlexed, hphrase⟩
  · intro h
    obtain ⟨ts, hlexed, hphrase⟩ := h
    exact ⟨ts, lexed_universalNewlines hlexed, hphrase⟩

end ExtensionAudit.Json
