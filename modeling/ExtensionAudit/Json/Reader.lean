import ExtensionAudit.Json.Basic
import ExtensionAudit.Text.Digit
import ExtensionAudit.Text.Lines
import ExtensionAudit.Number.Numeral

/-!
Reading a document. The text is cut into tokens, each with its position; a machine with
a stack of open arrays and objects then takes the tokens one by one. What no token can
begin with, and a string that breaks off, are tokens too, so that the machine alone
decides which fault is reported.

Of two members with one name the later value counts, at the earlier place.
-/

namespace ExtensionAudit.Json

/-- What is wrong with a text that is not a document. -/
inductive Problem
  | byteOrderMark
  | noValue
  | noName
  | noColon
  | noComma
  | unterminatedString
  | controlCharacter
  | badEscape
  | badCodeEscape
  | extraData
deriving DecidableEq

/-- A place in a text: line and column from one, offset from zero. -/
structure Place where
  line : Nat
  column : Nat
  offset : Nat
deriving DecidableEq

/-- Why a document cannot be read. -/
inductive ReadFault
  | malformed (problem : Problem) (place : Place)
  | tooManyDigits (count : Nat)
deriving DecidableEq

/-- The place of an offset. -/
def Place.ofOffset (t : Text) (offset : Nat) : Place :=
  let before := Text.lines (t.take offset)
  ⟨before.length, (before.getLastD []).length + 1, offset⟩

/-! ### Strings -/

/-- A character of a string as it stands in the text: itself, or a code written out. -/
inductive Piece
  | plain (c : CodePoint)
  | code (unit : Nat)

/-- Joins a high surrogate with the low one after it, both written out. -/
def joinSurrogates : List Piece → Text
  | [] => []
  | .plain c :: rest => c :: joinSurrogates rest
  | .code high :: .code low :: rest =>
    if (CodePoint.ofNat high).isHighSurrogate && (CodePoint.ofNat low).isLowSurrogate then
      CodePoint.ofNat (0x10000 + (high - 0xD800) * 0x400 + (low - 0xDC00)) ::
        joinSurrogates rest
    else CodePoint.ofNat high :: joinSurrogates (.code low :: rest)
  | .code unit :: rest => CodePoint.ofNat unit :: joinSurrogates rest

/-- The number that four hexadecimal digits spell. -/
def hexUnit? (a b c d : CodePoint) : Option Nat := do
  some (((← a.hexValue?) * 16 + (← b.hexValue?)) * 256 + (← c.hexValue?) * 16 +
    (← d.hexValue?))

/-- What a backslash and this character stand for. -/
def escaped? (c : CodePoint) : Option CodePoint :=
  if c == '"' || c == '\\' || c == '/' then some c
  else if c == 'b' then some (CodePoint.ofNat 8)
  else if c == 'f' then some (CodePoint.ofNat 12)
  else if c == 'n' then some (CodePoint.ofNat 10)
  else if c == 'r' then some (CodePoint.ofNat 13)
  else if c == 't' then some (CodePoint.ofNat 9)
  else none

/-- Puts a piece in front of those that were read after it. -/
def withPiece (piece : Piece) :
    Except (Problem × Nat) (List Piece × Text) →
    Except (Problem × Nat) (List Piece × Text)
  | .ok (pieces, rest) => .ok (piece :: pieces, rest)
  | .error fault => .error fault

/-- The pieces of a string up to its closing quote, and the text after that. `start` is
the offset of the opening quote and `offset` that of the text at hand. The four digits
of a written code must not end the text. -/
def takeString (start offset : Nat) : Text → Except (Problem × Nat) (List Piece × Text)
  | [] => .error (.unterminatedString, start)
  | c :: rest =>
    if c == '"' then .ok ([], rest)
    else if c.val < 0x20 then .error (.controlCharacter, offset)
    else if c == '\\' then
      match rest with
      | [] => .error (.unterminatedString, start)
      | e :: more =>
        if e == 'u' then
          match more with
          | h₁ :: h₂ :: h₃ :: h₄ :: next :: after =>
            match hexUnit? h₁ h₂ h₃ h₄ with
            | none => .error (.badCodeEscape, offset + 1)
            | some unit =>
              withPiece (.code unit) (takeString start (offset + 6) (next :: after))
          | _ => .error (.badCodeEscape, offset + 1)
        else
          match escaped? e with
          | none => .error (.badEscape, offset)
          | some value => withPiece (.plain value) (takeString start (offset + 2) more)
    else withPiece (.plain c) (takeString start (offset + 1) rest)

/-! ### Numbers -/

/-- The ASCII digits a text starts with, as values, and the rest. -/
def takeAsciiDigits (t : Text) : List Nat × Text :=
  ((t.takeWhile CodePoint.isAsciiDigit).map (·.val - 48),
    t.dropWhile CodePoint.isAsciiDigit)

/-- A point with at least one digit after it; otherwise nothing. -/
def takePoint : Text → List Nat × Text
  | [] => ([], [])
  | c :: rest =>
    match takeAsciiDigits rest with
    | (d :: ds, after) => if c == '.' then (d :: ds, after) else ([], c :: rest)
    | ([], _) => ([], c :: rest)

/-- A scale factor with at least one digit; otherwise nothing. -/
def takeExponent : Text → Option Int × Text
  | [] => (none, [])
  | c :: rest =>
    if c == 'e' || c == 'E' then
      let (negative, body) := Numeral.takeSign rest
      match takeAsciiDigits body with
      | (d :: ds, after) =>
        (some (Binary64.signed negative (Numeral.ofDigits (d :: ds))), after)
      | ([], _) => (none, c :: rest)
    else (none, c :: rest)

/-! ### Tokens -/

/-- A token. A number with too many digits and a broken string carry their fault. -/
inductive Token
  | openArray | closeArray | openObject | closeObject | colon | comma
  | string (t : Text)
  | scalar (value : Json)
  | longNumber (digits : Nat)
  | brokenString (problem : Problem) (offset : Nat)
  | junk

/-- The number whose first digits are `whole`, and the text after it. -/
def takeNumber (negative : Bool) (whole : List Nat) (rest : Text) : Token × Text :=
  let (fraction, rest) := takePoint rest
  let (exponent, rest) := takeExponent rest
  if fraction.isEmpty && exponent.isNone then
    if Numeral.digitLimit < whole.length then (.longNumber whole.length, rest)
    else (.scalar (.int (Binary64.signed negative (Numeral.ofDigits whole))), rest)
  else
    let scale := exponent.getD 0 - fraction.length
    (.scalar (.float
      (Binary64.ofDecimal negative (Numeral.ofDigits (whole ++ fraction)) scale)), rest)

/-- The number whose first digit is `c`; only a lone zero starts with zero. -/
def takeUnsigned (negative : Bool) (c : CodePoint) (rest : Text) : Token × Text :=
  if c == '0' then takeNumber negative [0] rest
  else
    let (digits, after) := takeAsciiDigits rest
    takeNumber negative ((c.val - 48) :: digits) after

/-- The words that stand for values. -/
def literals : List (Text × Json) :=
  [("null", .null), ("true", .bool true), ("false", .bool false), ("NaN", .float .nan),
   ("Infinity", .float (.infinite false)), ("-Infinity", .float (.infinite true))]

/-- The token that starts with `c` at `offset`, and the text after it. -/
def Token.next (offset : Nat) (c : CodePoint) (rest : Text) : Token × Text :=
  if c == '[' then (.openArray, rest)
  else if c == ']' then (.closeArray, rest)
  else if c == '\x7b' then (.openObject, rest)
  else if c == '\x7d' then (.closeObject, rest)
  else if c == ':' then (.colon, rest)
  else if c == ',' then (.comma, rest)
  else if c == '"' then
    match takeString offset (offset + 1) rest with
    | .ok (pieces, after) => (.string (joinSurrogates pieces), after)
    | .error (problem, place) => (.brokenString problem place, [])
  else if c.isAsciiDigit then takeUnsigned false c rest
  else
    match literals.find? fun (word, _) => word.isPrefixOf (c :: rest) with
    | some (word, value) => (.scalar value, rest.drop (word.length - 1))
    | none =>
      match rest with
      | d :: more =>
        if c == '-' && d.isAsciiDigit then takeUnsigned true d more else (.junk, rest)
      | [] => (.junk, rest)

/-- The blanks between tokens. -/
def isSpace (c : CodePoint) : Bool := c == ' ' || c == '\t' || c == '\n' || c == '\r'

theorem length_takeAsciiDigits_le (t : Text) : (takeAsciiDigits t).2.length ≤ t.length :=
  (List.dropWhile_sublist _).length_le

theorem length_takeSign_le (t : Text) : (Numeral.takeSign t).2.length ≤ t.length := by
  cases t with
  | nil => simp [Numeral.takeSign]
  | cons c rest => simp only [Numeral.takeSign]; split <;> (try split) <;> simp

theorem length_takePoint_le (t : Text) : (takePoint t).2.length ≤ t.length := by
  cases t with
  | nil => simp [takePoint]
  | cons c rest =>
    have h := length_takeAsciiDigits_le rest
    simp only [takePoint]
    split
    · rename_i heq
      rw [heq] at h
      split
      · simp at h ⊢; omega
      · simp
    · simp

theorem length_takeExponent_le (t : Text) : (takeExponent t).2.length ≤ t.length := by
  cases t with
  | nil => simp [takeExponent]
  | cons c rest =>
    simp only [takeExponent]
    split
    · have h := length_takeAsciiDigits_le (Numeral.takeSign rest).2
      have hs := length_takeSign_le rest
      split
      · rename_i heq
        rw [heq] at h
        simp at h ⊢; omega
      · simp
    · simp

theorem length_takeNumber_le (negative : Bool) (whole : List Nat) (rest : Text) :
    (takeNumber negative whole rest).2.length ≤ rest.length := by
  have h₁ := length_takePoint_le rest
  have h₂ := length_takeExponent_le (takePoint rest).2
  simp only [takeNumber]
  split
  · split <;> exact Nat.le_trans h₂ h₁
  · exact Nat.le_trans h₂ h₁

theorem length_takeUnsigned_le (negative : Bool) (c : CodePoint) (rest : Text) :
    (takeUnsigned negative c rest).2.length ≤ rest.length := by
  simp only [takeUnsigned]
  split
  · exact length_takeNumber_le ..
  · exact Nat.le_trans (length_takeNumber_le ..) (length_takeAsciiDigits_le rest)

theorem exists_of_withPiece {piece : Piece}
    {result : Except (Problem × Nat) (List Piece × Text)} {pieces : List Piece}
    {rest : Text} (h : withPiece piece result = .ok (pieces, rest)) :
    ∃ more, result = .ok (more, rest) := by
  match result, h with
  | .ok (more, _), h =>
    simp only [withPiece, Except.ok.injEq, Prod.mk.injEq]
      at h; exact ⟨more, by rw [h.2]⟩

theorem length_takeString_le {start offset : Nat} {t : Text} {pieces : List Piece}
    {rest : Text} (h : takeString start offset t = .ok (pieces, rest)) :
    rest.length ≤ t.length := by
  induction hn : t.length using Nat.strongRecOn generalizing offset t pieces with
  | ind n ih =>
    -- after a piece the string goes on with a shorter text
    have further {piece : Piece} {later : Nat} {u : Text} (hu : u.length < n)
        (h : withPiece piece (takeString start later u) = .ok (pieces, rest)) :
          rest.length ≤ n := by
      obtain ⟨more, h⟩ := exists_of_withPiece h
      exact Nat.le_trans (ih u.length hu h rfl) (Nat.le_of_lt hu)
    subst hn
    cases t with
    | nil => simp [takeString] at h
    | cons c tail =>
      unfold takeString at h
      split at h
      · simp only [Except.ok.injEq, Prod.mk.injEq] at h
        rw [← h.2]; exact Nat.le_succ _
      · split at h
        · simp at h
        · split at h
          · split at h
            · simp at h
            · split at h
              · split at h
                · split at h
                  · simp at h
                  · exact further (by simp only [List.length_cons]; omega) h
                · simp at h
              · split at h
                · simp at h
                · exact further (by simp only [List.length_cons]; omega) h
          · exact further (Nat.lt_succ_self _) h

theorem Token.length_next_le (offset : Nat) (c : CodePoint) (rest : Text) :
    (Token.next offset c rest).2.length ≤ rest.length := by
  unfold Token.next
  -- the marks
  iterate 6
    refine iteInduction (motive := fun next : Token × Text => next.2.length ≤ rest.length)
      (fun _ => Nat.le_refl _) fun _ => ?_
  split
  · split
    · exact length_takeString_le ‹_›
    · exact Nat.zero_le _
  · split
    · exact length_takeUnsigned_le ..
    · split
      · exact (List.drop_sublist ..).length_le
      · split
        · split
          · exact Nat.le_succ_of_le (length_takeUnsigned_le ..)
          · exact Nat.le_refl _
        · exact Nat.le_refl _

/-- The tokens of a text that begins at `offset`, each with its own offset. -/
def tokens (offset : Nat) : Text → List (Nat × Token)
  | [] => []
  | c :: rest =>
    if isSpace c then tokens (offset + 1) rest
    else
      let after := (Token.next offset c rest).2
      (offset, (Token.next offset c rest).1) ::
        tokens (offset + 1 + (rest.length - after.length)) after
termination_by t => t.length
decreasing_by
  · simp
  · exact Nat.lt_succ_of_le (Token.length_next_le offset c rest)

/-! ### The machine -/

/-- An array or object that is open, with what it holds so far; the elements are in
reverse. -/
inductive Frame
  | array (done : List Json)
  | object (done : Entries Json) (name : Text)

/-- What the machine waits for. -/
inductive Waiting
  | value
  | firstElement
  | name (done : Entries Json) (first : Bool)
  | colon (done : Entries Json) (name : Text)
  | delimiter (last : Json)

/-- Takes a value that starts here; `problem` is reported if none does. -/
def takeValue (stack : List Frame) (offset : Nat) :
    Token → Except (Problem × Nat ⊕ Nat) (Waiting × List Frame)
  | .openArray => .ok (.firstElement, .array [] :: stack)
  | .openObject => .ok (.name [] true, stack)
  | .string t => .ok (.delimiter (.text t), stack)
  | .scalar value => .ok (.delimiter value, stack)
  | .longNumber digits => .error (.inr digits)
  | .brokenString problem place => .error (.inl (problem, place))
  | _ => .error (.inl (.noValue, offset))

/-- Takes one token. -/
def take (waiting : Waiting) (stack : List Frame) (offset : Nat) (token : Token) :
    Except (Problem × Nat ⊕ Nat) (Waiting × List Frame) :=
  match waiting, stack, token with
  | .value, stack, token => takeValue stack offset token
  | .firstElement, .array _ :: outer, .closeArray => .ok (.delimiter (.array []), outer)
  | .firstElement, stack, token => takeValue stack offset token
  | .name done first, stack, token =>
    match token with
    | .string name => .ok (.colon done name, stack)
    | .brokenString problem place => .error (.inl (problem, place))
    | .closeObject =>
      if first then .ok (.delimiter (.object done), stack)
      else .error (.inl (.noName, offset))
    | _ => .error (.inl (.noName, offset))
  | .colon done name, stack, .colon => .ok (.value, .object done name :: stack)
  | .colon _ _, _, _ => .error (.inl (.noColon, offset))
  | .delimiter _, [], _ => .error (.inl (.extraData, offset))
  | .delimiter last, .array done :: outer, .comma =>
    .ok (.value, .array (last :: done) :: outer)
  | .delimiter last, .array done :: outer, .closeArray =>
    .ok (.delimiter (.array (last :: done).reverse), outer)
  | .delimiter last, .object done name :: outer, .comma =>
    .ok (.name (done.put name last) false, outer)
  | .delimiter last, .object done name :: outer, .closeObject =>
    .ok (.delimiter (.object (done.put name last)), outer)
  | .delimiter _, _ :: _, _ => .error (.inl (.noComma, offset))

/-- What is missing when the text ends, or the document that has been read. -/
def finish : Waiting → List Frame → Except Problem Json
  | .value, _ => .error .noValue
  | .firstElement, _ => .error .noValue
  | .name _ _, _ => .error .noName
  | .colon _ _, _ => .error .noColon
  | .delimiter last, [] => .ok last
  | .delimiter _, _ :: _ => .error .noComma

/-- Takes all tokens. -/
def assemble (size : Nat) (waiting : Waiting) (stack : List Frame) :
    List (Nat × Token) → Except (Problem × Nat ⊕ Nat) Json
  | [] => (finish waiting stack).mapError fun problem => .inl (problem, size)
  | (offset, token) :: rest =>
    match take waiting stack offset token with
    | .error fault => .error fault
    | .ok (waiting, stack) => assemble size waiting stack rest

/-- Reads a document. -/
def read (t : Text) : Except ReadFault Json :=
  if t.head? == some CodePoint.byteOrderMark then
    .error (.malformed .byteOrderMark (Place.ofOffset t 0))
  else
    match assemble t.length .value [] (tokens 0 t) with
    | .ok value => .ok value
    | .error (.inl (problem, offset)) =>
      .error (.malformed problem (Place.ofOffset t offset))
    | .error (.inr digits) => .error (.tooManyDigits digits)

/-- What is wrong with a document. -/
def Problem.message : Problem → Text
  | .byteOrderMark => "Unexpected UTF-8 BOM (decode using utf-8-sig)"
  | .noValue => "Expecting value"
  | .noName => "Expecting property name enclosed in double quotes"
  | .noColon => "Expecting ':' delimiter"
  | .noComma => "Expecting ',' delimiter"
  | .unterminatedString => "Unterminated string starting at"
  | .controlCharacter => "Invalid control character at"
  | .badEscape => "Invalid \\escape"
  | .badCodeEscape => "Invalid \\uXXXX escape"
  | .extraData => "Extra data"

/-- What is said of a text that is no document, with the place. -/
def ReadFault.message : ReadFault → Text
  | .malformed problem place =>
    problem.message ++ ": line " ++ Text.ofNat place.line ++ " column " ++
      Text.ofNat place.column ++
    " (char " ++ Text.ofNat place.offset ++ ")"
  | .tooManyDigits count => (Numeral.Fault.tooManyDigits count).message

end ExtensionAudit.Json
