import ExtensionAudit.Json.Reader

/-!
# Json — what a document is

The grammar of documents, said without the reader. A text consists of lexemes with
blanks between them (`Json.Lexed`), and the tokens that these stand for make up a phrase
(`Json.Phrase`). The members of an object are written one after another: of two with one
name the later value counts, at the earlier place.
-/

namespace ExtensionAudit.Json

/-! ## Numbers -/

/-- A run of digits, of which there is at least one. -/
def IsDigits (t : Text) : Prop := t ≠ [] ∧ ∀ c ∈ t, c.isAsciiDigit = true

/-- The values of digits. -/
def digitValues (t : Text) : List Nat := t.map (·.val - 48)

/-- The digits in front of the point: what starts with a zero is zero. -/
def IsWhole (t : Text) : Prop :=
  IsDigits t ∧ (t.head? = some ('0' : CodePoint) → t.length = 1)

/-- A minus sign, or nothing. -/
def minus (negative : Bool) : Text := if negative then ['-'] else []

/-- A point and the digits after it, with their values, or nothing. -/
inductive Fraction : Text → List Nat → Prop
  | absent : Fraction [] []
  | places {digits : Text} (h : IsDigits digits) :
      Fraction ('.' :: digits) (digitValues digits)

/-- The sign of a power: only a minus makes it negative. -/
inductive PowerSign : Text → Bool → Prop
  | absent : PowerSign [] false
  | plus : PowerSign ['+'] false
  | minus : PowerSign ['-'] true

/-- A power of ten, with its exponent, or nothing. -/
inductive Power : Text → Option Int → Prop
  | absent : Power [] none
  | power {mark : CodePoint} {sign digits : Text} {negative : Bool}
      (hmark : mark = 'e' ∨ mark = 'E')
    (hsign : PowerSign sign negative) (h : IsDigits digits) :
    Power (mark :: (sign ++ digits))
      (some (Binary64.signed negative (Numeral.ofDigits (digitValues digits))))

/-- A number: an integer of not too many digits, or a double if there is a fraction or a
power. -/
inductive IsNumber : Text → Json → Prop
  | integer (negative : Bool) {whole : Text} (h : IsWhole whole)
      (hlimit : whole.length ≤ Numeral.digitLimit) :
    IsNumber (Json.minus negative ++ whole)
      (.int (Binary64.signed negative (Numeral.ofDigits (digitValues whole))))
  | double (negative : Bool) {whole fraction power : Text} {places : List Nat}
      {exponent : Option Int}
    (h : IsWhole whole) (hfraction : Fraction fraction places)
      (hpower : Power power exponent)
    (hsome : fraction ≠ [] ∨ power ≠ []) :
    IsNumber (Json.minus negative ++ (whole ++ (fraction ++ power)))
      (.float
        (Binary64.ofDecimal negative (Numeral.ofDigits (digitValues whole ++ places))
        (exponent.getD 0 - places.length)))

/-! ## Lexemes -/

/-- What may stand between the quotes of a string, with the pieces it spells: characters
that are no quote, no backslash and no control character, escaped characters, and codes
of four digits. -/
inductive Spelling : Text → List Piece → Prop
  | nil : Spelling [] []
  | plain {c : CodePoint} {rest : Text} {pieces : List Piece} (hquote : c ≠ '"')
      (hbackslash : c ≠ '\\')
    (hcontrol : 0x20 ≤ c.val) (more : Spelling rest pieces) :
      Spelling (c :: rest) (.plain c :: pieces)
  | escaped {e c : CodePoint} {rest : Text} {pieces : List Piece}
      (h : escaped? e = some c)
    (more : Spelling rest pieces) : Spelling ('\\' :: e :: rest) (.plain c :: pieces)
  | code {h₁ h₂ h₃ h₄ : CodePoint} {unit : Nat} {rest : Text} {pieces : List Piece}
    (h : hexUnit? h₁ h₂ h₃ h₄ = some unit) (more : Spelling rest pieces) :
    Spelling ('\\' :: 'u' :: h₁ :: h₂ :: h₃ :: h₄ :: rest) (.code unit :: pieces)

/-- The marks that are tokens. -/
def marks : List (CodePoint × Token) :=
  [('[', .openArray), (']', .closeArray), ('\x7b', .openObject), ('\x7d', .closeObject),
    (':', .colon), (',', .comma)]

/-- A lexeme and the token it stands for. -/
inductive Lexeme : Text → Token → Prop
  | mark {c : CodePoint} {token : Token} (h : (c, token) ∈ marks) : Lexeme [c] token
  | string {body : Text} {pieces : List Piece} (h : Spelling body pieces) :
    Lexeme ('"' :: (body ++ [('"' : CodePoint)])) (.string (joinSurrogates pieces))
  | literal {word : Text} {value : Json} (h : (word, value) ∈ literals) :
      Lexeme word (.scalar value)
  | number {t : Text} {value : Json} (h : IsNumber t value) : Lexeme t (.scalar value)

/-- A text that consists of lexemes with blanks around them, and their tokens. -/
inductive Lexed : Text → List Token → Prop
  | nil : Lexed [] []
  | blank {c : CodePoint} {rest : Text} {tokens : List Token} (h : isSpace c = true)
      (more : Lexed rest tokens) :
    Lexed (c :: rest) tokens
  | lexeme {word rest : Text} {token : Token} {tokens : List Token}
      (h : Lexeme word token)
    (more : Lexed rest tokens) : Lexed (word ++ rest) (token :: tokens)

/-! ## Phrases -/

/-- What tokens can mean: a value, or the elements or members between the brackets of
one. -/
inductive Meaning
  | value (value : Json)
  | elements (elements : List Json)
  | members (members : List (Text × Json))

/-- Tokens and what they mean. -/
inductive Phrase : List Token → Meaning → Prop
  | text (t : Text) : Phrase [.string t] (.value (.text t))
  | scalar (value : Json) : Phrase [.scalar value] (.value value)
  | emptyArray : Phrase [.openArray, .closeArray] (.value (.array []))
  | array {tokens : List Token} {elements : List Json}
      (inside : Phrase tokens (.elements elements)) :
    Phrase (.openArray :: (tokens ++ [.closeArray])) (.value (.array elements))
  | emptyObject : Phrase [.openObject, .closeObject] (.value (.object []))
  | object {tokens : List Token} {members : List (Text × Json)}
      (inside : Phrase tokens (.members members)) :
    Phrase (.openObject :: (tokens ++ [.closeObject]))
      (.value (.object (Entries.ofPairs members)))
  | element {tokens : List Token} {value : Json} (h : Phrase tokens (.value value)) :
    Phrase tokens (.elements [value])
  | elements {tokens more : List Token} {elements : List Json} {value : Json}
    (before : Phrase tokens (.elements elements)) (h : Phrase more (.value value)) :
    Phrase (tokens ++ .comma :: more) (.elements (elements ++ [value]))
  | member {tokens : List Token} (name : Text) {value : Json}
      (h : Phrase tokens (.value value)) :
    Phrase (.string name :: .colon :: tokens) (.members [(name, value)])
  | members {tokens more : List Token} {members : List (Text × Json)} (name : Text)
      {value : Json}
    (before : Phrase tokens (.members members)) (h : Phrase more (.value value)) :
    Phrase (tokens ++ .comma :: .string name :: .colon :: more)
      (.members (members ++ [(name, value)]))

/-- The text is a document with this value. -/
def Document (t : Text) (value : Json) : Prop :=
  ∃ tokens, Lexed t tokens ∧ Phrase tokens (.value value)

end ExtensionAudit.Json
