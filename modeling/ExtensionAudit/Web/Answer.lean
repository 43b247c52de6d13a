import ExtensionAudit.Json.Printer
import ExtensionAudit.Text.Utf8

/-!
Answers of the service. A document can be answered only if it can be written: numbers
that are not finite have no form in a response, and a surrogate that stands alone has no
octets.
-/

namespace ExtensionAudit.Web

/-- An answer: its status, what kind of content it has if it has any, where it leads if
it leads elsewhere, and the octets of the content. -/
structure Answer where
  status : Nat
  contentType : Option Text
  location : Option Text
  content : Bytes
deriving DecidableEq

/-- The octets of a document, if it can be written. -/
def encoded? (value : Json) : Option Bytes := do
  match Utf8.encodeStrict (← value.compact?) with
  | .ok octets => some octets
  | .error _ => none

namespace Answer

/-- An answer in plain text. -/
def plain (status : Nat) (t : Text) : Answer :=
  ⟨status, some "text/plain; charset=utf-8", none, Utf8.encode t⟩

/-- An answer with a page. -/
def page (t : Text) : Answer :=
  ⟨200, some "text/html; charset=utf-8", none, Utf8.encode t⟩

/-- An answer with the octets of a document. -/
def octets (status : Nat) (content : Bytes) : Answer :=
  ⟨status, some "application/json", none, content⟩

/-- An answer that leads elsewhere, where the same is to be asked again. -/
def detour (location : Text) : Answer := ⟨307, none, some location, []⟩

/-- What is answered when the answer that was meant cannot be given. -/
def broken : Answer := plain 500 "Internal Server Error"

/-- An answer with a document. -/
def document (status : Nat) (value : Json) : Answer :=
  match encoded? value with
  | some content => octets status content
  | none => broken

/-- An answer with a member of a name for its only content. -/
def remark (status : Nat) (name t : Text) : Answer :=
  document status (.object [(name, .text t)])

/-- The answer without its content. -/
def bare (answer : Answer) : Answer := { answer with content := [] }

end Answer

end ExtensionAudit.Web
