import ExtensionAudit.Json.Basic
import ExtensionAudit.Web.Page

/-!
What the service says of itself to programs.
-/

namespace ExtensionAudit.Web

/-- The version of the service. -/
def version : Text := "0.1.0"

namespace Description

/-- An object with named members. -/
def members (ms : List (String × Json)) : Json :=
  .object (ms.map fun (name, value) => (Text.ofString name, value))

/-- A text in a description. -/
def say (s : String) : Json := .text s

/-- Something that is described elsewhere in the description. -/
def reference (name : String) : Json :=
  members [("$ref", say ("#/components/schemas/" ++ name))]

/-- Content of a type, in a form. -/
def content (type : String) (form : Json) : Json :=
  members [("content", members [(type, members [("schema", form)])])]

/-- An answer that is given with content. -/
def reply (description type : String) (form : Json) : Json :=
  match content type form with
  | .object ms => .object (("description", say description) :: ms)
  | value => value

/-- The reply of an operation that does what is asked. -/
def success (type : String) (form : Json) : Json := reply "Successful Response" type form

/-- The name of the form in which an extension is named. -/
def formName : String := "Body_analyze_extension_analyze_extension_post"

/-- The page. -/
def pageOperation : Json := members [
  ("summary", say "Home"),
  ("description", say "Render the home page with analysis form"),
  ("operationId", say "home__get"),
  ("responses", members [
    ("200", success "text/html" (members [("type", say "string")]))])]

/-- The sign of life. -/
def healthOperation : Json := members [
  ("summary", say "Health"),
  ("operationId", say "health_health_get"),
  ("responses", members [("200", success "application/json" (members []))])]

/-- The analysis. -/
def analysisOperation : Json := members [
  ("summary", say "Analyze Extension"),
  ("description", say "Download and score an extension given its store URL or ID"),
  ("operationId", say "analyze_extension_analyze_extension_post"),
  ("requestBody", content "application/x-www-form-urlencoded" (reference formName)),
  ("responses", members [
    ("200", success "application/json" (members [])),
    ("422",
      reply "Validation Error" "application/json" (reference "HTTPValidationError"))])]

/-- The forms that the operations refer to. -/
def forms : Json := members [
  (formName, members [
    ("properties", members [
      ("extensionUrl", members [
        ("type", say "string"), ("title", say "Extensionurl"), ("default", say "")])]),
    ("type", say "object"),
    ("title", say formName)]),
  ("HTTPValidationError", members [
    ("properties", members [
      ("detail", members [
        ("items", reference "ValidationError"), ("type", say "array"),
        ("title", say "Detail")])]),
    ("type", say "object"),
    ("title", say "HTTPValidationError")]),
  ("ValidationError", members [
    ("properties", members [
      ("loc", members [
        ("items", members [("anyOf", .array [
          members [("type", say "string")], members [("type", say "integer")]])]),
        ("type", say "array"), ("title", say "Location")]),
      ("msg", members [("type", say "string"), ("title", say "Message")]),
      ("type", members [("type", say "string"), ("title", say "Error Type")])]),
    ("type", say "object"),
    ("required", .array [say "loc", say "msg", say "type"]),
    ("title", say "ValidationError")])]

end Description

/-- The description of the service. -/
def description : Json := Description.members [
  ("openapi", Description.say "3.1.0"),
  ("info", Description.members [
    ("title", .text title),
    ("description",
      Description.say "Score Chrome extensions for security and privacy risk"),
    ("version", .text version)]),
  ("paths", Description.members [
    ("/", Description.members [("get", Description.pageOperation)]),
    ("/health", Description.members [("get", Description.healthOperation)]),
    ("/analyze-extension",
      Description.members [("post", Description.analysisOperation)])]),
  ("components", Description.members [("schemas", Description.forms)])]

end ExtensionAudit.Web
