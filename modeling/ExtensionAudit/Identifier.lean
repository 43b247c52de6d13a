import ExtensionAudit.Json.Basic
import ExtensionAudit.Text.Blank
import ExtensionAudit.Text.Casing

/-!
Extension identifiers. A request names an extension by its identifier or by the address
of its page in the store; every other text is refused, so that only an ASCII
alphanumeric identifier goes on.
-/

namespace ExtensionAudit.Identifier

/-- The hosts whose detail pages are recognised. -/
def storeHosts : List Text := ["chrome.google.com", "chromewebstore.google.com"]

/-- One or more code points that satisfy `p`, as many as there are, and the rest. -/
def takeRun? (p : CodePoint → Bool) (t : Text) : Option (Text × Text) :=
  match t.takeWhile p with
  | [] => none
  | run => some (run, t.dropWhile p)

/-- Does the code point end the host of an address? -/
def isHostEnd (c : CodePoint) : Bool := c == '/' || c == '?' || c == '#'

/-- May the code point stand in the readable part of a page's address? -/
def isSlugChar (c : CodePoint) : Bool := c.isAsciiAlphanumeric || c == '-' || c == '_'

/-- A detail page of the store. -/
structure DetailPage where
  host : Text
  slug : Text
  id : Text
deriving DecidableEq

/-- Is this a query, a fragment, or nothing, on one line? -/
def isTrailer : Text → Bool
  | [] => true
  | c :: rest => (c == '?' || c == '#') && rest.all (· != '\n')

/-- Reads the address of a detail page: scheme, host, an optional `/webstore`,
`/detail/`, slug, identifier, an optional slash, an optional query or fragment. -/
def DetailPage.read? (t : Text) : Option DetailPage := do
  let t ← Text.dropStart? "http" t
  let t := (Text.dropStart? "s" t).getD t
  let t ← Text.dropStart? "://" t
  let (host, t) ← takeRun? (!isHostEnd ·) t
  let t := (Text.dropStart? "/webstore" t).getD t
  let t ← Text.dropStart? "/detail/" t
  let (slug, t) ← takeRun? isSlugChar t
  let t ← Text.dropStart? "/" t
  let (id, t) ← takeRun? CodePoint.isAsciiAlphanumeric t
  let t := (Text.dropStart? "/" t).getD t
  if isTrailer t then some ⟨host, slug, id⟩ else none

/-- Is this an identifier by itself? -/
def isBare (t : Text) : Bool := t != [] && t.all CodePoint.isAsciiAlphanumeric

/-- The identifier that a text names, blanks around it ignored; `none` if it is
refused. -/
def resolve? (t : Text) : Option Text :=
  let t := Text.trim t
  let onPage := do
    let page ← DetailPage.read? t
    if storeHosts.contains (Text.lower page.host) then some page.id else none
  match onPage with
  | some id => some id
  | none => if isBare t then some t else none

/-- The identifier that a value names; only a text can name one. -/
def ofJson? : Json → Option Text
  | .text t => resolve? t
  | _ => none

end ExtensionAudit.Identifier
