import ExtensionAudit.Disk.Path
import ExtensionAudit.Text.Digit
import ExtensionAudit.Text.Utf8

/-!
What a visitor asks for is a reference: a path, perhaps behind a host, and with a query
or a fragment behind it. The path is resolved against the root, and then what is spelt
in it by the numbers of octets is put in.
-/

namespace ExtensionAudit.Web.Location

/-- The code points before a query or a fragment. -/
def beforeQuery (asked : Text) : Text :=
  asked.takeWhile fun c : CodePoint => c != '?' && c != '#'

/-- The query with its question mark, if there is one. -/
def query (asked : Text) : Text :=
  let rest := asked.takeWhile fun c : CodePoint => c != '#'
  rest.dropWhile fun c : CodePoint => c != '?'

/-- The reference without a host. -/
def withoutHost (t : Text) : Text :=
  match Text.dropStart? "//" t with
  | some rest => rest.dropWhile fun c => !Path.isSlash c
  | none => t

/-- Takes out the parts that are dots; `taken` are the parts before, the last one first.
Two dots take out the part before them, too, unless it is the root. -/
def resolveParts (taken : List Text) : List Text → List Text
  | [] => taken.reverse
  | part :: rest =>
    if part == ("." : Text) then resolveParts taken rest
    else if part == (".." : Text) then
      resolveParts (if taken == [[]] then taken else taken.drop 1) rest
    else resolveParts (part :: taken) rest

/-- The path from the root on. -/
def resolve (t : Text) : Text :=
  match Text.join "/"
    (resolveParts [] (Text.split '/' ("/" ++ t.dropWhile Path.isSlash))) with
  | [] => "/"
  | path => path

/-- The octet that two hexadecimal digits spell. -/
def octet? (high low : UInt8) : Option UInt8 := do
  .some (UInt8.ofNat (16 * (← (CodePoint.ofNat high.toNat).hexValue?) +
    (← (CodePoint.ofNat low.toNat).hexValue?)))

/-- Puts in the octets that stand behind a percent sign; `skip` counts the octets still
to be left out. -/
def putOctets : Nat → Bytes → Bytes
  | _, [] => []
  | skip + 1, _ :: rest => putOctets skip rest
  | 0, b :: high :: low :: rest =>
    match if b == 0x25 then octet? high low else none with
    | some octet => octet :: putOctets 2 (high :: low :: rest)
    | none => b :: putOctets 0 (high :: low :: rest)
  | 0, b :: rest => b :: putOctets 0 rest

/-- The path that is asked for. -/
def path (asked : Text) : Text :=
  Utf8.decodeLossy (putOctets 0 (Utf8.encode (resolve (withoutHost (beforeQuery asked)))))

end ExtensionAudit.Web.Location
