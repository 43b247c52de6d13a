import ExtensionAudit.Json.Basic
import ExtensionAudit.Text.Casing

/-!
The content security policy of a manifest, wherever it stands. The search goes through
objects and arrays in document order and looks at members whose name is that of the
policy, in any case. Such a member ends the search if it holds a text, and also if it
holds null, an array or an object: then nothing but what is found inside counts. A
number or boolean there is passed over.
-/

namespace ExtensionAudit.Manifest

/-- The name of the member that holds the policy. -/
def policyName : Text := "content_security_policy"

/-- Is this the name of the policy, in any case? -/
def isPolicyName (name : Text) : Bool := Text.lower name == policyName

mutual

/-- The policy found in a value. -/
def policy? : Json → Option Text
  | .array elements => policyInElements elements
  | .object members => policyInMembers members
  | _ => none

/-- The policy found in the elements of an array; an empty one does not end the search. -/
def policyInElements : List Json → Option Text
  | [] => none
  | value :: rest =>
    match policy? value with
    | some (c :: t) => some (c :: t)
    | _ => policyInElements rest

/-- The policy found in the members of an object. -/
def policyInMembers : List (Text × Json) → Option Text
  | [] => none
  | (name, value) :: rest =>
    if isPolicyName name then
      match value with
      | .text t => some t
      | .null => none
      | .array elements => policyInElements elements
      | .object members => policyInMembers members
      | _ => policyInMembers rest
    else
      match policy? value with
      | some (c :: t) => some (c :: t)
      | _ => policyInMembers rest

end

end ExtensionAudit.Manifest
