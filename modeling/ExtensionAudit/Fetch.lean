import ExtensionAudit.Number.Numeral
import ExtensionAudit.Size
import ExtensionAudit.Text.Casing

/-!
Fetching a package from the store. One request is made; the response is refused by its
status, by the kind of its content, by the length it declares, or as soon as its body
has grown beyond the limit. Whatever happens, a response that was received is closed.

Requests are made by a library. How it finds a header, which responses it rejects and
what it says of them are taken from its documentation.
-/

namespace ExtensionAudit.Fetch

/-- The store's update service. -/
def serviceAddress : Text := "https://clients2.google.com/service/update2/crx"

/-- What requests call themselves. -/
def userAgent : Text :=
  "Mozilla/5.0 (Windows NT 10.0; Win64; x64) AppleWebKit/537.36 " ++
  "(KHTML, like Gecko) Chrome/120.0.0.0 Safari/537.36"

/-- How packages are fetched: the greatest size, how long to wait (handed on as it is),
and the browser version to ask for. -/
structure Terms where
  limit : Int
  patience : Json
  prodversion : Text

/-- The terms that hold unless something else is said. -/
def Terms.default : Terms := ⟨52428800, .int 30, "120.0"⟩

/-- A request, whose response is read as a stream. -/
structure Request where
  address : Text
  parameters : Entries Text
  headers : Entries Text
  patience : Json

/-- The parameter that names the extension; the service expects small letters. -/
def selector (id : Text) : Text := "id=" ++ Text.lower id ++ "&installsource=ondemand&uc"

/-- The name of that parameter. -/
def selectorName : Text := "x"

/-- The request for an extension. -/
def request (terms : Terms) (id : Text) : Request where
  address := serviceAddress
  parameters := [("response", "redirect"), ("prodversion", terms.prodversion),
    ("acceptformat", "crx2,crx3"), (selectorName, selector id)]
  headers := [("User-Agent", userAgent)]
  patience := terms.patience

/-- A response: the address that it came from in the end, its status, its headers, and
the chunks of its body up to where it is cut off, if it is. -/
structure Response where
  address : Text
  status : Int
  reason : Option Text
  headers : List (Text × Text)
  chunks : List Bytes
  interruption : Option Text
deriving DecidableEq

/-- What a request leads to. -/
inductive Reply
  | failure (reason : Text)
  | response (r : Response)
deriving DecidableEq

/-- Why there is no package. The last two are not about the exchange. -/
inductive Fault
  | failed (reason : Text)
  | rejected (status : Int) (reason : Option Text) (address : Text)
  | notFound (id : Text)
  | declaredTooLong (declared limit : Text)
  | tooLong (limit : Text)
  | interrupted (reason : Text)
  | badLength (fault : Numeral.Fault)
  | badSize (misuse : Json.Misuse)
deriving DecidableEq

/-- The value of a header, whose name is taken without regard to case. Of two with one
name the later counts. -/
def Response.header? (r : Response) (name : Text) : Option Text :=
  (r.headers.findRev? fun (key, _) => Text.lower key == name).map (·.2)

/-- Does the status say that the request failed? That is so from 400 on and below 600. -/
def Response.isRejected (r : Response) : Bool := 400 ≤ r.status && r.status < 600

/-- Is the content a page for people? -/
def Response.isPage (r : Response) : Bool :=
  Text.contains "text/html" (Text.lower ((r.header? "content-type").getD []))

/-- The length that the response declares, none if it declares nothing that consists of
digits. -/
def Response.declaredLength (r : Response) : Except Fault Int :=
  match r.header? "content-length" with
  | some t =>
    if t != [] && t.all CodePoint.isDigit
      then (Numeral.readInt t).mapError .badLength else .ok 0
  | none => .ok 0

/-- A size for people. -/
def sizeText (n : Int) : Except Fault Text := (Size.ofInt n).mapError .badSize

/-- What is checked before the body is read. -/
def Response.admit (r : Response) (terms : Terms) (id : Text) : Except Fault Unit := do
  if r.isRejected then
    .error (if r.status == 404 then .notFound id
      else .rejected r.status r.reason r.address)
  else if r.isPage then .error (.notFound id)
  else
    let declared ← r.declaredLength
    if terms.limit < declared then
      .error (.declaredTooLong (← sizeText declared) (← sizeText terms.limit))
    else .ok ()

/-- What is done with a response. -/
inductive Act
  | take
  | close
deriving DecidableEq

/-- Reads the chunks of a body onto what has been read, taking them one by one. -/
def readBody (limit : Int) (interruption : Option Text) (body : Bytes) :
    List Bytes → List Act × Except Fault Bytes
  | [] =>
    ([], match interruption with
      | some reason => .error (.interrupted reason)
      | none => .ok body)
  | chunk :: rest =>
    let body := body ++ chunk
    if chunk != [] && limit < body.length then
      ([.take], do .error (.tooLong (← sizeText limit)))
    else
      let (acts, outcome) := readBody limit interruption body rest
      (.take :: acts, outcome)

/-- Reads the package out of a response. -/
def Response.read (r : Response) (terms : Terms)
    (id : Text) : List Act × Except Fault Bytes :=
  match r.admit terms id with
  | .error fault => ([], .error fault)
  | .ok () => readBody terms.limit r.interruption [] r.chunks

/-- Reads the package out of a response, and closes the response whatever comes of it. -/
def Response.package (r : Response) (terms : Terms)
    (id : Text) : List Act × Except Fault Bytes :=
  let (acts, outcome) := r.read terms id
  (acts ++ [.close], outcome)

/-- A fetch: the request that was made, what was done with the response if there was
one, and the package. -/
structure Exchange where
  request : Request
  acts : Option (List Act)
  outcome : Except Fault Bytes

/-- Fetches the package of an extension. -/
def fetch (terms : Terms) (reply : Reply) (id : Text) : Exchange :=
  match reply with
  | .failure reason => ⟨request terms id, none, .error (.failed reason)⟩
  | .response r =>
    let (acts, outcome) := r.package terms id
    ⟨request terms id, some acts, outcome⟩

/-- What is said of a package that is not fetched. -/
def Fault.message : Fault → Text
  | .failed reason => "Download failed: " ++ reason
  | .rejected status reason address =>
    "Download failed: " ++ Text.ofInt status ++
    (if status < 500 then " Client Error: " else " Server Error: " : Text) ++
    reason.getD "None" ++ " for url: " ++ address
  | .notFound id => "Extension " ++ id ++ " not found in store"
  | .declaredTooLong declared limit =>
    "Package size " ++ declared ++ " exceeds limit of " ++ limit
  | .tooLong limit => "Package exceeds limit of " ++ limit
  | .interrupted reason => "Download interrupted: " ++ reason
  | .badLength fault => fault.message
  | .badSize misuse => misuse.message

end ExtensionAudit.Fetch
