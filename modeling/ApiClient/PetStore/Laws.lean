import ApiClient.Http.Field
import ApiClient.Json.Printer
import ApiClient.PetStore.Framework
import ApiClient.Text.Form
import ApiClient.Text.Percent

/-!
# What a framework is relied on for

The laws are what the documentation of a network stack and of a server framework promises, each about one thing that
they do: a request whose URL is plain, whose headers can be sent and whose sizes are within the limits arrives
(`Framework.Carries`); filters take their methods (`Framework.Dispatches`); queries, paths and bodies are read by
their formats and refused with a status that reports an error (`Framework.Reads`); an answer reaches the client with
its status, its content type and its body (`Framework.Answers`).  Which form data is delivered part by part depends on
the names and the texts in it (`Framework.Delivers`).

Apart from them stands that the moment of an exchange decides no more than the date of the answer and the boundary of
form data (`Framework.Steady`).

Key facts: `find?_visible_of_holds`, `find?_visible_of_lacks` and `find?_visible_filter`, what is looked up among the
headers that are visible.
-/

namespace ApiClient.PetStore

open Text (Form.decode SameName)

/-! ### URLs -/

/-- The characters that a path pattern is made of: ASCII letters and digits, hyphens and underscores. -/
def isWordChar (c : Char) : Bool := c.isAlphanum || ['-', '_'].contains c

/-- The characters of a plain segment: those of patterns, and braces. -/
def isPlainChar (c : Char) : Bool := isWordChar c || ['{', '}'].contains c

/-- The characters of encoded pairs. -/
def isPairsChar (c : Char) : Bool := Text.Percent.isComponentChar c || ['%', '&', '='].contains c

/-- Segments as a path. -/
def pathText (segments : List String) : String := String.ofList (segments.flatMap fun s => '/' :: s.toList)

/-- The URL of segments and a query at an address. -/
def urlText (address : String) (segments : List String) (query : Option String) : String :=
  "http://" ++ address ++ pathText segments ++ (query.map fun q => "?" ++ q).getD ""

/-! ### Headers -/

/-- A header of a name is there, and all that are have the same value. -/
structure Holds (headers : List (String × Option String)) (name value : String) : Prop where
  mem : (name, some value) ∈ headers
  only : ∀ h ∈ headers, SameName h.1 name → h.2 = some value

/-- No header of a name is there. -/
def Lacks (headers : List (String × Option String)) (name : String) : Prop := ∀ h ∈ headers, ¬SameName h.1 name

section
variable {headers : List (String × Option String)} {name value : String}

private theorem visible_cons (h : String × Option String) (rest : List (String × Option String)) :
    visible (h :: rest) = (h.2.map fun v => (h.1, v)).toList ++ visible rest := by
  rw [visible, List.filterMap_cons]
  cases h.2 <;> rfl

theorem find?_visible_of_lacks (h : Lacks headers name) : (visible headers).find? name = none := by
  induction headers with
  | nil => rfl
  | cons x rest ih =>
    have hx : ¬SameName x.1 name := h x List.mem_cons_self
    have hrest : Lacks rest name := fun y hy => h y (List.mem_cons_of_mem _ hy)
    rw [visible_cons, Http.Headers.find?_append, ih hrest]
    cases x.2 with
    | none => rfl
    | some v => simp [Http.Headers.find?_cons, Http.Headers.find?_nil, hx]

theorem find?_visible_of_holds (h : Holds headers name value) : (visible headers).find? name = some value := by
  obtain ⟨hmem, honly⟩ := h
  induction headers with
  | nil => cases hmem
  | cons x rest ih =>
    rw [visible_cons, Http.Headers.find?_append]
    by_cases hx : SameName x.1 name
    · rw [honly x List.mem_cons_self hx]
      simp [Http.Headers.find?_cons, hx]
    · have hne : (name, some value) ≠ x := by
        rintro rfl
        exact hx (SameName.refl _)
      have hrest := ih (List.mem_of_ne_of_mem hne hmem) fun y hy => honly y (List.mem_cons_of_mem _ hy)
      rw [hrest]
      cases x.2 with
      | none => rfl
      | some v => simp [Http.Headers.find?_cons, Http.Headers.find?_nil, hx]

theorem find?_visible_filter {other : String} (h : ¬SameName name other) :
    (visible (headers.filter fun x => ¬SameName x.1 other)).find? name = (visible headers).find? name := by
  induction headers with
  | nil => rfl
  | cons x rest ih =>
    rw [visible_cons, Http.Headers.find?_append, ← ih]
    by_cases hx : SameName x.1 other
    · have hname : ¬SameName x.1 name := fun h' => h (h'.symm.trans hx)
      rw [List.filter_cons_of_neg (by simpa using hx)]
      cases x.2 with
      | none => rfl
      | some v => simp [Http.Headers.find?_cons, Http.Headers.find?_nil, hname]
    · rw [List.filter_cons_of_pos (by simpa using hx), visible_cons, Http.Headers.find?_append]

end

/-- The headers of a request that describe its content and the one that is wanted.  Nobody on the way changes them. -/
def endToEndNames : List String := ["accept", "content-type"]

namespace Framework

variable {μ : Type} (w : Framework μ)

/-! ### Requests that arrive -/

/-- A request as it arrives that was sent to a path of some segments with some query. -/
structure Carried (r : Http.Request) (segments : List String) (query : Option String) (a : Arrival) : Prop where
  method : a.method = r.method
  /-- A pattern without variables matches the path that was sent, and no other. -/
  literal : ∀ lead : List String, (∀ s ∈ lead, s.toList.all isWordChar) →
    w.capture (lead.map .literal) a.path = if segments = lead then some [] else none
  /-- A variable at the end takes a segment that is not empty, as it was before it was sent. -/
  variable_last : ∀ (lead : List String) (name segment : String), (∀ s ∈ lead, s.toList.all isWordChar) →
    segment ≠ "" → segments = lead ++ [segment] →
      w.capture (lead.map .literal ++ [.variable name]) a.path = some [some segment]
  /-- A pattern matches no path of another length. -/
  length : ∀ pattern, pattern.length ≠ segments.length → w.capture pattern a.path = none
  no_query : a.query = none ↔ query = none
  /-- The query still holds the same pairs. -/
  pairs : Form.decode (a.query.getD "").toList = Form.decode (query.getD "").toList
  names : ∀ h ∈ a.headers, Http.isToken h.1
  /-- An end-to-end header that is the only one of its name arrives with its value. -/
  headers : r.bytes? ≠ none → ∀ h ∈ r.headers, (∀ x ∈ r.headers, SameName x.1 h.1 → x = h) →
    Text.lower h.1 ∈ endToEndNames → Http.isTidy h.2 → Holds a.headers (Text.lower h.1) h.2
  /-- Form data alone is given a content type on the way. -/
  no_type : r.bytes? ≠ none → r.headers.has "content-type" = false → Lacks a.headers "content-type"
  /-- A body other than form data arrives as it was. -/
  body : ∀ data, r.bytes? = some data → a.body = data

/-- The body of a request can be read. -/
structure Readable (r : Http.Request) (a : Arrival) : Prop where
  bytes : ∀ data, r.bytes? = some data → w.bytes a = .ok data
  /-- A body that is declared as JSON and is the text of a pet to be created is read as such. -/
  draft : ∀ d, Holds a.headers "content-type" "application/json" →
    Json.documentBytes JsonRecord.read a.body = .ok d → w.draft a = .ok d

/-- Requests to an address arrive, and can be read within the limits. -/
structure Carries (address : String) : Prop where
  arrives : ∀ (m : μ) (r : Http.Request) (segments : List String) (query : Option String),
    r.url = urlText address segments query → segments ≠ [] → (∀ s ∈ segments, s.toList.all isPlainChar) →
    (∀ q ∈ query, q.toList.all isPairsChar) → Http.isSendable r.headers → w.Fits r →
      ∃ a, w.arrive m r = .ok a ∧ w.Carried r segments query a ∧ w.Readable r a
  /-- The limits are not reached by a request without a body whose path and query are short and whose headers are few
  and short. -/
  small : ∀ (r : Http.Request) (segments : List String) (query : Option String),
    r.url = urlText address segments query → r.bytes? = some [] →
      (pathText segments).length + (query.getD "").length ≤ 1000 → r.headers.length ≤ 10 →
        (∀ h ∈ r.headers, h.1.length + h.2.length ≤ 1000) → w.Fits r

/-- The methods that filters take: `HEAD` goes where `GET` does. -/
structure Dispatches : Prop where
  get : ∀ m, w.takes .get m = true ↔ m = .get ∨ m = .head
  post : ∀ m, w.takes .post m = true ↔ m = .post
  delete : ∀ m, w.takes .delete m = true ↔ m = .delete
  any : ∀ m, w.takes .any m = true

/-! ### Reading -/

/-- Queries are read as form-encoded pairs, and what cannot be read is a client's error. -/
structure Reads : Prop where
  listParams_nil : ∀ q : Option String, Form.decode (q.getD "").toList = [] → w.listParams q = .ok ⟨none, none⟩
  listParams_tag : ∀ (q : Option String) (tag : String), Form.decode (q.getD "").toList = [("tag", tag)] →
    w.listParams q = .ok ⟨some tag, none⟩
  badPath : ∀ path, (w.badPath path).status = 400
  draft : ∀ a rejection, w.draft a = .error rejection → 400 ≤ rejection.status ∧ rejection.status < 500

/-! ### Answering -/

/-- Answers reach the client with what they are made of. -/
structure Answers : Prop where
  /-- JSON in a success reaches all methods but `HEAD`, and with it a header that tells a location. -/
  json : ∀ (m : μ) (method : Http.Method) (status : UInt16) (location : Option String) (v : Json),
    method ≠ .head → Http.isSuccess status = true → status ≠ 204 → status ≠ 205 → (∀ l ∈ location, Http.isTidy l) →
      ∃ x, w.respond m method (.json status (location.map fun l => ("location", l)).toList v) = .ok x ∧
        x.status = status ∧ x.body = Text.Utf8.encode v.print ∧ Holds x.headers "content-type" "application/json" ∧
        ∀ l ∈ location, Holds x.headers "location" l
  /-- A status by itself has no content type. -/
  bare : ∀ (m : μ) (method : Http.Method) (status : UInt16),
    Http.isSuccess status = true ∨ 400 ≤ status ∧ status < 500 →
      ∃ x, w.respond m method (.bare status) = .ok x ∧ x.status = status ∧ Lacks x.headers "content-type"
  refused : ∀ (m : μ) (method : Http.Method) (rejection : Rejection), 400 ≤ rejection.status →
    rejection.status < 500 → ∃ x, w.respond m method (.refused rejection) = .ok x ∧ x.status = rejection.status
  reason : ∀ s ∈ [((200 : UInt16), "OK"), (201, "Created"), (204, "No Content"), (400, "Bad Request"),
    (404, "Not Found")], w.reason s.1 = s.2

/-- Form data of some fields is delivered: the parts that are read of it are the fields, in order. -/
def Delivers (fields : List (String × String)) : Prop :=
  ∀ m r a, r.payload = some (.form fields) → r.headers.has "content-type" = false → w.Fits r → w.arrive m r = .ok a →
    w.parts a = .ok (fields.map fun f => some ⟨some f.1, some f.2⟩)

/-- All laws but those about form data. -/
structure Lawful (address : String) : Prop where
  carries : w.Carries address
  dispatches : w.Dispatches
  reads : w.Reads
  answers : w.Answers

/-! ### Moments -/

/-- Two results are the same failure, or both results of which a relation holds. -/
inductive Agree {α : Type} (R : α → α → Prop) : Except String α → Except String α → Prop
  | error (reason : String) : Agree R (.error reason) (.error reason)
  | ok {x y : α} (h : R x y) : Agree R (.ok x) (.ok y)

/-- Two arrivals of one request differ at most in how form data is written. -/
structure SameArrival (r : Http.Request) (a b : Arrival) : Prop where
  method : a.method = b.method
  path : a.path = b.path
  query : a.query = b.query
  draft : w.draft a = w.draft b
  parts : w.parts a = w.parts b
  whole : r.bytes? ≠ none → a = b

/-- Two answers differ at most in their date. -/
structure SameButDate (x y : Received) : Prop where
  status : x.status = y.status
  headers : x.headers.filter (fun h => ¬SameName h.1 "date") = y.headers.filter fun h => ¬SameName h.1 "date"
  body : x.body = y.body

/-- The moment of an exchange decides the date of the answer and the boundary of form data, and nothing else. -/
structure Steady : Prop where
  arrive : ∀ m m' r, Agree (w.SameArrival r) (w.arrive m r) (w.arrive m' r)
  respond : ∀ m m' method reply, Agree SameButDate (w.respond m method reply) (w.respond m' method reply)

end Framework

end ApiClient.PetStore
