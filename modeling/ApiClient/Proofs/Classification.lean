import ApiClient.Descriptor.Step
import ApiClient.Execution
import ApiClient.Proofs.Keyed

/-!
# How a response is classified

A response makes one answer, which does not depend on the messages of the call, and that answer is carried whatever
the classification says.  The call fails with the message that the table has for the status, unless that is empty, and
otherwise succeeds exactly when the status does (`interpret_classified`).
-/

namespace ApiClient

namespace Http.Headers

/-- `value` is the value of the first header of a name. -/
def IsFirst (headers : Headers) (name value : String) : Prop :=
  ∃ before key after, headers = before ++ (key, value) :: after ∧ Text.SameName key name ∧
    ∀ h ∈ before, ¬Text.SameName h.1 name

theorem find?_eq_some_iff {headers : Headers} {name value : String} :
    headers.find? name = some value ↔ headers.IsFirst name value := by
  simp only [find?, Option.map_eq_some_iff, List.find?_eq_some_iff_append, decide_eq_true_eq, Bool.not_eq_true',
    decide_eq_false_iff_not]
  constructor
  · rintro ⟨⟨key, v⟩, ⟨hname, before, after, rfl, hbefore⟩, rfl⟩
    exact ⟨before, key, after, rfl, hname, hbefore⟩
  · rintro ⟨before, key, after, rfl, hname, hbefore⟩
    exact ⟨(key, value), ⟨hname, before, after, rfl, hbefore⟩, rfl⟩

end Http.Headers

namespace StatusTable

/-- The usual message for a status. -/
def usualMessage? (status : UInt16) : Option String :=
  if status = 400 then some "Bad Request"
  else if status = 401 then some "Unauthorized"
  else if status = 403 then some "Forbidden"
  else if status = 404 then some "Not Found"
  else if status = 500 then some "Internal Server Error"
  else if status = 502 then some "Bad Gateway"
  else if status = 503 then some "Service Unavailable"
  else none

theorem find?_usual (status : UInt16) : usual.messages.find? status = usualMessage? status := by
  have hentries : usual.messages.entries =
      [(400, "Bad Request"), (401, "Unauthorized"), (403, "Forbidden"), (404, "Not Found"),
        (500, "Internal Server Error"), (502, "Bad Gateway"), (503, "Service Unavailable")] := by
    decide +kernel
  rw [Keyed.find?, hentries]
  simp only [Keyed.lookup, Std.LawfulEqCmp.compare_eq_iff_eq]
  rfl

theorem message?_withOverrides (overrides : StatusMessages) (status : UInt16) :
    (withOverrides overrides).message? status =
      ((overrides.find? status).or (usualMessage? status)).filter fun m => !m.isEmpty := by
  rw [message?, withOverrides, Keyed.find?_insertAll_entries, find?_usual]

end StatusTable

namespace Failure

/-- The answer that a classified response carries. -/
def carried? : Except Failure Answer → Option Answer
  | .ok answer => some answer
  | .error failure => failure.answer?

end Failure

namespace Descriptor

/-! ### The answer that is carried -/

/-- The content is that of the header that is asked for, if its first value is not empty, or else the decoded body. -/
theorem content_spec (d : Descriptor) (r : Http.Response) :
    (∀ name value, d.responseHeader = some name → r.headers.IsFirst name value → value ≠ "" →
      d.content r = .text value) ∧
    ((∀ name value, d.responseHeader = some name → r.headers.IsFirst name value → value = "") →
      d.content r = Content.ofResponse r) := by
  constructor
  · intro name value hname hfirst hvalue
    have hfind := Http.Headers.find?_eq_some_iff.2 hfirst
    simp [content, hname, Content.headerText, hfind, Option.filter_some, hvalue]
  · intro h
    cases hname : d.responseHeader with
    | none => simp [content, hname]
    | some name =>
      cases hfind : r.headers.find? name with
      | none => simp [content, hname, Content.headerText, hfind]
      | some value =>
        have hvalue := h name value hname (Http.Headers.find?_eq_some_iff.1 hfind)
        simp [content, hname, Content.headerText, hfind, Option.filter_some, hvalue]

theorem content_congr {d d' : Descriptor} (h : d.responseHeader = d'.responseHeader) (r : Http.Response) :
    d.content r = d'.content r := by
  rw [content, content, h]

theorem answer_congr {d d' : Descriptor} (h : d.responseHeader = d'.responseHeader) (url : String)
    (r : Http.Response) :
    d.answer url r = d'.answer url r := by
  rw [answer, answer, content_congr h]

/-! ### The classification -/

/-- The message that the table of a call has for a status, empty ones included. -/
def messageFor? (d : Descriptor) (status : UInt16) : Option String :=
  (d.errors.find? status).or (StatusTable.usualMessage? status)

theorem isSuccess_iff (status : UInt16) : Http.isSuccess status = true ↔ 200 ≤ status ∧ status ≤ 299 := by
  simp only [Http.isSuccess, Bool.and_eq_true, decide_eq_true_eq, UInt16.le_iff_toNat_le, UInt16.lt_iff_toNat_lt]
  constructor <;> rintro ⟨hlow, hhigh⟩ <;> refine ⟨hlow, ?_⟩
  · have : status.toNat < 300 := hhigh
    show status.toNat ≤ 299
    omega
  · have : status.toNat ≤ 299 := hhigh
    show status.toNat < 300
    omega

theorem interpret_eq (d : Descriptor) (url : String) (r : Http.Response) :
    d.interpret url r =
      match (d.messageFor? r.status).filter fun m => !m.isEmpty with
      | some message => .error (.status (d.answer url r) message)
      | none => if Http.isSuccess r.status then .ok (d.answer url r) else .error (.generic (d.answer url r)) := by
  rw [interpret, StatusTable.check, StatusTable.message?_withOverrides]
  rfl

theorem filter_nonempty_eq_some_iff {message? : Option String} {m : String} :
    (message?.filter fun m => !m.isEmpty) = some m ↔ message? = some m ∧ m ≠ "" := by
  simp [Option.filter_eq_some_iff]

theorem filter_nonempty_eq_none_iff {message? : Option String} :
    (message?.filter fun m => !m.isEmpty) = none ↔ ∀ m, message? = some m → m = "" := by
  simp [Option.filter_eq_none_iff]

theorem interpret_eq_status_iff (d : Descriptor) (url : String) (r : Http.Response) (m : String) :
    d.interpret url r = .error (.status (d.answer url r) m) ↔ d.messageFor? r.status = some m ∧ m ≠ "" := by
  rw [interpret_eq, ← filter_nonempty_eq_some_iff]
  split
  · rename_i message hmessage
    simp [hmessage]
  · rename_i hmessage
    split <;> simp [hmessage]

theorem interpret_eq_ok_iff (d : Descriptor) (url : String) (r : Http.Response) :
    d.interpret url r = .ok (d.answer url r) ↔
      (∀ m, d.messageFor? r.status = some m → m = "") ∧ 200 ≤ r.status ∧ r.status ≤ 299 := by
  rw [interpret_eq, ← filter_nonempty_eq_none_iff, ← isSuccess_iff]
  split
  · rename_i message hmessage
    simp [hmessage]
  · rename_i hmessage
    split <;> simp_all

theorem interpret_eq_generic_iff (d : Descriptor) (url : String) (r : Http.Response) :
    d.interpret url r = .error (.generic (d.answer url r)) ↔
      (∀ m, d.messageFor? r.status = some m → m = "") ∧ ¬(200 ≤ r.status ∧ r.status ≤ 299) := by
  rw [interpret_eq, ← filter_nonempty_eq_none_iff, ← isSuccess_iff]
  split
  · rename_i message hmessage
    simp [hmessage]
  · rename_i hmessage
    split <;> simp_all

theorem messageFor?_error (d : Descriptor) (status : UInt16) (m : String) :
    (d.apply (.error status m)).messageFor? status = some m := by
  rw [messageFor?, apply, Keyed.find?_insert, if_pos Std.ReflCmp.compare_self, Option.some_or]

theorem carried?_interpret (d : Descriptor) (url : String) (r : Http.Response) :
    Failure.carried? (d.interpret url r) = some (d.answer url r) := by
  rw [interpret_eq]
  split
  · rfl
  · split <;> rfl

/-- One answer is carried by every outcome, and the message for the status and the status itself say which outcome it
is. -/
theorem interpret_classified :
    ∃ carried : String → Http.Response → Option String → Answer,
      (∀ url r wanted,
        (carried url r wanted).url = url ∧
        ((carried url r wanted).ok = true ↔ 200 ≤ r.status ∧ r.status ≤ 299) ∧
        (carried url r wanted).status = r.status ∧
        (carried url r wanted).statusText = r.statusText ∧
        (∀ name value, wanted = some name → r.headers.IsFirst name value → value ≠ "" →
          (carried url r wanted).content = .text value) ∧
        ((∀ name value, wanted = some name → r.headers.IsFirst name value → value = "") →
          (carried url r wanted).content = Content.ofResponse r)) ∧
      ∀ (d : Descriptor) url r,
        let a := carried url r d.responseHeader
        (∀ m, d.interpret url r = .error (.status a m) ↔ d.messageFor? r.status = some m ∧ m ≠ "") ∧
        (d.interpret url r = .ok a ↔
          (∀ m, d.messageFor? r.status = some m → m = "") ∧ 200 ≤ r.status ∧ r.status ≤ 299) ∧
        (d.interpret url r = .error (.generic a) ↔
          (∀ m, d.messageFor? r.status = some m → m = "") ∧ ¬(200 ≤ r.status ∧ r.status ≤ 299)) ∧
        (Failure.generic a).message = "Generic Error" ∧
        Failure.carried? (d.interpret url r) = some a ∧
        (∀ b, d.interpret url r = .ok b → 200 ≤ b.status ∧ b.status ≤ 299) ∧
        ∀ m, m ≠ "" → (d.apply (.error r.status m)).interpret url r = .error (.status a m) := by
  -- Of a description the answer depends on the requested header only, so any description with that header will do.
  refine ⟨fun url r wanted => answer { ofPath .get "" with responseHeader := wanted } url r, ?_, ?_⟩
  · intro url r wanted
    have hcontent := content_spec { ofPath .get "" with responseHeader := wanted } r
    exact ⟨rfl, isSuccess_iff r.status, rfl, rfl, hcontent.1, hcontent.2⟩
  · intro d url r a
    have ha : a = d.answer url r := answer_congr rfl url r
    have hoverride : ∀ m, (d.apply (.error r.status m)).answer url r = a := fun m => answer_congr rfl url r
    refine ⟨?_, ?_, ?_, rfl, ?_, ?_, ?_⟩
    · rw [ha]
      exact interpret_eq_status_iff d url r
    · rw [ha]
      exact interpret_eq_ok_iff d url r
    · rw [ha]
      exact interpret_eq_generic_iff d url r
    · rw [ha]
      exact carried?_interpret d url r
    · intro b hb
      have hcarried := carried?_interpret d url r
      rw [hb] at hcarried
      obtain rfl : b = d.answer url r := Option.some.inj hcarried
      exact ((interpret_eq_ok_iff d url r).1 hb).2
    · intro m hm
      rw [← hoverride m]
      exact (interpret_eq_status_iff _ url r m).2 ⟨messageFor?_error d r.status m, hm⟩

/-- A message for a status that reports success, and an empty one for a status that does not. -/
example :
    ({ ofPath .get "/" with errors := Keyed.empty.insert 200 "No" }).interpret "u" ⟨200, "OK", [], []⟩ =
        .error (.status ⟨"u", true, 200, "OK", .empty⟩ "No") ∧
      ({ ofPath .get "/" with errors := Keyed.empty.insert 404 "" }).interpret "u" ⟨404, "Not Found", [], []⟩ =
        .error (.generic ⟨"u", false, 404, "Not Found", .empty⟩) :=
  ⟨rfl, rfl⟩

end Descriptor

end ApiClient
