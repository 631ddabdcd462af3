import ApiClient.PetStore.Loopback
import ApiClient.PetStore.Server
import ApiClient.Proofs.PetStore.Multipart
import ApiClient.Proofs.Text.Form
import Mathlib.Algebra.BigOperators.Ring.List
import Mathlib.Algebra.Order.BigOperators.Group.List
import Mathlib.Algebra.Order.Ring.Nat

/-!
# The loopback is lawful

A URL of plain segments is read as the target that it was made of (`ofUrl?_url`), and what is escaped in it is found
again by the patterns (`capture_literals`, `capture_last`).  So requests are carried, and with that the loopback does
what a framework is relied on for (`loopback_lawful`).  Its moments show in dates and boundaries only
(`loopback_steady`).
-/

namespace ApiClient.PetStore

namespace Loopback

open Text (SameName splitBy splitFirst)
open Text.Percent (encode encodeChar)

/-! ### Targets -/

private theorem not_mem_of_isPlainChar {c : Char} (h : c ∈ ['?', '/', '%']) {cs : List Char}
    (hcs : cs.all isPlainChar = true) : c ∉ cs := by
  intro hc
  have hother : ∀ d ∈ ['?', '/', '%'], isPlainChar d = false := Text.forall_mem_of_all (by decide)
  have hplain := List.all_eq_true.1 hcs c hc
  rw [hother c h] at hplain
  cases hplain

/-- A path is cut into its segments. -/
private theorem splitBy_path {segments : List String} (h : ∀ s ∈ segments, s.toList.all isPlainChar = true) :
    splitBy (fun c => c == '/') (segments.flatMap fun s => '/' :: s.toList) = [] :: segments.map String.toList := by
  induction segments with
  | nil => rfl
  | cons s rest ih =>
    have hs : ∀ c ∈ s.toList, (c == '/') = false := by
      intro c hc
      rw [beq_eq_false_iff_ne]
      rintro rfl
      exact not_mem_of_isPlainChar (by decide) (h s List.mem_cons_self) hc
    have hrest := ih fun x hx => h x (List.mem_cons_of_mem _ hx)
    rw [List.flatMap_cons, List.cons_append, splitBy, Text.splitBy_append_of_none hs, hrest]
    simp

/-- A URL of plain segments stands for its target. -/
theorem ofUrl?_url {t : Target} (h : t.isPlain = true) : Target.ofUrl? t.url = some t := by
  obtain ⟨hsegments, -⟩ := Bool.and_eq_true_iff.1 h
  rw [List.all_eq_true] at hsegments
  obtain ⟨query, hquery⟩ : ∃ query, query = ((t.query.map fun q => "?" ++ q).getD "").toList := ⟨_, rfl⟩
  have hurl : t.url.toList = ("http://" ++ address).toList ++
      (t.segments.flatMap (fun s => '/' :: s.toList) ++ query) := by
    rw [hquery, Target.url, urlText, pathText, String.toList_append, String.toList_append, String.toList_ofList,
      List.append_assoc]
  have hmark : '?' ∉ t.segments.flatMap fun s => '/' :: s.toList := by
    rw [List.mem_flatMap]
    rintro ⟨s, hs, hmem⟩
    rcases List.mem_cons.1 hmem with hmem | hmem
    · cases hmem
    · exact not_mem_of_isPlainChar (by decide) (hsegments s hs) hmem
  have hsplit : splitFirst '?' query = ([], t.query.map String.toList) := by
    rw [hquery]
    cases t.query with
    | none => rfl
    | some q =>
      have hcons : ("?" ++ q).toList = '?' :: q.toList := String.toList_append
      rw [Option.map_some, Option.getD_some, hcons]
      rfl
  have hprefix : ("http://" ++ address).toList.isPrefixOf t.url.toList = true := by
    rw [hurl]
    exact List.isPrefixOf_iff_prefix.2 (List.prefix_append _ _)
  rw [Target.ofUrl?, if_pos hprefix, hurl, List.drop_left, Text.splitFirst_append_of_not_mem hmark, hsplit]
  dsimp only
  rw [List.append_nil, splitBy_path hsegments]
  simp

/-! ### Lengths -/

section
variable {keep : Char → Bool} {cs : List Char}

private theorem length_encode_le (h : ∀ c ∈ cs, (encodeChar keep c).length ≤ 3) :
    (encode keep cs).length ≤ 3 * cs.length := by
  induction cs with
  | nil => exact Nat.le_refl _
  | cons c cs ih =>
    have hc := h c List.mem_cons_self
    have hrest := ih fun d hd => h d (List.mem_cons_of_mem _ hd)
    rw [encode] at hrest ⊢
    rw [List.flatMap_cons, List.length_append, List.length_cons]
    omega

end

private theorem length_encodeChar_of_plain {c : Char} (h : isPlainChar c = true) :
    (encodeChar isWordChar c).length ≤ 3 := by
  rcases Bool.or_eq_true_iff.1 h with hword | hbrace
  · rw [encodeChar, if_pos hword, List.length_singleton]
    omega
  · have hall : ∀ d ∈ ['{', '}'], (encodeChar isWordChar d).length ≤ 3 :=
      Text.forall_mem_of_all (by decide)
    exact hall c (List.contains_iff_mem.1 hbrace)

private theorem length_encodeChar_of_query (c : Char) : (encodeChar (fun c => c != '\'') c).length ≤ 3 := by
  by_cases hc : c = '\''
  · rw [hc]
    decide
  · rw [encodeChar, if_pos (bne_iff_ne.2 hc), List.length_singleton]
    omega

private theorem length_pathText (segments : List String) :
    (pathText segments).length = (segments.map fun s => s.length + 1).sum := by
  rw [pathText, String.length_ofList, List.length_flatMap]
  simp only [List.length_cons, String.length_toList]

theorem length_url (t : Target) :
    t.url.length = ("http://" ++ address).length + (t.segments.map fun s => s.length + 1).sum +
      (t.query.map fun q => q.length + 1).getD 0 := by
  rw [Target.url, urlText, String.length_append, String.length_append, length_pathText]
  cases t.query with
  | none => rfl
  | some q =>
    have hmark : ("?" ++ q).length = q.length + 1 := by
      rw [String.length_append]
      exact Nat.add_comm 1 q.length
    rw [Option.map_some, Option.getD_some, Option.map_some, Option.getD_some, hmark]

/-- URLs compare as their segments and their queries do. -/
private theorem length_url_le {t u : Target} {k : Nat} (hk : 0 < k)
    (hsegments : (t.segments.map fun s => s.length + 1).sum ≤ k * (u.segments.map fun s => s.length + 1).sum)
    (hquery : (t.query.map fun q => q.length + 1).getD 0 ≤ k * (u.query.map fun q => q.length + 1).getD 0) :
    t.url.length ≤ k * u.url.length := by
  rw [length_url, length_url, Nat.mul_add, Nat.mul_add]
  exact Nat.add_le_add (Nat.add_le_add (Nat.le_mul_of_pos_left _ hk) hsegments) hquery

/-- What is sent is no shorter. -/
private theorem length_le_sent (t : Target) : t.url.length ≤ t.sent.url.length := by
  have hlength : ∀ keep (s : String), s.length ≤ (String.ofList (encode keep s.toList)).length := by
    intro keep s
    rw [String.length_ofList, ← String.length_toList]
    exact Text.length_le_flatMap (Text.Percent.encodeChar_ne_nil keep) _
  rw [← Nat.one_mul t.sent.url.length]
  refine length_url_le Nat.one_pos ?_ ?_
  · rw [Nat.one_mul, Target.sent, List.map_map]
    exact List.sum_le_sum fun s _ => Nat.succ_le_succ (hlength isWordChar s)
  · rw [Nat.one_mul, Target.sent]
    cases t.query with
    | none => exact Nat.le_refl _
    | some q => exact Nat.succ_le_succ (hlength (fun c => c != '\'') q)

/-- What is sent is at most three times as long. -/
private theorem length_sent_le {t : Target} (hplain : t.isPlain = true) : t.sent.url.length ≤ 3 * t.url.length := by
  have hlength : ∀ keep (s : String), (∀ c ∈ s.toList, (encodeChar keep c).length ≤ 3) →
      (String.ofList (encode keep s.toList)).length + 1 ≤ 3 * (s.length + 1) := by
    intro keep s hs
    have hencode := length_encode_le hs
    rw [String.length_ofList, ← String.length_toList]
    omega
  obtain ⟨hsegments, -⟩ := Bool.and_eq_true_iff.1 hplain
  rw [List.all_eq_true] at hsegments
  refine length_url_le (by decide) ?_ ?_
  · rw [Target.sent, List.map_map, ← List.sum_map_mul_left]
    exact List.sum_le_sum fun s hs => hlength isWordChar s fun c hc =>
      length_encodeChar_of_plain (List.all_eq_true.1 (hsegments s hs) c hc)
  · rw [Target.sent]
    cases t.query with
    | none => exact Nat.zero_le _
    | some q => exact hlength (fun c => c != '\'') q fun c _ => length_encodeChar_of_query c

/-! ### Paths -/

private theorem decode?_escape {s : String} (h : s.toList.all isPlainChar = true) :
    (Text.Percent.decode? (escape s).toList).map String.ofList = some s := by
  rw [escape, String.toList_ofList,
    Text.Percent.decode?_encode_of_not_mem (not_mem_of_isPlainChar (by decide) h) isWordChar, Option.map_some,
    String.ofList_toList]

private theorem escape_of_word {s : String} (h : s.toList.all isWordChar = true) : escape s = s := by
  rw [escape, Text.Percent.encode_of_kept (List.all_eq_true.1 h), String.ofList_toList]

private theorem isPlain_of_isWord {s : String} (h : s.toList.all isWordChar = true) :
    s.toList.all isPlainChar = true := by
  rw [List.all_eq_true] at h ⊢
  intro c hc
  rw [isPlainChar, h c hc, Bool.true_or]

private theorem escape_eq_iff {s text : String} (hs : s.toList.all isPlainChar = true)
    (htext : text.toList.all isWordChar = true) : escape s = text ↔ s = text := by
  constructor
  · intro h
    have hsame := (congrArg (fun x : String => (Text.Percent.decode? x.toList).map String.ofList) h).symm
    rw [decode?_escape hs, ← escape_of_word htext, decode?_escape (isPlain_of_isWord htext)] at hsame
    exact (Option.some.inj hsame).symm
  · rintro rfl
    exact escape_of_word htext

theorem capture_literals {lead segments : List String} (hlead : ∀ s ∈ lead, s.toList.all isWordChar = true)
    (hsegments : ∀ s ∈ segments, s.toList.all isPlainChar = true) :
    capture (lead.map .literal) (segments.map escape) = if segments = lead then some [] else none := by
  induction lead generalizing segments with
  | nil => cases segments <;> simp [capture]
  | cons text lead ih =>
    cases segments with
    | nil => simp [capture]
    | cons s segments =>
      have hs := escape_eq_iff (hsegments s List.mem_cons_self) (hlead text List.mem_cons_self)
      have hrest := ih (fun x hx => hlead x (List.mem_cons_of_mem _ hx))
        fun x hx => hsegments x (List.mem_cons_of_mem _ hx)
      simp only [List.map_cons, capture, hs, hrest, List.cons.injEq]
      by_cases h : s = text <;> simp [h]

theorem capture_last {lead : List String} (hlead : ∀ s ∈ lead, s.toList.all isWordChar = true) (name : String)
    {segment : String} (hplain : segment.toList.all isPlainChar = true) (hne : segment ≠ "") :
    capture (lead.map .literal ++ [.variable name]) ((lead ++ [segment]).map escape) = some [some segment] := by
  have hsent : escape segment ≠ "" := by
    intro h
    have hdecode := decode?_escape hplain
    rw [h] at hdecode
    exact hne (Option.some.inj hdecode).symm
  induction lead with
  | nil => simp [capture, hsent, decode?_escape hplain]
  | cons text lead ih =>
    have hrest := ih fun x hx => hlead x (List.mem_cons_of_mem _ hx)
    have htext := escape_of_word (hlead text List.mem_cons_self)
    simp only [List.map_cons, List.cons_append, capture, htext, if_true]
    exact hrest

theorem capture_of_length {pattern : List Segment} {path : List String} (h : pattern.length ≠ path.length) :
    capture pattern path = none := by
  fun_induction capture pattern path with
  | case1 => exact absurd rfl h
  | case2 pattern path segment ih => exact ih (by simpa using h)
  | case3 => rfl
  | case4 => rfl
  | case5 name pattern segment path hne ih => rw [ih (by simpa using h), Option.map_none]
  | case6 => rfl

/-! ### Queries -/

/-- What is escaped in a query does not change its pairs. -/
private theorem decode_escapeQuery (query : Option String) :
    Text.Form.decode ((query.map escapeQuery).getD "").toList = Text.Form.decode (query.getD "").toList := by
  have hkeep : ∀ c, c ∈ ['%', '&', '=', '+'] ∨ Text.Hex.value? c ≠ none → (c != '\'') = true := by
    rintro c h
    rw [bne_iff_ne]
    rintro rfl
    revert h
    decide
  cases query with
  | none => rfl
  | some q =>
    rw [Option.map_some, Option.getD_some, Option.getD_some, escapeQuery, String.toList_ofList]
    exact Text.Form.decode_encode hkeep q.toList

/-! ### Requests that are not sent -/

section
variable (m : Moment) {r : Http.Request}

theorem arrive_of_long {t : Target} (hplain : t.isPlain = true) (hurl : r.url = t.url)
    (hlong : maxUrl < r.url.length) : arrive m r = .error "builder error" := by
  have hsent : ¬t.sent.url.length ≤ maxUrl := by
    have hle := length_le_sent t
    rw [hurl] at hlong
    omega
  rw [arrive, hurl, ofUrl?_url hplain]
  simp [hsent]

theorem arrive_of_not_sendable (h : Http.isSendable r.headers = false) : arrive m r = .error "builder error" := by
  rw [arrive]
  split
  · rfl
  · simp [h]

end

/-! ### Headers -/

theorem isToken_lower {name : String} (h : Http.isToken name = true) : Http.isToken (Text.lower name) = true := by
  have hchar : ∀ c, Http.isTokenChar c = true → Http.isTokenChar c.toLower = true := by
    intro c hc
    rcases Bool.or_eq_true_iff.1 hc with halphanum | hlisted
    · rw [Http.isTokenChar, Text.isAlphanum_toLower halphanum, Bool.true_or]
    · have hall : ∀ d ∈ ['!', '#', '$', '%', '&', '\'', '*', '+', '-', '.', '^', '_', '\x60', '|', '~'],
          Http.isTokenChar d.toLower = true := Text.forall_mem_of_all (by decide)
      exact hall c (List.contains_iff_mem.1 hlisted)
  rw [Http.isToken, Bool.and_eq_true, Bool.not_eq_true', List.all_eq_true] at h ⊢
  constructor
  · rw [← Bool.not_eq_true, String.isEmpty_iff, ← String.toList_inj, Text.lower, String.toList_ofList]
    have hne := h.1
    rw [← Bool.not_eq_true, String.isEmpty_iff, ← String.toList_inj] at hne
    simpa using hne
  · rw [Text.lower, String.toList_ofList]
    intro c hc
    obtain ⟨d, hd, rfl⟩ := List.mem_map.1 hc
    exact hchar d (h.2 d hd)

theorem visibleText?_of_isTidy {value : String} (h : Http.isTidy value = true) : visibleText? value = some value := by
  refine if_pos ?_
  rw [Http.isTidy, List.all_eq_true] at h
  rw [List.all_eq_true]
  intro c hc
  have hrange := h c hc
  simp only [Bool.and_eq_true, decide_eq_true_eq, Bool.or_eq_true] at hrange ⊢
  exact .inr ⟨Nat.le_of_lt hrange.1, hrange.2⟩

section
variable {m : Moment} {r : Http.Request}

private theorem mem_addedHeaders {h : Http.Header} (hmem : h ∈ addedHeaders m r) :
    h = ("content-type", Multipart.contentType m.boundary) ∧ r.bytes? = none ∨ h.1 = "content-length" ∨
      h.1 = "accept" ∧ r.headers.has "accept" = false ∨ h.1 = "host" := by
  simp only [addedHeaders, List.mem_append] at hmem
  rcases hmem with ((hmem | hmem) | hmem) | hmem <;> split at hmem <;> simp_all

private theorem isToken_addedHeaders {h : Http.Header} (hmem : h ∈ addedHeaders m r) : Http.isToken h.1 = true := by
  have hname : h.1 ∈ ["content-type", "content-length", "accept", "host"] := by
    rcases mem_addedHeaders hmem with ⟨rfl, -⟩ | hname | ⟨hname, -⟩ | hname <;> simp_all
  have hall : ∀ name ∈ ["content-type", "content-length", "accept", "host"], Http.isToken name = true := by
    decide +kernel
  exact hall h.1 hname

private theorem has_of_mem {h : Http.Header} (hmem : h ∈ r.headers) {name : String} (hname : SameName h.1 name) :
    r.headers.has name = true :=
  List.any_eq_true.2 ⟨h, hmem, decide_eq_true hname⟩

end

/-! ### Requests -/

section
variable {m : Moment} {r : Http.Request} {t : Target}

private theorem mem_arrival {x : String × Option String} (hx : x ∈ (arrival m r t).headers) :
    ∃ h, (h ∈ r.headers ∨ h ∈ addedHeaders m r) ∧ x = (Text.lower h.1, visibleText? h.2) := by
  obtain ⟨h, hmem, rfl⟩ := List.mem_map.1 hx
  exact ⟨h, List.mem_append.1 hmem, rfl⟩

theorem holds_arrival {h : Http.Header} (hbytes : r.bytes? ≠ none) (hmem : h ∈ r.headers)
    (honly : ∀ x ∈ r.headers, SameName x.1 h.1 → x = h) (hend : Text.lower h.1 ∈ endToEndNames)
    (htidy : Http.isTidy h.2 = true) : Holds (arrival m r t).headers (Text.lower h.1) h.2 := by
  have hvalue := visibleText?_of_isTidy htidy
  constructor
  · refine List.mem_map.2 ⟨h, List.mem_append_left _ hmem, ?_⟩
    rw [hvalue]
  · intro x hx hname
    obtain ⟨y, hy, rfl⟩ := mem_arrival hx
    have hsame : SameName y.1 h.1 :=
      ((Text.sameName_lower y.1).symm.trans hname).trans (Text.sameName_lower h.1)
    rcases hy with hy | hy
    · rw [honly y hy hsame]
      exact hvalue
    -- What is added does not have the name of an end-to-end header that is there.
    · rw [hsame.symm] at hend
      rcases mem_addedHeaders hy with ⟨-, hnone⟩ | hadded | ⟨hadded, haccept⟩ | hadded
      · exact absurd hnone hbytes
      · rw [hadded] at hend
        exact absurd hend (by decide +kernel)
      · rw [hadded] at hsame
        rw [has_of_mem hmem hsame.symm] at haccept
        cases haccept
      · rw [hadded] at hend
        exact absurd hend (by decide +kernel)

private theorem lacks_arrival (hbytes : r.bytes? ≠ none) (hnone : r.headers.has "content-type" = false) :
    Lacks (arrival m r t).headers "content-type" := by
  intro x hx hname
  obtain ⟨y, hy, rfl⟩ := mem_arrival hx
  have hsame : SameName y.1 "content-type" := (Text.sameName_lower y.1).symm.trans hname
  rcases hy with hy | hy
  · rw [has_of_mem hy hsame] at hnone
    cases hnone
  · rcases mem_addedHeaders hy with ⟨-, h⟩ | hadded | ⟨hadded, -⟩ | hadded
    · exact hbytes h
    · rw [hadded] at hsame
      exact absurd hsame (by decide +kernel)
    · rw [hadded] at hsame
      exact absurd hsame (by decide +kernel)
    · rw [hadded] at hsame
      exact absurd hsame (by decide +kernel)

theorem body_arrival {data : List UInt8} (h : r.bytes? = some data) : (arrival m r t).body = data := by
  show sentBody m r = data
  unfold sentBody
  split
  · rename_i hform
    rw [Http.Request.bytes?, hform] at h
    cases h
  · rw [h, Option.getD_some]

/-! ### Form data -/

private theorem visibleText?_contentType (m : Moment) :
    visibleText? (Multipart.contentType m.boundary) = some (Multipart.contentType m.boundary) := by
  have hlead : ∀ c ∈ Multipart.typeLead.toList, 0x20 ≤ c.toNat ∧ c.toNat < 0x7F :=
    Text.forall_mem_of_all (by decide +kernel)
  have htoken : ∀ c, Http.isTokenChar c = true → 0x20 ≤ c.toNat ∧ c.toNat < 0x7F := by
    intro c hc
    rcases Bool.or_eq_true_iff.1 hc with halphanum | hlisted
    · have hrange := Text.isAlphanum_iff.1 halphanum
      omega
    · have hall : ∀ d ∈ ['!', '#', '$', '%', '&', '\'', '*', '+', '-', '.', '^', '_', '\x60', '|', '~'],
          0x20 ≤ d.toNat ∧ d.toNat < 0x7F := Text.forall_mem_of_all (by decide)
      exact hall c (List.contains_iff_mem.1 hlisted)
  refine if_pos ?_
  rw [Multipart.contentType, String.toList_append, List.all_eq_true]
  intro c hc
  rw [Bool.or_eq_true, Bool.and_eq_true, decide_eq_true_eq, decide_eq_true_eq]
  rcases List.mem_append.1 hc with hc | hc
  · exact .inr (hlead c hc)
  · exact .inr (htoken c (List.all_eq_true.1 m.isToken c hc))

private theorem boundary?_contentType (boundary : String) :
    Multipart.boundary? (Multipart.contentType boundary) = some boundary := by
  have hprefix : Multipart.typeLead.toList.isPrefixOf (Multipart.contentType boundary).toList = true := by
    rw [Multipart.contentType, String.toList_append]
    exact List.isPrefixOf_iff_prefix.2 (List.prefix_append _ _)
  rw [Multipart.boundary?, if_pos hprefix, Multipart.contentType, String.toList_append, List.drop_left,
    String.ofList_toList]

/-- Form data is no JSON. -/
private theorem contentType_ne_json (boundary : String) : Multipart.contentType boundary ≠ "application/json" := by
  intro h
  have hlead : Multipart.typeLead.toList.take 1 = ['m'] := by decide +kernel
  have htake := congrArg (fun s : String => s.toList.take 1) h
  rw [Multipart.contentType, String.toList_append, List.take_append_of_le_length (by decide +kernel), hlead] at htake
  exact absurd htake (by decide +kernel)

section
variable {fields : List (String × String)} (hform : r.payload = some (.form fields)) (hframed : isFramed r = true)
include hform hframed

private theorem framed_of_form :
    (∀ f ∈ fields, Multipart.isFramed f = true) ∧ r.headers.has "content-type" = false := by
  rw [isFramed, hform] at hframed
  simpa using hframed

/-- Form data is declared with its boundary. -/
private theorem holds_contentType :
    Holds (arrival m r t).headers "content-type" (Multipart.contentType m.boundary) := by
  have hnone : r.bytes? = none := by rw [Http.Request.bytes?, hform]
  constructor
  · refine List.mem_map.2 ⟨("content-type", Multipart.contentType m.boundary), List.mem_append_right _ ?_, ?_⟩
    · simp [addedHeaders, hnone]
    · have hlower : Text.lower "content-type" = "content-type" := by decide +kernel
      rw [visibleText?_contentType, hlower]
  · intro x hx hname
    obtain ⟨y, hy, rfl⟩ := mem_arrival hx
    have hsame : SameName y.1 "content-type" := (Text.sameName_lower y.1).symm.trans hname
    rcases hy with hy | hy
    · have hhas := (framed_of_form hform hframed).2
      rw [has_of_mem hy hsame] at hhas
      cases hhas
    · rcases mem_addedHeaders hy with ⟨rfl, -⟩ | hadded | ⟨hadded, -⟩ | hadded
      · exact visibleText?_contentType m
      · rw [hadded] at hsame
        exact absurd hsame (by decide +kernel)
      · rw [hadded] at hsame
        exact absurd hsame (by decide +kernel)
      · rw [hadded] at hsame
        exact absurd hsame (by decide +kernel)

private theorem contentType?_of_form : contentType? (arrival m r t) = some (Multipart.contentType m.boundary) :=
  find?_visible_of_holds (holds_contentType hform hframed)

theorem parts_of_form (hne : fields ≠ []) :
    parts (arrival m r t) = .ok (fields.map fun f => some ⟨some f.1, some f.2⟩) := by
  have hbody : (arrival m r t).body = Multipart.encode m.boundary fields := by
    show sentBody m r = _
    rw [sentBody, hform]
  have hdecode : Multipart.decode? m.boundary (arrival m r t).body = some fields := by
    rw [hbody]
    exact Multipart.decode?_encode m.boundary hne (framed_of_form hform hframed).1
  have hboundary : (contentType? (arrival m r t) >>= Multipart.boundary?) = some m.boundary := by
    rw [contentType?_of_form hform hframed, Option.bind_eq_bind, Option.bind_some, boundary?_contentType]
  rw [parts, hboundary]
  dsimp only
  rw [hdecode]

end

end

/-! ### Laws -/

private theorem ne_none_of_bytes? {r : Http.Request} (h : r.bytes? = none) :
    ∃ fields, r.payload = some (.form fields) := by
  unfold Http.Request.bytes? at h
  split at h
  · cases h
  · cases h
  · cases h
  · rename_i fields hform
    exact ⟨fields, hform⟩

theorem carried_arrival (m : Moment) {r : Http.Request} {t : Target} (hplain : t.isPlain = true)
    (hsendable : Http.isSendable r.headers = true) : loopback.Carried r t.segments t.query (arrival m r t) := by
  obtain ⟨hsegments, -⟩ := Bool.and_eq_true_iff.1 hplain
  rw [List.all_eq_true] at hsegments
  constructor
  case method => rfl
  case literal => exact fun lead hlead => capture_literals hlead hsegments
  case variable_last =>
    intro lead name segment hlead hne heq
    have hsegment : segment.toList.all isPlainChar = true := hsegments segment (by simp [heq])
    have hpath : (arrival m r t).path = (lead ++ [segment]).map escape := congrArg (List.map escape) heq
    rw [hpath]
    exact capture_last hlead name hsegment hne
  case length =>
    intro pattern hlength
    refine capture_of_length ?_
    rwa [show (arrival m r t).path.length = t.segments.length from List.length_map _]
  case no_query =>
    show t.query.map escapeQuery = none ↔ t.query = none
    rw [Option.map_eq_none_iff]
  case pairs => exact decode_escapeQuery t.query
  case names =>
    intro x hx
    obtain ⟨h, hmem, rfl⟩ := mem_arrival hx
    refine isToken_lower ?_
    rcases hmem with hmem | hmem
    · have hall := List.all_eq_true.1 hsendable h hmem
      simp only [Bool.and_eq_true] at hall
      exact hall.1.1
    · exact isToken_addedHeaders hmem
  case headers => exact fun hbytes h hmem honly hend htidy => holds_arrival hbytes hmem honly hend htidy
  case no_type => exact lacks_arrival
  case body => exact fun data hdata => body_arrival hdata

theorem readable_arrival {m : Moment} {r : Http.Request} {t : Target} (hfits : Fits r) :
    loopback.Readable r (arrival m r t) := by
  obtain ⟨-, hsize, hframed⟩ := hfits
  have hbytes : ∀ data, r.bytes? = some data → Loopback.bytes (arrival m r t) = .ok data := by
    intro data hdata
    have hlength : (arrival m r t).body.length ≤ maxBody := by
      rw [body_arrival hdata]
      exact hsize data hdata
    rw [Loopback.bytes, if_pos hlength, body_arrival hdata]
  constructor
  case bytes => exact hbytes
  case draft =>
    intro d htype hread
    have hfind : contentType? (arrival m r t) = some "application/json" := find?_visible_of_holds htype
    show Loopback.draft (arrival m r t) = .ok d
    cases hdata : r.bytes? with
    | none =>
      obtain ⟨fields, hform⟩ := ne_none_of_bytes? hdata
      rw [contentType?_of_form hform hframed] at hfind
      exact absurd (Option.some.inj hfind) (contentType_ne_json _)
    | some data =>
      rw [body_arrival hdata] at hread
      rw [Loopback.draft, if_pos hfind, hbytes data hdata]
      dsimp only
      rw [hread]

theorem draft_of_long {m : Moment} {r : Http.Request} {t : Target} {data : List UInt8} (hdata : r.bytes? = some data)
    (hlong : maxBody < data.length) (htype : Holds (arrival m r t).headers "content-type" "application/json") :
    loopback.draft (arrival m r t) = .error tooLong := by
  have hnot : ¬(arrival m r t).body.length ≤ maxBody := by
    rw [body_arrival hdata]
    omega
  have hfind : contentType? (arrival m r t) = some "application/json" := find?_visible_of_holds htype
  show Loopback.draft (arrival m r t) = _
  rw [Loopback.draft, if_pos hfind, Loopback.bytes, if_neg hnot]

theorem arrive_of_short (m : Moment) {r : Http.Request} {t : Target} (hplain : t.isPlain = true)
    (hurl : r.url = t.url) (hshort : 3 * r.url.length ≤ maxUrl) (hsendable : Http.isSendable r.headers = true)
    (hframed : isFramed r = true) :
    arrive m r = .ok (arrival m r t) := by
  have hlength : t.sent.url.length ≤ maxUrl := by
    have hsent := length_sent_le hplain
    rw [hurl] at hshort
    omega
  rw [arrive, hurl, ofUrl?_url hplain]
  simp [hplain, hlength, hsendable, hframed]

theorem carries : loopback.Carries address where
  arrives m r segments query hurl hne hsegments hquery hsendable hfits := by
    obtain ⟨t, ht⟩ : ∃ t : Target, t = ⟨segments, query⟩ := ⟨_, rfl⟩
    have hplain : t.isPlain = true := by
      rw [ht, Target.isPlain, Bool.and_eq_true, List.all_eq_true, Option.all_eq_true]
      exact ⟨hsegments, hquery⟩
    have htarget : r.url = t.url := by rw [hurl, ht, Target.url]
    have harrive := arrive_of_short m hplain htarget hfits.1 hsendable hfits.2.2
    have hcarried := carried_arrival m hplain hsendable
    rw [ht] at hcarried harrive
    exact ⟨_, harrive, hcarried, readable_arrival hfits⟩
  small r segments query hurl hempty hshort hcount hheaders := by
    refine ⟨?_, ?_, ?_⟩
    · have horigin : ("http://" ++ address).length = 21 := by decide +kernel
      have hquery : ((query.map fun q => "?" ++ q).getD "").length ≤ (query.getD "").length + 1 := by
        cases query with
        | none => exact Nat.zero_le _
        | some q =>
          rw [Option.map_some, Option.getD_some, Option.getD_some, String.length_append, Nat.add_comm]
          exact Nat.le_refl _
      have hlength := congrArg String.length hurl
      rw [urlText, String.length_append, String.length_append, horigin] at hlength
      rw [maxUrl]
      omega
    · intro data hdata
      obtain rfl : [] = data := Option.some.inj (hempty.symm.trans hdata)
      exact Nat.zero_le _
    · unfold isFramed
      split
      · rename_i hform
        rw [Http.Request.bytes?, hform] at hempty
        cases hempty
      · rfl

theorem dispatches : loopback.Dispatches where
  get m := by cases m <;> decide
  post m := by cases m <;> decide
  delete m := by cases m <;> decide
  any m := rfl

theorem reads : loopback.Reads where
  listParams_nil q hq := by
    have hparams : listParams? q = some ⟨none, none⟩ := by
      rw [listParams?, hq]
      rfl
    show Loopback.listParams q = _
    rw [Loopback.listParams, hparams]
  listParams_tag q tag hq := by
    have hparams : listParams? q = some ⟨some tag, none⟩ := by
      rw [listParams?, hq]
      rfl
    show Loopback.listParams q = _
    rw [Loopback.listParams, hparams]
  badPath path := rfl
  draft a rejection h := by
    have hrefused : ∀ status ∈ [(413 : UInt16), 400, 422, 415], 400 ≤ status ∧ status < 500 :=
      Text.forall_mem_of_all (by decide)
    have hbytes : ∀ rejection, bytes a = .error rejection → rejection.status = 413 := by
      intro rejection hbytes
      unfold bytes at hbytes
      split at hbytes <;> cases hbytes
      rfl
    have hstatus : rejection.status ∈ [(413 : UInt16), 400, 422, 415] := by
      have hdraft : Loopback.draft a = .error rejection := h
      unfold Loopback.draft at hdraft
      split at hdraft
      · split at hdraft
        · rename_i hlong
          cases hdraft
          rw [hbytes _ hlong]
          decide
        · split at hdraft <;> cases hdraft <;> simp
      · cases hdraft
        simp
    exact hrefused _ hstatus

private theorem mem_respond {m : Moment} {method : Http.Method} {reply : Reply} {x : String × Option String} :
    x ∈ (respond m method reply).headers ↔
      ∃ h, (h ∈ (message reply).2.1 ∨
        ((message reply).1 ≠ 204 ∧ h = ("content-length", toString (message reply).2.2.length)) ∨
          h = ("date", m.date)) ∧ x = (h.1, some h.2) := by
  simp only [respond, List.mem_map, List.mem_append, List.mem_singleton]
  constructor
  · rintro ⟨h, (hmem | hmem) | hmem, rfl⟩
    · exact ⟨h, .inl hmem, rfl⟩
    · split at hmem
      · cases hmem
      · rename_i hstatus
        exact ⟨h, .inr (.inl ⟨hstatus, List.mem_singleton.1 hmem⟩), rfl⟩
    · exact ⟨h, .inr (.inr hmem), rfl⟩
  · rintro ⟨h, hmem | ⟨hstatus, hmem⟩ | hmem, rfl⟩
    · exact ⟨h, .inl (.inl hmem), rfl⟩
    · refine ⟨h, .inl (.inr ?_), rfl⟩
      rw [if_neg hstatus, hmem]
      exact List.mem_singleton_self _
    · exact ⟨h, .inr hmem, rfl⟩

private theorem holds_respond {m : Moment} {method : Http.Method} {reply : Reply} {name value : String}
    (hmem : (name, value) ∈ (message reply).2.1)
    (honly : ∀ h ∈ (message reply).2.1, SameName h.1 name → h.2 = value)
    (hadded : ¬SameName "content-length" name ∧ ¬SameName "date" name) :
    Holds (respond m method reply).headers name value := by
  constructor
  · exact mem_respond.2 ⟨(name, value), .inl hmem, rfl⟩
  · intro x hx hname
    obtain ⟨h, hmem' | ⟨-, rfl⟩ | rfl, rfl⟩ := mem_respond.1 hx
    · exact congrArg some (honly h hmem' hname)
    · exact absurd hname hadded.1
    · exact absurd hname hadded.2

theorem answers : loopback.Answers where
  json m method status location v hmethod hsuccess hcontent hreset hlocation := by
    have htype : ¬SameName "location" "content-type" := by decide +kernel
    have hlocated : ¬SameName "content-type" "location" := by decide +kernel
    refine ⟨_, rfl, rfl, ?_, ?_, ?_⟩
    · show (if method = .head then [] else Text.Utf8.encode v.print) = Text.Utf8.encode v.print
      rw [if_neg hmethod]
    · refine holds_respond List.mem_cons_self ?_ (by decide +kernel)
      intro h hmem hname
      rcases List.mem_cons.1 hmem with rfl | hmem
      · rfl
      · cases location with
        | none => cases hmem
        | some l =>
          obtain rfl := List.mem_singleton.1 hmem
          exact absurd hname htype
    · intro l hl
      rw [Option.mem_def] at hl
      subst hl
      refine holds_respond (List.mem_cons_of_mem _ List.mem_cons_self) ?_ (by decide +kernel)
      intro h hmem hname
      rcases List.mem_cons.1 hmem with rfl | hmem
      · exact absurd hname hlocated
      · rw [List.mem_singleton.1 hmem]
  bare m method status h := by
    have hlength : ¬SameName "content-length" "content-type" := by decide +kernel
    have hdate : ¬SameName "date" "content-type" := by decide +kernel
    refine ⟨_, rfl, rfl, ?_⟩
    intro x hx
    obtain ⟨h, hmem | ⟨-, rfl⟩ | rfl, rfl⟩ := mem_respond.1 hx
    · cases hmem
    · exact hlength
    · exact hdate
  refused m method rejection hlow hhigh := ⟨_, rfl, rfl⟩
  reason := by decide +kernel

/-! ### Moments -/

private theorem addedHeaders_congr (m m' : Moment) {r : Http.Request} (h : r.bytes? ≠ none) :
    addedHeaders m r = addedHeaders m' r ∧ sentBody m r = sentBody m' r := by
  have hbody : sentBody m r = sentBody m' r := by
    unfold sentBody
    split
    · rename_i hform
      rw [Http.Request.bytes?, hform] at h
      exact absurd rfl h
    · rfl
  have hnot : r.bytes?.isNone = false := by
    rw [← Bool.not_eq_true, Option.isNone_iff_eq_none]
    exact h
  rw [addedHeaders, addedHeaders, hbody, hnot]
  exact ⟨rfl, rfl⟩

private theorem sameArrival_arrival (m m' : Moment) {r : Http.Request} (hframed : isFramed r = true) (t : Target) :
    loopback.SameArrival r (arrival m r t) (arrival m' r t) := by
  have hwhole : r.bytes? ≠ none → arrival m r t = arrival m' r t := by
    intro h
    obtain ⟨hheaders, hbody⟩ := addedHeaders_congr m m' h
    rw [arrival, arrival, hheaders, hbody]
  cases hdata : r.bytes? with
  | some data =>
    have hsame := hwhole (by rw [hdata]; simp)
    rw [hsame]
    exact ⟨rfl, rfl, rfl, rfl, rfl, fun _ => rfl⟩
  | none =>
    obtain ⟨fields, hform⟩ := ne_none_of_bytes? hdata
    have hdraft : ∀ m : Moment, draft (arrival m r t) =
        .error ⟨415, "Expected request with \x60Content-Type: application/json\x60"⟩ := by
      intro m
      refine if_neg ?_
      rw [contentType?_of_form hform hframed, Option.some.injEq]
      exact contentType_ne_json _
    have hparts : parts (arrival m r t) = parts (arrival m' r t) := by
      cases fields with
      | nil =>
        have hempty : ∀ m : Moment, parts (arrival m r t) = .ok [none] := by
          intro m
          have hbody : (arrival m r t).body = [] := by
            show sentBody m r = []
            rw [sentBody, hform]
            rfl
          rw [parts, contentType?_of_form hform hframed, Option.bind_eq_bind, Option.bind_some, boundary?_contentType]
          dsimp only
          rw [hbody, Multipart.decode?_nil]
        rw [hempty, hempty]
      | cons f fields => rw [parts_of_form hform hframed (by simp), parts_of_form hform hframed (by simp)]
    exact ⟨rfl, rfl, rfl, (hdraft m).trans (hdraft m').symm, hparts, hwhole⟩

end Loopback

/-- Some moment. -/
def Loopback.moment : Loopback.Moment := ⟨"Thu, 01 Jan 1970 00:00:00 GMT", "boundary", by decide⟩

/-- Occasions at that moment, with identifiers that are numbered on. -/
def Loopback.occasions (first : Nat) : Nat → Occasion Loopback.Moment :=
  fun n => ⟨Loopback.moment, Uuid.ofNat (first + n)⟩

/-- The loopback does what a framework is relied on for. -/
theorem loopback_lawful : loopback.Lawful Loopback.address :=
  ⟨Loopback.carries, Loopback.dispatches, Loopback.reads, Loopback.answers⟩

/-- Form data that is sent is delivered. -/
theorem loopback_delivers {fields : List (String × String)} (hne : fields ≠ []) : loopback.Delivers fields := by
  intro m r a hform _ hfits harrive
  have hsent : Loopback.arrive m r = .ok a := harrive
  unfold Loopback.arrive at hsent
  split at hsent
  · cases hsent
  · split at hsent
    · cases hsent
      exact Loopback.parts_of_form hform hfits.2.2 hne
    · cases hsent

/-- Two exchanges on the loopback differ in the date and the boundary only. -/
theorem loopback_steady : loopback.Steady where
  arrive m m' r := by
    show Framework.Agree _ (Loopback.arrive m r) (Loopback.arrive m' r)
    rw [Loopback.arrive, Loopback.arrive]
    split
    · exact .error _
    · split
      · rename_i t _ hsent
        rw [Bool.and_eq_true] at hsent
        exact .ok (Loopback.sameArrival_arrival m m' hsent.2 t)
      · exact .error _
  respond m m' method reply := by
    have hdate : Text.SameName "date" "date" := Text.SameName.refl _
    refine .ok ⟨rfl, ?_, rfl⟩
    simp only [Loopback.respond, List.map_append, List.filter_append]
    simp [hdate]

end ApiClient.PetStore
