import ApiClient.PetStore.Pet
import ApiClient.Proofs.Json.RecordText

/-!
# The text of an echo

The headers of an echo may be written in any order (`Echo.writtenIn`).  Whatever the order is, the text is read to the
echo as a record (`Echo.parse?_writtenIn`).  As a value it is read to the echo exactly when the header that is written
first does not have the key of embedded text for its name (`Echo.ofBytes?_writtenIn_iff`): behind such a header the
reader takes the headers for the value of an embedded text, and these are other headers or none.
-/

namespace ApiClient.PetStore

open Json

/-! ### Headers -/

theorem toJson_headers (headers : Keyed String String) :
    JsonModel.toJson headers = .obj (texts headers.entries) := rfl

theorem ofJson?_headers (headers : Keyed String String) :
    JsonModel.ofJson? (JsonModel.toJson headers) = some headers := by
  have hmembers : ∀ entries : List (String × String),
      ((texts entries).mapM fun m => (asStr? m.2).map fun x => (m.1, x)) = some entries := by
    intro entries
    induction entries with
    | nil => rfl
    | cons e rest ih =>
      rw [texts, List.map_cons, List.mapM_cons, ← texts, ih]
      rfl
  show ((texts headers.entries).mapM (fun m => (asStr? m.2).map fun x => (m.1, x)) >>=
    fun pairs => some (Keyed.empty.insertAll pairs)) = some headers
  rw [hmembers, Option.bind_eq_bind, Option.bind_some, Keyed.insertAll_empty_entries]

theorem shape_texts (entries : List (String × String)) :
    Shape.textMap.ofJson? (.obj (texts entries)) = some (.obj (texts entries)) := by
  have hall : (texts entries).all (fun m => (asStr? m.2).isSome) = true := by
    simp [texts, asStr?]
  rw [Shape.ofJson?, if_pos hall]

private theorem keys_of_mapM {α : Type} [JsonModel α] {ms : List (String × Json)} {pairs : List (String × α)}
    (h : (ms.mapM fun m => (JsonModel.ofJson? m.2).map fun x => (m.1, x)) = some pairs) :
    pairs.map Prod.fst = ms.map Prod.fst := by
  induction ms generalizing pairs with
  | nil =>
    cases h
    rfl
  | cons m rest ih =>
    simp only [List.mapM_cons, Option.bind_eq_bind, Option.bind_eq_some_iff, Option.map_eq_some_iff] at h
    obtain ⟨_, ⟨x, -, rfl⟩, pairs', hpairs', h⟩ := h
    cases h
    rw [List.map_cons, List.map_cons, ih hpairs']

/-- No text that is embedded under a name stands for the headers that have this one only. -/
private theorem entries_ne_of_layered {layers : Nat} {cs : List Char} {v : Json} (hv : layered layers cs = .ok v)
    {headers : Keyed String String} (hheaders : Shape.textMap.ofJson? v >>= JsonModel.ofJson? = some headers)
    (text : String) : headers.entries ≠ [(embeddedKey, text)] := by
  intro hentries
  obtain ⟨u, hu, hread⟩ := Option.bind_eq_some_iff.1 hheaders
  cases v with
  | obj ms =>
    rw [Shape.ofJson?] at hu
    split at hu
    · cases hu
      obtain ⟨pairs, hpairs, hinsert⟩ := Option.bind_eq_some_iff.1 hread
      cases hinsert
      have hkeys : pairs.map Prod.fst = ms.map Prod.fst := keys_of_mapM hpairs
      have hms : ms ≠ [] := by
        rintro rfl
        cases List.map_eq_nil_iff.1 hkeys
        cases hentries
      obtain ⟨m, hm, hne⟩ := exists_key_of_layered hms hv
      -- The other key is one of the headers, which have no key but that of embedded text.
      have hfind := Keyed.find?_insertAll (Keyed.empty : Keyed String String) pairs m.1
      rw [Keyed.find?, hentries] at hfind
      have hcompare : compare m.1 embeddedKey ≠ .eq := fun heq => hne (Std.LawfulEqCmp.eq_of_compare heq)
      have hmem : m.1 ∈ pairs.reverse.map Prod.fst := by
        rw [List.map_reverse, List.mem_reverse, hkeys]
        exact List.mem_map_of_mem hm
      have hlast : Keyed.last? m.1 pairs = none := by
        simpa [Keyed.lookup, hcompare, Keyed.find?, Keyed.empty] using hfind.symm
      exact Keyed.lookup_eq_none_iff.1 hlast hmem
    · cases hu
  | _ => cases hu

/-! ### Members -/

namespace Echo

/-- The members of an echo, with `headers` in place of its own headers. -/
def membersWith (e : Echo) (headers : Json) : List (String × Json) :=
  [("method", .str e.method), ("query", JsonModel.toJson e.query), ("headers", headers), ("body", .str e.body)]

theorem keys_membersWith (e : Echo) (headers : Json) : ((e.membersWith headers).map Prod.fst).Nodup := by
  show ["method", "query", "headers", "body"].Nodup
  decide

theorem record?_membersWith (e : Echo) (headers : Json) :
    record? (JsonRecord.fields Echo) (.obj (e.membersWith headers)) =
      (Shape.textMap.ofJson? headers).map fun w => [.str e.method, JsonModel.toJson e.query, w, .str e.body] := by
  have htext : ∀ s, (Shape.text fun _ => true).ofJson? (.str s) = some (.str s) := fun _ => rfl
  cases hheaders : Shape.textMap.ofJson? headers <;>
    simp [membersWith, record?, JsonRecord.fields, Keyed.lookup, htext, Shape.ofJson?_optionalText, hheaders]

theorem ofFields?_membersWith (e : Echo) (headers : Json) :
    JsonRecord.ofFields? [.str e.method, JsonModel.toJson e.query, headers, .str e.body] =
      (JsonModel.ofJson? headers).map fun w => (⟨e.method, e.query, w, e.body⟩ : Echo) := by
  simp only [JsonRecord.ofFields?, ofJson?_text, Option.bind_eq_bind, Option.bind_some]
  cases (JsonModel.ofJson? headers : Option (Keyed String String)) <;> rfl

theorem ofJson?_membersWith (e : Echo) (headers : Json) :
    JsonModel.ofJson? (object (e.membersWith headers)) =
      (Shape.textMap.ofJson? headers >>= JsonModel.ofJson?).map fun w => (⟨e.method, e.query, w, e.body⟩ : Echo) := by
  show record? (JsonRecord.fields Echo) (object (e.membersWith headers)) >>= JsonRecord.ofFields? = _
  rw [record?_object _ (e.keys_membersWith _), e.record?_membersWith]
  cases Shape.textMap.ofJson? headers with
  | none => rfl
  | some w => exact e.ofFields?_membersWith w

end Echo

/-- An echo is read from its members. -/
theorem ofJson?_object_members (e : Echo) : JsonModel.ofJson? (object (JsonRecord.members e)) = some e := by
  have hheaders : Shape.textMap.ofJson? (JsonModel.toJson e.headers) >>= JsonModel.ofJson? = some e.headers := by
    rw [toJson_headers, shape_texts, ← toJson_headers]
    exact ofJson?_headers e.headers
  show JsonModel.ofJson? (object (e.membersWith (JsonModel.toJson e.headers))) = some e
  rw [e.ofJson?_membersWith, hheaders]
  rfl

namespace Echo

/-- An echo as an object, its headers in the given order. -/
def writtenIn (e : Echo) (order : List (String × String)) : Json := .obj (e.membersWith (.obj (texts order)))

theorem written_eq (e : Echo) : JsonRecord.written e = e.writtenIn e.headers.entries := rfl

section
variable {e : Echo} {order : List (String × String)} (horder : order.Perm e.headers.entries)
include horder

private theorem object_texts : object (texts order) = JsonModel.toJson e.headers := by
  have hperm : (texts order).Perm (texts e.headers.entries) := horder.map _
  have hascending : Keyed.Ascending (texts e.headers.entries) := List.pairwise_map.2 e.headers.ascending
  rw [object, toJson_headers, Keyed.collect_of_perm hperm hascending]

/-! ### As a record -/

/-- An echo is read from its text, whatever the order of its headers. -/
theorem parse?_writtenIn : JsonRecord.parse? (e.writtenIn order).render = some e := by
  have hfits : FitsFields (JsonRecord.fields Echo) (e.membersWith (.obj (texts order))) :=
    ⟨by decide, e.keys_membersWith _, by simp [membersWith, JsonRecord.fields]⟩
  have hrecord := e.record?_membersWith (.obj (texts order))
  rw [shape_texts, Option.map_some] at hrecord
  have hquery : ordered (JsonModel.toJson e.query) = JsonModel.toJson e.query := by
    cases e.query <;> rfl
  have hfields : JsonRecord.ofFields?
      ([.str e.method, JsonModel.toJson e.query, .obj (texts order), .str e.body].map ordered) = some e := by
    show JsonRecord.ofFields?
      [.str e.method, ordered (JsonModel.toJson e.query), object (texts order), .str e.body] = _
    rw [hquery, object_texts horder, e.ofFields?_membersWith, ofJson?_headers]
    rfl
  rw [JsonRecord.parse?, render, String.toList_ofList, writtenIn, JsonRecord.document_print hfits hrecord hfields]
  rfl

end

/-! ### As a value -/

/-- What the members of an echo are read to, if the headers are read to `headers`. -/
private def taken (headers : Option Json) : Json → Option Json
  | .obj _ => headers
  | v => some v

private theorem readsItem_membersWith (e : Echo) (embedded : List Char → Except Fault Json) (d : Nat)
    {ms : List (String × Json)} {headers : Option Json}
    (h : ∀ rest, (value embedded d (print (.obj ms) ++ rest)).toOption = headers.map fun w => (w, rest)) :
    ∀ m ∈ e.membersWith (.obj ms), ReadsItem '}' (value embedded d) print (taken headers) m.2 := by
  have hflat : ∀ v, (v = .null ∨ ∃ s, v = .str s) → ReadsItem '}' (value embedded d) print (taken headers) v := by
    intro v hv
    have hitem : ReadsItem '}' (value embedded d) print (readBack embedded d) v := by
      rcases hv with rfl | ⟨s, rfl⟩
      · exact readsItem_members embedded [("", .null)] d ⟨trivial, trivial⟩ ⟨trivial, trivial⟩ _ List.mem_cons_self
      · exact readsItem_members embedded [("", .str s)] d ⟨trivial, trivial⟩ ⟨trivial, trivial⟩ _ List.mem_cons_self
    have htaken : taken headers v = readBack embedded d v := by
      rcases hv with rfl | ⟨s, rfl⟩ <;> simp [taken, readBack, depth, expandWith]
    refine ⟨hitem.begins, fun c rest hc => ?_⟩
    rw [htaken]
    exact hitem.reads c rest hc
  intro m hm
  simp only [membersWith, List.mem_cons, List.not_mem_nil, or_false] at hm
  rcases hm with rfl | rfl | rfl | rfl
  · exact hflat _ (.inr ⟨_, rfl⟩)
  · cases hquery : e.query with
    | none => exact hflat _ (.inl rfl)
    | some q => exact hflat _ (.inr ⟨q, rfl⟩)
  · exact ⟨⟨'{', _, print_obj ms, by decide, by decide⟩, fun c rest _ => h (c :: rest)⟩
  · exact hflat _ (.inr ⟨_, rfl⟩)

/-- The text of an echo is read to its members if its headers are read. -/
private theorem ofBytes?_membersWith (e : Echo) {ms : List (String × Json)} (hwhole : WholeMembers ms)
    {headers : Option Json}
    (h : ∀ rest, (value (layered (print (.obj (e.membersWith (.obj ms)))).length) (maxDepth - 2 + 1)
      (print (.obj ms) ++ rest)).toOption = headers.map fun w => (w, rest)) :
    ofBytes? (Text.Utf8.encode (print (.obj (e.membersWith (.obj ms))))) =
      headers.map fun w => object (e.membersWith w) := by
  have hall : WholeMembers (e.membersWith (.obj ms)) := by
    rcases toJson_text e.query with hquery | ⟨q, hquery⟩ <;>
      simp [membersWith, WholeMembers, Whole, hquery, hwhole]
  have hfirst : ∀ m ∈ (e.membersWith (.obj ms)).head?, m.1 ≠ embeddedKey := by
    simp [membersWith, embeddedKey]
  have hquery : taken headers (JsonModel.toJson e.query) = some (JsonModel.toJson e.query) := by
    cases e.query <;> rfl
  have hmembers : ((e.membersWith (.obj ms)).mapM fun m => (taken headers m.2).map fun w => (m.1, w)) =
      headers.map e.membersWith := by
    have hobj : taken headers (.obj ms) = headers := rfl
    have hstr : ∀ s, taken headers (.str s) = some (.str s) := fun _ => rfl
    cases headers <;> simp [membersWith, hobj, hstr, hquery]
  have hvalue := value_print_members _ hall hfirst (e.readsItem_membersWith _ _ h) []
  rw [List.append_nil, hmembers, Option.map_map] at hvalue
  rw [ofBytes?_encode]
  refine read?_of_value (skipSpace_print_obj _) (hvalue.trans ?_)
  rw [Option.map_map]
  rfl

/-- The text of an echo is read to the echo as a value if its first header does not have the key of embedded text. -/
theorem ofBytes?_writtenIn {e : Echo} {order : List (String × String)} (horder : order.Perm e.headers.entries)
    (hfirst : ∀ h ∈ order.head?, h.1 ≠ embeddedKey) :
    ofBytes? (Text.Utf8.encode (e.writtenIn order).print) = some (object (JsonRecord.members e)) := by
  obtain ⟨hsorted, hwhole, hplain, hdepth⟩ := (flat_texts order).simple
  have hhead : ∀ m ∈ (texts order).head?, m.1 ≠ embeddedKey := by
    cases order with
    | nil => simp [texts]
    | cons h rest => simpa [texts] using hfirst
  have hdeep : depthMembers (texts order) ≤ maxDepth - 2 := by
    rw [hdepth]
    exact Nat.zero_le _
  have hread := @ofBytes?_membersWith e _ hwhole (some (object (texts order)))
    (value_print_object _ hsorted hwhole hplain hhead hdeep)
  rw [object_texts horder] at hread
  exact hread

/-- What is read behind a header with the key of embedded text is not the echo. -/
private theorem ne_of_first_embedded {e : Echo} {text : String} {rest : List (String × String)}
    (horder : ((embeddedKey, text) :: rest).Perm e.headers.entries) {v : Json}
    (hread : ofBytes? (Text.Utf8.encode (e.writtenIn ((embeddedKey, text) :: rest)).print) = some v) :
    JsonModel.ofJson? v ≠ some e := by
  intro he
  have hwhole : WholeMembers (texts ((embeddedKey, text) :: rest)) := (flat_texts _).simple.2.1
  rw [writtenIn, e.ofBytes?_membersWith hwhole (value_print_embedded _ (maxDepth - 2) hwhole.1 _),
    Option.map_eq_some_iff] at hread
  obtain ⟨w, hw, rfl⟩ := hread
  rw [expandWith, if_pos rfl] at hw
  cases rest with
  | cons => cases hw
  | nil =>
    obtain ⟨headers, hheaders, heq⟩ := Option.map_eq_some_iff.1 ((e.ofJson?_membersWith w).symm.trans he)
    have hsame : headers = e.headers := congrArg Echo.headers heq
    rw [hsame] at hheaders
    exact entries_ne_of_layered (eq_ok_of_toOption hw) hheaders text (List.perm_singleton.1 horder.symm)

/-- The text of an echo is read to a value which is the echo, unless its first header has the key of embedded text. -/
theorem ofBytes?_writtenIn_iff {e : Echo} {order : List (String × String)} (horder : order.Perm e.headers.entries) :
    (∃ v, ofBytes? (Text.Utf8.encode (e.writtenIn order).print) = some v ∧ JsonModel.ofJson? v = some e) ↔
      ∀ h ∈ order.head?, h.1 ≠ embeddedKey := by
  constructor
  · rintro ⟨v, hread, he⟩ ⟨key, text⟩ hhead rfl
    obtain ⟨rest, rfl⟩ := List.head?_eq_some_iff.1 hhead
    exact ne_of_first_embedded horder hread he
  · intro hfirst
    exact ⟨_, ofBytes?_writtenIn horder hfirst, ofJson?_object_members e⟩

end Echo

/-- The text of an echo is read to its members. -/
theorem ofBytes?_echo {e : Echo} (h : ∀ entry ∈ e.headers.entries, entry.1 ≠ embeddedKey) :
    ofBytes? (Text.Utf8.encode (JsonRecord.written e).print) = some (object (JsonRecord.members e)) :=
  Echo.ofBytes?_writtenIn (List.Perm.refl _) fun entry hentry => h entry (List.mem_of_mem_head? hentry)

end ApiClient.PetStore
