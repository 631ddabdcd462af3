import ApiClient.Json.Model
import ApiClient.Proofs.Json.Faithful
import Mathlib.Data.List.Nodup

/-!
# Records are read from printed objects

A printed value is read in a shape to its normal form, the members of an object in order (`Shape.read_print`).  After
a part of the members has been read, each slot holds what the field has in that part (`slotsOf`), and every further
member fills one slot (`fill_slotsOf`).  So an object in which no key occurs twice and every key names a field is read
from its text to the record that its values make up (`JsonRecord.document_print`), and to the record that it is as a
value if its members are in order inside (`JsonRecord.documentBytes_print`).
-/

namespace ApiClient

namespace Json

/-! ### Shapes -/

/-- A value with its own members in order. -/
def ordered : Json → Json
  | .obj ms => object ms
  | v => v

theorem Shape.begins {shape : Shape} {v w : Json} (h : shape.ofJson? v = some w) :
    ∃ c cs, print v = c :: cs ∧ isSpace c = false := by
  cases v with
  | null => exact ⟨'n', _, rfl, by decide⟩
  | bool b => cases b <;> exact ⟨_, _, rfl, by decide⟩
  | str s => exact ⟨'"', _, rfl, by decide⟩
  | arr items => exact ⟨'[', _, print_arr items, by decide⟩
  | obj members => exact ⟨'{', _, print_obj members, by decide⟩
  | num n => cases shape <;> simp [Shape.ofJson?] at h

private theorem expect_append (word rest : List Char) : expect word (word ++ rest) = .ok rest := by
  have hprefix : word.isPrefixOf (word ++ rest) = true := List.isPrefixOf_iff_prefix.2 (List.prefix_append word rest)
  rw [expect, if_pos hprefix, List.drop_left]

private theorem readText_print {accepts : String → Bool} {s : String} (h : accepts s = true) (rest : List Char) :
    Shape.readText accepts (print (.str s) ++ rest) = .ok (.str s, rest) := by
  rw [print, printStr, List.append_assoc, List.cons_append, List.cons_append, List.nil_append, Shape.readText,
    string_print]
  simp [bind, Except.bind, h]

private theorem readNull_print (rest : List Char) : Shape.readNull (print .null ++ rest) = .ok (.null, rest) := by
  show (expect ['u', 'l', 'l'] (['u', 'l', 'l'] ++ rest) >>= _) = _
  rw [expect_append]
  rfl

private theorem readsItem_text {ms : List (String × Json)} (h : ∀ m ∈ ms, m.2.asStr?.isSome = true) :
    ∀ m ∈ ms, ReadsItem '}' (Shape.readText fun _ => true) print some m.2 := by
  intro m hm
  obtain ⟨s, hs⟩ := Option.isSome_iff_exists.1 (h m hm)
  have hstr : m.2 = .str s := by
    cases hv : m.2 <;> rw [hv] at hs <;> simp_all [asStr?]
  rw [hstr]
  refine ⟨⟨'"', _, rfl, by decide, by decide⟩, fun c rest _ => ?_⟩
  rw [readText_print rfl]
  rfl

private theorem readTextMap_print {ms : List (String × Json)} (h : ∀ m ∈ ms, m.2.asStr?.isSome = true)
    (rest : List Char) : Shape.readTextMap (print (.obj ms) ++ rest) = .ok (object ms, rest) := by
  have hall : (ms.mapM fun m => (some m.2).map fun w => (m.1, w)) = some ms := by
    clear h
    induction ms with
    | nil => rfl
    | cons m rest ih => simp_all
  have hmembers := members_print ms rest (readsItem_text h)
  rw [hall] at hmembers
  rw [print_obj, List.cons_append, Shape.readTextMap, eq_ok_of_toOption hmembers]
  rfl

private theorem readChoice_print_obj {words : List String} {word : String} (h : words.contains word = true)
    (rest : List Char) : Shape.readChoice words (print (.obj [(word, .null)]) ++ rest) = .ok (.str word, rest) := by
  have htext : print (.obj [(word, .null)]) ++ rest =
      '{' :: (print (.str word) ++ ':' :: (print .null ++ '}' :: rest)) := by
    simp [print, printMembers]
  have hword : skipSpace (print (.str word) ++ ':' :: (print .null ++ '}' :: rest)) =
      print (.str word) ++ ':' :: (print .null ++ '}' :: rest) := skipSpace_cons (by decide) _
  have hcolon : skipSpace (':' :: (print .null ++ '}' :: rest)) = [':'] ++ (print .null ++ '}' :: rest) :=
    skipSpace_cons (by decide) _
  have hnull : skipSpace (print .null ++ '}' :: rest) = print .null ++ '}' :: rest := skipSpace_cons (by decide) _
  have hend : skipSpace ('}' :: rest) = ['}'] ++ rest := skipSpace_cons (by decide) _
  rw [htext, Shape.readChoice, hword, readText_print h]
  simp only [bind, Except.bind, hcolon, expect_append, hnull, readNull_print, hend]

/-- A printed value is read in a shape to its normal form. -/
theorem Shape.read_print {shape : Shape} {v w : Json} (h : shape.ofJson? v = some w) (rest : List Char) :
    shape.read (print v ++ rest) = .ok (ordered w, rest) := by
  unfold Shape.ofJson? at h
  split at h
  case h_1 accepts s =>
    split at h
    · cases h
      exact readText_print ‹_› rest
    · cases h
  case h_2 =>
    cases h
    exact readNull_print rest
  case h_3 s =>
    cases h
    exact @readText_print (fun _ => true) s rfl rest
  case h_4 words s =>
    split at h
    · cases h
      exact readText_print ‹_› rest
    · cases h
  case h_5 words word =>
    split at h
    · cases h
      exact readChoice_print_obj ‹_› rest
    · cases h
  case h_6 ms =>
    split at h
    · rename_i hall
      cases h
      exact readTextMap_print (List.all_eq_true.1 hall) rest
    · cases h
  case h_7 => cases h

/-- What a value in order is in a shape is in order as well. -/
theorem Shape.ordered_ofJson? {shape : Shape} {v w : Json} (hsorted : Sorted v) (h : shape.ofJson? v = some w) :
    ordered w = w := by
  unfold Shape.ofJson? at h
  split at h
  case h_6 ms =>
    split at h
    · cases h
      rw [Sorted] at hsorted
      rw [ordered, object, Keyed.collect_of_ascending hsorted.1]
    · cases h
  case h_2 | h_3 =>
    cases h
    rfl
  case h_1 | h_4 | h_5 =>
    split at h
    · cases h
      rfl
    · cases h
  case h_7 => cases h

/-! ### Slots -/

/-- The slots of a record after some members have been read. -/
def slotsOf (fields : List Field) (read : List (String × Json)) : Slots :=
  fields.map fun f => (f, (Keyed.lookup f.name read >>= f.shape.ofJson?).map ordered)

theorem slotsOf_nil (fields : List Field) : slotsOf fields [] = Slots.start fields := rfl

section
variable {fields : List Field} (hfields : (fields.map Field.name).Nodup) {f : Field} (hf : f ∈ fields)
  {read : List (String × Json)} (hnew : f.name ∉ read.map Prod.fst)
include hfields hf hnew

/-- The slot of a key that has not been read is empty. -/
theorem get?_slotsOf : (slotsOf fields read).get? f.name = some (f, none) := by
  have hfind : fields.find? (fun g => g.name == f.name) = some f := by
    cases hfound : fields.find? (fun g => g.name == f.name) with
    | none =>
      have hnone := List.find?_eq_none.1 hfound f hf
      simp at hnone
    | some g =>
      have hname : g.name = f.name := by simpa using List.find?_some hfound
      rw [List.inj_on_of_nodup_map hfields (List.mem_of_find?_eq_some hfound) hf hname]
  have hcomp : ((fun s : Field × Option Json => s.1.name == f.name) ∘ fun g : Field =>
      (g, (Keyed.lookup g.name read >>= g.shape.ofJson?).map ordered)) = fun g => g.name == f.name := rfl
  rw [Slots.get?, slotsOf, List.find?_map, hcomp, hfind, Option.map_some, Keyed.lookup_eq_none_iff.2 hnew]
  rfl

/-- A further member fills the slot of its field. -/
theorem fill_slotsOf {v w : Json} (h : f.shape.ofJson? v = some w) :
    (slotsOf fields read).fill f.name (ordered w) = slotsOf fields (read ++ [(f.name, v)]) := by
  rw [Slots.fill, slotsOf, slotsOf, List.map_map]
  refine List.map_congr_left fun g hg => ?_
  rw [Function.comp, Keyed.lookup_append]
  by_cases hname : g.name = f.name
  · obtain rfl := List.inj_on_of_nodup_map hfields hg hf hname
    simp [Keyed.lookup_eq_none_iff.2 hnew, Keyed.lookup, Std.ReflCmp.compare_self, h]
  · have hne : compare g.name f.name ≠ .eq := fun heq => hname (Std.LawfulEqCmp.eq_of_compare heq)
    simp [hname, Keyed.lookup, hne]

end

/-! ### Members -/

/-- The keys of some members are different names of fields. -/
structure FitsFields (fields : List Field) (ms : List (String × Json)) : Prop where
  distinct : (fields.map Field.name).Nodup
  once : (ms.map Prod.fst).Nodup
  known : ∀ m ∈ ms, m.1 ∈ fields.map Field.name

private theorem recordMember_print {fields : List Field} (hfields : (fields.map Field.name).Nodup) {f : Field}
    (hf : f ∈ fields) {read : List (String × Json)} (hnew : f.name ∉ read.map Prod.fst) {v w : Json}
    (h : f.shape.ofJson? v = some w) (rest : List Char) :
    recordMember (slotsOf fields read) (memberText print (f.name, v) ++ rest) =
      .ok (slotsOf fields (read ++ [(f.name, v)]), rest) := by
  obtain ⟨c, cs, hcs, hspace⟩ := Shape.begins h
  have hvalue : skipSpace (print v ++ rest) = print v ++ rest := by
    rw [hcs, List.cons_append, skipSpace_cons hspace]
  have hcolon : skipSpace (':' :: (print v ++ rest)) = [':'] ++ (print v ++ rest) := skipSpace_cons (by decide) _
  have htext : memberText print (f.name, v) ++ rest =
      '"' :: (f.name.toList.flatMap escapeChar ++ '"' :: (':' :: (print v ++ rest))) := by
    simp [memberText, printStr]
  rw [htext, recordMember, string_print]
  simp only [bind, Except.bind, get?_slotsOf hfields hf hnew, hcolon, expect_append, hvalue,
    Shape.read_print h, fill_slotsOf hfields hf hnew h]

private theorem exists_of_mapM {α β : Type} {f : α → Option β} {xs : List α} {ys : List β} (h : xs.mapM f = some ys)
    {x : α} (hx : x ∈ xs) : ∃ y, f x = some y := by
  induction xs generalizing ys with
  | nil => cases hx
  | cons z rest ih =>
    simp only [List.mapM_cons, Option.bind_eq_bind, Option.bind_eq_some_iff] at h
    obtain ⟨y, hy, ys', hys', -⟩ := h
    rcases List.mem_cons.1 hx with rfl | hx
    · exact ⟨y, hy⟩
    · exact ih hys' hx

theorem enclosed_recordMember {fields : List Field} {ms : List (String × Json)} (h : FitsFields fields ms)
    {vs : List Json} (hvs : record? fields (.obj ms) = some vs) (rest : List Char) :
    enclosed '}' recordMember (Slots.start fields) (listText '}' (memberText print) ms ++ rest) =
      .ok (slotsOf fields ms, rest) := by
  have hstates : ReadsStates '}' recordMember (memberText print) (slotsOf fields) ms := by
    refine ⟨fun m _ => ⟨'"', _, rfl, by decide, by decide⟩, fun before m after heq c rest _ => ?_⟩
    have hm : m ∈ ms := by simp [heq]
    obtain ⟨f, hf, hname⟩ := List.mem_map.1 (h.known m hm)
    obtain ⟨w, hw⟩ := exists_of_mapM hvs hf
    rw [hname, Keyed.lookup_of_mem h.once hm] at hw
    have hnew : f.name ∉ before.map Prod.fst := by
      have honce := h.once
      rw [heq, List.map_append, List.nodup_append] at honce
      rw [hname]
      exact fun hmem => honce.2.2 m.1 hmem m.1 List.mem_cons_self rfl
    have hread := recordMember_print h.distinct hf hnew hw (c :: rest)
    rwa [hname] at hread
  rw [← slotsOf_nil]
  exact enclosed_states (by decide) (by decide) hstates rest

/-! ### Records -/

private theorem mapM_map_of_imp {α β : Type} {f g : α → Option β} {post : β → β} {xs : List α} {ys : List β}
    (h : ∀ x ∈ xs, ∀ y, f x = some y → g x = some (post y)) (hf : xs.mapM f = some ys) :
    xs.mapM g = some (ys.map post) := by
  induction xs generalizing ys with
  | nil =>
    cases hf
    rfl
  | cons x rest ih =>
    simp only [List.mapM_cons, Option.bind_eq_bind, Option.bind_eq_some_iff] at hf ⊢
    obtain ⟨y, hy, ys', hys', hcons⟩ := hf
    cases hcons
    have hrest := ih (fun z hz => h z (List.mem_cons_of_mem _ hz)) hys'
    exact ⟨post y, h x List.mem_cons_self y hy, ys'.map post, hrest, rfl⟩

private theorem Shape.ordered_missing {shape : Shape} {v : Json} (h : shape.missing = some v) : ordered v = v := by
  unfold Shape.missing at h
  split at h <;> cases h
  rfl

/-- A record is read from the text of an object to the values that it has as an object. -/
theorem readRecord_print {fields : List Field} {ms : List (String × Json)} (h : FitsFields fields ms) {vs : List Json}
    (hvs : record? fields (.obj ms) = some vs) (rest : List Char) :
    readRecord fields (print (.obj ms) ++ rest) = .ok (vs.map ordered, rest) := by
  have hfinish : (slotsOf fields ms).finish (fun f => f.shape.missing) = some (vs.map ordered) := by
    rw [Slots.finish, slotsOf, List.mapM_map]
    refine mapM_map_of_imp (fun f _ v hv => ?_) hvs
    cases hlookup : Keyed.lookup f.name ms with
    | none =>
      rw [hlookup] at hv
      simp [hlookup, hv, Shape.ordered_missing hv]
    | some u =>
      rw [hlookup] at hv
      simp [hlookup, hv]
  rw [print_obj, List.cons_append, readRecord, enclosed_recordMember h hvs]
  simp only [bind, Except.bind, Slots.complete, hfinish]

/-- The values of a record are in order if those of the members are. -/
theorem map_ordered_record? {fields : List Field} {ms : List (String × Json)} (hsorted : SortedMembers ms)
    {vs : List Json} (hvs : record? fields (.obj ms) = some vs) : vs.map ordered = vs := by
  have hmap : record? fields (.obj ms) = some (vs.map ordered) := by
    refine mapM_map_of_imp (fun f _ v hv => ?_) hvs
    cases hlookup : Keyed.lookup f.name ms with
    | none =>
      simp only [hlookup] at hv ⊢
      rw [hv, Shape.ordered_missing hv]
    | some u =>
      simp only [hlookup] at hv ⊢
      rw [hv, Shape.ordered_ofJson? (sortedMembers_iff.1 hsorted _ (Keyed.mem_of_lookup hlookup)) hv]
  rw [hvs] at hmap
  exact (Option.some.inj hmap).symm

/-- The order of the members of an object makes no difference to the record that it is. -/
theorem record?_object (fields : List Field) {ms : List (String × Json)} (h : (ms.map Prod.fst).Nodup) :
    record? fields (object ms) = record? fields (.obj ms) := by
  have hlookup : ∀ key, Keyed.lookup key (Keyed.collect ms) = Keyed.lookup key ms := fun key => by
    rw [Keyed.lookup_collect, Keyed.last?, Keyed.lookup_reverse h]
  rw [object, record?, record?]
  simp only [hlookup]

/-! ### Members without parts -/

/-- Every member is a string or `null`. -/
def Flat (ms : List (String × Json)) : Prop := ∀ m ∈ ms, m.2 = .null ∨ ∃ s, m.2 = .str s

theorem Flat.simple {ms : List (String × Json)} (h : Flat ms) :
    SortedMembers ms ∧ WholeMembers ms ∧ PlainMembers ms ∧ depthMembers ms = 0 := by
  induction ms with
  | nil => simp [SortedMembers, WholeMembers, PlainMembers, depthMembers]
  | cons m rest ih =>
    obtain ⟨key, v⟩ := m
    obtain ⟨hsorted, hwhole, hplain, hdepth⟩ := ih fun m hm => h m (List.mem_cons_of_mem _ hm)
    rw [SortedMembers, WholeMembers, PlainMembers, depthMembers, hdepth]
    rcases h (key, v) List.mem_cons_self with hv | ⟨s, hv⟩
    all_goals
      simp only at hv
      rw [hv]
      simp [Sorted, Whole, Plain, depth, hsorted, hwhole, hplain]

/-- Strings as members, in the given order. -/
def texts (entries : List (String × String)) : List (String × Json) := entries.map fun e => (e.1, .str e.2)

theorem flat_texts (entries : List (String × String)) : Flat (texts entries) := by
  intro m hm
  obtain ⟨e, -, rfl⟩ := List.mem_map.1 hm
  exact .inr ⟨e.2, rfl⟩

/-! ### Texts that may be missing -/

theorem toJson_text (t : Option String) : JsonModel.toJson t = .null ∨ ∃ s, JsonModel.toJson t = .str s := by
  cases t with
  | none => exact .inl rfl
  | some s => exact .inr ⟨s, rfl⟩

theorem ofJson?_text (t : Option String) : JsonModel.ofJson? (JsonModel.toJson t) = some t := by
  cases t <;> rfl

theorem Shape.ofJson?_optionalText (t : Option String) :
    Shape.optionalText.ofJson? (JsonModel.toJson t) = some (JsonModel.toJson t) := by
  cases t <;> rfl

end Json

namespace JsonRecord

open Json

variable {α : Type} [JsonRecord α] {ms : List (String × Json)} {x : α}

theorem read_print (h : FitsFields (fields α) ms) {vs : List Json} (hvs : record? (fields α) (.obj ms) = some vs)
    (hx : ofFields? (vs.map ordered) = some x) (rest : List Char) :
    read (Json.print (.obj ms) ++ rest) = .ok (x, rest) := by
  rw [read, readRecord_print h hvs]
  simp only [bind, Except.bind, hx]

/-- The record that a text holds which is an object. -/
theorem document_print (h : FitsFields (fields α) ms) {vs : List Json} (hvs : record? (fields α) (.obj ms) = some vs)
    (hx : ofFields? (vs.map ordered) = some x) : document read (Json.print (.obj ms)) = .ok x := by
  have hread := read_print h hvs hx []
  rw [List.append_nil] at hread
  rw [document, skipSpace_print_obj, hread]
  rfl

/-- The record that a body holds whose text is an object with its members in order inside. -/
theorem documentBytes_print (h : FitsFields (fields α) ms) (hsorted : SortedMembers ms)
    (hx : ofJson? (.obj ms) = some x) : documentBytes read (Text.Utf8.encode (Json.print (.obj ms))) = .ok x := by
  obtain ⟨vs, hvs, hfields⟩ := Option.bind_eq_some_iff.1 hx
  rw [← map_ordered_record? hsorted hvs] at hfields
  rw [documentBytes_encode, document_print h hvs hfields]

/-! ### Records without parts -/

section
variable (hfits : FitsFields (fields α) (members x)) (hflat : Flat (members x)) (hx : ofJson? (written x) = some x)
include hfits hflat hx

/-- A record whose members are strings or `null` is read from its text. -/
theorem parse?_written : parse? (written x).render = some x := by
  obtain ⟨vs, hvs, hfields⟩ := Option.bind_eq_some_iff.1 hx
  rw [← map_ordered_record? hflat.simple.1 hvs] at hfields
  rw [parse?, render, String.toList_ofList, written, document_print hfits hvs hfields]
  rfl

/-- Its text is read to a value, which is the record. -/
theorem ofBytes?_written (hfirst : ∀ m ∈ (members x).head?, m.1 ≠ embeddedKey) :
    ∃ v, ofBytes? (Text.Utf8.encode (written x).print) = some v ∧ JsonModel.ofJson? v = some x := by
  obtain ⟨hsorted, hwhole, hplain, hdepth⟩ := hflat.simple
  refine ⟨_, ofBytes?_print_obj hsorted hwhole hplain hfirst (by rw [hdepth]; decide), ?_⟩
  show record? (fields α) (object (members x)) >>= ofFields? = some x
  rw [record?_object _ hfits.once]
  exact hx

end

end JsonRecord

end ApiClient
