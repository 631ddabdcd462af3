import ApiClient.Proofs.Json.ReadBack
import ApiClient.Proofs.Keyed

/-!
# Which values are read back as themselves

An object that is read has another key than that of embedded text, if it has any (`exists_key_of_layered`): an object
whose text begins with that key stands for the value of the embedded text, and otherwise the first key of the text is
a member as well.  So a value that is not plain is never read back as itself, and a whole value is read back exactly
when it is plain and has at most `maxDepth` arrays and objects open inside each other (`ofBytes?_print_eq_some_iff`).
-/

namespace ApiClient.Json

/-- The object that holds a string as an embedded text. -/
def embedding (s : String) : Json := .obj [(embeddedKey, .str s)]

/-! ### The first key of an object -/

theorem eq_ok_of_bind {α β : Type} {x : Except Fault α} {f : α → Except Fault β} {b : β} (h : x >>= f = .ok b) :
    ∃ a, x = .ok a ∧ f a = .ok b := by
  cases x with
  | error => cases h
  | ok a => exact ⟨a, rfl, h⟩

private theorem getLast?_moreItems {α : Type} {close : Char} {item : Reader α} {fuel : Nat} {acc acc' : List α}
    {cs rest : List Char} (hacc : acc ≠ []) (h : moreItems close (pushItem item) fuel acc cs = .ok (acc', rest)) :
    acc'.getLast? = acc.getLast? := by
  induction fuel generalizing acc cs with
  | zero => cases h
  | succ fuel ih =>
    obtain ⟨⟨acc₁, cs₁⟩, hpush, h⟩ := eq_ok_of_bind h
    obtain ⟨⟨w, cs₂⟩, -, hcons⟩ := eq_ok_of_bind hpush
    cases hcons
    have hlast : (w :: acc).getLast? = acc.getLast? := by
      cases acc with
      | nil => exact absurd rfl hacc
      | cons x xs => rfl
    simp only at h
    split at h
    · cases h
    · split at h
      · rw [ih (by simp) h, hlast]
      · split at h
        · cases h
          exact hlast
        · cases h

private theorem skipSpace_skipSpace (cs : List Char) : skipSpace (skipSpace cs) = skipSpace cs := by
  induction cs with
  | nil => rfl
  | cons c cs ih =>
    by_cases hc : isSpace c
    · simpa [skipSpace, hc] using ih
    · simp [skipSpace, hc]

/-- The first member of an object that is read has the key that comes first in its text. -/
private theorem memberKey_of_members {item : Reader Json} {cs rest : List Char} {m : String × Json}
    {ms : List (String × Json)} (h : members item cs = .ok (m :: ms, rest)) :
    ∃ after, memberKey unicodeEscape (skipSpace cs) = .ok (m.1, after) := by
  obtain ⟨⟨acc, cs₁⟩, henclosed, hreverse⟩ := eq_ok_of_bind h
  have hacc : acc.reverse = m :: ms := congrArg Prod.fst (Except.ok.inj hreverse)
  rw [enclosed] at henclosed
  split at henclosed
  · cases henclosed
  rename_i c cs₂ hcs
  split at henclosed
  · cases henclosed
    cases hacc
  cases hfuel : cs.length with
  | zero =>
    rw [hfuel] at henclosed
    cases henclosed
  | succ fuel =>
    rw [hfuel] at henclosed
    obtain ⟨⟨acc₁, cs₃⟩, hpush, hmore⟩ := eq_ok_of_bind henclosed
    obtain ⟨⟨first, cs₄⟩, hmember, hcons⟩ := eq_ok_of_bind hpush
    cases hcons
    obtain ⟨⟨key, after⟩, hkey, hvalue⟩ := eq_ok_of_bind hmember
    obtain ⟨⟨v, cs₅⟩, -, hpair⟩ := eq_ok_of_bind hvalue
    cases hpair
    have hfirst : acc.getLast? = some (key, v) := by
      simp only at hmore
      split at hmore
      · cases hmore
      · split at hmore
        · rw [getLast?_moreItems (by simp) hmore]
          rfl
        · split at hmore
          · cases hmore
            rfl
          · cases hmore
    rw [← List.head?_reverse, hacc] at hfirst
    cases hfirst
    rw [← hcs, skipSpace_skipSpace] at hkey
    exact ⟨after, hkey⟩

private theorem key_mem_collect {m : String × Json} {ms : List (String × Json)} (h : m ∈ ms) :
    m.1 ∈ (Keyed.collect ms).map Prod.fst := by
  refine Decidable.byContradiction fun hnot => ?_
  rw [← Keyed.lookup_eq_none_iff, Keyed.lookup_collect, Keyed.last?, Keyed.lookup_eq_none_iff] at hnot
  exact hnot (List.mem_map_of_mem (List.mem_reverse.2 h))

/-! ### Texts are not read to embeddings -/

/-- An object that is read is read by the reader of objects, unless arrays are read to objects. -/
private theorem valueWith_obj {array object : Reader Json} {cs rest : List Char} {ms : List (String × Json)}
    (h : valueWith array object cs = .ok (.obj ms, rest)) :
    ∃ cs', array cs' = .ok (.obj ms, rest) ∨ object cs' = .ok (.obj ms, rest) := by
  unfold valueWith at h
  split at h
  case h_5 cs' => exact ⟨cs', .inl h⟩
  case h_6 cs' => exact ⟨cs', .inr h⟩
  all_goals
    obtain ⟨a, -, ha⟩ := eq_ok_of_bind h
    cases ha

/-- Only an embedded text is read to an object that has the key of embedded text and no other. -/
private theorem embedded_of_value {embedded : List Char → Except Fault Json} {d : Nat} {cs rest : List Char}
    {ms : List (String × Json)} (hms : ms ≠ []) (hkeys : ∀ m ∈ ms, m.1 = embeddedKey)
    (h : value embedded d cs = .ok (.obj ms, rest)) : ∃ cs', embedded cs' = .ok (.obj ms) := by
  cases d with
  | zero =>
    obtain ⟨cs', harray | hobject⟩ := valueWith_obj h
    · cases harray
    · cases hobject
  | succ d =>
    obtain ⟨cs', harray | hobject⟩ := valueWith_obj h
    · obtain ⟨a, -, ha⟩ := eq_ok_of_bind harray
      cases ha
    · rw [objectTail] at hobject
      split at hobject
      · unfold embeddedText at hobject
        split at hobject
        · obtain ⟨⟨text, cs₁⟩, -, hobject⟩ := eq_ok_of_bind hobject
          obtain ⟨v, hv, hobject⟩ := eq_ok_of_bind hobject
          obtain ⟨cs₂, -, hend⟩ := eq_ok_of_bind hobject
          cases hend
          exact ⟨_, hv⟩
        · cases hobject
      · rename_i hafter
        obtain ⟨⟨read, cs₁⟩, hmembers, hend⟩ := eq_ok_of_bind hobject
        simp only [object, Except.ok.injEq, Prod.mk.injEq, obj.injEq] at hend
        obtain ⟨rfl, -⟩ := hend
        cases read with
        | nil => exact absurd rfl hms
        | cons m read =>
          obtain ⟨after, hkey⟩ := memberKey_of_members hmembers
          rw [afterEmbeddedKey?, hkey] at hafter
          have hne : m.1 ≠ embeddedKey := fun heq => by simp [heq] at hafter
          obtain ⟨m', hm', heq⟩ := List.mem_map.1 (key_mem_collect (List.mem_cons_self : m ∈ m :: read))
          exact absurd (heq ▸ hkeys m' hm') hne

/-- An object that is read has another key than that of embedded text, however many texts are embedded in each other.
-/
theorem exists_key_of_layered {layers : Nat} {cs : List Char} {ms : List (String × Json)} (hms : ms ≠ [])
    (h : layered layers cs = .ok (.obj ms)) : ∃ m ∈ ms, m.1 ≠ embeddedKey := by
  refine Decidable.byContradiction fun hnot => ?_
  have hkeys : ∀ m ∈ ms, m.1 = embeddedKey := fun m hm => Decidable.byContradiction fun hne => hnot ⟨m, hm, hne⟩
  induction layers generalizing cs with
  | zero => cases h
  | succ layers ih =>
    obtain ⟨⟨v, rest⟩, hvalue, hend⟩ := eq_ok_of_bind h
    simp only at hend
    split at hend
    -- Only an embedded text can give the object, and that text has one layer less to go.
    · cases hend
      obtain ⟨cs', hcs'⟩ := embedded_of_value hms hkeys hvalue
      exact ih hcs'
    · cases hend

/-- No text is read to an embedding. -/
theorem layered_ne_embedding (layers : Nat) (cs : List Char) (s : String) :
    layered layers cs ≠ .ok (embedding s) := by
  intro h
  obtain ⟨m, hm, hne⟩ := exists_key_of_layered (List.cons_ne_nil _ _) h
  obtain rfl := List.mem_singleton.1 hm
  exact hne rfl

/-! ### Values taken over unchanged -/

section
variable {f : String → Option Json}

mutual
/-- Where no text stands for its own embedding, only plain values are taken over unchanged. -/
theorem plain_of_expandWith (hf : ∀ s, f s ≠ some (embedding s)) : (v : Json) → expandWith f v = some v → Plain v
  | .null, _ | .bool _, _ | .num _, _ | .str _, _ | .obj [], _ => by simp [Plain]
  | .arr items, h => by
    simp only [expandWith, Option.map_eq_some_iff, arr.injEq, exists_eq_right] at h
    rw [Plain]
    exact plainItems_of_expandItemsWith hf items h
  | .obj ((key, v) :: rest), h => by
    rw [expandWith] at h
    split at h
    · rename_i hkey
      exfalso
      cases hstring : embeddedString? v rest with
      | none => simp [hstring] at h
      | some s =>
        unfold embeddedString? at hstring
        split at hstring
        · cases hstring
          rw [hkey] at h
          exact hf s h
        · cases hstring
    · rename_i hkey
      simp only [Option.bind_eq_bind, Option.bind_eq_some_iff, Option.some.injEq, obj.injEq, List.cons.injEq,
        Prod.mk.injEq, true_and] at h
      obtain ⟨w, hw, ws, hws, rfl, rfl⟩ := h
      rw [Plain]
      exact ⟨hkey, plain_of_expandWith hf w hw, plainMembers_of_expandMembersWith hf ws hws⟩

theorem plainItems_of_expandItemsWith (hf : ∀ s, f s ≠ some (embedding s)) :
    (items : List Json) → expandItemsWith f items = some items → PlainItems items
  | [], _ => trivial
  | v :: rest, h => by
    simp only [expandItemsWith, Option.bind_eq_bind, Option.bind_eq_some_iff, Option.some.injEq, List.cons.injEq] at h
    obtain ⟨w, hw, ws, hws, rfl, rfl⟩ := h
    exact ⟨plain_of_expandWith hf w hw, plainItems_of_expandItemsWith hf ws hws⟩

theorem plainMembers_of_expandMembersWith (hf : ∀ s, f s ≠ some (embedding s)) :
    (members : List (String × Json)) → expandMembersWith f members = some members → PlainMembers members
  | [], _ => trivial
  | (key, v) :: rest, h => by
    simp only [expandMembersWith, Option.bind_eq_bind, Option.bind_eq_some_iff, Option.some.injEq, List.cons.injEq,
      Prod.mk.injEq, true_and] at h
    obtain ⟨w, hw, ws, hws, rfl, rfl⟩ := h
    exact ⟨plain_of_expandWith hf w hw, plainMembers_of_expandMembersWith hf ws hws⟩
end

end

/-! ### Whole texts -/

/-- What a text is read to that does not begin with a blank, if nothing is left behind the value. -/
theorem read?_of_value {cs : List Char} {v : Option Json} (hskip : skipSpace cs = cs)
    (h : (value (layered cs.length) maxDepth cs).toOption = v.map fun w => (w, [])) : read? cs = v := by
  rw [read?, document, hskip, anyValue, toOption_bind, h]
  cases v <;> rfl

theorem read?_print {v : Json} (hsorted : Sorted v) (hwhole : Whole v) :
    read? (print v) = readBack (layered (print v).length) maxDepth v := by
  obtain ⟨c, cs, hcs, hspace, -⟩ := print_begins v hwhole
  have hskip : skipSpace (print v) = print v := by rw [hcs, skipSpace_cons hspace]
  have hvalue := value_print (layered (print v).length) v maxDepth hsorted hwhole [] endsNumber_nil
  rw [List.append_nil] at hvalue
  exact read?_of_value hskip hvalue

theorem documentBytes_encode {α : Type} (item : Reader α) (cs : List Char) :
    documentBytes item (Text.Utf8.encode cs) = document item cs := by
  rw [documentBytes, Text.Utf8.decodeSound_encode]
  cases h : document item cs <;> simp [h]

theorem ofBytes?_encode (cs : List Char) : ofBytes? (Text.Utf8.encode cs) = read? cs := by
  rw [ofBytes?, documentBytes_encode, read?]

/-- The text of an object whose members stand in any order is read to the object with these members. -/
theorem ofBytes?_print_obj {members : List (String × Json)} (hsorted : SortedMembers members)
    (hwhole : WholeMembers members) (hplain : PlainMembers members) (hfirst : ∀ m ∈ members.head?, m.1 ≠ embeddedKey)
    (hdepth : depthMembers members < maxDepth) :
    ofBytes? (Text.Utf8.encode (print (.obj members))) = some (object members) := by
  have hvalue := value_print_object (layered (print (.obj members)).length) hsorted hwhole hplain hfirst
    (Nat.le_sub_one_of_lt hdepth) []
  rw [List.append_nil] at hvalue
  rw [ofBytes?_encode]
  exact read?_of_value (skipSpace_print_obj members) hvalue

/-- A whole value is read back from its text exactly when it is plain and not nested too deep. -/
theorem ofBytes?_print_eq_some_iff {v : Json} (hsorted : Sorted v) (hwhole : Whole v) :
    ofBytes? (Text.Utf8.encode (print v)) = some v ↔ depth v ≤ maxDepth ∧ Plain v := by
  have hf : ∀ s, embeddedValue (layered (print v).length) s ≠ some (embedding s) := fun s h =>
    layered_ne_embedding _ _ _ (eq_ok_of_toOption h)
  rw [ofBytes?_encode, read?_print hsorted hwhole, readBack]
  constructor
  · intro h
    split at h
    · rename_i hdepth
      exact ⟨hdepth, plain_of_expandWith hf v h⟩
    · cases h
  · rintro ⟨hdepth, hplain⟩
    rw [if_pos hdepth, expandWith_of_plain v hplain]

/-- A value that is nested too deep is not read at all, plain or not. -/
theorem ofBytes?_print_of_deep {v : Json} (hsorted : Sorted v) (hwhole : Whole v) (hdepth : maxDepth < depth v) :
    ofBytes? (Text.Utf8.encode (print v)) = none := by
  rw [ofBytes?_encode, read?_print hsorted hwhole, readBack, if_neg (by omega)]

end ApiClient.Json
