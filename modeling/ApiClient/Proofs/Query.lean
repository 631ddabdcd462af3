import ApiClient.Proofs.Text.Percent
import ApiClient.Query

/-!
# Query strings are read back

The pairs of a query string are split again at every `&` and at the first `=` of each piece, and both sides are read
back, whether `+` counts as a space or not (`decode?_joinPairs`).  So the query string is determined by the pairs and
determines them, and nothing in a key or a value can end a pair, the query or the path before it
(`text_read_back`).
-/

namespace ApiClient.Query

open Text

/-- The pairs in a query string without its `?`: what stands between every two `&`, split at the first `=`, both sides
read by `component`. -/
def decode? (component : List Char → Option (List Char)) (body : List Char) : Option (List (String × String)) :=
  (splitBy (fun c => c == '&') body).mapM fun piece => do
    let (key, value) := splitFirst '=' piece
    let key ← component key
    let value ← component (← value)
    return (String.ofList key, String.ofList value)

/-! ### Encoded pairs -/

private theorem keep_percent : Percent.isComponentChar '%' = false := by decide

private theorem not_mem_component {c : Char} (hkeep : Percent.isComponentChar c = false) (hpercent : c ≠ '%')
    (cs : List Char) : c ∉ Percent.encodeComponent cs := by
  intro h
  rcases Percent.mem_encodeComponent h with h | h
  · rw [hkeep] at h
    cases h
  · exact hpercent h

theorem mem_encodePair {pair : String × String} {c : Char} (h : c ∈ encodePair pair) :
    Percent.isComponentChar c = true ∨ c = '%' ∨ c = '=' := by
  rcases List.mem_append.1 h with h | h
  · exact (Percent.mem_encodeComponent h).imp_right .inl
  · rcases List.mem_cons.1 h with h | h
    · exact .inr (.inr h)
    · exact (Percent.mem_encodeComponent h).imp_right .inl

private theorem encodePair_no_separator (pair : String × String) : ∀ c ∈ encodePair pair, (c == '&') = false := by
  intro c hc
  rw [beq_eq_false_iff_ne]
  rintro rfl
  have := mem_encodePair hc
  revert this
  decide

theorem encodePair_ne_nil (pair : String × String) : encodePair pair ≠ [] := by simp [encodePair]

/-! ### Joined pairs -/

theorem mem_joinPairs {pairs : List (String × String)} {c : Char} (h : c ∈ joinPairs pairs) :
    Percent.isComponentChar c = true ∨ c = '%' ∨ c = '&' ∨ c = '=' := by
  induction pairs with
  | nil => cases h
  | cons pair rest ih =>
    have hpair : c ∈ encodePair pair → Percent.isComponentChar c = true ∨ c = '%' ∨ c = '&' ∨ c = '=' := fun hc =>
      (mem_encodePair hc).imp_right (Or.imp_right .inr)
    cases rest with
    | nil => exact hpair h
    | cons pair' rest =>
      rcases List.mem_append.1 h with h | h
      · exact hpair h
      · rcases List.mem_cons.1 h with h | h
        · exact .inr (.inr (.inl h))
        · exact ih h

theorem escapesDigits_joinPairs (pairs : List (String × String)) : Percent.EscapesDigits (joinPairs pairs) := by
  have hpair : ∀ pair, Percent.EscapesDigits (encodePair pair) := fun pair =>
    Percent.escapesDigits_append (Percent.escapesDigits_encode keep_percent _)
      (Percent.escapesDigits_append (Percent.escapesDigits_singleton (by decide))
        (Percent.escapesDigits_encode keep_percent _))
  induction pairs with
  | nil => exact Percent.escapesDigits_nil
  | cons pair rest ih =>
    cases rest with
    | nil => exact hpair pair
    | cons pair' rest =>
      exact Percent.escapesDigits_append (hpair pair)
        (Percent.escapesDigits_append (Percent.escapesDigits_singleton (by decide)) ih)

theorem splitBy_joinPairs {pairs : List (String × String)} (h : pairs ≠ []) :
    splitBy (fun c => c == '&') (joinPairs pairs) = pairs.map encodePair := by
  induction pairs with
  | nil => exact absurd rfl h
  | cons pair rest ih =>
    cases rest with
    | nil => exact splitBy_of_none (encodePair_no_separator pair)
    | cons pair' rest =>
      show splitBy _ (encodePair pair ++ '&' :: joinPairs (pair' :: rest)) = _
      rw [splitBy_append_cons (encodePair_no_separator pair) (by decide), ih (by simp)]
      rfl

theorem splitFirst_encodePair (pair : String × String) :
    splitFirst '=' (encodePair pair) =
      (Percent.encodeComponent pair.1.toList, some (Percent.encodeComponent pair.2.toList)) :=
  splitFirst_append_cons (not_mem_component (by decide) (by decide) _) _

theorem decode?_joinPairs {component : List Char → Option (List Char)}
    (hcomponent : ∀ cs, component (Percent.encodeComponent cs) = some cs) {pairs : List (String × String)}
    (h : pairs ≠ []) : decode? component (joinPairs pairs) = some pairs := by
  rw [decode?, splitBy_joinPairs h]
  clear h
  induction pairs with
  | nil => rfl
  | cons pair rest ih =>
    rw [List.map_cons, List.mapM_cons, ih, splitFirst_encodePair]
    simp [hcomponent]

theorem form_decode_joinPairs {pairs : List (String × String)} (h : pairs ≠ []) :
    Form.decode (joinPairs pairs) = pairs := by
  have hall : ∀ piece ∈ pairs.map encodePair, (!piece.isEmpty) = true := by
    intro piece hpiece
    obtain ⟨pair, -, rfl⟩ := List.mem_map.1 hpiece
    simp [encodePair_ne_nil]
  have hpair : ∀ pair ∈ pairs, (fun piece =>
      let (key, value) := splitFirst '=' piece
      (Form.decodeComponent key, Form.decodeComponent (value.getD []))) (encodePair pair) = pair := by
    intro pair _
    simp only [splitFirst_encodePair, Option.getD_some, Percent.encodeComponent,
      Form.decodeComponent_encode keep_percent (by decide), String.ofList_toList]
  rw [Form.decode, splitBy_joinPairs h, List.filter_eq_self.2 hall, List.map_map]
  exact (List.map_congr_left hpair).trans (List.map_id' pairs)

/-! ### Query strings -/

theorem toList_text (params : List (String × Json)) : (text params).toList = ofPairs (flatten params) := by
  rw [text, String.toList_ofList]

theorem colon_not_mem_url (path : String) (params : List (String × Json)) :
    ':' ∉ (cleanPath path ++ text params).toList := by
  rw [String.toList_append, List.mem_append, not_or]
  constructor
  · rw [cleanPath, String.toList_map]
    intro h
    obtain ⟨c, -, hc⟩ := List.mem_map.1 h
    split at hc
    · cases hc
    · rename_i hne
      exact hne hc
  · rw [toList_text, ofPairs]
    split
    · simp
    · intro h
      rcases List.mem_cons.1 h with h | h
      · cases h
      · have := mem_joinPairs h
        revert this
        decide

theorem cleanPath_of_not_mem {path : String} (h : ':' ∉ path.toList) : cleanPath path = path := by
  have hid : ∀ c ∈ path.toList, (if c = ':' then '_' else c) = c := by
    intro c hc
    refine if_neg ?_
    rintro rfl
    exact h hc
  rw [← String.toList_inj, cleanPath, String.toList_map, List.map_congr_left hid, List.map_id']

private theorem text_eq_empty_iff (params : List (String × Json)) : text params = "" ↔ flatten params = [] := by
  rw [← String.toList_inj, toList_text, ofPairs]
  cases flatten params <;> simp

private theorem text_eq_cons {params : List (String × Json)} (h : flatten params ≠ []) :
    text params = String.ofList ('?' :: joinPairs (flatten params)) := by
  rw [text, ofPairs, if_neg (by simpa using h)]

theorem mem_joinPairs_listed {pairs : List (String × String)} {c : Char} (h : c ∈ joinPairs pairs) :
    c.isAlphanum = true ∨ c ∈ ['-', '_', '.', '!', '~', '*', '\'', '(', ')', '%', '&', '='] := by
  have hlisted := mem_joinPairs h
  simp only [Percent.isComponentChar, Bool.or_eq_true, List.contains_iff_mem, List.mem_cons, List.not_mem_nil,
    or_false, or_assoc] at hlisted ⊢
  exact hlisted

private theorem flatten_eq_of_text_eq {params others : List (String × Json)} (h : text params = text others) :
    flatten params = flatten others := by
  by_cases hparams : flatten params = []
  · rw [hparams, eq_comm, ← text_eq_empty_iff, ← h, text_eq_empty_iff, hparams]
  · have hothers : flatten others ≠ [] := by
      rwa [Ne, ← text_eq_empty_iff, ← h, text_eq_empty_iff]
    rw [text_eq_cons hparams, text_eq_cons hothers, String.ofList_inj, List.cons.injEq] at h
    have hread := decode?_joinPairs (Percent.decode?_encode keep_percent) hparams
    rw [h.2, decode?_joinPairs (Percent.decode?_encode keep_percent) hothers] at hread
    exact (Option.some.inj hread).symm

/-- The query string of some parameters is empty exactly when they come to no pairs; otherwise its characters are the
unreserved ones, escapes and separators, and the pairs are read back from it. -/
theorem text_read_back (params : List (String × Json)) :
    (text params = "" ↔ flatten params = []) ∧
    (flatten params ≠ [] → ∃ body, text params = String.ofList ('?' :: body) ∧
      (∀ c ∈ body, c.isAlphanum = true ∨ c ∈ ['-', '_', '.', '!', '~', '*', '\'', '(', ')', '%', '&', '=']) ∧
      Percent.EscapesDigits body ∧
      decode? Percent.decode? body = some (flatten params) ∧
      decode? (fun cs => Percent.decode? (cs.map fun c => if c = '+' then ' ' else c)) body = some (flatten params) ∧
      Form.decode body = flatten params) ∧
    (∀ others, text params = text others ↔ flatten params = flatten others) ∧
    ∀ base path, ∃ rest, url base path params = base ++ rest ∧ ':' ∉ rest.toList := by
  refine ⟨text_eq_empty_iff params, fun h => ⟨joinPairs (flatten params), text_eq_cons h, ?_, ?_, ?_, ?_, ?_⟩, ?_, ?_⟩
  · exact fun c hc => mem_joinPairs_listed hc
  · exact escapesDigits_joinPairs _
  · exact decode?_joinPairs (Percent.decode?_encode keep_percent) h
  · refine decode?_joinPairs (fun cs => ?_) h
    rw [Percent.encodeComponent, Form.map_plus_encode (by decide), Percent.decode?_encode keep_percent]
  · exact form_decode_joinPairs h
  · exact fun others => ⟨flatten_eq_of_text_eq, fun h => by rw [text, text, h]⟩
  · intro base path
    refine ⟨cleanPath path ++ text params, ?_, colon_not_mem_url path params⟩
    rw [url, String.append_assoc]

theorem text_read_back_separators :
    flatten [("a&b", .str "= +é"), ("", .arr [.null, .str ""]), ("x", .null)] ≠ [] ∧
      ∃ body, text [("a&b", .str "= +é"), ("", .arr [.null, .str ""]), ("x", .null)] = String.ofList ('?' :: body) ∧
        decode? Percent.decode? body = some [("a&b", "= +é"), ("", "null"), ("", "")] := by
  have hflatten : flatten [("a&b", .str "= +é"), ("", .arr [.null, .str ""]), ("x", .null)] =
      [("a&b", "= +é"), ("", "null"), ("", "")] := by decide +kernel
  have hne : flatten [("a&b", .str "= +é"), ("", .arr [.null, .str ""]), ("x", .null)] ≠ [] := by simp [hflatten]
  obtain ⟨body, htext, -, -, hread, -⟩ := (text_read_back _).2.1 hne
  exact ⟨hne, body, htext, hflatten ▸ hread⟩

/-- Separators, blanks and characters beyond ASCII inside keys and values. -/
example :
    text [("a&b", .str "= +é"), ("", .arr [.null, .str ""]), ("x", .null)] = "?a%26b=%3D%20%2B%C3%A9&=null&=" := by
  decide +kernel

end ApiClient.Query
