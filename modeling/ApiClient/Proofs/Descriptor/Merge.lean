import ApiClient.Proofs.Descriptor.Headers
import ApiClient.Proofs.Execution.Token

/-!
# The headers of the caller, merged

The headers of the caller are set one after the other over `Accept`.  Every name is left once, where and as it is
first given (`names_foldl_setValue`), with the value that is given last (`find?_foldl_setValue`), and setting what is
left once more changes nothing (`mergedHeaders_mergedHeaders`).  Behind these headers a request has at most two others
(`headers_merged`).
-/

namespace ApiClient

namespace Http.Headers

/-- The names of some headers, each as it is first spelled and in the order in which they first occur. -/
def spellings : Headers → List String
  | [] => []
  | h :: rest => h.1 :: (spellings rest).filter fun name => ¬Text.SameName h.1 name

/-- The value of the last header of a name. -/
def last? (headers : Headers) (name : String) : Option String := find? headers.reverse name

theorem last?_cons (h : Header) (rest : Headers) (name : String) :
    last? (h :: rest) name = (last? rest name).or (find? [h] name) := by
  rw [last?, List.reverse_cons, find?_append]
  rfl

/-- Headers of distinct names are all found. -/
theorem find?_of_mem {headers : Headers} (hdistinct : headers.Distinct) {h : Header} (hh : h ∈ headers) :
    headers.find? h.1 = some h.2 := by
  induction headers with
  | nil => cases hh
  | cons x rest ih =>
    obtain ⟨hfirst, hrest⟩ := List.pairwise_cons.1 hdistinct
    rw [find?_cons]
    rcases List.mem_cons.1 hh with rfl | hh
    · rw [if_pos (Text.SameName.refl _)]
    · rw [if_neg (hfirst h hh), ih hrest hh]

/-! ### Setting values -/

theorem setValue_of_not_has {headers : Headers} {name : String} (h : ¬headers.has name = true) (value : String) :
    headers.setValue name value = headers ++ [(name, value)] := by
  induction headers with
  | nil => rfl
  | cons x rest ih =>
    rw [has_cons, not_or] at h
    rw [setValue, if_neg h.1, ih h.2, List.cons_append]

theorem names_setValue_of_has {headers : Headers} {name : String} (h : headers.has name = true) (value : String) :
    (headers.setValue name value).map Prod.fst = headers.map Prod.fst := by
  induction headers with
  | nil => cases h
  | cons x rest ih =>
    by_cases hx : Text.SameName x.1 name
    · rw [setValue, if_pos hx, List.map_cons, List.map_cons]
    · have hrest : has rest name = true := (has_cons.1 h).resolve_left hx
      rw [setValue, if_neg hx, List.map_cons, List.map_cons, ih hrest]

/-- Names that are there keep their place and spelling, the others follow as they first come. -/
theorem names_foldl_setValue (caller headers : Headers) :
    (caller.foldl (fun headers h => headers.setValue h.1 h.2) headers).map Prod.fst =
      headers.map Prod.fst ++ caller.spellings.filter fun name => !headers.has name := by
  induction caller generalizing headers with
  | nil => simp [spellings]
  | cons h rest ih =>
    have hset : ∀ name,
        (headers.setValue h.1 h.2).has name = (headers.has name || decide (Text.SameName h.1 name)) := by
      intro name
      rw [Bool.eq_iff_iff, has_setValue, Bool.or_eq_true, decide_eq_true_eq]
    rw [List.foldl_cons, ih, spellings, List.filter_cons, List.filter_filter]
    simp only [hset]
    by_cases hhas : headers.has h.1 = true
    · rw [names_setValue_of_has hhas]
      simp [hhas]
    · rw [setValue_of_not_has hhas, List.map_append, List.append_assoc]
      simp [hhas]

/-- A name has the value that is set last, or else the one that was there. -/
theorem find?_foldl_setValue (caller headers : Headers) (name : String) :
    (caller.foldl (fun headers h => headers.setValue h.1 h.2) headers).find? name =
      (caller.last? name).or (headers.find? name) := by
  induction caller generalizing headers with
  | nil => rfl
  | cons h rest ih =>
    rw [List.foldl_cons, ih, find?_setValue, last?_cons, Option.or_assoc]
    by_cases hname : Text.SameName h.1 name
    · simp [find?_cons, hname]
    · simp [find?_cons, find?_nil, hname]

/-- Headers whose names are all new are put at the end. -/
theorem foldl_setValue_of_distinct {caller headers : Headers} (h : Distinct (headers ++ caller)) :
    caller.foldl (fun headers h => headers.setValue h.1 h.2) headers = headers ++ caller := by
  induction caller generalizing headers with
  | nil => rw [List.foldl_nil, List.append_nil]
  | cons x rest ih =>
    have hnew : ¬headers.has x.1 = true := by
      intro hhas
      obtain ⟨y, hy, hyx⟩ := has_iff.1 hhas
      exact (List.pairwise_append.1 h).2.2 y hy x List.mem_cons_self hyx
    have happend : headers ++ x :: rest = headers ++ [(x.1, x.2)] ++ rest := by simp
    rw [happend] at h ⊢
    rw [List.foldl_cons, setValue_of_not_has hnew, ih h]

end Http.Headers

namespace Descriptor

open Http (Headers)

/-- The names of merged headers: `Accept` and those of the caller that are not `Accept`. -/
theorem names_mergedHeaders (caller : Headers) :
    (mergedHeaders caller).map Prod.fst =
      "Accept" :: caller.spellings.filter fun name => ¬Text.SameName "Accept" name := by
  rw [mergedHeaders, Headers.names_foldl_setValue]
  simp [Headers.has]

theorem mergedHeaders_eq_cons (caller : Headers) :
    ∃ value rest, mergedHeaders caller = ("Accept", value) :: rest := by
  obtain ⟨h, rest, hmerged, hname, -⟩ := List.map_eq_cons_iff.1 (names_mergedHeaders caller)
  exact ⟨h.2, rest, by rw [hmerged, ← hname]⟩

theorem find?_mergedHeaders (caller : Headers) (name : String) :
    (mergedHeaders caller).find? name =
      (caller.last? name).or (Headers.find? [("Accept", "application/json")] name) := by
  rw [mergedHeaders, Headers.find?_foldl_setValue]

/-- Merged headers are merged to themselves. -/
theorem mergedHeaders_mergedHeaders (caller : Headers) :
    mergedHeaders (mergedHeaders caller) = mergedHeaders caller := by
  obtain ⟨value, rest, hmerged⟩ := mergedHeaders_eq_cons caller
  have hdistinct := distinct_mergedHeaders caller
  have hset : Headers.setValue "Accept" value [("Accept", "application/json")] = [("Accept", value)] := by
    rw [Headers.setValue, if_pos (Text.SameName.refl _)]
  rw [hmerged] at hdistinct ⊢
  rw [mergedHeaders, List.foldl_cons, hset]
  exact Headers.foldl_setValue_of_distinct hdistinct

/-- A merged header has the last value that the caller gives for its name. -/
theorem last?_of_mem_mergedHeaders {caller : Headers} {h : Http.Header} (hh : h ∈ mergedHeaders caller) :
    caller.last? h.1 = some h.2 ∨ caller.last? h.1 = none ∧ h = ("Accept", "application/json") := by
  have hfind := Headers.find?_of_mem (distinct_mergedHeaders caller) hh
  rw [find?_mergedHeaders, Option.or_eq_some_iff] at hfind
  rcases hfind with hlast | ⟨hnone, haccept⟩
  · exact .inl hlast
  · refine .inr ⟨hnone, ?_⟩
    rw [Headers.find?_cons, Headers.find?_nil] at haccept
    split at haccept
    · rename_i hname
      -- The name is spelled as it is in `Accept`, which comes first, since no name occurs twice.
      obtain ⟨value, rest, hmerged⟩ := mergedHeaders_eq_cons caller
      have hdistinct := distinct_mergedHeaders caller
      rw [hmerged] at hh hdistinct
      rcases List.mem_cons.1 hh with rfl | hrest
      · obtain rfl : "application/json" = value := Option.some.inj haccept
        rfl
      · exact absurd hname ((List.pairwise_cons.1 hdistinct).1 h hrest)
    · cases haccept

/-- The headers of a request: those of the caller merged over `Accept`, the one for the token, and the one for the
body. -/
theorem headers_merged (config : Config) (d : Descriptor) :
    let merged := mergedHeaders d.headers
    (d.request config).headers = merged ++ tokenHeader config.token ++ d.contentTypeHeader ∧
    merged.Distinct ∧
    merged.map Prod.fst = "Accept" :: d.headers.spellings.filter (fun name => ¬Text.SameName "Accept" name) ∧
    (∀ h ∈ merged, d.headers.last? h.1 = some h.2 ∨
      d.headers.last? h.1 = none ∧ h = ("Accept", "application/json")) ∧
    (d.contentTypeHeader = [] ∨ ∃ contentType, d.contentTypeHeader = [("Content-Type", contentType)]) ∧
    mergedHeaders merged = merged := by
  intro merged
  refine ⟨?_, distinct_mergedHeaders _, names_mergedHeaders _, fun h hh => last?_of_mem_mergedHeaders hh, ?_,
    mergedHeaders_mergedHeaders _⟩
  · rw [← Config.authorization_eq]
    rfl
  · unfold contentTypeHeader
    split
    · exact .inl rfl
    · split
      · exact .inr ⟨_, rfl⟩
      · exact .inl rfl

/-- Three spellings of one name and two of another. -/
example :
    mergedHeaders [("x-id", "1"), ("ACCEPT", "text/html"), ("X-Id", "2"), ("Accept", "*/*"), ("X-ID", "3")] =
      [("Accept", "*/*"), ("x-id", "3")] := by
  decide +kernel

end Descriptor

end ApiClient
