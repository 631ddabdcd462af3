import ApiClient.Assembly
import ApiClient.Descriptor.Step

/-!
# Names in the headers of a request

Setting the value of a header never makes a name occur twice (`distinct_setValue`), so among `Accept` and the headers
of the caller every name occurs once (`distinct_mergedHeaders`).  The token and the content type of the body are put
behind them without a look at the names.  A name therefore occurs twice exactly when the caller gives one of these two
headers and it is also added (`distinct_request_headers_iff`); both cases are real (`header_repeated`).
-/

namespace ApiClient

namespace Http.Headers

/-- No two headers have the same name. -/
def Distinct (headers : Headers) : Prop := headers.Pairwise fun a b => ¬Text.SameName a.1 b.1

instance (headers : Headers) : Decidable headers.Distinct :=
  inferInstanceAs (Decidable (headers.Pairwise fun a b => ¬Text.SameName a.1 b.1))

theorem has_iff {headers : Headers} {name : String} :
    headers.has name = true ↔ ∃ h ∈ headers, Text.SameName h.1 name := by
  simp only [has, List.any_eq_true, decide_eq_true_eq]

theorem has_cons {h : Header} {rest : Headers} {name : String} :
    has (h :: rest) name = true ↔ Text.SameName h.1 name ∨ has rest name = true := by
  simp [has]

/-- Setting a value adds the name to those that are there. -/
theorem has_setValue {headers : Headers} {name value other : String} :
    (headers.setValue name value).has other = true ↔ headers.has other = true ∨ Text.SameName name other := by
  induction headers with
  | nil => simp [setValue, has]
  | cons h rest ih =>
    by_cases hname : Text.SameName h.1 name
    · have hsame : Text.SameName name other → Text.SameName h.1 other := fun h' => hname.trans h'
      rw [setValue, if_pos hname, has_cons, has_cons]
      exact ⟨.inl, fun h => h.elim id fun h' => .inl (hsame h')⟩
    · rw [setValue, if_neg hname, has_cons, has_cons, ih, or_assoc]

theorem distinct_setValue {headers : Headers} (h : headers.Distinct) (name value : String) :
    (headers.setValue name value).Distinct := by
  induction headers with
  | nil => exact List.pairwise_singleton _ _
  | cons x rest ih =>
    obtain ⟨hfirst, hrest⟩ := List.pairwise_cons.1 h
    by_cases hname : Text.SameName x.1 name
    · rw [setValue, if_pos hname]
      exact List.pairwise_cons.2 ⟨hfirst, hrest⟩
    · rw [setValue, if_neg hname]
      refine List.pairwise_cons.2 ⟨fun y hy hxy => ?_, ih hrest⟩
      -- A header with the name of `x` is one of those that were there, as the name that is set is another one.
      have hhas : (setValue name value rest).has x.1 = true := has_iff.2 ⟨y, hy, hxy.symm⟩
      rcases has_setValue.1 hhas with hold | hnew
      · obtain ⟨z, hz, hzx⟩ := has_iff.1 hold
        exact hfirst z hz hzx.symm
      · exact hname hnew.symm

/-- A header can be put behind others whose names are distinct if its name is none of theirs. -/
theorem distinct_append_singleton {headers : Headers} {h : Header} :
    Distinct (headers ++ [h]) ↔ headers.Distinct ∧ ¬headers.has h.1 = true := by
  rw [Distinct, List.pairwise_append, has_iff, not_exists]
  constructor
  · rintro ⟨hheaders, -, hlast⟩
    exact ⟨hheaders, fun x hx => hlast x hx.1 h List.mem_cons_self hx.2⟩
  · rintro ⟨hheaders, hlast⟩
    refine ⟨hheaders, List.pairwise_singleton _ _, fun x hx y hy => ?_⟩
    obtain rfl := List.mem_singleton.1 hy
    exact fun hsame => hlast x ⟨hx, hsame⟩

theorem has_append {xs ys : Headers} {name : String} :
    Headers.has (xs ++ ys) name = true ↔ xs.has name = true ∨ ys.has name = true := by
  simp [has]

end Http.Headers

namespace Descriptor

open Http (Headers)

/-! ### The headers of the caller -/

private theorem has_foldl_setValue (caller headers : Headers) (name : String) :
    (caller.foldl (fun headers h => headers.setValue h.1 h.2) headers).has name = true ↔
      headers.has name = true ∨ caller.has name = true := by
  induction caller generalizing headers with
  | nil => simp [Headers.has]
  | cons h rest ih =>
    rw [List.foldl_cons, ih, Headers.has_setValue, Headers.has_cons, or_assoc]

/-- The names among `Accept` and the headers of the caller. -/
theorem has_mergedHeaders {caller : Headers} {name : String} :
    (mergedHeaders caller).has name = true ↔ Text.SameName "Accept" name ∨ caller.has name = true := by
  rw [mergedHeaders, has_foldl_setValue]
  simp [Headers.has]

theorem distinct_mergedHeaders (caller : Headers) : (mergedHeaders caller).Distinct := by
  have hfold : ∀ headers : Headers, headers.Distinct →
      (caller.foldl (fun headers h => headers.setValue h.1 h.2) headers).Distinct := by
    induction caller with
    | nil => exact fun _ h => h
    | cons h rest ih => exact fun headers hheaders => ih _ (Headers.distinct_setValue hheaders h.1 h.2)
  exact hfold _ (List.pairwise_singleton _ _)

/-! ### The headers of the request -/

private theorem distinct_authorization (config : Config) (caller : Headers) :
    Headers.Distinct (mergedHeaders caller ++ config.authorization) ↔
      (config.bearerToken ≠ none → ¬caller.has "Authorization" = true) := by
  have haccept : ¬Text.SameName "Accept" "Authorization" := by decide
  cases htoken : config.bearerToken with
  | none => simp [Config.authorization, htoken, distinct_mergedHeaders]
  | some token =>
    simp only [Config.authorization, htoken]
    rw [Headers.distinct_append_singleton, has_mergedHeaders, not_or]
    simp [distinct_mergedHeaders, haccept]

theorem has_contentType (config : Config) (caller : Headers) :
    Headers.has (mergedHeaders caller ++ config.authorization) "Content-Type" = true ↔
      caller.has "Content-Type" = true := by
  have haccept : ¬Text.SameName "Accept" "Content-Type" := by decide
  have hauthorization : ¬config.authorization.has "Content-Type" = true := by
    unfold Config.authorization
    cases config.bearerToken with
    | none => decide
    | some token =>
      have hname : ¬Text.SameName "Authorization" "Content-Type" := by decide
      simp [Headers.has, hname]
  rw [Headers.has_append, has_mergedHeaders]
  simp [haccept, hauthorization]

/-- The names in the headers of a request are distinct unless the caller gives `Authorization` although there is a
token, or `Content-Type` although the body brings one. -/
theorem distinct_request_headers_iff (config : Config) (d : Descriptor) :
    (d.request config).headers.Distinct ↔
      (config.bearerToken ≠ none → ¬d.headers.has "Authorization" = true) ∧
      (d.form = none → ∀ b, d.body = some b → b.contentType? ≠ none → ¬d.headers.has "Content-Type" = true) := by
  show Headers.Distinct (d.requestHeaders config) ↔ _
  rw [requestHeaders, ← distinct_authorization config d.headers]
  cases hform : d.form with
  | some fields => simp [contentTypeHeader, hform]
  | none =>
    cases hbody : d.body with
    | none => simp [contentTypeHeader, hform, hbody]
    | some b =>
      cases htype : b.contentType? with
      | none => simp [contentTypeHeader, hform, hbody, htype]
      | some contentType =>
        simp only [contentTypeHeader, hform, hbody, htype, Option.isSome_none, Bool.false_eq_true, if_false,
          Option.bind_eq_bind, Option.bind_some]
        rw [Headers.distinct_append_singleton, has_contentType]
        simp [htype]

/-- A caller's `authorization` beside a token, and a caller's `content-type` beside that of a text. -/
theorem header_repeated :
    let signed := ((ofPath .get "/pets").apply (.header "authorization" "Basic eDp5")).request
      ⟨"http://x", some "t0k"⟩
    let typed := (((ofPath .put "/notes/1").apply (.header "content-type" "text/csv")).apply
      (.body (.text "a,b"))).request ⟨"http://x", none⟩
    signed.headers =
        [("Accept", "application/json"), ("authorization", "Basic eDp5"), ("Authorization", "Bearer t0k")] ∧
      typed.headers = [("Accept", "application/json"), ("content-type", "text/csv"), ("Content-Type", "text/plain")] ∧
      ¬signed.headers.Distinct ∧ ¬typed.headers.Distinct := by
  decide +kernel

end Descriptor

end ApiClient
