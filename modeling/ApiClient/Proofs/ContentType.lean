import ApiClient.Content
import Mathlib.Data.List.Forall2

/-!
# Content types that declare JSON

A content type declares JSON when it is white space, the media type of JSON in any letter case, white space, and then
nothing or a `;` with anything behind it (`DeclaresJson`); any other text declares text (`json_declared_exactly`).
The decoding depends on the media type only (`ofContentType_congr`), and the media type neither on what stands behind
a `;` (`mediaType_append`) nor on white space around it (`mediaType_between_blanks`); a change of letter case is a
change of its letters (`mediaType_lower`).
-/

namespace ApiClient

namespace Text

/-! ### Letters in two cases -/

/-- Equal characters, or a letter of the ASCII alphabet in its two cases. -/
def SameLetter (a b : Char) : Prop :=
  a = b ∨ ('A' ≤ a ∧ a ≤ 'Z' ∧ b.toNat = a.toNat + 32) ∨ ('A' ≤ b ∧ b ≤ 'Z' ∧ a.toNat = b.toNat + 32)

theorem sameLetter_iff {a b : Char} : SameLetter a b ↔ a.toLower = b.toLower := by
  have hupper : ∀ c : Char, 'A' ≤ c ∧ c ≤ 'Z' ↔ 65 ≤ c.toNat ∧ c.toNat ≤ 90 := fun c => Iff.rfl
  rw [SameLetter, ← and_assoc, ← and_assoc, hupper, hupper, ← Char.toNat_inj, ← Char.toNat_inj, toNat_toLower,
    toNat_toLower]
  split <;> split <;> omega

/-- Two texts are the same name when they agree letter by letter. -/
theorem sameName_iff {a b : String} : SameName a b ↔ List.Forall₂ SameLetter a.toList b.toList := by
  have hletter : SameLetter = fun x y => x.toLower = y.toLower := by
    funext x y
    exact propext sameLetter_iff
  rw [SameName, lower, lower, String.ofList_inj, hletter, ← List.forall₂_eq_eq_eq, List.forall₂_map_left_iff,
    List.forall₂_map_right_iff]

/-- Letters are not blank in either case. -/
theorem isBlank_toLower (c : Char) : isBlank c.toLower = isBlank c := by
  rw [isBlank, isBlank, toNat_toLower]
  split
  · rename_i hupper
    simp only [blankRanges, List.any_cons, List.any_nil, Bool.or_false]
    rw [Bool.eq_iff_iff]
    simp only [Bool.or_eq_true, Bool.and_eq_true, decide_eq_true_eq]
    omega
  · rfl

/-- Nothing but white space. -/
def AllBlank (s : String) : Prop := ∀ c ∈ s.toList, isBlank c = true

end Text

open Text (SameName SameLetter AllBlank isBlank)

namespace Decoding

/-! ### The media type -/

/-- What stands before the first `;`. -/
private def beforeParameters (cs : List Char) : List Char := cs.takeWhile fun c => c ≠ ';'

/-- The media type of a content type: what stands before the first `;`, without the white space around it. -/
def mediaType (contentType : String) : String :=
  String.ofList (Text.trim (beforeParameters contentType.toList))

/-- Nothing, or a `;` and what is behind it. -/
def IsParameters (s : String) : Prop := s = "" ∨ s.toList.head? = some ';'

theorem ofContentType_eq_json_iff {contentType : String} :
    ofContentType contentType = .json ↔ SameName (mediaType contentType) "application/json" := by
  rw [ofContentType]
  split
  · rename_i hname
    exact ⟨fun _ => hname, fun _ => rfl⟩
  · rename_i hname
    exact ⟨nofun, fun h => absurd h hname⟩

/-- The decoding depends on the media type, and on that up to letter case. -/
theorem ofContentType_congr {a b : String} (h : SameName (mediaType a) (mediaType b)) :
    ofContentType a = ofContentType b := by
  have hiff : ofContentType a = .json ↔ ofContentType b = .json := by
    rw [ofContentType_eq_json_iff, ofContentType_eq_json_iff]
    exact ⟨fun ha => h.symm.trans ha, fun hb => h.trans hb⟩
  cases hb : ofContentType b with
  | json => exact hiff.2 hb
  | text =>
    cases ha : ofContentType a with
    | json => exact absurd ((hiff.1 ha).symm.trans hb) nofun
    | text => rfl

private theorem beforeParameters_of_mem {cs : List Char} (h : ';' ∈ cs) (rest : List Char) :
    beforeParameters (cs ++ rest) = beforeParameters cs := by
  rw [beforeParameters, List.takeWhile_append, if_neg]
  · rfl
  · -- If nothing were cut off, the `;` would stand before the first one.
    intro hlength
    have hall : (cs.takeWhile fun c => decide (c ≠ ';')).all (fun c => decide (c ≠ ';')) = true := List.all_takeWhile
    rw [(List.takeWhile_prefix _).eq_of_length hlength] at hall
    exact of_decide_eq_true (List.all_eq_true.1 hall _ h) rfl

private theorem beforeParameters_of_not_mem {cs : List Char} (h : ';' ∉ cs) (rest : List Char) :
    beforeParameters (cs ++ rest) = cs ++ beforeParameters rest := by
  refine List.takeWhile_append_of_pos fun c hc => decide_eq_true ?_
  rintro rfl
  exact h hc

private theorem beforeParameters_eq_self {cs : List Char} (h : ';' ∉ cs) : beforeParameters cs = cs := by
  have hrest := beforeParameters_of_not_mem h []
  rw [List.append_nil] at hrest
  exact hrest.trans (List.append_nil cs)

private theorem beforeParameters_of_isParameters {s : String} (h : IsParameters s) :
    beforeParameters s.toList = [] := by
  rcases h with rfl | h
  · rfl
  · cases hs : s.toList with
    | nil => rfl
    | cons c rest =>
      rw [hs] at h
      cases h
      rfl

/-- What stands behind a `;` does not count. -/
theorem mediaType_append {contentType more : String} (h : ';' ∈ contentType.toList ∨ IsParameters more) :
    mediaType (contentType ++ more) = mediaType contentType := by
  have hbefore : beforeParameters (contentType ++ more).toList = beforeParameters contentType.toList := by
    rw [String.toList_append]
    by_cases hmem : ';' ∈ contentType.toList
    · exact beforeParameters_of_mem hmem _
    · have hmore := beforeParameters_of_isParameters (h.resolve_left hmem)
      rw [beforeParameters_of_not_mem hmem, hmore, List.append_nil, beforeParameters_eq_self hmem]
  rw [mediaType, mediaType, hbefore]

/-- White space around the media type does not count. -/
theorem mediaType_between_blanks {before type after parameters : String} (hbefore : AllBlank before)
    (hafter : AllBlank after) (hparameters : IsParameters parameters) :
    mediaType (before ++ type ++ after ++ parameters) = mediaType type := by
  have hnone : ∀ s, AllBlank s → ';' ∉ s.toList := by
    intro s hs hmem
    exact absurd (hs _ hmem) (by decide)
  rw [mediaType_append (.inr hparameters), mediaType, mediaType, String.toList_append, String.toList_append,
    List.append_assoc, beforeParameters_of_not_mem (hnone before hbefore)]
  congr 1
  by_cases hmem : ';' ∈ type.toList
  · have h := Text.trimBy_append hbefore (List.forall_mem_nil _) (beforeParameters type.toList)
    rw [List.append_nil] at h
    rw [beforeParameters_of_mem hmem]
    exact h
  · have hpart : ';' ∉ type.toList ++ after.toList := by
      rw [List.mem_append, not_or]
      exact ⟨hmem, hnone after hafter⟩
    rw [beforeParameters_eq_self hpart, beforeParameters_eq_self hmem, ← List.append_assoc]
    exact Text.trimBy_append hbefore hafter _

/-- A change of letter case is one of the letters of the media type. -/
theorem mediaType_lower (contentType : String) :
    mediaType (Text.lower contentType) = Text.lower (mediaType contentType) := by
  have hsemicolon : ((fun c => decide (c ≠ ';')) ∘ Char.toLower) = fun c => decide (c ≠ ';') := by
    funext c
    have hiff : c.toLower = ';' ↔ c = ';' := Text.toLower_eq_iff (by decide)
    simp [hiff]
  rw [mediaType, mediaType, Text.lower, Text.lower, String.toList_ofList, String.toList_ofList, beforeParameters,
    List.takeWhile_map, hsemicolon, Text.trim, Text.trimBy_map Text.isBlank_toLower]
  rfl

/-- A change of letter case does not count. -/
theorem ofContentType_of_sameName {a b : String} (h : SameName a b) : ofContentType a = ofContentType b := by
  refine ofContentType_congr ?_
  have hlower : Text.lower a = Text.lower b := h
  rw [SameName, ← mediaType_lower, ← mediaType_lower, hlower]

/-! ### The grammar -/

/-- White space, the media type of JSON in any letter case, white space, and parameters or none. -/
def DeclaresJson (contentType : String) : Prop :=
  ∃ before media after parameters : String, contentType = before ++ media ++ after ++ parameters ∧
    AllBlank before ∧ List.Forall₂ SameLetter media.toList "application/json".toList ∧ AllBlank after ∧
    IsParameters parameters

/-- A content type is its media type between white space, and parameters or none. -/
theorem exists_parts (contentType : String) :
    ∃ before after parameters, contentType = before ++ mediaType contentType ++ after ++ parameters ∧
      AllBlank before ∧ AllBlank after ∧ IsParameters parameters := by
  obtain ⟨before, after, hpart, hbefore, hafter⟩ :=
    Text.exists_trimBy isBlank (beforeParameters contentType.toList)
  refine ⟨String.ofList before, String.ofList after,
    String.ofList (contentType.toList.dropWhile fun c => c ≠ ';'), ?_, ?_, ?_, ?_⟩
  · have hwhole : beforeParameters contentType.toList ++ contentType.toList.dropWhile (fun c => c ≠ ';') =
        contentType.toList := List.takeWhile_append_dropWhile
    rw [hpart] at hwhole
    rw [← String.toList_inj]
    simp only [String.toList_append, String.toList_ofList, mediaType]
    exact hwhole.symm
  · rw [AllBlank, String.toList_ofList]
    exact hbefore
  · rw [AllBlank, String.toList_ofList]
    exact hafter
  · have hstop := List.head?_dropWhile_not (fun c => decide (c ≠ ';')) contentType.toList
    rw [IsParameters, String.toList_ofList]
    cases hrest : contentType.toList.dropWhile fun c => c ≠ ';' with
    | nil => exact .inl rfl
    | cons c rest =>
      rw [hrest] at hstop
      have hc : c = ';' := by simpa using hstop
      exact .inr (congrArg some hc)

theorem ofContentType_of_declaresJson {contentType : String} (h : DeclaresJson contentType) :
    ofContentType contentType = .json := by
  obtain ⟨before, media, after, parameters, rfl, hbefore, hmedia, hafter, hparameters⟩ := h
  calc ofContentType (before ++ media ++ after ++ parameters)
    _ = ofContentType media := by
      refine ofContentType_congr ?_
      rw [mediaType_between_blanks hbefore hafter hparameters]
      exact SameName.refl _
    _ = ofContentType "application/json" := ofContentType_of_sameName (Text.sameName_iff.2 hmedia)
    _ = .json := ofContentType_json

theorem ofContentType_eq_json_iff_declaresJson {contentType : String} :
    ofContentType contentType = .json ↔ DeclaresJson contentType := by
  refine ⟨fun h => ?_, ofContentType_of_declaresJson⟩
  obtain ⟨before, after, parameters, hparts, hbefore, hafter, hparameters⟩ := exists_parts contentType
  have hmedia : SameName (mediaType contentType) "application/json" := ofContentType_eq_json_iff.1 h
  exact ⟨before, _, after, parameters, hparts, hbefore, Text.sameName_iff.1 hmedia, hafter, hparameters⟩

/-- The content types that declare JSON are those of the grammar, and all others declare text.  So nothing that is put
behind a `;`, no white space around the media type and no change of letter case makes a difference. -/
theorem json_declared_exactly :
    (∀ contentType, (ofContentType contentType = .json ↔ DeclaresJson contentType) ∧
      (ofContentType contentType = .text ↔ ¬DeclaresJson contentType)) ∧
    (∀ contentType more, ';' ∈ contentType.toList ∨ IsParameters more →
      ofContentType (contentType ++ more) = ofContentType contentType) ∧
    (∀ before type after parameters, AllBlank before → AllBlank after → IsParameters parameters →
      ofContentType (before ++ type ++ after ++ parameters) = ofContentType (type ++ parameters)) ∧
    (∀ a b : String, List.Forall₂ SameLetter a.toList b.toList → ofContentType a = ofContentType b) := by
  refine ⟨fun contentType => ⟨ofContentType_eq_json_iff_declaresJson, ?_⟩, ?_, ?_, ?_⟩
  · rw [← ofContentType_eq_json_iff_declaresJson]
    cases ofContentType contentType <;> simp
  · intro contentType more h
    refine ofContentType_congr ?_
    rw [mediaType_append h]
    exact SameName.refl _
  · intro before type after parameters hbefore hafter hparameters
    refine ofContentType_congr ?_
    rw [mediaType_between_blanks hbefore hafter hparameters, mediaType_append (.inr hparameters)]
    exact SameName.refl _
  · intro a b h
    exact ofContentType_of_sameName (Text.sameName_iff.2 h)

/-- Unusual white space and any parameters, and then near misses: a letter that is not ASCII, white space inside, a
leading `;` and a list of media types. -/
example :
    ofContentType "\u2003Application/JSON\u00A0;;q" = .json ∧
      ["application/j\u017Fon", "application /json", ";application/json", "text/plain, application/json"].map
        ofContentType = [.text, .text, .text, .text] := by
  decide +kernel

end Decoding

end ApiClient
