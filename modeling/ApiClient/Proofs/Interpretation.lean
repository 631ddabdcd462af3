import ApiClient.Proofs.Classification
import Mathlib.Data.List.Forall2
import Mathlib.Logic.Relation

/-!
# What the interpretation of a response does not depend on

A response is interpreted through two look-ups in its headers, for the content type and for the header that is asked
for.  A look-up of a name does not see the order of headers with different names, the letter case of names, headers of
other names, and headers behind the first one of their name (`Change`, `find?_of_change`).  So none of these has to do
with what a response comes to, however many of them are changed (`interpretation_of_changes`).
-/

namespace ApiClient

namespace Http.Headers

/-- The headers of a name, in order. -/
def named (headers : Headers) (name : String) : Headers := headers.filter fun h => decide (Text.SameName h.1 name)

/-- A change of headers that the look-ups of some names do not see. -/
inductive Change (names : List String) : Headers → Headers → Prop
  /-- The headers are put in another order, in which those of the same name stay in theirs. -/
  | reorder {xs ys : Headers} (hperm : xs.Perm ys) (horder : ∀ name, xs.named name = ys.named name) :
    Change names xs ys
  /-- The names are spelled in another letter case. -/
  | respell {xs ys : Headers} (h : List.Forall₂ (fun x y => Text.SameName x.1 y.1 ∧ x.2 = y.2) xs ys) :
    Change names xs ys
  /-- A header comes in whose name is none of those that are looked up. -/
  | add (before after : Headers) {h : Header} (hname : ∀ name ∈ names, ¬Text.SameName h.1 name) :
    Change names (before ++ after) (before ++ h :: after)
  /-- A header comes in somewhere behind one of its name. -/
  | addLater (before between after : Headers) {first later : Header} (hname : Text.SameName first.1 later.1) :
    Change names (before ++ first :: (between ++ after)) (before ++ first :: (between ++ later :: after))

variable {names : List String} {name : String} {xs ys : Headers}

theorem find?_eq_head?_named (headers : Headers) (name : String) :
    headers.find? name = (headers.named name).head?.map Prod.snd := by
  rw [find?, named, List.head?_filter]

theorem find?_of_change (h : Change names xs ys) (hname : name ∈ names) : xs.find? name = ys.find? name := by
  cases h with
  | reorder hperm horder => rw [find?_eq_head?_named, find?_eq_head?_named, horder]
  | respell h =>
    induction h with
    | nil => rfl
    | @cons x y xs ys hxy hrest ih =>
      have hsame : Text.SameName x.1 name ↔ Text.SameName y.1 name :=
        ⟨fun h => hxy.1.symm.trans h, fun h => hxy.1.trans h⟩
      rw [find?_cons, find?_cons, ih, hxy.2]
      simp only [hsame]
  | add before after hother => rw [find?_append, find?_append, find?_cons, if_neg (hother name hname)]
  | @addLater before between after first later hsame =>
    rw [find?_append, find?_append, find?_cons, find?_cons]
    by_cases hfirst : Text.SameName first.1 name
    · rw [if_pos hfirst, if_pos hfirst]
    · have hlater : ¬Text.SameName later.1 name := fun h => hfirst (hsame.trans h)
      rw [if_neg hfirst, if_neg hfirst, find?_append, find?_append, find?_cons, if_neg hlater]

/-- Any number of changes, made or undone, are not seen either. -/
theorem find?_of_changes (h : Relation.EqvGen (Change names) xs ys) (hname : name ∈ names) :
    xs.find? name = ys.find? name := by
  induction h with
  | rel xs ys h => exact find?_of_change h hname
  | refl xs => rfl
  | symm xs ys _ ih => exact ih.symm
  | trans xs ys zs _ _ ih ih' => exact ih.trans ih'

end Http.Headers

open Http.Headers (Change)

/-- The decoded content of a response does not depend on changes that the look-up of its content type does not see. -/
theorem Content.ofResponse_of_changes {names : List String} (hnames : "content-type" ∈ names) {r : Http.Response}
    {headers : Http.Headers} (h : Relation.EqvGen (Change names) r.headers headers) :
    Content.ofResponse { r with headers } = Content.ofResponse r := by
  rw [Content.ofResponse, Content.ofResponse, Http.Headers.find?_of_changes h hnames]

namespace Descriptor

/-- What is looked up to interpret a response. -/
def lookedUp (d : Descriptor) : List String := "content-type" :: d.responseHeader.toList

theorem content_of_changes {d : Descriptor} {wanted : Option String} {r : Http.Response} {headers : Http.Headers}
    (hwanted : Option.Rel Text.SameName d.responseHeader wanted)
    (hheaders : Relation.EqvGen (Change d.lookedUp) r.headers headers) :
    { d with responseHeader := wanted }.content { r with headers } = d.content r := by
  have htype : Content.ofResponse { r with headers } = Content.ofResponse r :=
    Content.ofResponse_of_changes List.mem_cons_self hheaders
  cases hd : d.responseHeader with
  | none =>
    rw [hd] at hwanted
    cases hwanted
    rw [content, content, hd]
    exact htype
  | some name =>
    rw [hd] at hwanted
    cases hwanted with
    | @some _ name' hname =>
      have hmem : name ∈ d.lookedUp := by simp [lookedUp, hd]
      have hfind : headers.find? name' = r.headers.find? name := by
        rw [← Http.Headers.find?_congr headers hname, Http.Headers.find?_of_changes hheaders hmem]
      have htext : Content.headerText { r with headers } name' = Content.headerText r name := by
        rw [Content.headerText, Content.headerText, hfind]
      simp only [content, hd, Option.bind_eq_bind, Option.bind_some, htext, htype]

/-- What a response comes to does not depend on changes of its headers that neither look-up sees, nor on the letter
case of the name that is asked for; and where the first header of that name is empty the decoded body counts. -/
theorem interpretation_of_changes :
    (∀ (r : Http.Response) headers, Relation.EqvGen (Change ["content-type"]) r.headers headers →
      Content.ofResponse { r with headers } = Content.ofResponse r) ∧
    (∀ (d : Descriptor) wanted url (r : Http.Response) headers, Option.Rel Text.SameName d.responseHeader wanted →
      Relation.EqvGen (Change d.lookedUp) r.headers headers →
        { d with responseHeader := wanted }.interpret url { r with headers } = d.interpret url r) ∧
    (∀ (d : Descriptor) name url (r : Http.Response), d.responseHeader = some name → r.headers.IsFirst name "" →
      d.content r = Content.ofResponse r ∧
        d.interpret url r = { d with responseHeader := none }.interpret url r) := by
  refine ⟨fun r headers => Content.ofResponse_of_changes List.mem_cons_self, ?_, ?_⟩
  · intro d wanted url r headers hwanted hheaders
    rw [interpret, interpret, answer, answer, content_of_changes hwanted hheaders]
    rfl
  · intro d name url r hname hfirst
    have hcontent : d.content r = Content.ofResponse r := by
      rw [content, hname, Option.bind_eq_bind, Option.bind_some, Content.headerText,
        Http.Headers.find?_eq_some_iff.2 hfirst]
      rfl
    refine ⟨hcontent, ?_⟩
    rw [interpret, interpret, answer, answer, hcontent]
    rfl

/-- The first header of the name is empty, so the one behind it does not count. -/
example :
    { ofPath .get "/" with responseHeader := some "ETAG" }.content
      ⟨200, "OK", [("etag", ""), ("CONTENT-TYPE", "text/plain"), ("ETag", "b")], [104, 105]⟩ = .text "hi" := by
  decide +kernel

end Descriptor

end ApiClient
