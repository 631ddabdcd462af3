/-!
# Splitting

A text in pieces between separators, and a text at its first separator.

Key facts: `splitBy_ne_nil`, there is always a piece; `splitBy_append_cons`, the text before a separator is a piece;
`splitFirst_append_cons`, the first part is the text before the first separator.
-/

namespace ApiClient.Text

/-- The pieces of `cs` between the characters that satisfy `p`. -/
def splitBy (p : Char → Bool) : List Char → List (List Char)
  | [] => [[]]
  | c :: rest =>
    if p c then [] :: splitBy p rest
    else
      match splitBy p rest with
      | [] => [[c]]
      | piece :: pieces => (c :: piece) :: pieces

/-- `cs` up to the first `sep`, and what follows it if there is one. -/
def splitFirst (sep : Char) : List Char → List Char × Option (List Char)
  | [] => ([], none)
  | c :: rest =>
    if c = sep then ([], some rest)
    else
      let (before, after) := splitFirst sep rest
      (c :: before, after)

theorem splitBy_ne_nil (p : Char → Bool) (cs : List Char) : splitBy p cs ≠ [] := by
  cases cs with
  | nil => simp [splitBy]
  | cons c rest =>
    rw [splitBy]
    split
    · simp
    · split <;> simp

/-- A text without separators is one piece. -/
theorem splitBy_of_none {p : Char → Bool} {cs : List Char} (h : ∀ c ∈ cs, p c = false) : splitBy p cs = [cs] := by
  induction cs with
  | nil => rfl
  | cons c rest ih =>
    have hc := h c List.mem_cons_self
    have hrest := ih fun x hx => h x (List.mem_cons_of_mem _ hx)
    simp [splitBy, hc, hrest]

theorem splitBy_append_cons {p : Char → Bool} {cs : List Char} (h : ∀ c ∈ cs, p c = false) {sep : Char}
    (hsep : p sep = true) (rest : List Char) : splitBy p (cs ++ sep :: rest) = cs :: splitBy p rest := by
  induction cs with
  | nil => simp [splitBy, hsep]
  | cons c cs ih =>
    have hc := h c List.mem_cons_self
    have hcs := ih fun x hx => h x (List.mem_cons_of_mem _ hx)
    simp [splitBy, hc, hcs]

theorem splitFirst_append_cons {sep : Char} {cs : List Char} (h : sep ∉ cs) (rest : List Char) :
    splitFirst sep (cs ++ sep :: rest) = (cs, some rest) := by
  induction cs with
  | nil => simp [splitFirst]
  | cons c cs ih =>
    rw [List.mem_cons, not_or] at h
    have hne : c ≠ sep := fun e => h.1 e.symm
    simp [splitFirst, hne, ih h.2]

end ApiClient.Text
