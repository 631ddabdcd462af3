import ApiClient.Text.Fold

/-!
# Header lists

Headers are a list of names and values in the order they were given; a name may occur more than once.  Names are equal
when they differ at most in the case of ASCII letters.

Key facts: `find?_congr`, lookup depends on the name only up to letter case; `find?_setValue`, setting a value is seen
by lookups of that name only.
-/

namespace ApiClient.Http

/-- A header: its name and its value. -/
abbrev Header := String × String

/-- Headers in the order they were given. -/
abbrev Headers := List Header

namespace Headers

/-- The value of the first header of a name. -/
def find? (headers : Headers) (name : String) : Option String :=
  (List.find? (fun h => decide (Text.SameName h.1 name)) headers).map Prod.snd

/-- Whether a header of a name is there. -/
def has (headers : Headers) (name : String) : Bool := headers.any fun h => decide (Text.SameName h.1 name)

/-- The headers with a value given to the first one of a name, which is put at the end if there is none.  A header
that is there keeps the spelling of its name. -/
def setValue (name value : String) : Headers → Headers
  | [] => [(name, value)]
  | h :: rest => if Text.SameName h.1 name then (h.1, value) :: rest else h :: setValue name value rest

theorem find?_nil (name : String) : find? [] name = none := rfl

theorem find?_cons (h : Header) (rest : Headers) (name : String) :
    find? (h :: rest) name = if Text.SameName h.1 name then some h.2 else find? rest name := by
  by_cases hn : Text.SameName h.1 name <;> simp [find?, hn]

theorem find?_append (xs ys : Headers) (name : String) :
    find? (xs ++ ys) name = (find? xs name).or (find? ys name) := by
  simp only [find?, List.find?_append, Option.map_or]

/-- Lookup depends on the name only up to letter case. -/
theorem find?_congr (headers : Headers) {a b : String} (h : Text.SameName a b) :
    headers.find? a = headers.find? b := by
  induction headers with
  | nil => rfl
  | cons x rest ih =>
    have hab : Text.SameName x.1 a ↔ Text.SameName x.1 b := ⟨fun h' => h'.trans h, fun h' => h'.trans h.symm⟩
    simp only [find?_cons, hab, ih]

/-- Setting a value is seen by lookups of that name only. -/
theorem find?_setValue (headers : Headers) (name value other : String) :
    (headers.setValue name value).find? other =
      if Text.SameName name other then some value else headers.find? other := by
  induction headers with
  | nil => simp [setValue, find?_cons, find?_nil]
  | cons x rest ih =>
    by_cases hx : Text.SameName x.1 name
    · have hxo : Text.SameName x.1 other ↔ Text.SameName name other :=
        ⟨fun h => hx.symm.trans h, fun h => hx.trans h⟩
      simp only [setValue, hx, if_true, find?_cons, hxo]
      split <;> rfl
    · by_cases hxo : Text.SameName x.1 other
      · have hno : ¬Text.SameName name other := fun h => hx (hxo.trans h.symm)
        simp [setValue, hx, find?_cons, hxo, hno]
      · simp only [setValue, hx, if_false, find?_cons, hxo, ih]

end Headers

end ApiClient.Http
