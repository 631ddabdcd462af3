import ApiClient.Json.Embedded
import ApiClient.Proofs.Json.ItemList
import ApiClient.Proofs.Text.Utf8

/-!
# Printed values are read back

The text of a value without doubles is read, whatever follows it, to the value that `expandWith` takes over from it,
if no more arrays and objects are open inside each other than may be, and refused if there are more (`value_print`).
The induction is on the value; what the reader still has to open goes down with it.  An object whose members stand in
any other order is read to its members in order (`value_print_object`).
-/

namespace ApiClient.Json

/-! ### Whole values and their depth -/

mutual
/-- All numbers in the value are whole. -/
def Whole : Json → Prop
  | .num (.float _) => False
  | .arr items => WholeItems items
  | .obj members => WholeMembers members
  | _ => True

/-- `Whole` for each value of a list. -/
def WholeItems : List Json → Prop
  | [] => True
  | v :: rest => Whole v ∧ WholeItems rest

/-- `Whole` for the value of each member. -/
def WholeMembers : List (String × Json) → Prop
  | [] => True
  | (_, v) :: rest => Whole v ∧ WholeMembers rest
end

mutual
/-- The most arrays and objects of the value that are open inside each other. -/
def depth : Json → Nat
  | .arr items => depthItems items + 1
  | .obj members => depthMembers members + 1
  | _ => 0

/-- The largest depth in a list of values. -/
def depthItems : List Json → Nat
  | [] => 0
  | v :: rest => max (depth v) (depthItems rest)

/-- The largest depth of the value of a member. -/
def depthMembers : List (String × Json) → Nat
  | [] => 0
  | (_, v) :: rest => max (depth v) (depthMembers rest)
end

/-! ### The text of a value -/

theorem printItems_eq (items : List Json) :
    printItems items = items.flatMap (fun v => ',' :: print v) ++ [']'] := by
  induction items with
  | nil => rfl
  | cons v rest ih => simp [printItems, ih]

theorem printMembers_eq (members : List (String × Json)) :
    printMembers members = members.flatMap (fun m => ',' :: memberText print m) ++ ['}'] := by
  induction members with
  | nil => rfl
  | cons m rest ih => simp [printMembers, memberText, ih]

theorem print_arr (items : List Json) : print (.arr items) = '[' :: listText ']' print items := by
  cases items with
  | nil => rfl
  | cons v rest => simp [print, listText, printItems_eq]

theorem print_obj (members : List (String × Json)) :
    print (.obj members) = '{' :: listText '}' (memberText print) members := by
  cases members with
  | nil => rfl
  | cons m rest => simp [print, listText, printMembers_eq, memberText]

theorem skipSpace_print_obj (members : List (String × Json)) :
    skipSpace (print (.obj members)) = print (.obj members) := by
  rw [print_obj]
  exact skipSpace_cons (by decide) _

/-- The text of a whole value begins with no blank and no closing bracket, and with a quote only if it is a string. -/
theorem print_begins (v : Json) (h : Whole v) :
    ∃ c cs, print v = c :: cs ∧ isSpace c = false ∧ c ≠ ']' ∧ c ≠ '}' ∧ (c = '"' → ∃ s, v = .str s) := by
  cases v with
  | null => exact ⟨'n', _, rfl, by decide, by decide, by decide, nofun⟩
  | bool b => cases b <;> exact ⟨_, _, rfl, by decide, by decide, by decide, nofun⟩
  | str s => exact ⟨'"', _, rfl, by decide, by decide, by decide, fun _ => ⟨s, rfl⟩⟩
  | arr items => exact ⟨'[', _, print_arr items, by decide, by decide, by decide, nofun⟩
  | obj members => exact ⟨'{', _, print_obj members, by decide, by decide, by decide, nofun⟩
  | num n =>
    cases n with
    | float x => exact absurd h (by simp [Whole])
    | int n hn =>
      obtain ⟨c, cs, hcs, hc⟩ := printNumber_cons n hn
      have hne : ∀ d : Char, ¬(d.isDigit ∨ d = '-') → c ≠ d := by
        rintro d hd rfl
        exact hd hc
      refine ⟨c, cs, by simp [print, hcs], ?_, hne _ (by decide), hne _ (by decide),
        fun hq => absurd hq (hne _ (by decide))⟩
      simp [isSpace, hne ' ' (by decide), hne '\t' (by decide), hne '\n' (by decide), hne '\r' (by decide)]

/-! ### Scalars -/

private theorem valueWith_num (array object : Reader Json) (n : Int)
    (hn : -0x8000000000000000 ≤ n ∧ n < 0x10000000000000000) {rest : List Char} (h : EndsNumber rest) :
    valueWith array object (print (.num (.int n hn)) ++ rest) = .ok (.num (.int n hn), rest) := by
  obtain ⟨c, cs, hcs, hc⟩ := printNumber_cons n hn
  have hne : ∀ d : Char, ¬(d.isDigit ∨ d = '-') → c ≠ d := by
    rintro d hd rfl
    exact hd hc
  have hother : valueWith array object (c :: (cs ++ rest)) =
      (number (c :: (cs ++ rest)) >>= fun r => .ok (.num r.1, r.2)) := by
    rw [valueWith]
    all_goals
      rintro _ ⟨⟩
      exact hne _ (by decide) rfl
  have hnumber := number_print n hn h
  rw [hcs, List.cons_append] at hnumber
  rw [print, hcs, List.cons_append, hother, hnumber]
  rfl

private theorem value_eq_valueWith (embedded : List Char → Except Fault Json) (d : Nat) :
    ∃ array object, value embedded d = valueWith array object := by
  cases d with
  | zero => exact ⟨_, _, rfl⟩
  | succ d => exact ⟨_, _, rfl⟩

/-! ### Values -/

section
variable (embedded : List Char → Except Fault Json)

/-- What an embedded text is taken for. -/
def embeddedValue (s : String) : Option Json := (embedded s.toList).toOption

/-- What is read from the text of a value with `d` arrays and objects left to open. -/
def readBack (d : Nat) (v : Json) : Option Json :=
  if v.depth ≤ d then expandWith (embeddedValue embedded) v else none

private theorem mapM_readBack (d : Nat) (items : List Json) :
    items.mapM (readBack embedded d) =
      if depthItems items ≤ d then expandItemsWith (embeddedValue embedded) items else none := by
  induction items with
  | nil => rfl
  | cons v rest ih =>
    rw [List.mapM_cons, ih, readBack, depthItems, expandItemsWith]
    simp only [Nat.max_le]
    by_cases hv : v.depth ≤ d <;> by_cases hrest : depthItems rest ≤ d <;> simp [hv, hrest]

private theorem mapM_readBack_members (d : Nat) (members : List (String × Json)) :
    (members.mapM fun m => (readBack embedded d m.2).map fun w => (m.1, w)) =
      if depthMembers members ≤ d then expandMembersWith (embeddedValue embedded) members else none := by
  induction members with
  | nil => rfl
  | cons m rest ih =>
    rw [List.mapM_cons, ih, readBack, depthMembers, expandMembersWith]
    simp only [Nat.max_le]
    by_cases hv : m.2.depth ≤ d <;> by_cases hrest : depthMembers rest ≤ d <;> simp [hv, hrest]
    cases expandWith (embeddedValue embedded) m.2 <;> simp

private theorem keys_expandMembersWith {f : String → Option Json} {members members' : List (String × Json)}
    (h : expandMembersWith f members = some members') : members'.map Prod.fst = members.map Prod.fst := by
  induction members generalizing members' with
  | nil =>
    cases h
    rfl
  | cons m rest ih =>
    simp only [expandMembersWith, Option.bind_eq_bind, Option.bind_eq_some_iff] at h
    obtain ⟨v, -, rest', hrest, h⟩ := h
    cases h
    simp [ih hrest]

private theorem object_of_keys {members members' : List (String × Json)} (h : Keyed.Ascending members)
    (hkeys : members'.map Prod.fst = members.map Prod.fst) : object members' = .obj members' := by
  have hasc : (members.map Prod.fst).Pairwise fun a b => compare a b = .lt := List.pairwise_map.2 h
  rw [← hkeys] at hasc
  rw [object, Keyed.collect_of_ascending (List.pairwise_map.1 hasc)]

/-- An object that does not begin with the key of embedded text is taken over member by member. -/
private theorem expandWith_obj {f : String → Option Json} {members : List (String × Json)}
    (h : ∀ m ∈ members.head?, m.1 ≠ embeddedKey) :
    expandWith f (.obj members) = (expandMembersWith f members).map .obj := by
  cases members with
  | nil => rfl
  | cons m rest =>
    obtain ⟨key, v⟩ := m
    rw [expandWith, if_neg (h _ rfl), expandMembersWith]
    cases expandWith f v with
    | none => rfl
    | some w => cases expandMembersWith f rest <;> rfl

/-- Whether the printed members of an object begin with the key of embedded text is seen by the reader. -/
private theorem afterEmbeddedKey?_print {members : List (String × Json)} (hwhole : WholeMembers members)
    (h : ∀ m ∈ members.head?, m.1 ≠ embeddedKey) (rest : List Char) :
    afterEmbeddedKey? (listText '}' (memberText print) members ++ rest) = none := by
  cases members with
  | nil => rfl
  | cons m ms =>
    obtain ⟨key, v⟩ := m
    obtain ⟨c, cs, hcs, hspace, -⟩ := print_begins v hwhole.1
    have hkey := memberKey_print key hspace (cs ++ (ms.flatMap (fun m => ',' :: memberText print m) ++ '}' :: rest))
    have hskip : ∀ cs, skipSpace (printStr key ++ cs) = printStr key ++ cs := fun cs => skipSpace_cons (by decide) _
    simp only [listText, memberText, hcs, List.append_assoc, List.cons_append, List.nil_append] at hkey ⊢
    rw [afterEmbeddedKey?, hskip, hkey]
    exact if_neg (h _ rfl)

/-- An embedded text is read by `embedded`, and nothing else may be in the object. -/
private theorem objectTail_embedded (item : Reader Json) (v : Json) (hwhole : Whole v) (ms : List (String × Json))
    (rest : List Char) :
    (objectTail embedded item (listText '}' (memberText print) ((embeddedKey, v) :: ms) ++ rest)).toOption =
      (expandWith (embeddedValue embedded) (.obj ((embeddedKey, v) :: ms))).map fun w => (w, rest) := by
  obtain ⟨c, cs, hcs, hspace, -, -, hquote⟩ := print_begins v hwhole
  have hkey := memberKey_print embeddedKey hspace
    (cs ++ (ms.flatMap (fun m => ',' :: memberText print m) ++ '}' :: rest))
  have hskip : ∀ cs, skipSpace (printStr embeddedKey ++ cs) = printStr embeddedKey ++ cs := fun cs =>
    skipSpace_cons (by decide) _
  have hafter : afterEmbeddedKey? (listText '}' (memberText print) ((embeddedKey, v) :: ms) ++ rest) =
      some (print v ++ (ms.flatMap (fun m => ',' :: memberText print m) ++ '}' :: rest)) := by
    simp only [listText, memberText, hcs, List.append_assoc, List.cons_append, List.nil_append] at hkey ⊢
    rw [afterEmbeddedKey?, hskip, hkey]
    exact if_pos rfl
  rw [objectTail, hafter, expandWith, if_pos rfl]
  by_cases hs : ∃ s, v = .str s
  · obtain ⟨s, rfl⟩ := hs
    show (embeddedText embedded (print (.str s) ++ _)).toOption = _
    rw [print, printStr, List.append_assoc, List.cons_append, List.cons_append, List.nil_append, embeddedText,
      string_print]
    show (embedded s.toList >>= _).toOption = _
    rw [toOption_bind]
    cases ms with
    | nil =>
      have hend : expect ['}'] (skipSpace ('}' :: rest)) = .ok rest := by
        rw [skipSpace_cons (by decide)]
        simp [expect]
      show (embeddedValue embedded s >>= fun v => (expect ['}'] (skipSpace ('}' :: rest)) >>= _).toOption) = _
      rw [hend]
      show _ = (embeddedValue embedded s).map _
      cases embeddedValue embedded s <;> rfl
    | cons m ms =>
      show (embeddedValue embedded s >>= fun v => (expect ['}'] (skipSpace (',' :: _)) >>= _).toOption) = none
      rw [skipSpace_cons (by decide)]
      cases embeddedValue embedded s <;> rfl
  · have hne : c ≠ '"' := fun hc => hs (hquote hc)
    have hfail : embeddedText embedded (print v ++ (ms.flatMap (fun m => ',' :: memberText print m) ++ '}' :: rest)) =
        .error .malformed := by
      rw [hcs, List.cons_append, embeddedText]
      rintro _ ⟨⟩
      exact hne rfl
    show (embeddedText embedded _).toOption = _
    rw [hfail]
    cases v with
    | str s => exact absurd ⟨s, rfl⟩ hs
    | _ => rfl

/-- The text of an object that begins with the key of embedded text is read to what it stands for. -/
theorem value_print_embedded (d : Nat) {v : Json} (hwhole : Whole v) (ms : List (String × Json)) (rest : List Char) :
    (value embedded (d + 1) (print (.obj ((embeddedKey, v) :: ms)) ++ rest)).toOption =
      (expandWith (embeddedValue embedded) (.obj ((embeddedKey, v) :: ms))).map fun w => (w, rest) := by
  rw [print_obj, List.cons_append, value, valueWith, objectTail_embedded embedded (value embedded d) v hwhole ms rest]

/-- The text of an object that does not begin with the key of embedded text is read member by member. -/
theorem value_print_members {d : Nat} {f : Json → Option Json} {members : List (String × Json)}
    (hwhole : WholeMembers members) (hfirst : ∀ m ∈ members.head?, m.1 ≠ embeddedKey)
    (h : ∀ m ∈ members, ReadsItem '}' (value embedded d) print f m.2) (rest : List Char) :
    (value embedded (d + 1) (print (.obj members) ++ rest)).toOption =
      (members.mapM fun m => (f m.2).map fun w => (m.1, w)).map fun ms => (object ms, rest) := by
  rw [print_obj, List.cons_append, value, valueWith, objectTail, afterEmbeddedKey?_print hwhole hfirst]
  show (Json.members (value embedded d) _ >>= _).toOption = _
  rw [toOption_bind, members_print members rest h]
  cases members.mapM fun m => (f m.2).map fun w => (m.1, w) <;> rfl

/-- As `value_print_members`, for members that are read to what `readBack` says. -/
private theorem value_print_obj {d : Nat} {members : List (String × Json)} (hwhole : WholeMembers members)
    (hplain : ∀ m ∈ members.head?, m.1 ≠ embeddedKey)
    (h : ∀ m ∈ members, ReadsItem '}' (value embedded d) print (readBack embedded d) m.2) (rest : List Char) :
    (value embedded (d + 1) (print (.obj members) ++ rest)).toOption =
      if depthMembers members ≤ d then
        (expandMembersWith (embeddedValue embedded) members).map fun ms => (object ms, rest)
      else none := by
  rw [value_print_members embedded hwhole hplain h, mapM_readBack_members]
  split <;> rfl

mutual
/-- The text of a whole value is read to what `readBack` says, whatever follows it. -/
theorem value_print : (v : Json) → (d : Nat) → Sorted v → Whole v → (rest : List Char) → EndsNumber rest →
    (value embedded d (print v ++ rest)).toOption = (readBack embedded d v).map fun w => (w, rest)
  | .null, d, _, _, rest, _ => by
    obtain ⟨array, object, hvalue⟩ := value_eq_valueWith embedded d
    simp [hvalue, print, valueWith, expect, readBack, depth, expandWith, Except.toOption, bind, Except.bind]
  | .bool b, d, _, _, rest, _ => by
    obtain ⟨array, object, hvalue⟩ := value_eq_valueWith embedded d
    cases b <;>
      simp [hvalue, print, valueWith, expect, readBack, depth, expandWith, Except.toOption, bind, Except.bind]
  | .str s, d, _, _, rest, _ => by
    obtain ⟨array, object, hvalue⟩ := value_eq_valueWith embedded d
    rw [hvalue, print, printStr, List.append_assoc, List.cons_append, List.cons_append, List.nil_append, valueWith,
      string_print]
    simp [readBack, depth, expandWith, Except.toOption, bind, Except.bind]
  | .num (.int n hn), d, _, _, rest, hrest => by
    obtain ⟨array, object, hvalue⟩ := value_eq_valueWith embedded d
    rw [hvalue, valueWith_num array object n hn hrest]
    simp [readBack, depth, expandWith, Except.toOption]
  | .num (.float x), d, _, h, _, _ => by simp [Whole] at h
  | .arr items, d, hsorted, hwhole, rest, _ => by
    rw [Sorted] at hsorted
    rw [Whole] at hwhole
    cases d with
    | zero => simp [print_arr, value, scalar, valueWith, refuse, readBack, depth, Except.toOption]
    | succ d =>
      rw [print_arr, List.cons_append, value, valueWith, toOption_bind,
        items_print items rest (readsItem_items items d hsorted hwhole), mapM_readBack, readBack, depth, expandWith]
      by_cases hdepth : depthItems items ≤ d
      · cases expandItemsWith (embeddedValue embedded) items <;> simp [hdepth, Except.toOption]
      · simp [hdepth]
  | .obj members, d, hsorted, hwhole, rest, _ => by
    rw [Sorted] at hsorted
    rw [Whole] at hwhole
    cases d with
    | zero => simp [print_obj, value, scalar, valueWith, refuse, readBack, depth, Except.toOption]
    | succ d =>
      -- The reader looks at the first key in the text, which is the least one as the members are in order.
      by_cases hplain : ∀ m ∈ members.head?, m.1 ≠ embeddedKey
      · rw [value_print_obj embedded hwhole hplain (readsItem_members members d hsorted.2 hwhole), readBack, depth,
          expandWith_obj hplain]
        by_cases hdepth : depthMembers members ≤ d
        · cases hmembers : expandMembersWith (embeddedValue embedded) members with
          | none => simp [hdepth]
          | some ms => simp [hdepth, object_of_keys hsorted.1 (keys_expandMembersWith hmembers)]
        · simp [hdepth]
      · cases members with
        | nil => simp at hplain
        | cons m ms =>
          obtain ⟨key, v⟩ := m
          obtain rfl : key = embeddedKey := by simpa using hplain
          rw [WholeMembers] at hwhole
          rw [value_print_embedded embedded d hwhole.1, readBack, expandWith, if_pos rfl]
          cases hstring : embeddedString? v ms with
          | none => simp
          | some s =>
            have hdepth : depth (.obj ((embeddedKey, v) :: ms)) ≤ d + 1 := by
              unfold embeddedString? at hstring
              split at hstring
              · simp [depth, depthMembers]
              · cases hstring
            simp [hdepth]

theorem readsItem_items : (items : List Json) → (d : Nat) → SortedItems items → WholeItems items →
    ∀ v ∈ items, ReadsItem ']' (value embedded d) print (readBack embedded d) v
  | [], _, _, _ => by simp
  | v :: rest, d, hsorted, hwhole => by
    rw [SortedItems] at hsorted
    rw [WholeItems] at hwhole
    intro w hw
    rcases List.mem_cons.1 hw with hw | hw
    · rw [hw]
      obtain ⟨c, cs, hcs, hspace, hclose, -⟩ := print_begins v hwhole.1
      refine ⟨⟨c, cs, hcs, hspace, hclose⟩, fun c rest hc => value_print v d hsorted.1 hwhole.1 _ ?_⟩
      rcases hc with rfl | rfl <;> simp [EndsNumber]
    · exact readsItem_items rest d hsorted.2 hwhole.2 w hw

theorem readsItem_members : (members : List (String × Json)) → (d : Nat) → SortedMembers members →
    WholeMembers members → ∀ m ∈ members, ReadsItem '}' (value embedded d) print (readBack embedded d) m.2
  | [], _, _, _ => by simp
  | (key, v) :: rest, d, hsorted, hwhole => by
    rw [SortedMembers] at hsorted
    rw [WholeMembers] at hwhole
    intro m hm
    rcases List.mem_cons.1 hm with hm | hm
    · rw [hm]
      obtain ⟨c, cs, hcs, hspace, -, hclose, -⟩ := print_begins v hwhole.1
      refine ⟨⟨c, cs, hcs, hspace, hclose⟩, fun c rest hc => value_print v d hsorted.1 hwhole.1 _ ?_⟩
      rcases hc with rfl | rfl <;> simp [EndsNumber]
    · exact readsItem_members rest d hsorted.2 hwhole.2 m hm
end

/-- The members of an object are read in any order, if none of them is an embedded text. -/
theorem value_print_object {d : Nat} {members : List (String × Json)} (hsorted : SortedMembers members)
    (hwhole : WholeMembers members) (hplain : PlainMembers members) (hfirst : ∀ m ∈ members.head?, m.1 ≠ embeddedKey)
    (hdepth : depthMembers members ≤ d) (rest : List Char) :
    (value embedded (d + 1) (print (.obj members) ++ rest)).toOption = some (object members, rest) := by
  rw [value_print_obj embedded hwhole hfirst (readsItem_members embedded members d hsorted hwhole), if_pos hdepth,
    expandMembersWith_of_plain members hplain]
  rfl

end

end ApiClient.Json
