import ApiClient.Proofs.Json.Scalar

/-!
# Printed lists are read item by item

If a reader, put before any printed item, reads from it what `f` says and stops right after it, then a list of such
items between brackets is read to the list of the results, and refused where `f` refuses one of them
(`enclosed_print`).  Arrays and objects are two cases of this (`items_print`, `members_print`).
-/

namespace ApiClient.Json

/-! ### Results -/

theorem toOption_bind {α β : Type} (x : Except Fault α) (f : α → Except Fault β) :
    (x >>= f).toOption = x.toOption >>= fun a => (f a).toOption := by
  cases x <;> rfl

theorem eq_ok_of_toOption {α : Type} {x : Except Fault α} {a : α} (h : x.toOption = some a) : x = .ok a := by
  cases x with
  | error => cases h
  | ok b => exact congrArg Except.ok (Option.some.inj h)

/-! ### Blanks -/

theorem skipSpace_cons {c : Char} (h : isSpace c = false) (cs : List Char) : skipSpace (c :: cs) = c :: cs := by
  simp [skipSpace, h]

/-! ### Items between brackets -/

section
variable {α β : Type} {close : Char} {item : Reader β} {text : α → List Char} {f : α → Option β}

/-- `item` reads from the text of `x` what `f` says, and stops at the comma or bracket after it.  The text begins with
neither a blank nor the bracket. -/
structure ReadsItem (close : Char) (item : Reader β) (text : α → List Char) (f : α → Option β) (x : α) : Prop where
  begins : ∃ c cs, text x = c :: cs ∧ isSpace c = false ∧ c ≠ close
  reads : ∀ c rest, c = ',' ∨ c = close → (item (text x ++ c :: rest)).toOption = (f x).map fun w => (w, c :: rest)

private theorem skipSpace_text {x : α} (h : ReadsItem close item text f x) (rest : List Char) :
    skipSpace (text x ++ rest) = text x ++ rest := by
  obtain ⟨c, cs, hcs, hspace, -⟩ := h.begins
  rw [hcs, List.cons_append, skipSpace_cons hspace]

/-- The reader of one more item, refused where `f` refuses it. -/
private theorem pushItem_text {x : α} (h : ReadsItem close item text f x) (acc : List β) {c : Char}
    (hc : c = ',' ∨ c = close) (rest : List Char) :
    (pushItem item acc (skipSpace (text x ++ c :: rest))).toOption = (f x).map fun w => (w :: acc, c :: rest) := by
  rw [skipSpace_text h, pushItem, toOption_bind, h.reads c rest hc]
  cases f x <;> rfl

theorem moreItems_print (hspace : isSpace close = false) (hcomma : close ≠ ',') (xs : List α) (x : α) (fuel : Nat)
    (acc : List β) (rest : List Char) (h : ∀ y ∈ x :: xs, ReadsItem close item text f y) (hfuel : xs.length < fuel) :
    (moreItems close (pushItem item) fuel acc
      (text x ++ (xs.flatMap (fun y => ',' :: text y) ++ close :: rest))).toOption =
      ((x :: xs).mapM f).map fun ws => (ws.reverse ++ acc, rest) := by
  -- What was read goes to the front of `acc`; each further item uses up one unit of fuel.
  induction xs generalizing x fuel acc with
  | nil =>
    obtain ⟨fuel, rfl⟩ : ∃ n, fuel = n + 1 := ⟨fuel - 1, by simp at hfuel; omega⟩
    have hpush := pushItem_text (h x (by simp)) acc (.inr rfl) rest
    rw [moreItems, toOption_bind, List.flatMap_nil, List.nil_append, hpush]
    cases hx : f x with
    | none => simp [hx]
    | some w => simp [hx, skipSpace_cons hspace, hcomma, Except.toOption]
  | cons y ys ih =>
    obtain ⟨fuel, rfl⟩ : ∃ n, fuel = n + 1 := ⟨fuel - 1, by simp at hfuel; omega⟩
    have hpush := pushItem_text (h x (by simp)) acc (.inl rfl)
      (text y ++ (ys.flatMap (fun y => ',' :: text y) ++ close :: rest))
    have hrest := fun w =>
      ih y fuel (w :: acc) (fun z hz => h z (List.mem_cons_of_mem _ hz)) (by simp at hfuel; omega)
    rw [moreItems, toOption_bind, List.flatMap_cons, List.append_assoc, List.cons_append, hpush]
    cases hx : f x with
    | none => simp [hx]
    | some w =>
      show (moreItems close (pushItem item) fuel (w :: acc) _).toOption = _
      rw [hrest w]
      cases hys : (y :: ys).mapM f <;> simp [List.mapM_cons, hx, hys]

/-- The text of a list without its opening bracket. -/
def listText (close : Char) (text : α → List Char) : List α → List Char
  | [] => [close]
  | x :: xs => text x ++ (xs.flatMap (fun y => ',' :: text y) ++ [close])

/-- The text of a list is long enough to serve as fuel. -/
private theorem length_lt_listText (close : Char) (text : α → List Char) (x : α) (xs : List α) (rest : List Char) :
    xs.length < (text x ++ (xs.flatMap (fun y => ',' :: text y) ++ close :: rest)).length := by
  have hle : xs.length ≤ (xs.flatMap fun y => ',' :: text y).length := by
    induction xs with
    | nil => simp
    | cons y ys ih =>
      rw [List.flatMap_cons, List.length_append, List.length_cons, List.length_cons]
      omega
  simp only [List.length_append, List.length_cons]
  omega

theorem enclosed_print (hspace : isSpace close = false) (hcomma : close ≠ ',') (xs : List α) (rest : List Char)
    (h : ∀ x ∈ xs, ReadsItem close item text f x) :
    (enclosed close (pushItem item) [] (listText close text xs ++ rest)).toOption =
      (xs.mapM f).map fun ws => (ws.reverse, rest) := by
  cases xs with
  | nil => simp [listText, enclosed, skipSpace_cons hspace, Except.toOption]
  | cons x xs =>
    obtain ⟨c, cs, hcs, hc, hne⟩ := (h x (by simp)).begins
    have htext : listText close text (x :: xs) ++ rest =
        text x ++ (xs.flatMap (fun y => ',' :: text y) ++ close :: rest) := by
      simp [listText]
    have hmore := moreItems_print hspace hcomma xs x _ [] rest h (length_lt_listText close text x xs rest)
    simp only [List.append_nil] at hmore
    rw [htext, enclosed, skipSpace_text (h x (by simp)), ← hmore]
    rw [hcs, List.cons_append]
    simp [hne]

end

/-! ### Items that change a state -/

section
variable {α σ : Type} {close : Char} {item : σ → Reader σ} {text : α → List Char}

/-- `state` gives the state after the items of every list.  After each part of `xs` the next item is read in that
state, and the reader stops at the comma or bracket after it. -/
structure ReadsStates (close : Char) (item : σ → Reader σ) (text : α → List Char) (state : List α → σ) (xs : List α) :
    Prop where
  begins : ∀ x ∈ xs, ∃ c cs, text x = c :: cs ∧ isSpace c = false ∧ c ≠ close
  reads : ∀ before x after, xs = before ++ x :: after → ∀ c rest, c = ',' ∨ c = close →
    item (state before) (text x ++ c :: rest) = .ok (state (before ++ [x]), c :: rest)

private theorem ReadsStates.skipSpace_text {state : List α → σ} {xs : List α}
    (h : ReadsStates close item text state xs) {x : α} (hx : x ∈ xs) (rest : List Char) :
    skipSpace (text x ++ rest) = text x ++ rest := by
  obtain ⟨c, cs, hcs, hspace, -⟩ := h.begins x hx
  rw [hcs, List.cons_append, skipSpace_cons hspace]

theorem moreItems_states (hspace : isSpace close = false) (hcomma : close ≠ ',') {state : List α → σ} {xs : List α}
    (h : ReadsStates close item text state xs) (before : List α) (x : α) (after : List α)
    (heq : xs = before ++ x :: after)
    (fuel : Nat) (hfuel : after.length < fuel) (rest : List Char) :
    moreItems close item fuel (state before) (text x ++ (after.flatMap (fun y => ',' :: text y) ++ close :: rest)) =
      .ok (state xs, rest) := by
  -- The items that are left are one fewer with every step, those that were read are one more.
  induction after generalizing before x fuel with
  | nil =>
    obtain ⟨fuel, rfl⟩ : ∃ n, fuel = n + 1 := ⟨fuel - 1, by simp at hfuel; omega⟩
    have hread := h.reads before x [] heq close rest (.inr rfl)
    rw [moreItems, List.flatMap_nil, List.nil_append, h.skipSpace_text (by simp [heq]), hread, heq]
    simp [bind, Except.bind, skipSpace_cons hspace, hcomma]
  | cons y ys ih =>
    obtain ⟨fuel, rfl⟩ : ∃ n, fuel = n + 1 := ⟨fuel - 1, by simp at hfuel; omega⟩
    have hread := h.reads before x (y :: ys) heq ','
      (text y ++ (ys.flatMap (fun y => ',' :: text y) ++ close :: rest)) (.inl rfl)
    have hrest := ih (before ++ [x]) y (by rw [heq]; simp) fuel (by simp at hfuel; omega)
    rw [moreItems, List.flatMap_cons, List.append_assoc, List.cons_append, h.skipSpace_text (by simp [heq]), hread]
    simp only [bind, Except.bind, skipSpace_cons (show isSpace ',' = false by decide), if_true, hrest]

theorem enclosed_states (hspace : isSpace close = false) (hcomma : close ≠ ',') {state : List α → σ} {xs : List α}
    (h : ReadsStates close item text state xs) (rest : List Char) :
    enclosed close item (state []) (listText close text xs ++ rest) = .ok (state xs, rest) := by
  cases xs with
  | nil => simp [listText, enclosed, skipSpace_cons hspace]
  | cons x xs =>
    obtain ⟨c, cs, hcs, hc, hne⟩ := h.begins x List.mem_cons_self
    have htext : listText close text (x :: xs) ++ rest =
        text x ++ (xs.flatMap (fun y => ',' :: text y) ++ close :: rest) := by
      simp [listText]
    have hmore := moreItems_states hspace hcomma h [] x xs rfl _ (length_lt_listText close text x xs rest) rest
    rw [htext, enclosed, h.skipSpace_text List.mem_cons_self, ← hmore, hcs, List.cons_append]
    simp [hne]

end

/-! ### Arrays and objects -/

section
variable {α β : Type} {item : Reader β} {text : α → List Char} {f : α → Option β}

theorem items_print (xs : List α) (rest : List Char) (h : ∀ x ∈ xs, ReadsItem ']' item text f x) :
    (items item (listText ']' text xs ++ rest)).toOption = (xs.mapM f).map fun ws => (ws, rest) := by
  rw [items, toOption_bind, enclosed_print (by decide) (by decide) xs rest h]
  cases xs.mapM f <;> simp [Except.toOption]

/-- The text of a member. -/
def memberText (text : α → List Char) (m : String × α) : List Char := printStr m.1 ++ ':' :: text m.2

/-- A key is read with the colon after it. -/
theorem memberKey_print (key : String) {c : Char} (hc : isSpace c = false) (cs : List Char) :
    memberKey unicodeEscape (printStr key ++ ':' :: c :: cs) = .ok (key, c :: cs) := by
  have hcolon : expect [':'] (':' :: c :: cs) = .ok (c :: cs) := by simp [expect]
  rw [printStr, List.append_assoc, List.cons_append, List.cons_append, List.nil_append, memberKey, string_print]
  show (expect [':'] (skipSpace (':' :: c :: cs)) >>= fun rest => .ok (key, skipSpace rest)) = _
  rw [skipSpace_cons (by decide), hcolon]
  show Except.ok (key, skipSpace (c :: cs)) = _
  rw [skipSpace_cons hc]

theorem readsItem_member {m : String × α} (h : ReadsItem '}' item text f m.2) :
    ReadsItem '}' (member item) (memberText text) (fun m => (f m.2).map fun w => (m.1, w)) m where
  begins := ⟨'"', _, rfl, by decide, by decide⟩
  reads c rest hc := by
    obtain ⟨b, bs, hbs, hspace, -⟩ := h.begins
    have hreads := h.reads c rest hc
    rw [hbs, List.cons_append] at hreads
    rw [memberText, hbs, List.append_assoc, List.cons_append, List.cons_append, member, memberKey_print m.1 hspace]
    show (item (b :: (bs ++ c :: rest)) >>= _).toOption = _
    rw [toOption_bind, hreads]
    cases f m.2 <;> rfl

theorem members_print (ms : List (String × α)) (rest : List Char) (h : ∀ m ∈ ms, ReadsItem '}' item text f m.2) :
    (members item (listText '}' (memberText text) ms ++ rest)).toOption =
      (ms.mapM fun m => (f m.2).map fun w => (m.1, w)).map fun ws => (ws, rest) := by
  rw [members, toOption_bind,
    enclosed_print (by decide) (by decide) ms rest fun m hm => readsItem_member (h m hm)]
  cases ms.mapM fun m => (f m.2).map fun w => (m.1, w) <;> simp [Except.toOption]

end

end ApiClient.Json
