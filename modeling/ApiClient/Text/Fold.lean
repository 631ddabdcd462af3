/-!
# ASCII letter case

Header names, media types and method names are compared without regard to the case of ASCII letters; every other
character has to agree exactly.  Key facts: `SameName` is an equivalence, and it is decidable; `toNat_toLower`, the
letters from `A` to `Z` move by 32 and nothing else does; `toLower_eq_iff`, a character before the letters is the
lower case of itself alone; `isAlphanum_iff`, the ranges of letters and digits.
-/

namespace ApiClient.Text

/-- `s` with its ASCII letters in lower case. -/
def lower (s : String) : String := String.ofList (s.toList.map Char.toLower)

/-- `s` with its ASCII letters in upper case. -/
def upper (s : String) : String := String.ofList (s.toList.map Char.toUpper)

/-- Two texts are the same name when they differ at most in the case of ASCII letters. -/
def SameName (a b : String) : Prop := lower a = lower b

instance (a b : String) : Decidable (SameName a b) := inferInstanceAs (Decidable (lower a = lower b))

theorem SameName.refl (a : String) : SameName a a := Eq.refl (lower a)

theorem SameName.symm {a b : String} (h : SameName a b) : SameName b a := Eq.symm h

theorem SameName.trans {a b c : String} (h₁ : SameName a b) (h₂ : SameName b c) : SameName a c := Eq.trans h₁ h₂

/-! ### The lower case of a character -/

theorem toNat_toLower (c : Char) :
    c.toLower.toNat = if 65 ≤ c.toNat ∧ c.toNat ≤ 90 then c.toNat + 32 else c.toNat := by
  unfold Char.toLower
  split
  · rename_i hupper
    have hlow : 65 ≤ c.toNat := UInt32.le_iff_toNat_le.1 hupper.1
    have hhigh : c.toNat ≤ 90 := UInt32.le_iff_toNat_le.1 hupper.2
    rw [if_pos ⟨hlow, hhigh⟩]
    show (c.toNat + 32) % 4294967296 = c.toNat + 32
    omega
  · rename_i hupper
    refine (if_neg ?_).symm
    rintro ⟨hlow, hhigh⟩
    exact hupper ⟨UInt32.le_iff_toNat_le.2 hlow, UInt32.le_iff_toNat_le.2 hhigh⟩

theorem toLower_eq_iff {c d : Char} (hd : d.toNat < 65) : c.toLower = d ↔ c = d := by
  rw [← Char.toNat_inj, ← Char.toNat_inj, toNat_toLower]
  split <;> omega

theorem toLower_toLower (c : Char) : c.toLower.toLower = c.toLower := by
  rw [← Char.toNat_inj, toNat_toLower, toNat_toLower]
  split
  · rw [if_neg (by omega)]
  · rfl

theorem sameName_lower (name : String) : SameName (lower name) name := by
  rw [SameName, lower, lower, String.toList_ofList, List.map_map]
  congr 1
  exact List.map_congr_left fun c _ => toLower_toLower c

/-! ### Letters and digits -/

theorem isAlphanum_iff {c : Char} :
    c.isAlphanum = true ↔
      48 ≤ c.toNat ∧ c.toNat ≤ 57 ∨ 65 ≤ c.toNat ∧ c.toNat ≤ 90 ∨ 97 ≤ c.toNat ∧ c.toNat ≤ 122 := by
  have hdigit : c.isDigit = true ↔ 48 ≤ c.toNat ∧ c.toNat ≤ 57 :=
    Bool.and_eq_true_iff.trans (and_congr decide_eq_true_iff decide_eq_true_iff)
  have hupper : c.isUpper = true ↔ 65 ≤ c.toNat ∧ c.toNat ≤ 90 := decide_eq_true_iff
  have hlower : c.isLower = true ↔ 97 ≤ c.toNat ∧ c.toNat ≤ 122 :=
    Bool.and_eq_true_iff.trans (and_congr decide_eq_true_iff decide_eq_true_iff)
  change (c.isUpper || c.isLower || c.isDigit) = true ↔ _
  rw [Bool.or_eq_true, Bool.or_eq_true, hdigit, hupper, hlower]
  omega

theorem isAlphanum_toLower {c : Char} (h : c.isAlphanum = true) : c.toLower.isAlphanum = true := by
  rw [isAlphanum_iff] at h ⊢
  rw [toNat_toLower]
  split <;> omega

end ApiClient.Text
