import ApiClient.Proofs.Classification
import ApiClient.Proofs.Text.Utf8
import Mathlib.Algebra.Group.Nat.Defs

/-!
# UTF-8: what stands for broken bytes

Where no character starts, reading puts out one broken piece and goes on behind it.  The piece is the longest part
that begins some character without finishing it, or one byte if no part does (`pieces_of_broken`).  This rests on what
the states of the machine mean: a state within a character is reached exactly by the bytes that begin one
(`begins_iff`), because any value that continues the bits read so far has these bytes and then the owed ones
(`Opens`).

A value written with more bytes than it needs, a surrogate and a value above U+10FFFF begin nothing behind their first
byte, so each of their bytes is a piece of its own (`pieces_form`).
-/

namespace ApiClient.Text.Utf8

/-! ### Steps -/

private theorem start_whole {m n : Nat} (h : start m = .whole n) : n = m ∧ m < 0x80 := by
  unfold start at h
  split at h
  · cases h
    exact ⟨rfl, by assumption⟩
  · repeat' split at h
    all_goals cases h

/-- The ranges of first bytes and what each leaves for the next one. -/
theorem start_begun_cases {m : Nat} {s : Pending} (h : start m = .begun s) :
    (0xC2 ≤ m ∧ m < 0xE0 ∧ s = ⟨1, 0x80, 0xBF, m - 0xC0⟩) ∨
    (m = 0xE0 ∧ s = ⟨2, 0xA0, 0xBF, 0⟩) ∨
    (m = 0xED ∧ s = ⟨2, 0x80, 0x9F, 13⟩) ∨
    (0xE0 < m ∧ m < 0xF0 ∧ m ≠ 0xED ∧ s = ⟨2, 0x80, 0xBF, m - 0xE0⟩) ∨
    (m = 0xF0 ∧ s = ⟨3, 0x90, 0xBF, 0⟩) ∨
    (0xF0 < m ∧ m < 0xF4 ∧ s = ⟨3, 0x80, 0xBF, m - 0xF0⟩) ∨
    (m = 0xF4 ∧ s = ⟨3, 0x80, 0x8F, 4⟩) := by
  unfold start at h
  split at h
  · cases h
  split at h
  · cases h
  split at h
  · cases h
    exact .inl ⟨by omega, by omega, rfl⟩
  split at h
  · cases h
    exact .inr (.inl ⟨by assumption, rfl⟩)
  split at h
  · cases h
    exact .inr (.inr (.inl ⟨by assumption, rfl⟩))
  split at h
  · cases h
    exact .inr (.inr (.inr (.inl ⟨by omega, by omega, by assumption, rfl⟩)))
  split at h
  · cases h
    exact .inr (.inr (.inr (.inr (.inl ⟨by assumption, rfl⟩))))
  split at h
  · cases h
    exact .inr (.inr (.inr (.inr (.inr (.inl ⟨by omega, by assumption, rfl⟩)))))
  split at h
  · cases h
    exact .inr (.inr (.inr (.inr (.inr (.inr ⟨by assumption, rfl⟩)))))
  · cases h

/-- What a byte between characters does. -/
theorem stepFirst_cases (b : UInt8) :
    (b.toNat < 0x80 ∧ stepFirst b = ([some (Char.ofNat b.toNat)], none)) ∨
    (∃ s, start b.toNat = .begun s ∧ stepFirst b = ([], some s)) ∨
    (start b.toNat = .broken ∧ stepFirst b = ([none], none)) := by
  unfold stepFirst
  cases h : start b.toNat with
  | whole n =>
    obtain ⟨rfl, hb⟩ := start_whole h
    exact .inl ⟨hb, rfl⟩
  | begun s => exact .inr (.inl ⟨s, rfl, rfl⟩)
  | broken => exact .inr (.inr ⟨rfl, rfl⟩)

/-- What a byte within a character does. -/
theorem step_some_cases (b : UInt8) (s : Pending) :
    (s.low ≤ b.toNat ∧ b.toNat ≤ s.high ∧
      ((s.owed ≤ 1 ∧ step b (some s) = ([some (Char.ofNat (s.value * 64 + (b.toNat - 0x80)))], none)) ∨
      (1 < s.owed ∧ step b (some s) = ([], some ⟨s.owed - 1, 0x80, 0xBF, s.value * 64 + (b.toNat - 0x80)⟩)))) ∨
    (step b (some s) = (none :: (stepFirst b).1, (stepFirst b).2)) := by
  unfold step
  by_cases hrange : s.low ≤ b.toNat ∧ b.toNat ≤ s.high
  · left
    refine ⟨hrange.1, hrange.2, ?_⟩
    by_cases howed : s.owed ≤ 1
    · exact .inl ⟨howed, by simp [hrange, howed]⟩
    · exact .inr ⟨by omega, by simp [hrange, howed]⟩
  · right
    simp only [hrange, if_false]

/-- A byte that puts nothing out leaves a character unfinished. -/
private theorem isSome_step {b : UInt8} {state : Option Pending} (h : (step b state).1 = []) :
    (step b state).2.isSome := by
  cases state with
  | none =>
    unfold step at h ⊢
    rcases stepFirst_cases b with ⟨-, heq⟩ | ⟨s, -, heq⟩ | ⟨-, heq⟩ <;> simp [heq] at h ⊢
  | some s =>
    rcases step_some_cases b s with ⟨-, -, ⟨-, heq⟩ | ⟨-, heq⟩⟩ | heq <;> simp [heq] at h ⊢

/-! ### Reading a part of the input -/

/-- What reading `bs` from a state puts out, and the state it leaves. -/
def run : Option Pending → List UInt8 → List Piece × Option Pending
  | state, [] => ([], state)
  | state, b :: rest =>
    let next := step b state
    let last := run next.2 rest
    (next.1 ++ last.1, last.2)

theorem piecesFrom_append (state : Option Pending) (xs ys : List UInt8) :
    piecesFrom state (xs ++ ys) = (run state xs).1 ++ piecesFrom (run state xs).2 ys := by
  induction xs generalizing state with
  | nil => rfl
  | cons b rest ih => simp only [List.cons_append, piecesFrom, run, ih, List.append_assoc]

theorem run_append (state : Option Pending) (xs ys : List UInt8) :
    run state (xs ++ ys) = ((run state xs).1 ++ (run (run state xs).2 ys).1, (run (run state xs).2 ys).2) := by
  induction xs generalizing state with
  | nil => rfl
  | cons b rest ih => simp only [List.cons_append, run, ih, List.append_assoc]

private theorem isSome_run {b : UInt8} {rest : List UInt8} {state : Option Pending}
    (h : (run state (b :: rest)).1 = []) : (run state (b :: rest)).2.isSome := by
  induction rest generalizing b state with
  | nil =>
    rw [run, run, List.append_nil] at h
    exact isSome_step h
  | cons c rest ih =>
    rw [run, List.append_eq_nil_iff] at h
    exact ih h.2

/-- Something is put out by any bytes, and by the end if a character is unfinished. -/
private theorem piecesFrom_ne_nil {state : Option Pending} {bs : List UInt8} (h : bs ≠ [] ∨ state.isSome) :
    piecesFrom state bs ≠ [] := by
  induction bs generalizing state with
  | nil =>
    have hstate : state.isSome := h.resolve_left fun hne => hne rfl
    simp [piecesFrom, hstate]
  | cons b rest ih =>
    intro hnil
    rw [piecesFrom, List.append_eq_nil_iff] at hnil
    exact ih (.inr (isSome_step hnil.1)) hnil.2

/-! ### Forms of values -/

/-- The last `k` bytes of the form of a value, six bits in each. -/
def tail : Nat → Nat → List UInt8
  | 0, _ => []
  | k + 1, n => UInt8.ofNat (0x80 + n / 64 ^ k % 64) :: tail k n

/-- The form of a value with `k` bytes behind the first one, for `k` from 1 to 5. -/
def form (k n : Nat) : List UInt8 := UInt8.ofNat (0x100 - 2 ^ (7 - k) + n / 64 ^ k) :: tail k n

/-- The values below this have a form with `k` bytes behind the first one. -/
def capacity : Nat → Nat
  | 0 => 0x80
  | 1 => 0x800
  | 2 => 0x10000
  | 3 => 0x200000
  | 4 => 0x4000000
  | _ => 0x80000000

theorem length_tail (k n : Nat) : (tail k n).length = k := by
  induction k with
  | zero => rfl
  | succ k ih => rw [tail, List.length_cons, ih]

private theorem toNat_ofNat {n : Nat} (h : n.isValidChar) : (Char.ofNat n).toNat = n := by
  rw [Char.ofNat, dif_pos h]
  rfl

/-- The bytes of a character are the shortest form of its code point. -/
theorem encodeChar_ofNat {k n : Nat} (hvalid : n.isValidChar) (hlow : 1 ≤ k) (hhigh : k ≤ 3) (hfits : n < capacity k)
    (hshort : capacity (k - 1) ≤ n) : encodeChar (Char.ofNat n) = form k n := by
  have hn := toNat_ofNat hvalid
  unfold encodeChar
  simp only [hn]
  obtain rfl | rfl | rfl : k = 1 ∨ k = 2 ∨ k = 3 := by omega
  · simp only [capacity, Nat.reduceSub] at hfits hshort
    rw [if_neg (by omega), if_pos (by omega)]
    simp [form, tail]
  · simp only [capacity, Nat.reduceSub] at hfits hshort
    rw [if_neg (by omega), if_neg (by omega), if_pos (by omega)]
    simp [form, tail]
  · simp only [capacity, Nat.reduceSub] at hfits hshort
    rw [if_neg (by omega), if_neg (by omega), if_neg (by omega)]
    simp [form, tail]

/-! ### Unfinished characters -/

/-- Bytes that make the state `s`: whatever value continues the bits read so far within the range of the next byte is
a character, and its bytes are these and then those that are owed. -/
structure Opens (bs : List UInt8) (s : Pending) : Prop where
  owed : 0 < s.owed
  low : 0x80 ≤ s.low
  range : s.low ≤ s.high
  high : s.high ≤ 0xBF
  finish : ∀ n, n / 64 ^ s.owed = s.value → s.low ≤ 0x80 + n / 64 ^ (s.owed - 1) % 64 →
    0x80 + n / 64 ^ (s.owed - 1) % 64 ≤ s.high → encodeChar (Char.ofNat n) = bs ++ tail s.owed n

/-- A first byte makes a state if the range of the second one leaves only scalars that need as many bytes. -/
private theorem opens_singleton {b : UInt8} {k low high value : Nat} (hk : 1 ≤ k) (hk' : k ≤ 3) (hlow : 0x80 ≤ low)
    (hrange : low ≤ high) (hhigh : high ≤ 0xBF) (hb : 0x100 - 2 ^ (7 - k) + value = b.toNat)
    (hscalar : ∀ n, n / 64 ^ k = value → low ≤ 0x80 + n / 64 ^ (k - 1) % 64 → 0x80 + n / 64 ^ (k - 1) % 64 ≤ high →
      n.isValidChar ∧ capacity (k - 1) ≤ n ∧ n < capacity k) : Opens [b] ⟨k, low, high, value⟩ := by
  refine ⟨hk, hlow, hrange, hhigh, ?_⟩
  intro n hvalue hn hn'
  obtain ⟨hvalid, hshort, hfits⟩ := hscalar n hvalue hn hn'
  rw [encodeChar_ofNat hvalid hk hk' hfits hshort, form, hvalue, hb, UInt8.ofNat_toNat]
  rfl

private theorem opens_start {b : UInt8} {s : Pending} (h : start b.toNat = .begun s) : Opens [b] s := by
  rcases start_begun_cases h with
    ⟨_, _, rfl⟩ | ⟨_, rfl⟩ | ⟨_, rfl⟩ | ⟨_, _, _, rfl⟩ | ⟨_, rfl⟩ | ⟨_, _, rfl⟩ | ⟨_, rfl⟩
  all_goals
    refine opens_singleton (by simp) (by simp) (by simp) (by simp) (by simp) (by omega) fun n hvalue hlow hhigh => ?_
    simp only [Nat.isValidChar, capacity, Nat.reduceSub, Nat.reducePow] at *
    omega

section
variable {bs : List UInt8} {s : Pending} {b : UInt8}

/-- The value that a byte adds to, with six more bits. -/
private theorem finish_with (h : Opens bs s) (hlow : s.low ≤ b.toNat) (hhigh : b.toNat ≤ s.high) {n : Nat}
    (hn : n / 64 ^ (s.owed - 1) = s.value * 64 + (b.toNat - 0x80)) :
    encodeChar (Char.ofNat n) = bs ++ b :: tail (s.owed - 1) n := by
  have howed : s.owed = s.owed - 1 + 1 := (Nat.sub_add_cancel h.owed).symm
  have hrange := h.high
  have hbase := h.low
  have hvalue : n / 64 ^ s.owed = s.value := by
    rw [howed, Nat.pow_succ, ← Nat.div_div_eq_div_mul, hn]
    omega
  have hbits : 0x80 + n / 64 ^ (s.owed - 1) % 64 = b.toNat := by
    rw [hn]
    omega
  rw [h.finish n hvalue (by rwa [hbits]) (by rwa [hbits])]
  congr 1
  rw [howed, tail, Nat.add_sub_cancel, hbits, UInt8.ofNat_toNat]

private theorem opens_step (h : Opens bs s) {s' : Pending} (hstep : step b (some s) = ([], some s')) :
    Opens (bs ++ [b]) s' := by
  rcases step_some_cases b s with ⟨hlow, hhigh, ⟨-, heq⟩ | ⟨howed, heq⟩⟩ | heq
  · rw [heq] at hstep
    cases hstep
  · rw [heq] at hstep
    cases hstep
    refine ⟨by simp only; omega, by simp, by simp, by simp, fun n hvalue _ _ => ?_⟩
    rw [finish_with h hlow hhigh hvalue, List.append_assoc]
    rfl
  · rw [heq] at hstep
    cases hstep

/-- The last byte of a character makes its bytes complete. -/
private theorem encodeChar_of_last (h : Opens bs s) (howed : s.owed ≤ 1) (hlow : s.low ≤ b.toNat)
    (hhigh : b.toNat ≤ s.high) : ∃ c, encodeChar c = bs ++ [b] := by
  have hone : s.owed = 1 := by
    have := h.owed
    omega
  refine ⟨Char.ofNat (s.value * 64 + (b.toNat - 0x80)), ?_⟩
  rw [finish_with h hlow hhigh (by simp [hone]), hone]
  rfl

end

private theorem opens_run {bs : List UInt8} {s s' : Pending} (h : Opens bs s) {rest : List UInt8}
    (hrun : run (some s) rest = ([], some s')) : Opens (bs ++ rest) s' := by
  induction rest generalizing bs s with
  | nil =>
    cases hrun
    rwa [List.append_nil]
  | cons b rest ih =>
    simp only [run, Prod.mk.injEq, List.append_eq_nil_iff] at hrun
    obtain ⟨⟨hout, hrest⟩, hlast⟩ := hrun
    obtain ⟨t, ht⟩ := Option.isSome_iff_exists.1 (isSome_step hout)
    rw [ht] at hrest hlast
    have hopens := ih (opens_step h (Prod.ext hout ht)) (Prod.ext hrest hlast)
    rwa [List.append_assoc] at hopens

private theorem opens_of_run {bs : List UInt8} {s : Pending} (h : run none bs = ([], some s)) : Opens bs s := by
  cases bs with
  | nil => cases h
  | cons b rest =>
    simp only [run, step, Prod.mk.injEq, List.append_eq_nil_iff] at h
    rcases stepFirst_cases b with ⟨-, heq⟩ | ⟨t, ht, heq⟩ | ⟨-, heq⟩
    · simp [heq] at h
    · rw [heq] at h
      exact opens_run (opens_start ht) (Prod.ext h.1.2 h.2)
    · simp [heq] at h

/-- Some value continues the bits read so far, so the bytes are the first of those of a character. -/
private theorem exists_of_opens {bs : List UInt8} {s : Pending} (h : Opens bs s) :
    ∃ c n, encodeChar c = bs ++ tail s.owed n := by
  obtain ⟨k, hk⟩ : ∃ k, s.owed = k + 1 := ⟨s.owed - 1, (Nat.sub_add_cancel h.owed).symm⟩
  have hbounds := And.intro h.low (And.intro h.range h.high)
  have hn : (s.value * 64 + (s.low - 0x80)) * 64 ^ k / 64 ^ k = s.value * 64 + (s.low - 0x80) :=
    Nat.mul_div_cancel _ (Nat.pow_pos (by decide))
  refine ⟨_, _, h.finish ((s.value * 64 + (s.low - 0x80)) * 64 ^ k) ?_ ?_ ?_⟩
  · rw [hk, Nat.pow_succ, ← Nat.div_div_eq_div_mul, hn]
    omega
  · rw [hk, Nat.add_sub_cancel, hn]
    omega
  · rw [hk, Nat.add_sub_cancel, hn]
    omega

/-- Bytes begin a character if they are the first of its bytes but not all of them. -/
def Begins (bs : List UInt8) : Prop := bs ≠ [] ∧ ∃ c, bs <+: encodeChar c ∧ bs ≠ encodeChar c

/-- Reading is within a character exactly behind the bytes that begin one. -/
theorem begins_iff {bs : List UInt8} : Begins bs ↔ ∃ s, run none bs = ([], some s) := by
  constructor
  · rintro ⟨hne, c, ⟨rest, hrest⟩, hproper⟩
    have hrest' : rest ≠ [] := by
      rintro rfl
      exact hproper (by rwa [List.append_nil] at hrest)
    have hpieces := piecesFrom_encodeChar c []
    rw [List.append_nil, ← hrest, piecesFrom_append] at hpieces
    -- The bytes that are missing put something out, so the character is all of that.
    have hout : (run none bs).1 = [] := by
      rcases List.append_eq_singleton_iff.1 hpieces with ⟨hout, -⟩ | ⟨-, hnil⟩
      · exact hout
      · exact absurd hnil (piecesFrom_ne_nil (.inl hrest'))
    obtain ⟨b, rest', rfl⟩ := List.exists_cons_of_ne_nil hne
    obtain ⟨s, hs⟩ := Option.isSome_iff_exists.1 (isSome_run hout)
    exact ⟨s, Prod.ext hout hs⟩
  · rintro ⟨s, hrun⟩
    have hopens := opens_of_run hrun
    obtain ⟨c, n, hc⟩ := exists_of_opens hopens
    have hne : bs ≠ [] := by
      rintro rfl
      cases hrun
    refine ⟨hne, c, ⟨_, hc.symm⟩, fun heq => ?_⟩
    have hlength := congrArg List.length (heq.trans hc)
    rw [List.length_append, length_tail] at hlength
    have := hopens.owed
    omega

/-! ### Broken pieces -/

/-- `k` is the length of the longest first part of `bs` that begins a character, or one if there is none. -/
def BrokenLength (bs : List UInt8) (k : Nat) : Prop :=
  (∃ p, p <+: bs ∧ Begins p ∧ p.length = k ∧ ∀ q, q <+: bs → Begins q → q.length ≤ k) ∨
    k = 1 ∧ ∀ p, p <+: bs → ¬Begins p

private theorem encodeChar_of_lt {b : UInt8} (h : b.toNat < 0x80) : encodeChar (Char.ofNat b.toNat) = [b] := by
  have hvalid : b.toNat.isValidChar := .inl (by omega)
  rw [encodeChar, toNat_ofNat hvalid]
  simp [h]

/-- Within a character that is not finished, the piece reaches up to the first byte that does not continue it. -/
private theorem piecesFrom_some {p bs : List UInt8} {s : Pending} (hrun : run none p = ([], some s))
    (hnone : ∀ c, ¬encodeChar c <+: p ++ bs) :
    ∃ q rest, bs = q ++ rest ∧ piecesFrom (some s) bs = none :: pieces rest ∧ Begins (p ++ q) ∧
      ∀ r, p ++ r <+: p ++ bs → Begins (p ++ r) → r.length ≤ q.length := by
  induction bs generalizing p s with
  | nil =>
    refine ⟨[], [], rfl, rfl, ?_, ?_⟩
    · rw [List.append_nil]
      exact begins_iff.2 ⟨s, hrun⟩
    · intro r hr _
      rw [List.prefix_append_right_inj, List.prefix_nil] at hr
      simp [hr]
  | cons b rest ih =>
    have hsnoc : run none (p ++ [b]) = ((step b (some s)).1, (step b (some s)).2) := by
      simp only [run_append, hrun, run, List.nil_append, List.append_nil]
    rcases step_some_cases b s with ⟨hlow, hhigh, ⟨howed, -⟩ | ⟨howed, heq⟩⟩ | heq
    · -- The byte is the last of a character.
      obtain ⟨c, hc⟩ := encodeChar_of_last (opens_of_run hrun) howed hlow hhigh
      refine absurd ?_ (hnone c)
      rw [hc]
      exact ⟨rest, by simp⟩
    · rw [heq] at hsnoc
      obtain ⟨q, rest', rfl, hpieces, hbegins, hlongest⟩ :=
        ih hsnoc (by simpa using hnone)
      refine ⟨b :: q, rest', rfl, ?_, by simpa using hbegins, ?_⟩
      · rw [piecesFrom, heq, hpieces]
        rfl
      · intro r hr hr'
        cases r with
        | nil => simp
        | cons x r =>
          rw [List.prefix_append_right_inj, List.cons_prefix_cons] at hr
          obtain ⟨rfl, hr⟩ := hr
          have := hlongest r (by rwa [List.prefix_append_right_inj]) (by simpa using hr')
          simpa using this
    · refine ⟨[], b :: rest, rfl, ?_, ?_, ?_⟩
      · rw [piecesFrom, heq]
        rfl
      · rw [List.append_nil]
        exact begins_iff.2 ⟨s, hrun⟩
      · intro r hr hr'
        cases r with
        | nil => simp
        | cons x r =>
          rw [List.prefix_append_right_inj, List.cons_prefix_cons] at hr
          obtain ⟨rfl, -⟩ := hr
          obtain ⟨s', hs'⟩ := begins_iff.1 hr'
          rw [run_append, hrun, run, heq] at hs'
          simp at hs'

theorem pieces_of_broken {bs : List UInt8} (hne : bs ≠ []) (hnone : ∀ c, ¬encodeChar c <+: bs) :
    ∃ k, 1 ≤ k ∧ BrokenLength bs k ∧ pieces bs = none :: pieces (bs.drop k) := by
  obtain ⟨b, rest, rfl⟩ := List.exists_cons_of_ne_nil hne
  rcases stepFirst_cases b with ⟨hb, -⟩ | ⟨s, -, heq⟩ | ⟨-, heq⟩
  · refine absurd ?_ (hnone (Char.ofNat b.toNat))
    rw [encodeChar_of_lt hb]
    exact ⟨rest, rfl⟩
  · have hrun : run none [b] = ([], some s) := by simp [run, step, heq]
    obtain ⟨q, rest', rfl, hpieces, hbegins, hlongest⟩ := piecesFrom_some hrun hnone
    refine ⟨q.length + 1, by omega, .inl ⟨[b] ++ q, ⟨rest', by simp⟩, hbegins, by simp, ?_⟩, ?_⟩
    · intro r hr hr'
      cases r with
      | nil => simp
      | cons x r =>
        obtain ⟨rfl, -⟩ := List.cons_prefix_cons.1 hr
        have := hlongest r hr hr'
        simpa using this
    · rw [pieces, piecesFrom, step, heq, List.nil_append, hpieces]
      simp
  · refine ⟨1, by omega, .inr ⟨rfl, ?_⟩, ?_⟩
    · intro p hp hbegins
      obtain ⟨s, hs⟩ := begins_iff.1 hbegins
      cases p with
      | nil => cases hs
      | cons x p =>
        obtain ⟨rfl, -⟩ := List.cons_prefix_cons.1 hp
        rw [run, step, heq] at hs
        simp at hs
    · rw [pieces, piecesFrom, step, heq]
      rfl

/-! ### Forms of no character -/

private theorem piecesFrom_broken {b : UInt8} (h : start b.toNat = .broken) (rest : List UInt8) :
    pieces (b :: rest) = none :: pieces rest := by
  rw [pieces, piecesFrom, step, stepFirst, h]
  rfl

private theorem pieces_tail (k n : Nat) (rest : List UInt8) :
    pieces (tail k n ++ rest) = List.replicate k none ++ pieces rest := by
  induction k with
  | zero => rfl
  | succ k ih =>
    have hbyte : (UInt8.ofNat (0x80 + n / 64 ^ k % 64)).toNat = 0x80 + n / 64 ^ k % 64 := toNat_byte (by omega)
    have hbroken : start (UInt8.ofNat (0x80 + n / 64 ^ k % 64)).toNat = .broken := by
      rw [hbyte, start, if_neg (by omega), if_pos (by omega)]
    rw [tail, List.cons_append, piecesFrom_broken hbroken, ih]
    rfl

/-- Behind the first byte of a form that is no character's the second one is out of range. -/
private theorem not_range_of_begun {k n : Nat} (hk : 1 ≤ k) (hk' : k ≤ 5) (hfits : n < capacity k)
    (hbad : n < capacity (k - 1) ∨ ¬n.isValidChar) {s : Pending}
    (h : start (0x100 - 2 ^ (7 - k) + n / 64 ^ k) = .begun s) :
    ¬(s.low ≤ 0x80 + n / 64 ^ (k - 1) % 64 ∧ 0x80 + n / 64 ^ (k - 1) % 64 ≤ s.high) := by
  unfold Nat.isValidChar at hbad
  obtain rfl | rfl | rfl | rfl | rfl : k = 1 ∨ k = 2 ∨ k = 3 ∨ k = 4 ∨ k = 5 := by omega
  all_goals
    simp only [capacity, Nat.reduceSub, Nat.reducePow] at hfits hbad h ⊢
    rcases start_begun_cases h with
      ⟨_, _, rfl⟩ | ⟨_, rfl⟩ | ⟨_, rfl⟩ | ⟨_, _, _, rfl⟩ | ⟨_, rfl⟩ | ⟨_, _, rfl⟩ | ⟨_, rfl⟩
    all_goals
      simp only
      omega

/-- Every byte of a form that is no character's is a piece of its own. -/
theorem pieces_form {k n : Nat} (hk : 1 ≤ k) (hk' : k ≤ 5) (hfits : n < capacity k)
    (hbad : n < capacity (k - 1) ∨ ¬n.isValidChar) (rest : List UInt8) :
    pieces (form k n ++ rest) = List.replicate (k + 1) none ++ pieces rest := by
  have hlead : 0x80 ≤ 0x100 - 2 ^ (7 - k) + n / 64 ^ k ∧ 0x100 - 2 ^ (7 - k) + n / 64 ^ k < 0x100 := by
    obtain rfl | rfl | rfl | rfl | rfl : k = 1 ∨ k = 2 ∨ k = 3 ∨ k = 4 ∨ k = 5 := by omega
    all_goals
      simp only [capacity, Nat.reduceSub, Nat.reducePow] at *
      omega
  have hbyte := toNat_byte hlead.2
  rw [form, List.cons_append, List.replicate_succ, List.cons_append, ← pieces_tail k n]
  rcases stepFirst_cases (UInt8.ofNat (0x100 - 2 ^ (7 - k) + n / 64 ^ k)) with ⟨hwhole, -⟩ | ⟨s, hs, heq⟩ | ⟨hs, -⟩
  · omega
  · obtain ⟨j, rfl⟩ : ∃ j, k = j + 1 := ⟨k - 1, by omega⟩
    have hrange := not_range_of_begun hk hk' hfits hbad (hbyte ▸ hs)
    rw [Nat.add_sub_cancel] at hrange
    have hsecond : (UInt8.ofNat (0x80 + n / 64 ^ j % 64)).toNat = 0x80 + n / 64 ^ j % 64 := toNat_byte (by omega)
    rw [pieces, piecesFrom, step, heq, tail, List.cons_append, List.nil_append, piecesFrom, step, hsecond,
      if_neg hrange]
    rfl
  · exact piecesFrom_broken hs _

/-! ### Lossy text -/

private theorem pieces_eq_cons_iff {bs : List UInt8} {c : Char} {ps : List Piece} :
    pieces bs = some c :: ps ↔ ∃ rest, bs = encodeChar c ++ rest ∧ ps = pieces rest := by
  constructor
  · intro h
    by_cases hstarts : ∃ d, encodeChar d <+: bs
    · obtain ⟨d, rest, rfl⟩ := hstarts
      rw [pieces, piecesFrom_encodeChar] at h
      cases h
      exact ⟨rest, rfl, rfl⟩
    · have hne : bs ≠ [] := by
        rintro rfl
        cases h
      obtain ⟨k, -, -, hbroken⟩ := pieces_of_broken hne (not_exists.1 hstarts)
      rw [hbroken] at h
      cases h
  · rintro ⟨rest, rfl, rfl⟩
    exact piecesFrom_encodeChar c rest

theorem decodeLossy_encode_append (cs : List Char) (bs : List UInt8) :
    decodeLossy (encode cs ++ bs) = cs ++ decodeLossy bs := by
  rw [decodeLossy, pieces_encode_append, List.map_append, decodeLossy]
  simp [Function.comp_def]

end ApiClient.Text.Utf8

namespace ApiClient.Content

open Text.Utf8

/-- A body that is decoded as text gives the text of its bytes: the characters that they hold, each from its own
bytes, and U+FFFD for every broken piece. -/
theorem text_decoded_lossily :
    (∀ (r : Http.Response) (contentType : String), r.headers.IsFirst "content-type" contentType →
      Decoding.ofContentType contentType = .text →
        ofResponse r = .text (String.ofList (decodeLossy r.body)) ∧ ∀ s, r.body = bytes s → ofResponse r = .text s) ∧
    (∀ cs bs, decodeLossy (encode cs ++ bs) = cs ++ decodeLossy bs) ∧
    (∀ bs, decodeLossy (encode (decodeLossy bs)) = decodeLossy bs) ∧
    (∀ bs, bs ≠ [] → (∀ c, ¬encodeChar c <+: bs) →
      ∃ k, 1 ≤ k ∧ BrokenLength bs k ∧ decodeLossy bs = Char.ofNat 0xFFFD :: decodeLossy (bs.drop k)) ∧
    (∀ bs c ps, pieces bs = some c :: ps ↔ ∃ rest, bs = encodeChar c ++ rest ∧ ps = pieces rest) ∧
    (∀ k n, 1 ≤ k → k ≤ 5 → n < capacity k →
      n < capacity (k - 1) ∨ 0xD800 ≤ n ∧ n ≤ 0xDFFF ∨ 0x10FFFF < n →
        ∀ bs, decodeLossy (form k n ++ bs) = List.replicate (k + 1) (Char.ofNat 0xFFFD) ++ decodeLossy bs) := by
  refine ⟨?_, decodeLossy_encode_append, fun bs => decodeLossy_encode _, ?_, fun bs c ps => pieces_eq_cons_iff, ?_⟩
  · intro r contentType hfirst htext
    have hcontent : ofResponse r = .text (String.ofList (decodeLossy r.body)) := by
      rw [ofResponse, Http.Headers.find?_eq_some_iff.2 hfirst]
      simp only [htext, ofBytes]
    refine ⟨hcontent, fun s hs => ?_⟩
    rw [hcontent, hs, bytes, decodeLossy_encode, String.ofList_toList]
  · intro bs hne hnone
    obtain ⟨k, hk, hlength, hpieces⟩ := pieces_of_broken hne hnone
    refine ⟨k, hk, hlength, ?_⟩
    rw [decodeLossy, hpieces]
    rfl
  · intro k n hk hk' hfits hbad bs
    have hinvalid : n < capacity (k - 1) ∨ ¬n.isValidChar := by
      unfold Nat.isValidChar
      omega
    rw [decodeLossy, pieces_form hk hk' hfits hinvalid, List.map_append, List.map_replicate]
    rfl

/-- Two bytes of a character that needs three, an ASCII letter, and a surrogate. -/
example : decodeLossy [0xE2, 0x82, 0x41, 0xED, 0xA0, 0x80] = ['\uFFFD', 'A', '\uFFFD', '\uFFFD', '\uFFFD'] := by
  decide +kernel

end ApiClient.Content
