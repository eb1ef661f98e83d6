import RamCube.Server.Text

/-! # Which numbers are accepted (util.c)

`safe_strtoul`, `safe_strtol`, `safe_strtoull` and `safe_strtoll` read a text the same
way, with a `long` or a `long long` of 64 bits, and differ in the type of the result.
`Numeral` says what a text denotes; `scan_exact_iff` says for which texts each of them
tells just that. -/
namespace RamCube

/-! ## What a text denotes -/

inductive NumberSign where
  | none
  | plus
  | minus
deriving DecidableEq

namespace NumberSign

def text : NumberSign → Bytes
  | none => []
  | plus => [43]
  | minus => [45]

def negative : NumberSign → Bool
  | minus => true
  | _ => false

end NumberSign

/-- The number that digits denote, below zero behind a minus. -/
def signedNumber (negative : Bool) (n : Nat) : Int := if negative then -(n : Int) else n

/-- The text is a numeral of `n`: blanks, a sign, digits, and then a blank or the end. -/
def Numeral (s : Bytes) (n : Int) : Prop :=
  ∃ (blanks : Bytes) (sign : NumberSign) (digits rest : Bytes),
    s = blanks ++ (sign.text ++ (digits ++ rest)) ∧ (∀ b ∈ blanks, isSpace b = true) ∧
    digits ≠ [] ∧ (∀ b ∈ digits, isDigit b = true) ∧ rest.head?.all isSpace = true ∧
    n = signedNumber sign.negative (readDigits 0 digits)

/-- What the `strtol` family takes the text for, if it takes it for a number. -/
def strtoNumber (s : Bytes) : Int := signedNumber (strtoullSplit s).1 (strtoMagnitude s)

section

variable {s : Bytes} {b : UInt8} {n : Int}

theorem isDigit_bounds (h : isDigit b = true) : 48 ≤ b.toNat ∧ b.toNat ≤ 57 := by
  simpa [isDigit, UInt8.le_iff_toNat_le] using h

theorem isSpace_bounds (h : isSpace b = true) : b.toNat ≤ 32 := by
  simp only [isSpace, Bool.or_eq_true, beq_iff_eq, Bool.and_eq_true, decide_eq_true_eq, UInt8.le_iff_toNat_le] at h
  have h13 : (13 : UInt8).toNat = 13 := rfl
  obtain rfl | h := h
  · exact Nat.le_refl 32
  · omega

theorem isDigit_not_isSpace (h : isDigit b = true) : isSpace b = false := by
  have hd := isDigit_bounds h
  refine Bool.eq_false_iff.mpr fun hs => ?_
  have := isSpace_bounds hs
  omega

theorem isSpace_not_isDigit (h : isSpace b = true) : isDigit b = false :=
  Bool.eq_false_iff.mpr fun hd => by simp [isDigit_not_isSpace hd] at h

/-- A text that starts with no blank is split at its sign. -/
theorem strtoullSplit_sign (sign : NumberSign) {ds : Bytes} (h : ∀ b ∈ ds.head?, isDigit b = true) :
    strtoullSplit (sign.text ++ ds) = (sign.negative, ds) := by
  cases sign with
  | plus => rfl
  | minus => rfl
  | none =>
    cases ds with
    | nil => rfl
    | cons b ds =>
      have hb : isDigit b = true := h b rfl
      have hd := isDigit_bounds hb
      unfold strtoullSplit
      rw [NumberSign.text, List.nil_append, List.dropWhile_cons_of_neg (by simp [isDigit_not_isSpace hb])]
      split
      · rename_i heq
        cases heq
        exact absurd hd.1 (by decide)
      · rename_i heq
        cases heq
        exact absurd hd.1 (by decide)
      · rfl

theorem strtoullSplit_blanks {blanks : Bytes} (h : ∀ b ∈ blanks, isSpace b = true) :
    strtoullSplit (blanks ++ s) = strtoullSplit s := by
  have hdrop : (blanks ++ s).dropWhile isSpace = s.dropWhile isSpace := List.dropWhile_append_of_pos h
  unfold strtoullSplit
  rw [hdrop]

/-- Every text is blanks, what is left of the sign, and the rest that is read. -/
theorem strtoullSplit_append (s : Bytes) : ∃ (blanks : Bytes) (sign : NumberSign),
    s = blanks ++ (sign.text ++ (strtoullSplit s).2) ∧ (∀ b ∈ blanks, isSpace b = true) ∧
    (strtoullSplit s).1 = sign.negative := by
  have happ := (List.takeWhile_append_dropWhile (p := isSpace) (l := s)).symm
  have hblanks : ∀ b ∈ s.takeWhile isSpace, isSpace b = true := fun b hb => List.mem_takeWhile_imp hb
  unfold strtoullSplit
  split
  · rename_i ds heq
    exact ⟨_, .minus, by rw [heq] at happ; exact happ, hblanks, rfl⟩
  · rename_i ds heq
    exact ⟨_, .plus, by rw [heq] at happ; exact happ, hblanks, rfl⟩
  · exact ⟨_, .none, happ, hblanks, rfl⟩

/-- The family reads the numerals, and takes each for its number. -/
theorem numeral_iff : Numeral s n ↔ strtoEnds s = true ∧ n = strtoNumber s := by
  constructor
  · rintro ⟨blanks, sign, digits, rest, rfl, hblanks, hne, hdigits, hrest, rfl⟩
    have hhead : ∀ b ∈ (digits ++ rest).head?, isDigit b = true := by
      cases digits with
      | nil => exact absurd rfl hne
      | cons d ds => simpa using hdigits d List.mem_cons_self
    have hsplit : strtoullSplit (blanks ++ (sign.text ++ (digits ++ rest))) = (sign.negative, digits ++ rest) := by
      rw [strtoullSplit_blanks hblanks, strtoullSplit_sign sign hhead]
    have hstop : rest.takeWhile isDigit = [] ∧ rest.dropWhile isDigit = rest := by
      cases rest with
      | nil => exact ⟨rfl, rfl⟩
      | cons b bs =>
        have hb : isDigit b = false := isSpace_not_isDigit (by simpa using hrest)
        exact ⟨List.takeWhile_cons_of_neg (by simp [hb]), List.dropWhile_cons_of_neg (by simp [hb])⟩
    have htake : strtoDigits (blanks ++ (sign.text ++ (digits ++ rest))) = digits := by
      rw [strtoDigits, hsplit, List.takeWhile_append_of_pos hdigits, hstop.1, List.append_nil]
    have hdrop : (digits ++ rest).dropWhile isDigit = rest := by
      rw [List.dropWhile_append_of_pos hdigits, hstop.2]
    constructor
    · rw [strtoEnds, htake, hsplit]
      simp only [hdrop, hrest, Bool.and_true]
      simpa using hne
    · rw [strtoNumber, strtoMagnitude, htake, hsplit]
  · rintro ⟨hends, rfl⟩
    obtain ⟨blanks, sign, happ, hblanks, hsign⟩ := strtoullSplit_append s
    simp only [strtoEnds, Bool.and_eq_true, decide_eq_true_eq] at hends
    refine ⟨blanks, sign, strtoDigits s, (strtoullSplit s).2.dropWhile isDigit, ?_, hblanks, by simpa using hends.1,
      fun b hb => List.mem_takeWhile_imp hb, hends.2, ?_⟩
    · rw [strtoDigits, List.takeWhile_append_dropWhile]
      exact happ
    · rw [strtoNumber, hsign, strtoMagnitude]

end

/-! ## The four functions -/

/-- `safe_strtoll` -/
def safeStrtoll (bs : Bytes) : Scanned Int :=
  if strtolErange bs then .range
  else if strtoEnds bs then .ok (strtolClamped bs)
  else .bad

/-- What a call that returned true left in `*out`. -/
def Scanned.out {α : Type} : Scanned α → Option α
  | .ok value => some value
  | _ => none

inductive SafeStrto where
  | strtoul
  | strtol
  | strtoull
  | strtoll
deriving DecidableEq

namespace SafeStrto

/-- The number in `*out`, if the call returns true. -/
def scan : SafeStrto → Bytes → Option Int
  | strtoul, s => (safeStrtoul s).out.map fun v => (v.toNat : Int)
  | strtol, s => (safeStrtol s).out
  | strtoull, s => (scanStrtoull s).out.map fun v => (v.toNat : Int)
  | strtoll, s => (safeStrtoll s).out

/-- The values of the output type: `uint32_t`, `int32_t`, `uint64_t`, `int64_t`. -/
def InRange : SafeStrto → Int → Prop
  | strtoul, n => 0 ≤ n ∧ n < 2 ^ 32
  | strtol, n => -2 ^ 31 ≤ n ∧ n < 2 ^ 31
  | strtoull, n => 0 ≤ n ∧ n < 2 ^ 64
  | strtoll, n => -2 ^ 63 ≤ n ∧ n < 2 ^ 63

/-- The call returns true exactly if the text is a numeral of a number in range, and
then with that number. -/
def Exact (f : SafeStrto) (s : Bytes) : Prop := ∀ n, f.scan s = some n ↔ Numeral s n ∧ f.InRange n

/-- The numerals that are taken for another number, or refused for a minus sign that
stands somewhere behind them. -/
def Misread : SafeStrto → Bytes → Int → Prop
  | strtoul, s, n => -2 ^ 64 < n ∧ n < -2 ^ 63 ∨ 2 ^ 32 ≤ n ∧ n < 2 ^ 63 ∨ 2 ^ 63 ≤ n ∧ n < 2 ^ 64 ∧ 45 ∉ s
  | strtol, _, n => -2 ^ 63 ≤ n ∧ n < -2 ^ 31 ∨ 2 ^ 31 ≤ n ∧ n < 2 ^ 63
  | strtoull, s, n => -2 ^ 64 < n ∧ n < -2 ^ 63 ∨ 2 ^ 63 ≤ n ∧ n < 2 ^ 64 ∧ 45 ∈ s
  | strtoll, _, _ => False

end SafeStrto

section

variable {s : Bytes}

/-- A sign that was read is in the text. -/
theorem minus_mem (h : (strtoullSplit s).1 = true) : 45 ∈ s := by
  obtain ⟨blanks, sign, happ, _, hsign⟩ := strtoullSplit_append s
  rw [h] at hsign
  cases sign with
  | minus =>
    rw [happ]
    exact List.mem_append_right _ (List.mem_append_left _ (by simp [NumberSign.text]))
  | plus => cases hsign
  | none => cases hsign

theorem minus_mem_of_neg (h : strtoNumber s < 0) : 45 ∈ s := by
  unfold strtoNumber signedNumber at h
  split at h
  · rename_i hneg
    exact minus_mem hneg
  · omega

theorem strtoMagnitude_lt : strtoMagnitude s < 2 ^ 64 ↔ -2 ^ 64 < strtoNumber s ∧ strtoNumber s < 2 ^ 64 := by
  unfold strtoNumber signedNumber
  split <;> omega

theorem strtolErange_eq : strtolErange s = false ↔ -2 ^ 63 ≤ strtoNumber s ∧ strtoNumber s < 2 ^ 63 := by
  unfold strtolErange strtoNumber signedNumber
  split
  · simp only [decide_eq_false_iff_not]
    omega
  · simp only [decide_eq_false_iff_not]
    omega

/-- The number is kept modulo `2 ^ 64`. -/
theorem toNat_strtoul (h : strtoMagnitude s < 2 ^ 64) : ((strtoul s).toNat : Int) = strtoNumber s % 2 ^ 64 := by
  have he : strtoulErange s = false := by simpa [strtoulErange] using h
  unfold strtoul strtoNumber signedNumber
  simp only [he, Bool.false_eq_true, if_false]
  split
  · rw [UInt64.toNat_sub, UInt64.toNat_ofNat_of_lt' h]
    have h0 : (0 : UInt64).toNat = 0 := rfl
    omega
  · rw [UInt64.toNat_ofNat_of_lt' h]
    omega

/-- `(long) ul < 0`, as the range of the numeral. -/
theorem strtoul_big (h : strtoMagnitude s < 2 ^ 64) : 2 ^ 63 ≤ (strtoul s).toNat ↔
    2 ^ 63 ≤ strtoNumber s ∨ -2 ^ 63 ≤ strtoNumber s ∧ strtoNumber s < 0 := by
  have hval := toNat_strtoul h
  obtain ⟨h1, h2⟩ := strtoMagnitude_lt.mp h
  omega

theorem safeStrtoull_eq : safeStrtoull s =
    if strtoEnds s = true ∧ strtoMagnitude s < 2 ^ 64 ∧ ¬(2 ^ 63 ≤ (strtoul s).toNat ∧ 45 ∈ s) then
      some (strtoul s) else none := by
  have hdef : safeStrtoull s =
      if strtoDigits s = [] ∨ 2 ^ 64 ≤ strtoMagnitude s then none
      else if !((strtoullSplit s).2.dropWhile isDigit).head?.all isSpace then none
      else
        let ull := if (strtoullSplit s).1 then 0 - UInt64.ofNat (strtoMagnitude s)
          else UInt64.ofNat (strtoMagnitude s)
        if 2 ^ 63 ≤ ull.toNat ∧ 45 ∈ s then none else some ull := rfl
  rw [hdef]
  simp only [strtoEnds, Bool.and_eq_true, decide_eq_true_eq]
  by_cases hd : strtoDigits s = []
  · rw [if_pos (.inl hd), if_neg (fun h => h.1.1 hd)]
  by_cases hm : 2 ^ 64 ≤ strtoMagnitude s
  · rw [if_pos (.inr hm), if_neg (fun h => Nat.not_lt.mpr hm h.2.1)]
  have hul : (if (strtoullSplit s).1 then 0 - UInt64.ofNat (strtoMagnitude s)
      else UInt64.ofNat (strtoMagnitude s)) = strtoul s := by
    have he : strtoulErange s = false := by simpa [strtoulErange] using hm
    unfold strtoul
    simp only [he, Bool.false_eq_true, if_false]
  rw [if_neg (not_or.mpr ⟨hd, hm⟩), hul]
  by_cases hh : ((strtoullSplit s).2.dropWhile isDigit).head?.all isSpace = true
  · rw [if_neg (by simp [hh])]
    by_cases hneg : 2 ^ 63 ≤ (strtoul s).toNat ∧ 45 ∈ s
    · rw [if_pos hneg, if_neg (fun h => h.2.2 hneg)]
    · rw [if_neg hneg, if_pos ⟨⟨hd, hh⟩, Nat.not_le.mp hm, hneg⟩]
  · rw [if_pos (by simpa using hh), if_neg (fun h => hh h.1.2)]

/-- A number that is accepted has no minus sign, or is small as a signed number. -/
theorem scanStrtoull_out : (scanStrtoull s).out =
    if strtoEnds s = true ∧ strtoMagnitude s < 2 ^ 64 ∧ ¬(2 ^ 63 ≤ (strtoul s).toNat ∧ 45 ∈ s) then
      some (strtoul s) else none := by
  unfold scanStrtoull
  by_cases he : strtoulErange s = true
  · rw [if_pos he, if_neg]
    · rfl
    · rintro ⟨-, hm, -⟩
      exact Nat.not_lt.mpr (by simpa [strtoulErange] using he) hm
  · rw [if_neg he, ← safeStrtoull_eq]
    cases safeStrtoull s <;> rfl

theorem safeStrtoul_out : (safeStrtoul s).out = (scanStrtoull s).out.map UInt64.toUInt32 := by
  unfold safeStrtoul scanStrtoull
  split
  · rfl
  · cases safeStrtoull s <;> rfl

theorem strtolClamped_eq (h : strtolErange s = false) : strtolClamped s = strtoNumber s := by
  unfold strtolClamped strtoNumber signedNumber
  simp only [h, Bool.false_eq_true, if_false]

theorem safeStrtoll_out : (safeStrtoll s).out =
    if strtoEnds s = true ∧ -2 ^ 63 ≤ strtoNumber s ∧ strtoNumber s < 2 ^ 63 then some (strtoNumber s) else none := by
  unfold safeStrtoll
  by_cases he : strtolErange s = false
  · rw [strtolClamped_eq he]
    simp only [he, Bool.false_eq_true, if_false, ← strtolErange_eq, and_true]
    split <;> rfl
  · rw [if_pos (by simpa using he), if_neg (fun h => he (strtolErange_eq.mpr h.2))]
    rfl

theorem safeStrtol_out : (safeStrtol s).out = (safeStrtoll s).out.map asInt := by
  unfold safeStrtol safeStrtoll
  cases strtolErange s with
  | true => rfl
  | false => cases strtoEnds s <;> rfl

end

namespace SafeStrto

section

variable {s : Bytes} {f : SafeStrto}

/-- A reader told apart by what it makes of the numerals. -/
theorem exact_iff (h : strtoEnds s = false → f.scan s = none) : f.Exact s ↔ (strtoEnds s = true →
    ∀ n, f.scan s = some n ↔ n = strtoNumber s ∧ f.InRange n) := by
  unfold Exact
  simp only [numeral_iff]
  cases hends : strtoEnds s with
  | false => simp [h hends]
  | true => simp

theorem exact_iff_of_some {v : Int} (h : f.scan s = some v) :
    (∀ n, f.scan s = some n ↔ n = strtoNumber s ∧ f.InRange n) ↔ v = strtoNumber s ∧ f.InRange v := by
  rw [h]
  constructor
  · intro hn
    exact (hn v).mp rfl
  · rintro ⟨rfl, hr⟩ n
    constructor
    · rintro ⟨⟩
      exact ⟨rfl, hr⟩
    · rintro ⟨rfl, _⟩
      rfl

theorem exact_iff_of_none (h : f.scan s = none) :
    (∀ n, f.scan s = some n ↔ n = strtoNumber s ∧ f.InRange n) ↔ ¬f.InRange (strtoNumber s) := by
  rw [h]
  constructor
  · intro hn hr
    have := (hn _).mpr ⟨rfl, hr⟩
    cases this
  · intro hr n
    constructor
    · rintro ⟨⟩
    · rintro ⟨rfl, hr'⟩
      exact absurd hr' hr

theorem scan_of_not_ends (h : strtoEnds s = false) : f.scan s = none := by
  cases f <;> simp [scan, safeStrtoul_out, safeStrtol_out, scanStrtoull_out, safeStrtoll_out, h]

end

end SafeStrto

/-- The numerals that the unsigned readers let pass: those that wrap around to a small
number, and those without a minus sign. -/
def UnsignedPasses (s : Bytes) (n : Int) : Prop :=
  -2 ^ 64 < n ∧ n < -2 ^ 63 ∨ 0 ≤ n ∧ n < 2 ^ 63 ∨ 2 ^ 63 ≤ n ∧ n < 2 ^ 64 ∧ 45 ∉ s

section

variable {s : Bytes}

theorem scanStrtoull_passes (hends : strtoEnds s = true) (h : UnsignedPasses s (strtoNumber s)) :
    ∃ v, (scanStrtoull s).out = some v ∧ (v.toNat : Int) = strtoNumber s % 2 ^ 64 := by
  unfold UnsignedPasses at h
  have hm : strtoMagnitude s < 2 ^ 64 := strtoMagnitude_lt.mpr (by omega)
  refine ⟨strtoul s, ?_, toNat_strtoul hm⟩
  rw [scanStrtoull_out, if_pos]
  refine ⟨hends, hm, fun ⟨hbig, hminus⟩ => ?_⟩
  rw [strtoul_big hm] at hbig
  obtain h | h | h := h
  · omega
  · omega
  · exact h.2.2 hminus

theorem scanStrtoull_refuses (h : ¬UnsignedPasses s (strtoNumber s)) : (scanStrtoull s).out = none := by
  rw [scanStrtoull_out, if_neg]
  rintro ⟨-, hm, hsmall⟩
  rw [strtoul_big hm, not_and_or] at hsmall
  obtain ⟨h1, h2⟩ := strtoMagnitude_lt.mp hm
  obtain hsmall | hminus := hsmall
  · exact h (by unfold UnsignedPasses; omega)
  · have hneg : 0 ≤ strtoNumber s := Int.not_lt.mp fun hneg => hminus (minus_mem_of_neg hneg)
    obtain hb | hb := Int.lt_or_le (strtoNumber s) (2 ^ 63)
    · exact h (.inr (.inl ⟨hneg, hb⟩))
    · exact h (.inr (.inr ⟨hb, h2, hminus⟩))

theorem strtoull_exact_iff (hends : strtoEnds s = true) :
    (∀ n, SafeStrto.strtoull.scan s = some n ↔ n = strtoNumber s ∧ SafeStrto.strtoull.InRange n) ↔
      ¬SafeStrto.strtoull.Misread s (strtoNumber s) := by
  by_cases hp : UnsignedPasses s (strtoNumber s)
  · obtain ⟨v, hv, hval⟩ := scanStrtoull_passes hends hp
    have hscan : SafeStrto.strtoull.scan s = some (v.toNat : Int) := by simp [SafeStrto.scan, hv]
    rw [SafeStrto.exact_iff_of_some hscan, hval]
    simp only [SafeStrto.InRange, SafeStrto.Misread, UnsignedPasses] at hp ⊢
    by_cases hminus : 45 ∈ s <;> simp only [hminus, not_true, not_false_iff, and_true, and_false, or_false] at hp ⊢ <;>
      omega
  · have hscan : SafeStrto.strtoull.scan s = none := by simp [SafeStrto.scan, scanStrtoull_refuses hp]
    rw [SafeStrto.exact_iff_of_none hscan]
    simp only [SafeStrto.InRange, SafeStrto.Misread, UnsignedPasses] at hp ⊢
    by_cases hminus : 45 ∈ s <;> simp only [hminus, not_true, not_false_iff, and_true, and_false, or_false] at hp ⊢ <;>
      omega

theorem strtoul_exact_iff (hends : strtoEnds s = true) :
    (∀ n, SafeStrto.strtoul.scan s = some n ↔ n = strtoNumber s ∧ SafeStrto.strtoul.InRange n) ↔
      ¬SafeStrto.strtoul.Misread s (strtoNumber s) := by
  by_cases hp : UnsignedPasses s (strtoNumber s)
  · obtain ⟨v, hv, hval⟩ := scanStrtoull_passes hends hp
    have hscan : SafeStrto.strtoul.scan s = some (v.toUInt32.toNat : Int) := by
      simp [SafeStrto.scan, safeStrtoul_out, hv]
    have hlow : v.toUInt32.toNat = v.toNat % 2 ^ 32 := UInt64.toNat_toUInt32 v
    rw [SafeStrto.exact_iff_of_some hscan, hlow]
    simp only [SafeStrto.InRange, SafeStrto.Misread, UnsignedPasses] at hp ⊢
    by_cases hminus : 45 ∈ s <;> simp only [hminus, not_true, not_false_iff, and_true, and_false, or_false] at hp ⊢ <;>
      omega
  · have hscan : SafeStrto.strtoul.scan s = none := by
      simp [SafeStrto.scan, safeStrtoul_out, scanStrtoull_refuses hp]
    rw [SafeStrto.exact_iff_of_none hscan]
    simp only [SafeStrto.InRange, SafeStrto.Misread, UnsignedPasses] at hp ⊢
    by_cases hminus : 45 ∈ s <;> simp only [hminus, not_true, not_false_iff, and_true, and_false, or_false] at hp ⊢ <;>
      omega

theorem strtoll_exact (hends : strtoEnds s = true) :
    ∀ n, SafeStrto.strtoll.scan s = some n ↔ n = strtoNumber s ∧ SafeStrto.strtoll.InRange n := by
  by_cases hr : -2 ^ 63 ≤ strtoNumber s ∧ strtoNumber s < 2 ^ 63
  · have hscan : SafeStrto.strtoll.scan s = some (strtoNumber s) := by
      rw [SafeStrto.scan, safeStrtoll_out, if_pos ⟨hends, hr⟩]
    exact (SafeStrto.exact_iff_of_some hscan).mpr ⟨rfl, hr⟩
  · have hscan : SafeStrto.strtoll.scan s = none := by
      rw [SafeStrto.scan, safeStrtoll_out, if_neg fun h => hr h.2]
    exact (SafeStrto.exact_iff_of_none hscan).mpr hr

theorem strtol_exact_iff (hends : strtoEnds s = true) :
    (∀ n, SafeStrto.strtol.scan s = some n ↔ n = strtoNumber s ∧ SafeStrto.strtol.InRange n) ↔
      ¬SafeStrto.strtol.Misread s (strtoNumber s) := by
  by_cases hr : -2 ^ 63 ≤ strtoNumber s ∧ strtoNumber s < 2 ^ 63
  · have hscan : SafeStrto.strtol.scan s = some (asInt (strtoNumber s)) := by
      rw [SafeStrto.scan, safeStrtol_out, safeStrtoll_out, if_pos ⟨hends, hr⟩]
      rfl
    rw [SafeStrto.exact_iff_of_some hscan]
    simp only [SafeStrto.InRange, SafeStrto.Misread]
    constructor
    · rintro ⟨heq, h1, h2⟩
      omega
    · intro hn
      rw [asInt_of_bounds (by omega) (by omega)]
      omega
  · have hscan : SafeStrto.strtol.scan s = none := by
      rw [SafeStrto.scan, safeStrtol_out, safeStrtoll_out, if_neg fun h => hr h.2]
      rfl
    rw [SafeStrto.exact_iff_of_none hscan]
    simp only [SafeStrto.InRange, SafeStrto.Misread]
    omega

/-- The texts that the unsigned readers accept. -/
theorem scanStrtoull_ok_iff : (∃ v, scanStrtoull s = .ok v) ↔ ∃ n, Numeral s n ∧ UnsignedPasses s n := by
  have hout : (∃ v, scanStrtoull s = .ok v) ↔ (scanStrtoull s).out.isSome = true := by
    cases scanStrtoull s <;> simp [Scanned.out]
  rw [hout]
  constructor
  · intro h
    by_cases hends : strtoEnds s = true
    · refine ⟨_, numeral_iff.mpr ⟨hends, rfl⟩, by_contra fun hp => ?_⟩
      rw [scanStrtoull_refuses hp] at h
      cases h
    · rw [scanStrtoull_out, if_neg fun hh => hends hh.1] at h
      cases h
  · rintro ⟨n, hn, hp⟩
    obtain ⟨hends, rfl⟩ := numeral_iff.mp hn
    obtain ⟨v, hv, _⟩ := scanStrtoull_passes hends hp
    rw [hv]
    rfl

theorem safeStrtoul_ok_iff : (∃ v, safeStrtoul s = .ok v) ↔ ∃ n, Numeral s n ∧ UnsignedPasses s n := by
  rw [← scanStrtoull_ok_iff]
  unfold safeStrtoul scanStrtoull
  split
  · simp
  · cases safeStrtoull s <;> simp

/-- What `safe_strtol` makes of a text: the low bits of a `long`. -/
theorem safeStrtol_ok_iff {v : Int} :
    safeStrtol s = .ok v ↔ ∃ n, Numeral s n ∧ (-2 ^ 63 ≤ n ∧ n < 2 ^ 63) ∧ v = asInt n := by
  have hout : safeStrtol s = .ok v ↔ (safeStrtol s).out = some v := by
    cases safeStrtol s <;> simp [Scanned.out]
  rw [hout, safeStrtol_out, safeStrtoll_out]
  simp only [numeral_iff]
  constructor
  · intro h
    split at h
    · rename_i hr
      cases h
      exact ⟨_, ⟨hr.1, rfl⟩, hr.2, rfl⟩
    · cases h
  · rintro ⟨_, ⟨hends, rfl⟩, hr, rfl⟩
    rw [if_pos ⟨hends, hr⟩]
    rfl

theorem Numeral.unique {m n : Int} (hm : Numeral s m) (hn : Numeral s n) : m = n :=
  (numeral_iff.mp hm).2.trans (numeral_iff.mp hn).2.symm

end

/-- Each of the four functions accepts exactly the numerals of the numbers of its type,
and tells their numbers, if and only if the text is none of those it misreads. -/
theorem scan_exact_iff (f : SafeStrto) (s : Bytes) : f.Exact s ↔ ∀ n, Numeral s n → ¬f.Misread s n := by
  simp only [numeral_iff, and_imp, forall_eq_apply_imp_iff, SafeStrto.exact_iff SafeStrto.scan_of_not_ends]
  refine forall_congr' fun hends => ?_
  cases f with
  | strtoul => exact strtoul_exact_iff hends
  | strtol => exact strtol_exact_iff hends
  | strtoull => exact strtoull_exact_iff hends
  | strtoll => exact iff_of_true (strtoll_exact hends) (fun h => h)

/-- A number below `-2 ^ 63` is accepted as the one it
wraps around to. -/
theorem safe_strtoull_wraps : ¬∀ (f : SafeStrto) (s : Bytes), 0 ∉ s → f.Exact s := by
  intro h
  have hs : 0 ∉ ascii "-18446744073709551615" ∧ SafeStrto.strtoull.scan (ascii "-18446744073709551615") = some 1 ∧
      strtoNumber (ascii "-18446744073709551615") ≠ 1 := by decide +kernel
  have hnum := ((h .strtoull (ascii "-18446744073709551615") hs.1 1).mp hs.2.1).1
  exact hs.2.2 (numeral_iff.mp hnum).2.symm

end RamCube
