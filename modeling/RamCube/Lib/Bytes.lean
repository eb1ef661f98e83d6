import Mathlib.Tactic.Common
import Mathlib.Data.List.Range
import Mathlib.Data.Nat.Digits.Defs
import Mathlib.Data.Nat.Digits.Lemmas

/-! # Byte strings and byte memory

A stretch of memory is a function from offsets to bytes. `slice` reads a byte
string out of it and `blit` copies one into it; a read sees the last copy that
covers it and is untouched by copies elsewhere. Numbers are printed in decimal
and read back. -/
namespace RamCube

abbrev Bytes := List UInt8

/-- The bytes of a text in ASCII. -/
def ascii (s : String) : Bytes := s.toList.map fun c => UInt8.ofNat c.toNat

/-- The `len` bytes from offset `off` on. -/
def slice (m : Nat → UInt8) (off len : Nat) : Bytes :=
  (List.range len).map fun i => m (off + i)

/-- `memcpy` of `bs` to offset `off`. -/
def blit (m : Nat → UInt8) (off : Nat) (bs : Bytes) : Nat → UInt8 := fun i =>
  if off ≤ i ∧ i < off + bs.length then bs.getD (i - off) 0 else m i

section

variable {m m' : Nat → UInt8} {off off' len len' : Nat} {bs : Bytes}

@[simp]
theorem length_slice : (slice m off len).length = len := by
  simp [slice]

@[simp]
theorem slice_zero : slice m off 0 = [] := rfl

theorem slice_congr (h : ∀ i, off ≤ i → i < off + len → m i = m' i) :
    slice m off len = slice m' off len := by
  unfold slice
  apply List.map_congr_left
  intro i hi
  have := List.mem_range.mp hi
  exact h _ (by omega) (by omega)

theorem slice_add : slice m off (len + len') = slice m off len ++ slice m (off + len) len' := by
  simp only [slice, List.range_add, List.map_append, List.map_map]
  congr 1
  apply List.map_congr_left
  intro i _
  simp [Nat.add_assoc]

theorem take_slice (h : len' ≤ len) : (slice m off len).take len' = slice m off len' := by
  obtain ⟨k, rfl⟩ := Nat.exists_eq_add_of_le h
  rw [slice_add]
  exact List.take_left' length_slice

theorem blit_of_out {i : Nat} (h : i < off ∨ off + bs.length ≤ i) : blit m off bs i = m i := by
  unfold blit
  rw [if_neg (by omega)]

/-- What was copied is read back. -/
theorem slice_blit_self : slice (blit m off bs) off bs.length = bs := by
  apply List.ext_getElem (by simp)
  intro i h1 h2
  simp only [slice, List.getElem_map, List.getElem_range, blit]
  rw [if_pos (by omega), Nat.add_sub_cancel_left, List.getD_eq_getElem?_getD,
    List.getElem?_eq_getElem h2]
  rfl

/-- A copy that lies wholly outside leaves a read alone. -/
theorem slice_blit_of_disjoint (h : off' + len ≤ off ∨ off + bs.length ≤ off') :
    slice (blit m off bs) off' len = slice m off' len := by
  apply slice_congr
  intro i h1 h2
  exact blit_of_out (by omega)

/-- Two copies, the second over the tail of the first. -/
theorem slice_blit_overlap {as : Bytes} {k : Nat} (hk : k ≤ as.length) :
    slice (blit (blit m off as) (off + k) bs) off (k + bs.length) = as.take k ++ bs := by
  rw [slice_add, slice_blit_self, slice_blit_of_disjoint (.inl (Nat.le_refl _)), ← take_slice hk,
    slice_blit_self]

end

/-! ## Decimal numbers -/

def digitByte (d : Nat) : UInt8 := UInt8.ofNat (48 + d)

def isDigit (b : UInt8) : Bool := 48 ≤ b && b ≤ 57

/-- `%u` of a natural number. -/
def decimal (n : Nat) : Bytes :=
  if n = 0 then [digitByte 0] else (Nat.digits 10 n).reverse.map digitByte

/-- `%d` of an integer. -/
def decimalInt : Int → Bytes
  | .ofNat n => decimal n
  | .negSucc n => 45 :: decimal (n + 1)

/-- The number a string of digits denotes, continuing from `acc`. -/
def readDigits : Nat → Bytes → Nat
  | acc, [] => acc
  | acc, b :: bs => if isDigit b then readDigits (acc * 10 + (b.toNat - 48)) bs else acc

def isSpace (b : UInt8) : Bool := b == 32 || (9 ≤ b && b ≤ 13)

/-- `strtol` in base 10, for a text whose number fits the result type: blanks, a
sign, then digits up to the first other character. -/
def strtol (bs : Bytes) : Int :=
  match bs.dropWhile isSpace with
  | 45 :: ds => -(readDigits 0 ds : Int)
  | 43 :: ds => readDigits 0 ds
  | ds => readDigits 0 ds

theorem digitByte_toNat {d : Nat} (h : d < 10) : (digitByte d).toNat = 48 + d := by
  simp only [digitByte, UInt8.toNat_ofNat']
  omega

theorem isDigit_digitByte {d : Nat} (h : d < 10) : isDigit (digitByte d) = true := by
  have := digitByte_toNat h
  simp only [isDigit, Bool.and_eq_true, decide_eq_true_eq, UInt8.le_iff_toNat_le, this]
  have h1 : (48 : UInt8).toNat = 48 := rfl
  have h2 : (57 : UInt8).toNat = 57 := rfl
  omega

theorem readDigits_map {ds : List Nat} (hd : ∀ d ∈ ds, d < 10) (acc : Nat) (rest : Bytes)
    (hr : ∀ b ∈ rest.head?, isDigit b = false) :
    readDigits acc (ds.map digitByte ++ rest) = ds.foldl (fun a d => a * 10 + d) acc := by
  induction ds generalizing acc with
  | nil =>
    cases rest with
    | nil => rfl
    | cons b bs => simp [readDigits, hr b (by simp)]
  | cons d ds ih =>
    have hlt := hd d (by simp)
    simp only [List.map_cons, List.cons_append, readDigits, isDigit_digitByte hlt, if_true,
      digitByte_toNat hlt, List.foldl_cons]
    rw [ih (fun e he => hd e (by simp [he]))]
    congr 1
    omega

theorem foldl_digits (ds : List Nat) :
    ds.reverse.foldl (fun a d => a * 10 + d) 0 = Nat.ofDigits 10 ds := by
  induction ds with
  | nil => rfl
  | cons d ds ih =>
    rw [List.reverse_cons, List.foldl_append, ih, Nat.ofDigits_cons]
    simp only [List.foldl_cons, List.foldl_nil]
    omega

/-- The digits of a number. -/
theorem decimal_eq_map (n : Nat) : ∃ ds : List Nat, (∀ d ∈ ds, d < 10) ∧ ds ≠ [] ∧
    decimal n = ds.map digitByte ∧ ds.foldl (fun a d => a * 10 + d) 0 = n := by
  unfold decimal
  split
  · rename_i h
    exact ⟨[0], by simp, by simp, rfl, by simp [h]⟩
  · rename_i h
    refine ⟨(Nat.digits 10 n).reverse, ?_, ?_, rfl, ?_⟩
    · intro d hd
      exact Nat.digits_lt_base (by omega) (List.mem_reverse.mp hd)
    · simpa using Nat.digits_ne_nil_iff_ne_zero.mpr h
    · rw [foldl_digits, Nat.ofDigits_digits]

theorem length_decimal_le {n k : Nat} (hk : 0 < k) (h : n < 10 ^ k) : (decimal n).length ≤ k := by
  unfold decimal
  split
  · exact hk
  · rw [List.length_map, List.length_reverse]
    exact (Nat.digits_length_le_iff (by omega) n).mpr h

theorem readDigits_decimal (n : Nat) (rest : Bytes) (hr : ∀ b ∈ rest.head?, isDigit b = false) :
    readDigits 0 (decimal n ++ rest) = n := by
  obtain ⟨ds, hd, _, he, hf⟩ := decimal_eq_map n
  rw [he, readDigits_map hd 0 rest hr, hf]

theorem mem_decimal {n : Nat} {b : UInt8} (h : b ∈ decimal n) : isDigit b = true := by
  obtain ⟨ds, hd, _, he, _⟩ := decimal_eq_map n
  rw [he] at h
  obtain ⟨d, hm, rfl⟩ := List.mem_map.mp h
  exact isDigit_digitByte (hd d hm)

theorem decimal_ne_nil (n : Nat) : decimal n ≠ [] := by
  obtain ⟨ds, _, hne, he, _⟩ := decimal_eq_map n
  simpa [he] using hne

/-- A text of digits is read as a number as it stands: no blank, no sign. -/
theorem strtol_of_digit {b : UInt8} {bs : Bytes} (h : isDigit b = true) :
    strtol (b :: bs) = readDigits 0 (b :: bs) := by
  have hb : 48 ≤ b.toNat ∧ b.toNat ≤ 57 := by
    simpa [isDigit, UInt8.le_iff_toNat_le] using h
  have hs : isSpace b = false := by
    simp only [isSpace, Bool.or_eq_false_iff, Bool.and_eq_false_iff, beq_eq_false_iff_ne,
      decide_eq_false_iff_not, UInt8.le_iff_toNat_le, ne_eq, ← UInt8.toNat_inj]
    have h1 : (32 : UInt8).toNat = 32 := rfl
    have h2 : (13 : UInt8).toNat = 13 := rfl
    omega
  unfold strtol
  simp only [List.dropWhile_cons, hs, Bool.false_eq_true, if_false]
  split
  · rename_i heq
    cases heq
    exact absurd hb.1 (by decide)
  · rename_i heq
    cases heq
    exact absurd hb.1 (by decide)
  · rfl

/-- A printed number is read back, up to the first character after it. -/
theorem strtol_decimal (n : Nat) (rest : Bytes) (hr : ∀ b ∈ rest.head?, isDigit b = false) :
    strtol (decimal n ++ rest) = n := by
  have hrd := readDigits_decimal n rest hr
  cases hdec : decimal n with
  | nil => exact absurd hdec (decimal_ne_nil n)
  | cons b bs =>
    have hb : isDigit b = true := mem_decimal (n := n) (by simp [hdec])
    rw [hdec] at hrd
    rw [List.cons_append, strtol_of_digit hb, ← List.cons_append, hrd]

theorem strtol_decimalInt (i : Int) (rest : Bytes) (hr : ∀ b ∈ rest.head?, isDigit b = false) :
    strtol (decimalInt i ++ rest) = i := by
  cases i with
  | ofNat n => exact strtol_decimal n rest hr
  | negSucc n =>
    have h := readDigits_decimal (n + 1) rest hr
    simp only [decimalInt, strtol, List.cons_append]
    rw [List.dropWhile_cons_of_neg (by decide)]
    simp only [h]
    rfl

/-- Leading blanks are skipped. -/
theorem strtol_space (bs : Bytes) : strtol (32 :: bs) = strtol bs := by
  unfold strtol
  rw [List.dropWhile_cons_of_pos (by decide)]

end RamCube
