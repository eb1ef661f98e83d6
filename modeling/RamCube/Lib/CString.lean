import RamCube.Lib.Bytes

/-! # C strings in bounded buffers

A buffer is the list of its bytes. The functions give `none` where they would read or
write at an index that the buffer does not have; a string without its zero is read on to
there. -/
namespace RamCube

/-- `buf[i] = b` -/
def poke (buf : Bytes) (i : Nat) (b : UInt8) : Option Bytes :=
  if i < buf.length then some (buf.set i b) else none

/-- `src` written to index `i` on, byte by byte. -/
def pokes : Bytes → Nat → Bytes → Option Bytes
  | buf, _, [] => some buf
  | buf, i, b :: src => (poke buf i b).bind fun buf => pokes buf (i + 1) src

def memcpy (dst src : Bytes) (n : Nat) : Option Bytes :=
  if n ≤ src.length then pokes dst 0 (src.take n) else none

def memset (buf : Bytes) (b : UInt8) (n : Nat) : Option Bytes := pokes buf 0 (List.replicate n b)

/-- The first index of a byte, as a loop finds it that looks for nothing else. -/
def seekByte (b : UInt8) (buf : Bytes) : Option Nat := buf.idxOf? b

def strlen (buf : Bytes) : Option Nat := seekByte 0 buf

/-- `strcpy` of a string that the copy does not overlap. -/
def strcpy (dst src : Bytes) : Option Bytes := (strlen src).bind fun n => memcpy dst src (n + 1)

/-- `src` written at `buf + pos`. -/
def pokesAt (buf : Bytes) (pos : Int) (src : Bytes) : Option Bytes :=
  if pos < 0 then none else pokes buf pos.toNat src

/-- `snprintf(buf + pos, room, ...)` of a text: a zero follows it, and both end with the room. -/
def snprintf (buf : Bytes) (pos : Int) (room : Nat) (text : Bytes) : Option Bytes :=
  if room = 0 then some buf else pokesAt buf pos (text.take (room - 1) ++ [0])

/-- `strrchr`: the index of the last such byte of a string, `none` inside for NULL. -/
def strrchr (c : UInt8) : Bytes → Option (Option Nat)
  | [] => none
  | b :: buf =>
    if b = 0 then some none
    else (strrchr c buf).map fun
      | some i => some (i + 1)
      | none => if b = c then some 0 else none

section

variable {buf dst pre s rest src : Bytes} {b c : UInt8} {i n : Nat}

theorem poke_append {x : UInt8} : poke (pre ++ x :: rest) pre.length b = some (pre ++ b :: rest) := by
  rw [poke, if_pos (by simp), List.set_append_right _ _ (Nat.le_refl _), Nat.sub_self]
  rfl

theorem poke_full (hi : buf.length ≤ i) : poke buf i b = none := if_neg (by omega)

theorem pokes_append (hroom : src.length ≤ buf.length) :
    pokes (pre ++ buf) pre.length src = some (pre ++ src ++ buf.drop src.length) := by
  induction src generalizing pre buf with
  | nil => simp [pokes]
  | cons b src ih =>
    cases buf with
    | nil => exact absurd hroom (by simp)
    | cons x buf =>
      have hrest : pokes ((pre ++ [b]) ++ buf) (pre ++ [b]).length src = _ := ih (by simpa using hroom)
      rw [List.length_append, List.length_singleton, List.append_assoc] at hrest
      rw [pokes, poke_append, Option.bind_some]
      exact hrest.trans (by simp)

theorem pokes_full (hroom : buf.length < i + src.length) (hsrc : src ≠ []) : pokes buf i src = none := by
  induction src generalizing buf i with
  | nil => exact absurd rfl hsrc
  | cons b src ih =>
    rw [pokes]
    by_cases hi : i < buf.length
    · rw [poke, if_pos hi, Option.bind_some]
      rw [List.length_cons] at hroom
      refine ih (by rw [List.length_set]; omega) ?_
      rintro rfl
      rw [List.length_nil] at hroom
      omega
    · rw [poke_full (by omega), Option.bind_none]

/-- A copy stays inside two buffers that are long enough for it. -/
theorem memcpy_eq : memcpy dst src n =
    if n ≤ src.length ∧ n ≤ dst.length then some (src.take n ++ dst.drop n) else none := by
  rw [memcpy]
  by_cases hn : n ≤ src.length
  · have hlen : (src.take n).length = n := List.length_take_of_le hn
    rw [if_pos hn]
    by_cases hd : n ≤ dst.length
    · have hcopy : pokes ([] ++ dst) 0 (src.take n) = _ := pokes_append (by omega)
      rw [List.nil_append, List.nil_append, hlen] at hcopy
      rw [if_pos ⟨hn, hd⟩, hcopy]
    · have hne : src.take n ≠ [] := fun h => by
        rw [h, List.length_nil] at hlen
        omega
      rw [if_neg (fun h => hd h.2), pokes_full (by omega) hne]
  · rw [if_neg hn, if_neg (fun h => hn h.1)]

theorem memset_eq (hn : n ≤ buf.length) : memset buf b n = some (List.replicate n b ++ buf.drop n) := by
  have hset : pokes ([] ++ buf) 0 (List.replicate n b) = _ := pokes_append (by rwa [List.length_replicate])
  rwa [List.nil_append, List.nil_append, List.length_replicate] at hset

theorem pokesAt_append {pos : Int} (hpos : pos = pre.length) (hroom : src.length ≤ rest.length) :
    pokesAt (pre ++ rest) pos src = some (pre ++ src ++ rest.drop src.length) := by
  rw [pokesAt, hpos, if_neg (by omega), Int.toNat_natCast]
  exact pokes_append hroom

/-- A text that has room is written whole, and a zero behind it. -/
theorem snprintf_append {pos : Int} {room : Nat} (hpos : pos = pre.length) (hroom : src.length < room)
    (hrest : src.length < rest.length) :
    snprintf (pre ++ rest) pos room src = some (pre ++ src ++ 0 :: rest.drop (src.length + 1)) := by
  rw [snprintf, if_neg (by omega), List.take_of_length_le (by omega),
    pokesAt_append hpos (by rw [List.length_append, List.length_singleton]; omega)]
  simp

/-- The byte is among the first `n` exactly if the loop finds it there. -/
theorem mem_take_iff : c ∈ buf.take n ↔ ∃ i, seekByte c buf = some i ∧ i < n := by
  induction buf generalizing n with
  | nil => simp [seekByte]
  | cons x buf ih =>
    cases n with
    | zero => simp
    | succ n =>
      rw [seekByte, List.idxOf?_cons, List.take_succ_cons, List.mem_cons, ih, seekByte]
      by_cases hx : x = c
      · simp [hx]
      · have hne : (x == c) = false := by simpa using hx
        simp only [hne, Bool.false_eq_true, if_false, Option.map_eq_some_iff]
        constructor
        · rintro (rfl | ⟨i, hi, hlt⟩)
          · exact absurd rfl hx
          · exact ⟨i + 1, ⟨i, hi, rfl⟩, by omega⟩
        · rintro ⟨-, ⟨i, hi, rfl⟩, hlt⟩
          exact .inr ⟨i, hi, by omega⟩

theorem seekByte_append (hs : c ∉ s) : seekByte c (s ++ c :: rest) = some s.length := by
  induction s with
  | nil => simp [seekByte, List.idxOf?_cons]
  | cons x s ih =>
    have hne : (x == c) = false := beq_false_of_ne fun h => hs (h ▸ List.mem_cons_self)
    have hrest := ih fun h => hs (List.mem_cons_of_mem x h)
    rw [seekByte] at hrest
    rw [seekByte, List.cons_append, List.idxOf?_cons, hne, hrest]
    rfl

theorem seekByte_lt (h : seekByte c buf = some i) : i < buf.length :=
  (List.idxOf?_eq_some_iff.mp h).1

/-- A string ends at its first zero. -/
theorem strlen_takeWhile : strlen (s ++ 0 :: rest) = some (s.takeWhile (· != 0)).length := by
  induction s with
  | nil => simp [strlen, seekByte, List.idxOf?_cons]
  | cons x s ih =>
    rw [strlen, seekByte] at ih
    rw [strlen, seekByte, List.cons_append, List.idxOf?_cons, ih]
    by_cases hx : x = 0
    · simp [hx]
    · have hne : (x == 0) = false := beq_false_of_ne hx
      rw [hne, List.takeWhile_cons_of_pos (by simpa using hx)]
      rfl

theorem strlen_append (hs : 0 ∉ s) : strlen (s ++ 0 :: rest) = some s.length := seekByte_append hs

theorem strcpy_append (hs : 0 ∉ s) (hroom : s.length < dst.length) :
    strcpy dst (s ++ 0 :: rest) = some (s ++ 0 :: dst.drop (s.length + 1)) := by
  rw [strcpy, strlen_append hs, Option.bind_some, memcpy_eq, if_pos ⟨by simp, hroom⟩]
  have htake : (s ++ 0 :: rest).take (s.length + 1) = s ++ [0] := by
    rw [List.take_length_add_append]
    rfl
  rw [htake, List.append_assoc]
  rfl

theorem strrchr_none (hs : 0 ∉ s) (hc : c ∉ s) : strrchr c (s ++ 0 :: rest) = some none := by
  induction s with
  | nil => simp [strrchr]
  | cons x s ih =>
    rw [List.mem_cons, not_or] at hs hc
    rw [List.cons_append, strrchr, if_neg (Ne.symm hs.1), ih hs.2 hc.2, Option.map_some]
    simp [Ne.symm hc.1]

/-- The last such byte is found. -/
theorem strrchr_last (hs : 0 ∉ s) (hsrc : 0 ∉ src) (hc : c ≠ 0) (hlast : c ∉ src) :
    strrchr c (s ++ c :: src ++ 0 :: rest) = some (some s.length) := by
  induction s with
  | nil => simp [strrchr, hc, strrchr_none hsrc hlast]
  | cons x s ih =>
    rw [List.mem_cons, not_or] at hs
    rw [List.cons_append, List.cons_append, strrchr, if_neg (Ne.symm hs.1), ih hs.2]
    rfl

end

end RamCube
