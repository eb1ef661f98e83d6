import RamCube.Backup.Persisting
import RamCube.Backup.UnitRecord

/-! # The buffers that a record passes through (Object.c, Segment.c)

A record is put together in `buf`, copied to `Obj.command`, taken out of its message into
`command` and from there into the `command` of a new object, and each of these copies goes
on to the end of the string. The indices written are collected here, as they are counted
in the source, also beyond the 2048 bytes of a buffer. The record of an item stays inside
all four exactly if it is shorter than 2048 bytes (`recordWrites_iff`), whatever length
the commands allow for a value. -/
namespace RamCube

/-- The fixed buffers, with the line for the address in `appendToSegment`. -/
inductive RecordBuffer where
  | buf
  | ObjCommand
  | IpPort
  | command
  | objCommand
deriving DecidableEq

/-- The length of the C string at `off`, or `room` if it is longer. -/
def strnlen (m : Nat → UInt8) (off : Nat) : Nat → Nat
  | 0 => 0
  | room + 1 => if m off = 0 then 0 else strnlen m (off + 1) room + 1

abbrev BufferWrites := List (RecordBuffer × Nat)

/-- A string and its closing zero copied to index `start` on. -/
def copyWrites (b : RecordBuffer) (start len : Nat) : BufferWrites :=
  (List.range (len + 1)).map fun i => (b, start + i)

/-- `memset(b, 0, n)` -/
def clearWrites (b : RecordBuffer) (n : Nat) : BufferWrites := (List.range n).map fun i => (b, i)

/-- The length of the text that `setCommandServer` makes of an item. A string of 2048
bytes or more is counted as 2048: its copy has overrun the buffer by then. -/
def unitLength (unit : Item) : Nat :=
  4 + strnlen unit.bytes 0 2048 + 5 + (decimalInt (unit.nbytes - 2)).length + 2 +
    strnlen unit.bytes (itemDataOff unit) 2048

/-- `setCommandServer` for an item: the calls of `strcat` one after the other, then
`strcpy` to `Obj.command`. -/
def unitWrites (unit : Item) : BufferWrites :=
  let key := strnlen unit.bytes 0 2048
  let str := (decimalInt (unit.nbytes - 2)).length
  let data := strnlen unit.bytes (itemDataOff unit) 2048
  clearWrites .buf 2048 ++ copyWrites .buf 0 4 ++ copyWrites .buf 4 key ++ copyWrites .buf (4 + key) 5 ++
    copyWrites .buf (4 + key + 5) str ++ copyWrites .buf (4 + key + 5 + str) 2 ++
    copyWrites .buf (4 + key + 5 + str + 2) data ++ clearWrites .ObjCommand 2048 ++
    copyWrites .ObjCommand 0 (4 + key + 5 + str + 2 + data)

/-- The loop of `appendToSegment`, with `strcpy` in `createSeglet`. -/
def scanWrites : Cut → Bytes → BufferWrites
  | _, [] => []
  | st, c :: cs =>
    if st.flag1 < 2 then
      (.command, st.j) :: scanWrites { st with
        command := setByte st.command st.j c
        flag1 := if c = LF then st.flag1 + 1 else st.flag1
        j := st.j + 1 } cs
    else if st.flag2 < 2 then
      (if st.isDone then [] else copyWrites .objCommand 0 (strnlen st.command 0 2048)) ++
        scanWrites { st with flag2 := if c = CR then st.flag2 + 1 else st.flag2, isDone := true } cs
    else
      clearWrites .command 1024 ++ scanWrites {
        command := fun i => if i < 1024 then 0 else st.command i
        j := 0
        flag1 := 0
        flag2 := 0
        isDone := false } cs

def initCut : Cut := { command := fun _ => 0, j := 0, flag1 := 0, flag2 := 0, isDone := false }

/-- `parseIpPort`: the message without its last line end. -/
def ipPortWrites (cont : Bytes) : BufferWrites := copyWrites .IpPort 0 (stripEol cont).length

/-- The rest of `appendToSegment`. -/
def appendWrites (cont : Bytes) : BufferWrites :=
  let ipPort := (stripEol cont).rtakeWhile (· != LF)
  scanWrites initCut ((cont ++ [0]).take (getCommandLen cont ipPort + 1))

/-- Does every write stay inside its buffer? -/
def InBuffers (ws : BufferWrites) : Prop := ∀ w ∈ ws, w.2 < 2048

/-! ## Copies -/

variable {b : RecordBuffer} {m : Nat → UInt8} {off room n : Nat} {s : Bytes}

theorem inBuffers_append {ws vs : BufferWrites} : InBuffers (ws ++ vs) ↔ InBuffers ws ∧ InBuffers vs :=
  List.forall_mem_append

theorem inBuffers_copy {start len : Nat} : InBuffers (copyWrites b start len) ↔ start + len < 2048 := by
  unfold InBuffers copyWrites
  simp only [List.forall_mem_map, List.mem_range]
  constructor
  · exact fun h => h len (Nat.lt_succ_self len)
  · intro h i hi
    omega

theorem inBuffers_clear : InBuffers (clearWrites b n) ↔ n ≤ 2048 := by
  unfold InBuffers clearWrites
  simp only [List.forall_mem_map, List.mem_range]
  constructor
  · intro h
    by_contra hn
    have := h 2048 (by omega)
    omega
  · intro h i hi
    omega

theorem strnlen_le (h : m (off + n) = 0) (room : Nat) : strnlen m off room ≤ n := by
  induction room generalizing off n with
  | zero => exact Nat.zero_le n
  | succ room ih =>
    rw [strnlen]
    split
    · exact Nat.zero_le n
    · rename_i hne
      cases n with
      | zero => exact absurd h hne
      | succ n =>
        have hle : strnlen m (off + 1) room ≤ n := ih (by rw [← h]; congr 1; omega)
        omega

theorem length_cString_lt (hs : cString m off room = some s) : s.length < room := by
  induction room generalizing off s with
  | zero => cases hs
  | succ room ih =>
    rw [cString] at hs
    split at hs
    · obtain rfl := Option.some.inj hs
      exact Nat.succ_pos room
    · obtain ⟨s', hs', rfl⟩ := Option.map_eq_some_iff.mp hs
      exact Nat.succ_lt_succ (ih hs')

/-- The string that is read has the counted length. -/
theorem strnlen_of_cString (hs : cString m off room = some s) : strnlen m off room = s.length := by
  induction room generalizing off s with
  | zero => cases hs
  | succ room ih =>
    rw [cString] at hs
    rw [strnlen]
    split at hs
    · rename_i hzero
      obtain rfl := Option.some.inj hs
      rw [if_pos hzero]
      rfl
    · rename_i hne
      obtain ⟨s', hs', rfl⟩ := Option.map_eq_some_iff.mp hs
      rw [if_neg hne, ih hs', List.length_cons]

theorem cString_of_strnlen (h : strnlen m off room < room) : (cString m off room).isSome := by
  induction room generalizing off with
  | zero => omega
  | succ room ih =>
    rw [strnlen] at h
    rw [cString]
    split at h
    · rename_i hzero
      rw [if_pos hzero]
      rfl
    · rename_i hne
      rw [if_neg hne, Option.isSome_map]
      exact ih (by omega)

theorem strnlen_of_slice {bs : Bytes} (hb : slice m off bs.length = bs) (h0 : ∀ b ∈ bs, b ≠ 0) (hroom : room ≤ bs.length) :
    strnlen m off room = room := by
  induction room generalizing off bs with
  | zero => rfl
  | succ room ih =>
    cases bs with
    | nil => simp at hroom
    | cons b bs =>
      rw [List.length_cons, Nat.add_comm, slice_add] at hb
      obtain ⟨hfirst, hrest⟩ := List.cons.inj hb
      have hne : m off ≠ 0 := by
        rw [show m off = b from hfirst]
        exact h0 b List.mem_cons_self
      rw [strnlen, if_neg hne, ih hrest (fun b' hb' => h0 b' (List.mem_cons_of_mem b hb')) (Nat.le_of_succ_le_succ hroom)]

/-! ## The primary -/

theorem unitWrites_iff (unit : Item) : InBuffers (unitWrites unit) ↔ unitLength unit < 2048 := by
  unfold unitWrites unitLength
  simp only [inBuffers_append, inBuffers_copy, inBuffers_clear]
  omega

/-- The record that is sent is as long as it was counted. -/
theorem length_unitRecord {unit : Item} {text : Bytes} (h : unitRecord unit = some text) :
    text.length = unitLength unit := by
  unfold unitRecord at h
  simp only [Option.bind_eq_bind, Option.bind_eq_some_iff] at h
  obtain ⟨key, hkey, data, hdata, h⟩ := h
  simp only [setCommandServer, Option.ite_none_right_eq_some, Option.some.injEq] at h
  have hwords : (ascii "set ").length = 4 ∧ (ascii " 0 0 ").length = 5 := by decide +kernel
  rw [unitLength, strnlen_of_cString hkey, strnlen_of_cString hdata, ← h.2]
  simp only [List.length_append, hwords, List.length_cons, List.length_nil]

/-! ## The backup -/

/-- In the loop `command` is written below the number of characters seen, so a message of
less than 2048 characters before its address leaves the last byte zero. -/
theorem scanWrites_inBuffers {cs : Bytes} {st : Cut} {seen : Nat} (hj : st.j ≤ seen) (hzero : ∀ i, seen ≤ i → st.command i = 0)
    (hlen : seen + cs.length ≤ 2048) : InBuffers (scanWrites st cs) := by
  induction cs generalizing st seen with
  | nil => exact nofun
  | cons c cs ih =>
    rw [List.length_cons] at hlen
    rw [scanWrites]
    split
    · refine List.forall_mem_cons.mpr ⟨by dsimp only; omega, ?_⟩
      refine ih (show st.j + 1 ≤ seen + 1 by omega) (fun i hi => ?_) (by omega)
      dsimp only [setByte]
      rw [if_neg (by omega), hzero i (by omega)]
    · split
      · refine inBuffers_append.mpr ⟨?_, ih hj hzero (by omega)⟩
        split
        · exact nofun
        · have hle : strnlen st.command 0 2048 ≤ seen := strnlen_le (hzero _ (by omega)) 2048
          exact inBuffers_copy.mpr (by omega)
      · refine inBuffers_append.mpr ⟨inBuffers_clear.mpr (by omega), ih (Nat.zero_le seen) (fun i hi => ?_) (by omega)⟩
        dsimp only
        split
        · rfl
        · exact hzero i hi

/-- The loop of the backup is defined exactly if its writes stay inside the buffers. -/
theorem scanWrites_iff {cs : Bytes} {st : Cut} : InBuffers (scanWrites st cs) ↔ (cutTexts st cs).isSome := by
  induction cs generalizing st with
  | nil => exact ⟨fun _ => rfl, fun _ => List.forall_mem_nil _⟩
  | cons c cs ih =>
    rw [scanWrites, cutTexts]
    by_cases h1 : st.flag1 < 2
    · rw [if_pos h1, if_pos h1]
      have hcons := List.forall_mem_cons (p := fun w : RecordBuffer × Nat => w.2 < 2048) (a := (.command, st.j))
        (l := scanWrites { st with
          command := setByte st.command st.j c
          flag1 := if c = LF then st.flag1 + 1 else st.flag1
          j := st.j + 1 } cs)
      refine hcons.trans ?_
      by_cases hj : st.j < 2048
      · rw [if_pos hj]
        exact (and_iff_right hj).trans ih
      · rw [if_neg hj]
        simp [hj]
    · rw [if_neg h1, if_neg h1]
      by_cases h2 : st.flag2 < 2
      · rw [if_pos h2, if_pos h2, inBuffers_append, ih]
        dsimp only
        by_cases hdone : st.isDone = true
        · rw [if_pos hdone, if_pos hdone]
          exact and_iff_right (List.forall_mem_nil _)
        · rw [if_neg hdone, if_neg hdone, inBuffers_copy, Nat.zero_add]
          cases hs : cString st.command 0 2048 with
          | none =>
            have hlong : ¬strnlen st.command 0 2048 < 2048 := fun hlt => by
              have hsome := cString_of_strnlen hlt
              rw [hs] at hsome
              cases hsome
            simp [hlong]
          | some str =>
            have hshort : strnlen st.command 0 2048 < 2048 := by
              rw [strnlen_of_cString hs]
              exact length_cString_lt hs
            simp only [hshort, true_and, Option.bind_eq_bind, Option.bind_some]
            cases cutTexts { st with flag2 := if c = CR then st.flag2 + 1 else st.flag2, isDone := true } cs <;> simp
      · rw [if_neg h2, if_neg h2, inBuffers_append, inBuffers_clear]
        exact (and_iff_right (by omega)).trans ih

theorem appendWrites_inBuffers {text : Bytes} (p : Address) (hlen : text.length < 2048) :
    InBuffers (appendWrites (text ++ p.text ++ [CR, LF])) := by
  refine scanWrites_inBuffers (Nat.le_refl 0) (fun _ _ => rfl) ?_
  have hstop : (stripEol (text ++ p.text ++ [CR, LF])).length = text.length + p.text.length := by
    rw [stripEol_message, List.length_append]
  have hlast : p.text.length ≤ ((stripEol (text ++ p.text ++ [CR, LF])).rtakeWhile (· != LF)).length := by
    have hall : ∀ b ∈ p.text.reverse, (b != LF) = true := fun b hb => by
      simpa using (p.mem_text (List.mem_reverse.mp hb)).1
    rw [stripEol_message, List.rtakeWhile, List.length_reverse, List.reverse_append, List.takeWhile_append_of_pos hall,
      List.length_append, List.length_reverse]
    exact Nat.le_add_right _ _
  rw [getCommandLen, List.length_take, hstop]
  omega

/-- The record of an item stays inside the buffers of both nodes exactly if it is shorter
than they are. -/
theorem recordWrites_iff (unit : Item) (p : Address) :
    (InBuffers (unitWrites unit) ∧ ∀ text, unitRecord unit = some text →
      InBuffers (appendWrites (text ++ p.text ++ [CR, LF]))) ↔ unitLength unit < 2048 := by
  rw [unitWrites_iff]
  refine and_iff_left_of_imp fun hlen text htext => appendWrites_inBuffers p ?_
  rw [length_unitRecord htext]
  exact hlen

/-- One class with chunks of a megabyte. -/
def pageClass : Settings := { oneClass with slabclass := ⟨[1024 * 1024], by decide⟩ }

/-- A value of 3000 bytes is stored, and its record overruns `buf`. -/
theorem recordWrites_overrun :
    itemMakeHeader pageClass 2 0 3002 ≤ 1024 * 1024 ∧
      ¬InBuffers (unitWrites (storedUnit pageClass 1 [107] 0 0 (List.replicate 3000 97) emptyItem)) := by
  refine ⟨?_, fun h => ?_⟩
  · have hzero : (decimalInt 0).length ≤ 1 := length_decimal_le Nat.one_pos (show 0 < 10 ^ 1 by decide)
    have hlen : (decimalInt 3000).length ≤ 4 := length_decimal_le (Nat.succ_pos 3) (show 3000 < 10 ^ 4 by decide)
    have hsuffix : (headerSuffix 0 3002).length ≤ 9 := by
      have hnbytes : ((3002 : Nat) : Int) - 2 = 3000 := rfl
      simp only [headerSuffix, hnbytes, List.cons_append, List.length_append, List.length_cons, List.length_nil]
      omega
    have hsize : itemMakeHeader pageClass 2 0 3002 = sizeofItem + 2 + (headerSuffix 0 3002).length + 3002 + 8 := rfl
    have htotal : sizeofItem + 2 + (headerSuffix 0 3002).length + 3002 + 8 ≤ sizeofItem + 2 + 9 + 3002 + 8 :=
      Nat.add_le_add_right (Nat.add_le_add_right (Nat.add_le_add_left hsuffix _) _) _
    exact (hsize ▸ htotal).trans (by decide)
  · rw [unitWrites_iff, unitLength] at h
    have hdata : strnlen (storedUnit pageClass 1 [107] 0 0 (List.replicate 3000 97) emptyItem).bytes
        (itemDataOff (storedUnit pageClass 1 [107] 0 0 (List.replicate 3000 97) emptyItem)) 2048 = 2048 := by
      refine strnlen_of_slice storedUnit_data (fun b hb => ?_) ?_
      · simp only [List.mem_append, List.mem_replicate, List.mem_cons, List.not_mem_nil, or_false] at hb
        obtain ⟨-, rfl⟩ | rfl | rfl := hb <;> decide
      · simp only [List.length_append, List.length_replicate]
        omega
    omega

/-- The line of the address, in between, is overrun by shorter records already. -/
theorem ipPortWrites_iff {text : Bytes} (p : Address) :
    InBuffers (ipPortWrites (text ++ p.text ++ [CR, LF])) ↔ text.length + p.text.length < 2048 := by
  rw [ipPortWrites, inBuffers_copy, stripEol_message, List.length_append, Nat.zero_add]

end RamCube
