import RamCube.Backup.Replay
import RamCube.Store.Commands
import RamCube.Store.ItemsRun

/-! # The record of an item (ramcube.c, Object.c)

`send_unit_to_backup` gives `setCommandServer` the key and the data of an item as C
strings, while both are counted bytes in a chunk that may have been used before. The
record always says `0 0` for the flags and the expiry time. So it reads back as the item
exactly if these are 0, the value has no zero byte, and the chunk happens to hold a zero
byte behind the key and behind the data (`unitRecord_reads_iff`). -/
namespace RamCube

/-- What `setCommandServer` makes of an item. A string that goes on for longer overruns
`buf[2048]`. -/
def unitRecord (unit : Item) : Option Bytes := do
  let key ← cString unit.bytes 0 2048
  let data ← cString unit.bytes (itemDataOff unit) 2048
  setCommandServer key data (unit.nbytes - 2)

/-- A storage command line with its data block, read as key, flags, expiry time and data.
The text ends with the block. -/
def readRecord (text : Bytes) : Option (Bytes × Int × Int × Bytes) :=
  match tokens (· == space) (chopLine (text.takeWhile (· != LF))) with
  | comm :: key :: flags :: exptime :: vlen :: more =>
    let block := (text.dropWhile (· != LF)).drop 1
    if comm = ascii "set" ∧ more.length ≤ 1 ∧ key.length ≤ KEY_MAX_LENGTH ∧ 0 ≤ strtol vlen ∧
        block.drop (strtol vlen).toNat = [CR, LF] then
      some (key, strtol flags, strtol exptime, block.take (strtol vlen).toNat)
    else none
  | _ => none

/-- An item as a `set` leaves it in a chunk: `do_item_alloc`, then the data read from the
connection. -/
def storedUnit (cfg : Settings) (id : SlabId) (key : Bytes) (flags : Int) (exptime : UInt32) (value : Bytes)
    (chunk : Item) : Item :=
  writeData 0 (value ++ [CR, LF]) (itemInit cfg id key flags exptime (value.length + 2) chunk)

/-- The record that a key and a value should make. -/
def recordText (key value : Bytes) : Bytes :=
  ascii "set " ++ key ++ ascii " 0 0 " ++ decimal value.length ++ [CR, LF] ++ (value ++ [CR, LF])

/-! ## C strings -/

section

variable {m : Nat → UInt8} {off room : Nat} {bs s : Bytes}

/-- Bytes that are not zero are part of the string they start. -/
theorem cString_prefix (hb : slice m off bs.length = bs) (h0 : ∀ b ∈ bs, b ≠ 0) (hs : cString m off room = some s) :
    bs <+: s := by
  induction bs generalizing off room s with
  | nil => exact List.nil_prefix
  | cons b bs ih =>
    cases room with
    | zero => cases hs
    | succ room =>
      rw [List.length_cons, Nat.add_comm, slice_add] at hb
      obtain ⟨hfirst, hrest⟩ := List.cons.inj hb
      have hne : m off ≠ 0 := by
        rw [show m off = b from hfirst]
        exact h0 b List.mem_cons_self
      rw [cString, if_neg hne] at hs
      obtain ⟨s', hs', rfl⟩ := Option.map_eq_some_iff.mp hs
      rw [show m off = b from hfirst]
      exact List.cons_prefix_cons.mpr ⟨rfl, ih hrest (fun b' hb' => h0 b' (List.mem_cons_of_mem b hb')) hs'⟩

/-- A string is the bytes up to the first zero. -/
theorem cString_slice (hs : cString m off room = some s) :
    slice m off s.length = s ∧ (∀ b ∈ s, b ≠ 0) ∧ m (off + s.length) = 0 := by
  induction room generalizing off s with
  | zero => cases hs
  | succ room ih =>
    rw [cString] at hs
    split at hs
    · rename_i hzero
      obtain rfl := Option.some.inj hs
      exact ⟨rfl, by simp, hzero⟩
    · rename_i hne
      obtain ⟨s', hs', rfl⟩ := Option.map_eq_some_iff.mp hs
      obtain ⟨hslice, hok, hend⟩ := ih hs'
      refine ⟨?_, fun b hb => ?_, ?_⟩
      · rw [List.length_cons, Nat.add_comm, slice_add, hslice]
        rfl
      · obtain rfl | hb := List.mem_cons.mp hb
        · exact hne
        · exact hok b hb
      · rw [List.length_cons, ← hend]
        congr 1
        omega

/-- Counted bytes are the string at their place exactly if there is no zero in them and
one behind them. -/
theorem cString_eq_iff (hb : slice m off bs.length = bs) (hroom : bs.length < room) :
    cString m off room = some bs ↔ (∀ b ∈ bs, b ≠ 0) ∧ m (off + bs.length) = 0 := by
  constructor
  · intro hs
    exact (cString_slice hs).2
  · rintro ⟨h0, hend⟩
    exact cString_eq hb h0 hend hroom

end

/-! ## Words -/

theorem length_splitOnP (sep : UInt8 → Bool) (bs : Bytes) : (bs.splitOnP sep).length = bs.countP sep + 1 := by
  induction bs with
  | nil => rfl
  | cons b bs ih =>
    rw [List.splitOnP_cons_eq_if_modifyHead]
    by_cases hb : sep b = true
    · rw [if_pos hb, List.length_cons, ih, List.countP_cons_of_pos hb]
    · rw [if_neg hb, List.length_modifyHead, ih, List.countP_cons_of_neg hb]

theorem length_tokens_le (sep : UInt8 → Bool) (bs : Bytes) : (tokens sep bs).length ≤ bs.countP sep + 1 := by
  rw [← length_splitOnP]
  exact List.length_filter_le ..

theorem chopLine_sublist (line : Bytes) : (chopLine line).Sublist line := by
  unfold chopLine
  split
  · exact List.dropLast_sublist line
  · exact List.Sublist.refl line

theorem chopLine_cr {line : Bytes} (h : line ≠ []) : chopLine (line ++ [CR]) = line := by
  have hpos := List.length_pos_of_ne_nil h
  unfold chopLine
  rw [if_pos ⟨by simpa using hpos, by simp⟩, List.dropLast_concat]

/-- A line of four words is no storage command. -/
theorem readRecord_short {text : Bytes}
    (h : (tokens (· == space) (chopLine (text.takeWhile (· != LF)))).length ≤ 4) : readRecord text = none := by
  unfold readRecord
  split
  · rename_i heq
    rw [heq] at h
    simp only [List.length_cons] at h
    omega
  · rfl

theorem mem_decimalInt {i : Int} {b : UInt8} (h : b ∈ decimalInt i) : isDigit b = true ∨ b = 45 := by
  cases i with
  | ofNat n => exact .inl (mem_decimal h)
  | negSucc n =>
    obtain rfl | h := List.mem_cons.mp h
    · exact .inr rfl
    · exact .inl (mem_decimal h)

theorem decimalInt_ne {i : Int} {b : UInt8} (h : b ∈ decimalInt i) : b ≠ 0 ∧ b ≠ LF ∧ b ≠ space := by
  obtain h | rfl := mem_decimalInt h
  · obtain ⟨h0, hlf, -, -, -, hsp⟩ := digit_ne h
    exact ⟨h0, hlf, hsp⟩
  · decide

theorem decimalInt_ne_nil (i : Int) : decimalInt i ≠ [] := by
  cases i with
  | ofNat n => exact decimal_ne_nil n
  | negSucc n => simp [decimalInt]

/-! ## An item in its chunk -/

section

variable {cfg : Settings} {id : SlabId} {key value : Bytes} {flags : Int} {exptime : UInt32} {chunk : Item}

theorem storedUnit_key : slice (storedUnit cfg id key flags exptime value chunk).bytes 0 key.length = key := by
  unfold storedUnit writeData itemInit
  dsimp only
  rw [slice_blit_of_disjoint (.inl (by simp only [itemDataOff]; omega)), slice_blit_of_disjoint (.inl (by omega)),
    slice_blit_self]

/-- The byte behind the key is the one that was there before. -/
theorem storedUnit_terminator :
    (storedUnit cfg id key flags exptime value chunk).bytes key.length = chunk.bytes key.length := by
  unfold storedUnit writeData itemInit
  dsimp only
  rw [blit_of_out (.inl (by simp only [itemDataOff]; omega)), blit_of_out (.inl (by omega)), blit_of_out (.inr (by omega))]

theorem storedUnit_suffix : slice (storedUnit cfg id key flags exptime value chunk).bytes (key.length + 1)
    (headerSuffix flags (value.length + 2)).length = headerSuffix flags (value.length + 2) := by
  unfold storedUnit writeData itemInit
  dsimp only
  rw [slice_blit_of_disjoint (.inl (by simp only [itemDataOff]; omega)), slice_blit_self]

theorem storedUnit_data : slice (storedUnit cfg id key flags exptime value chunk).bytes
    (itemDataOff (storedUnit cfg id key flags exptime value chunk)) (value ++ [CR, LF]).length = value ++ [CR, LF] := by
  unfold storedUnit writeData
  exact slice_blit_self

/-- So is the byte behind the data. -/
theorem storedUnit_end :
    (storedUnit cfg id key flags exptime value chunk).bytes
        (itemDataOff (storedUnit cfg id key flags exptime value chunk) + (value ++ [CR, LF]).length) =
      chunk.bytes (itemDataOff (storedUnit cfg id key flags exptime value chunk) + (value ++ [CR, LF]).length) := by
  unfold storedUnit writeData itemInit
  dsimp only [itemDataOff]
  rw [blit_of_out (.inr (by omega)), blit_of_out (.inr (by omega)), blit_of_out (.inr (by omega))]

/-! ## Reading the record back -/

/-- The first line of a record whose key string goes on into the suffix has four words
at most, whatever byte lies between. -/
theorem tokens_openKey (flags : Int) (t : UInt8) (rest : Bytes) (hkey : ∀ b ∈ key, b ≠ LF ∧ b ≠ space) (hne : key ≠ []) (n : Int) :
    (tokens (· == space) (chopLine (((ascii "set " ++ key ++ t :: (space :: decimalInt flags ++ space :: decimalInt n ++
      [CR])) ++ LF :: rest).takeWhile (· != LF)))).length ≤ 4 := by
  have hset : (∀ b ∈ ascii "set ", (b != LF) = true) ∧ (ascii "set ").countP (· == space) = 1 := by decide +kernel
  have hkeyLine : ∀ b ∈ key, (b != LF) = true := fun b hb => by simpa using (hkey b hb).1
  have hkeyWord : key.countP (· == space) = 0 := List.countP_eq_zero.mpr fun b hb => by simpa using (hkey b hb).2
  have hint : ∀ i : Int, (decimalInt i).countP (· == space) = 0 := fun i =>
    List.countP_eq_zero.mpr fun b hb => by simpa using (decimalInt_ne hb).2.2
  have hcount : ∀ line : Bytes, line.countP (· == space) ≤ 3 → (tokens (· == space) (chopLine line)).length ≤ 4 := by
    intro line hle
    have hwords := length_tokens_le (· == space) (chopLine line)
    have hsub := (chopLine_sublist line).countP_le (p := (· == space))
    omega
  have hstart : ∀ b ∈ ascii "set " ++ key, (b != LF) = true := fun b hb => by
    obtain hb | hb := List.mem_append.mp hb
    · exact hset.1 b hb
    · exact hkeyLine b hb
  by_cases hlf : t = LF
  · have hline : ((ascii "set " ++ key ++ t :: (space :: decimalInt flags ++ space :: decimalInt n ++ [CR])) ++
        LF :: rest).takeWhile (· != LF) = ascii "set " ++ key := by
      rw [List.append_assoc, List.takeWhile_append_of_pos hstart, hlf, List.cons_append,
        List.takeWhile_cons_of_neg (by simp), List.append_nil]
    rw [hline]
    apply hcount
    rw [List.countP_append, hset.2, hkeyWord]
    omega
  · have htail : ∀ b ∈ t :: (space :: decimalInt flags ++ space :: decimalInt n ++ [CR]), (b != LF) = true := by
      intro b hb
      simp only [List.cons_append, List.append_assoc, List.mem_cons, List.mem_append, List.not_mem_nil, or_false] at hb
      obtain rfl | rfl | hb | rfl | hb | rfl := hb
      · simpa using hlf
      · decide
      · simpa using (decimalInt_ne hb).2.1
      · decide
      · simpa using (decimalInt_ne hb).2.1
      · decide
    have hline : ((ascii "set " ++ key ++ t :: (space :: decimalInt flags ++ space :: decimalInt n ++ [CR])) ++
        LF :: rest).takeWhile (· != LF) =
        ascii "set " ++ key ++ t :: (space :: decimalInt flags ++ space :: decimalInt n ++ [CR]) := by
      rw [List.takeWhile_append_of_pos, List.takeWhile_cons_of_neg (by simp), List.append_nil]
      intro b hb
      obtain hb | hb := List.mem_append.mp hb
      · exact hstart b hb
      · exact htail b hb
    rw [hline]
    by_cases hsp : t = space
    · -- Two blanks end the key.
      have hchop : chopLine (ascii "set " ++ key ++ t :: (space :: decimalInt flags ++ space :: decimalInt n ++ [CR])) =
          ascii "set" ++ space :: (key ++ space :: space :: (decimalInt flags ++ space :: decimalInt n)) := by
        have hsplit : ascii "set " ++ key ++ t :: (space :: decimalInt flags ++ space :: decimalInt n ++ [CR]) =
            (ascii "set" ++ space :: (key ++ space :: space :: (decimalInt flags ++ space :: decimalInt n))) ++ [CR] := by
          rw [hsp]
          simp [ascii, space]
        rw [hsplit, chopLine_cr (by simp)]
      have hword : (∀ b ∈ ascii "set", (b == space) = false) ∧ ascii "set" ≠ [] := by decide +kernel
      have hkeyBlank : ∀ b ∈ key, (b == space) = false := fun b hb => by simpa using (hkey b hb).2
      have hnum : ∀ i : Int, ∀ b ∈ decimalInt i, (b == space) = false := fun i b hb => by
        simpa using (decimalInt_ne hb).2.2
      rw [hchop, tokens_cons hword.1 hword.2 rfl, tokens_cons hkeyBlank hne rfl, tokens_skip rfl,
        tokens_cons (hnum flags) (decimalInt_ne_nil flags) rfl, tokens_last (hnum n) (decimalInt_ne_nil n)]
      rfl
    · apply hcount
      have ht : (t == space) = false := by simpa using hsp
      have hcr : (CR == space) = false := rfl
      simp only [List.countP_append, List.countP_cons, List.cons_append, List.countP_nil, hset.2, hkeyWord, hint, ht, hcr,
        beq_self_eq_true, if_true]
      simp

/-- A chunk with another byte behind the key makes a record of no item. -/
theorem unitRecord_openKey (hkey : ∀ b ∈ key, 32 < b) (hne : key ≠ []) (ht : chunk.bytes key.length ≠ 0) :
    (unitRecord (storedUnit cfg id key flags exptime value chunk)).bind readRecord = none := by
  rw [Option.bind_eq_none_iff]
  intro text htext
  unfold unitRecord at htext
  simp only [Option.bind_eq_bind, Option.bind_eq_some_iff] at htext
  obtain ⟨k, hk, d, -, htext⟩ := htext
  simp only [setCommandServer, Option.ite_none_right_eq_some, Option.some.injEq] at htext
  have hsuffix : headerSuffix flags (value.length + 2) =
      space :: decimalInt flags ++ space :: decimalInt ((value.length + 2 : Nat) - 2) ++ [CR, LF] := rfl
  have hkeyOk : ∀ b ∈ key, b ≠ 0 ∧ b ≠ LF ∧ b ≠ space := by
    intro b hb
    have hlt := hkey b hb
    refine ⟨?_, ?_, ?_⟩ <;>
    · rintro rfl
      revert hlt
      decide
  have hpre : key ++ chunk.bytes key.length :: headerSuffix flags (value.length + 2) <+: k := by
    refine cString_prefix ?_ (fun b hb => ?_) hk
    · rw [List.length_append, List.length_cons, slice_add, storedUnit_key, Nat.add_comm _ 1, slice_add, Nat.zero_add,
        storedUnit_suffix]
      congr 1
      have hterm : (storedUnit cfg id key flags exptime value chunk).bytes key.length = chunk.bytes key.length :=
        storedUnit_terminator
      rw [← hterm]
      rfl
    · rw [hsuffix] at hb
      simp only [List.cons_append, List.append_assoc, List.mem_cons, List.mem_append, List.not_mem_nil, or_false] at hb
      obtain hb | rfl | rfl | hb | rfl | hb | rfl | rfl := hb
      · exact (hkeyOk b hb).1
      · exact ht
      · decide
      · exact (decimalInt_ne hb).1
      · decide
      · exact (decimalInt_ne hb).1
      · decide
      · decide
  obtain ⟨more, rfl⟩ := hpre
  apply readRecord_short
  rw [← htext.2, hsuffix]
  have hwords := fun rest => tokens_openKey flags (chunk.bytes key.length) rest (fun b hb => (hkeyOk b hb).2) hne
    ((value.length + 2 : Nat) - 2)
  simpa using hwords _

/-- The record of a closed key says `0 0`, and its block is the data string. -/
theorem readRecord_commandLine (hkey : ∀ b ∈ key, b ≠ LF ∧ b ≠ space) (hne : key ≠ [])
    (hlen : key.length ≤ KEY_MAX_LENGTH) (n : Nat) (d : Bytes) :
    readRecord (ascii "set " ++ key ++ ascii " 0 0 " ++ decimal n ++ [CR, LF] ++ d) =
      if d.drop n = [CR, LF] then some (key, 0, 0, d.take n) else none := by
  have hset : ∀ b ∈ ascii "set ", (b != LF) = true := by decide +kernel
  have hzero : ∀ b ∈ ascii " 0 0 ", (b != LF) = true := by decide +kernel
  have hok : ∀ b ∈ ascii "set " ++ key ++ ascii " 0 0 " ++ decimal n ++ [CR], (b != LF) = true := by
    intro b hb
    simp only [List.mem_append, List.mem_singleton] at hb
    obtain (((hb | hb) | hb) | hb) | rfl := hb
    · exact hset b hb
    · simpa using (hkey b hb).1
    · exact hzero b hb
    · simpa using (digit_ne (mem_decimal hb)).2.1
    · decide
  have hsplit : ascii "set " ++ key ++ ascii " 0 0 " ++ decimal n ++ [CR, LF] ++ d =
      (ascii "set " ++ key ++ ascii " 0 0 " ++ decimal n ++ [CR]) ++ LF :: d := by simp
  have hchop : chopLine (ascii "set " ++ key ++ ascii " 0 0 " ++ decimal n ++ [CR]) =
      ascii "set " ++ key ++ ascii " 0 0 " ++ decimal n :=
    chopLine_cr (by simp [hne])
  have hnum : strtol (decimal n) = n := by simpa using strtol_decimal n [] nofun
  have hword : strtol (ascii "0") = 0 := by decide +kernel
  unfold readRecord
  rw [hsplit, List.takeWhile_append_of_pos hok, List.takeWhile_cons_of_neg (by simp), List.append_nil, hchop,
    tokens_commandLine (fun b hb => (hkey b hb).2) hne, List.dropWhile_append_of_pos hok,
    List.dropWhile_cons_of_neg (by simp)]
  simp [hnum, hword, hlen]

theorem setCommandServer_recordText (hfit : (recordText key value).length ≤ 2047) :
    setCommandServer key (value ++ [CR, LF]) value.length = some (recordText key value) := by
  have hshort : (decimalInt value.length).length < 10 := by
    have hvalue : value.length < 10 ^ 9 := by
      simp only [recordText, List.length_append] at hfit
      omega
    exact Nat.lt_succ_of_le (length_decimal_le (by omega) hvalue)
  have htext : ascii "set " ++ key ++ ascii " 0 0 " ++ decimalInt value.length ++ [CR, LF] ++
    (value ++ [CR, LF]) = recordText key value := rfl
  unfold setCommandServer
  dsimp only
  rw [htext, if_pos ⟨hshort, by omega⟩]

theorem readRecord_recordText (hkey : ∀ b ∈ key, b ≠ LF ∧ b ≠ space) (hne : key ≠ [])
    (hlen : key.length ≤ KEY_MAX_LENGTH) : readRecord (recordText key value) = some (key, 0, 0, value) := by
  rw [recordText, readRecord_commandLine hkey hne hlen, if_pos (List.drop_left' rfl), List.take_left' rfl]

/-- So nothing but zeros is read for the flags and the expiry time. -/
theorem setCommandServer_read {n : Nat} {d : Bytes} {exptime : Int} (hkey : ∀ b ∈ key, b ≠ LF ∧ b ≠ space)
    (hne : key ≠ []) (hlen : key.length ≤ KEY_MAX_LENGTH)
    (h : (setCommandServer key d n).bind readRecord = some (key, flags, exptime, value)) :
    flags = 0 ∧ exptime = 0 ∧ d = value ++ [CR, LF] := by
  obtain ⟨text, htext, hread⟩ := Option.bind_eq_some_iff.mp h
  simp only [setCommandServer, Option.ite_none_right_eq_some, Option.some.injEq] at htext
  have hdec : decimalInt n = decimal n := rfl
  rw [← htext.2, hdec, readRecord_commandLine hkey hne hlen] at hread
  split at hread
  · rename_i hdrop
    simp only [Option.some.injEq, Prod.mk.injEq] at hread
    obtain ⟨-, hflags, hexptime, hvalue⟩ := hread
    refine ⟨hflags.symm, hexptime.symm, ?_⟩
    rw [← hvalue, ← hdrop, List.take_append_drop]
  · cases hread

theorem unitRecord_closedKey (hkey : ∀ b ∈ key, 32 < b) (hlen : key.length ≤ KEY_MAX_LENGTH)
    (ht : chunk.bytes key.length = 0) :
    unitRecord (storedUnit cfg id key flags exptime value chunk) =
      (cString (storedUnit cfg id key flags exptime value chunk).bytes
        (itemDataOff (storedUnit cfg id key flags exptime value chunk)) 2048).bind fun d =>
          setCommandServer key d value.length := by
  have hkeyString : cString (storedUnit cfg id key flags exptime value chunk).bytes 0 2048 = some key := by
    refine cString_eq storedUnit_key (fun b hb => ?_) ?_ ?_
    · have hlt := hkey b hb
      rintro rfl
      revert hlt
      decide
    · rw [Nat.zero_add, storedUnit_terminator, ht]
    · unfold KEY_MAX_LENGTH at hlen
      omega
  have hnbyte : ((storedUnit cfg id key flags exptime value chunk).nbytes : Int) - 2 = value.length := by
    change ((value.length + 2 : Nat) : Int) - 2 = value.length
    omega
  unfold unitRecord
  rw [hkeyString, hnbyte]
  rfl

/-- The record of an item, whatever its chunk held before, reads back as the item exactly
if the flags and the expiry time are 0, the value has no zero byte, and there is one
behind the key and behind the data. -/
theorem unitRecord_reads_iff {cfg : Settings} {id : SlabId} {key value : Bytes} {flags : Int} {exptime : UInt32}
    {chunk : Item} (hne : key ≠ []) (hlen : key.length ≤ KEY_MAX_LENGTH) (hkey : ∀ b ∈ key, 32 < b)
    (hfit : (recordText key value).length ≤ 2047) :
    (unitRecord (storedUnit cfg id key flags exptime value chunk)).bind readRecord =
        some (key, flags, (exptime.toNat : Int), value) ↔
      flags = 0 ∧ exptime = 0 ∧ (∀ b ∈ value, b ≠ 0) ∧ chunk.bytes key.length = 0 ∧
        chunk.bytes (itemDataOff (storedUnit cfg id key flags exptime value chunk) + (value ++ [CR, LF]).length) = 0 := by
  by_cases ht : chunk.bytes key.length = 0
  · have hkeyOk : ∀ b ∈ key, b ≠ LF ∧ b ≠ space := by
      intro b hb
      have hlt := hkey b hb
      refine ⟨?_, ?_⟩ <;>
      · rintro rfl
        revert hlt
        decide
    have hzero : exptime = 0 ↔ (exptime.toNat : Int) = 0 := by
      rw [← UInt32.toNat_inj, UInt32.toNat_zero]
      omega
    have hread : ∀ d : Bytes, (setCommandServer key d value.length).bind readRecord =
          some (key, flags, (exptime.toNat : Int), value) ↔ flags = 0 ∧ exptime = 0 ∧ d = value ++ [CR, LF] := by
      intro d
      constructor
      · intro h
        obtain ⟨hflags, hexptime, hd⟩ := setCommandServer_read hkeyOk hne hlen h
        exact ⟨hflags, hzero.mpr hexptime, hd⟩
      · rintro ⟨hflags, hexptime, rfl⟩
        rw [setCommandServer_recordText hfit, Option.bind_some, readRecord_recordText hkeyOk hne hlen, hflags,
          hzero.mp hexptime]
    have hroom : (value ++ [CR, LF]).length < 2048 := by
      simp only [recordText, List.length_append] at hfit ⊢
      omega
    have hdata : cString (storedUnit cfg id key flags exptime value chunk).bytes
        (itemDataOff (storedUnit cfg id key flags exptime value chunk)) 2048 = some (value ++ [CR, LF]) ↔ _ :=
      cString_eq_iff storedUnit_data hroom
    rw [storedUnit_end] at hdata
    rw [unitRecord_closedKey hkey hlen ht, Option.bind_assoc, Option.bind_eq_some_iff]
    constructor
    · rintro ⟨d, hd, hr⟩
      obtain ⟨hflags, hexptime, rfl⟩ := (hread d).mp hr
      obtain ⟨hvalue, hend⟩ := hdata.mp hd
      exact ⟨hflags, hexptime, fun b hb => hvalue b (List.mem_append_left _ hb), ht, hend⟩
    · rintro ⟨hflags, hexptime, hvalue, -, hend⟩
      refine ⟨value ++ [CR, LF], hdata.mpr ⟨fun b hb => ?_, hend⟩, (hread _).mpr ⟨hflags, hexptime, rfl⟩⟩
      obtain hb | hb := List.mem_append.mp hb
      · exact hvalue b hb
      · simp only [List.mem_cons, List.not_mem_nil, or_false] at hb
        obtain rfl | rfl := hb <;> decide
  · rw [unitRecord_openKey hkey hne ht]
    simp [ht]

end

/-- The key `k` with the value `v`, in a chunk that was never used. -/
theorem unitRecord_reads_fresh :
    (unitRecord (storedUnit oneClass 1 [107] 0 0 [118] emptyItem)).bind readRecord = some ([107], 0, 0, [118]) := by
  have hfit : (recordText [107] [118]).length ≤ 2047 := by
    have hdigits : (decimal 1).length ≤ 1 := length_decimal_le (Nat.succ_pos 0) (by decide)
    simp only [recordText, List.length_append, ascii, List.length_map]
    simp
    omega
  exact (unitRecord_reads_iff (by simp) (by decide) (List.forall_mem_singleton.mpr (by decide)) hfit).mpr
    ⟨rfl, rfl, List.forall_mem_singleton.mpr (by decide), rfl, rfl⟩

/-- With the flags 5 the record says 0. -/
theorem unitRecord_loses_flags :
    (unitRecord (storedUnit oneClass 1 [107] 5 0 [118] emptyItem)).bind readRecord ≠ some ([107], 5, 0, [118]) := by
  intro h
  rw [unitRecord_closedKey (List.forall_mem_singleton.mpr (by decide)) (by decide) rfl, Option.bind_assoc, Option.bind_eq_some_iff] at h
  obtain ⟨d, -, h⟩ := h
  obtain ⟨hflags, -⟩ := setCommandServer_read (List.forall_mem_singleton.mpr (by decide)) (by simp) (by decide) h
  exact absurd hflags (by decide)

end RamCube
