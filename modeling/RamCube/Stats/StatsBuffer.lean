import RamCube.Lib.CString
import RamCube.Lib.Run
import RamCube.Server.Conn

/-! # The buffer for the text of a `stats` command (memcached.c)

Statistics are appended one by one, as `STAT` lines or as packets. Room is made first, from the
lengths of the name and of the value; the length of a value is the one that `vsnprintf` returns,
which is that of the value before it is cut to the room of `val_str`. -/
namespace RamCube

def STAT_KEY_LEN : Nat := 128

def STAT_VAL_LEN : Nat := 128

/-- `c->stats`; the buffer has `size` bytes. -/
structure StatsBuf where
  buffer : Option Bytes
  size : Nat
  offset : Nat

/-- A statistic, with the value that the format makes, and how it is emitted: by `append_stat`, by
`APPEND_NUM_FMT_STAT`, or by `append_stats` from a buffer that holds the value. -/
inductive StatCall where
  | stat (name value : Bytes)
  | numFmtStat (name value : Bytes)
  | raw (name value : Bytes)

/-- `snprintf` to a buffer of its own: what lies there. -/
def formatted (room : Nat) (text : Bytes) : Bytes := text.take (room - 1) ++ [0]

def statHeader (reqOpaque : UInt32) (klen vlen : Nat) : Bytes :=
  [0x81, 0x10] ++ bigEndian 2 klen ++ [0, 0] ++ bigEndian 2 0 ++ bigEndian 4 (klen + vlen) ++
    bigEndian 4 reqOpaque.toNat ++ bigEndian 8 0

def statText (key : Bytes) (klen : Nat) (val : Bytes) (vlen : Nat) : Bytes :=
  if klen = 0 ∧ vlen = 0 then ascii "END" ++ [13, 10]
  else if vlen = 0 then ascii "STAT " ++ cText key ++ [13, 10]
  else ascii "STAT " ++ cText key ++ [32] ++ cText val ++ [13, 10]

namespace StatsBuf

/-- `while (needed > available)`, for as many shifts as a `size_t` takes; `none` where there is no such
size. -/
def growTo (needed offset : Nat) : Nat → Nat → Nat → Option Nat
  | 0, _, _ => none
  | fuel + 1, available, nsize =>
    if available < needed then growTo needed offset fuel (nsize * 2 - offset) (nsize * 2) else some nsize

/-- `realloc`: what is there stays. -/
def enlarge (buffer : Option Bytes) (nsize : Nat) : Bytes :=
  let buf := buffer.getD []
  buf ++ List.replicate (nsize - buf.length) 0

/-- With whether `realloc` has the memory. -/
def growStatsBuf (granted : Bool) (t : StatsBuf) (needed : Nat) : Option (StatsBuf × Bool) := do
  let nsize := if t.buffer = none then 1024 else t.size
  let t := if t.buffer = none then { t with size := 0, offset := 0 } else t
  let nsize ← growTo needed t.offset 64 (t.size - t.offset) nsize
  if nsize ≠ t.size then
    if granted then some ({ t with buffer := some (enlarge t.buffer nsize), size := nsize }, true)
    else some (t, false)
  else some (t, true)

/-- `memcpy(buf + i, src, n)` -/
def copyTo (buf : Bytes) (i : Nat) (src : Bytes) (n : Nat) : Option Bytes :=
  if n ≤ src.length then pokes buf i (src.take n) else none

def appendBinStats (reqOpaque : UInt32) (t : StatsBuf) (key : Bytes) (klen : Nat) (val : Bytes) (vlen : Nat) :
    Option StatsBuf := do
  let buf ← t.buffer
  let buf ← pokes buf t.offset (statHeader reqOpaque klen vlen)
  let buf ← if 0 < klen then copyTo buf (t.offset + 24) key klen else some buf
  let buf ← if 0 < klen ∧ 0 < vlen then copyTo buf (t.offset + 24 + klen) val vlen else some buf
  some { t with buffer := some buf, offset := t.offset + (24 + (klen + vlen)) }

/-- `snprintf` refuses a room that is no `int`. -/
def appendAsciiStats (t : StatsBuf) (key : Bytes) (klen : Nat) (val : Bytes) (vlen : Nat) : Option StatsBuf := do
  let buf ← t.buffer
  let remaining := Int32.ofNat (t.size - t.offset)
  let room := remaining - 1
  if room < 0 then none
  else do
    let buf ← snprintf buf t.offset room.toInt.toNat (statText key klen val vlen)
    some { t with buffer := some buf, offset := t.offset + (statText key klen val vlen).length }

/-- `none` where the assertion fails, or bytes are read or written that are not there. -/
def appendStats (protocol : Protocol) (reqOpaque : UInt32) (granted : Bool) (t : StatsBuf) (key : Bytes) (klen : Nat)
    (val : Bytes) (vlen : Nat) : Option StatsBuf :=
  if klen = 0 ∧ 0 < vlen then some t
  else do
    let needed := vlen + klen + if protocol = .binary then 24 else 10
    let (t, grown) ← t.growStatsBuf granted needed
    if grown then do
      let t ← if protocol = .binary then t.appendBinStats reqOpaque key klen val vlen
        else t.appendAsciiStats key klen val vlen
      if t.offset ≤ t.size then some t else none
    else some t

end StatsBuf

namespace StatCall

def name : StatCall → Bytes
  | stat name _ => name
  | numFmtStat name _ => name
  | raw name _ => name

def value : StatCall → Bytes
  | stat _ value => value
  | numFmtStat _ value => value
  | raw _ value => value

/-- The key and the value that `append_stats` is given. -/
def key : StatCall → Bytes
  | stat name _ => name ++ [0]
  | numFmtStat name _ => formatted STAT_KEY_LEN name
  | raw name _ => name ++ [0]

def val : StatCall → Bytes
  | stat _ value => formatted (STAT_VAL_LEN - 1) value
  | numFmtStat _ value => formatted STAT_VAL_LEN value
  | raw _ value => value ++ [0]

end StatCall

section

variable (protocol : Protocol) (reqOpaque : UInt32)

/-- The lengths are those of the whole name, as a `uint16_t`, and of the whole value. -/
def StatsBuf.emit (t : StatsBuf) (c : StatCall) (granted : Bool) : Option StatsBuf :=
  t.appendStats protocol reqOpaque granted c.key (c.name.length % 2 ^ 16) c.val c.value.length

/-- `append_stats(NULL, 0, NULL, 0, c)` -/
def StatsBuf.terminate (t : StatsBuf) (granted : Bool) : Option StatsBuf :=
  t.appendStats protocol reqOpaque granted [] 0 [] 0

def StatStep (t : StatsBuf) (c : StatCall × Bool) (t' : StatsBuf) : Prop := t.emit protocol reqOpaque c.1 c.2 = some t'

end

/-! ## Reading the buffer -/

/-- The text so far. -/
def StatsBuf.text (t : StatsBuf) : Bytes := (t.buffer.getD []).take t.offset

/-- A line: the name ends with the first blank. -/
def readStatLine (line : Bytes) : Option (Bytes × Bytes) :=
  if ascii "STAT " <+: line then
    let rest := line.drop 5
    some (rest.takeWhile (· != 32), (rest.dropWhile (· != 32)).drop 1)
  else none

/-- The lines of a text up to `END`. -/
def readStatLines : Nat → Bytes → Option (List (Bytes × Bytes))
  | 0, _ => none
  | fuel + 1, text =>
    let line := (text.takeWhile (· != 10)).dropLast
    if text = [] ∨ line = ascii "END" then some []
    else do
      let stat ← readStatLine line
      let rest ← readStatLines fuel ((text.dropWhile (· != 10)).drop 1)
      some (stat :: rest)

/-- The packets of a text up to the one without a key. -/
def readStatPackets : Nat → Bytes → Option (List (Bytes × Bytes))
  | 0, _ => none
  | fuel + 1, text =>
    let klen := readBigEndian ((text.drop 2).take 2)
    let bodylen := readBigEndian ((text.drop 8).take 4)
    if text = [] ∨ klen = 0 then some []
    else if text.length < 24 + bodylen ∨ bodylen < klen then none
    else do
      let rest ← readStatPackets fuel (text.drop (24 + bodylen))
      some (((text.drop 24).take klen, (text.drop (24 + klen)).take (bodylen - klen)) :: rest)

def readStats (protocol : Protocol) (text : Bytes) : Option (List (Bytes × Bytes)) :=
  if protocol = .binary then readStatPackets (text.length + 1) text else readStatLines (text.length + 1) text

/-! ## What can be read back -/

/-- The value fits in `val_str`, and the name in `key_str`. -/
def StatCall.Short (protocol : Protocol) : StatCall → Prop
  | stat _ value => value.length < STAT_VAL_LEN - 1
  | numFmtStat name value => name.length < STAT_KEY_LEN ∧ value.length < STAT_VAL_LEN
  | raw _ value => value.length < if protocol = .binary then 2 ^ 31 else 2 ^ 29

/-- Names that are words, and values that are no longer than `val_str`. -/
structure Readable (protocol : Protocol) (c : StatCall) : Prop where
  named : c.name ≠ []
  text : 0 ∉ c.name
  name_lt : c.name.length < 2 ^ 16
  short : c.Short protocol
  line : protocol ≠ .binary → 32 ∉ c.name ∧ 10 ∉ c.name ∧ 10 ∉ c.value ∧ 0 ∉ c.value

/-- The bytes for which room is made. -/
def statNeeded (protocol : Protocol) (c : StatCall) : Nat :=
  c.value.length + c.name.length + if protocol = .binary then 24 else 10

/-- How large a buffer can grow: `remaining` is an `int`. -/
def statLimit (protocol : Protocol) : Nat := if protocol = .binary then 2 ^ 62 else 2 ^ 31

def StatGuard (protocol : Protocol) (t : StatsBuf) (c : StatCall × Bool) : Prop :=
  c.2 = true ∧ Readable protocol c.1 ∧ t.text.length + statNeeded protocol c.1 ≤ statLimit protocol

/-! ## Room -/

/-- The buffer between two statistics: as large as `size` says, and never so large that what
remains is no `int`. -/
structure StatsOk (protocol : Protocol) (t : StatsBuf) : Prop where
  within : t.offset ≤ t.size
  sized : ∀ buf, t.buffer = some buf → buf.length = t.size ∧ 0 < t.offset ∧ t.size ≤ statLimit protocol ∧ ∃ k, 10 ≤ k ∧ t.size = 2 ^ k

section

variable {protocol : Protocol} {reqOpaque : UInt32} {t t' : StatsBuf} {needed offset fuel available k n : Nat}

/-- The loop ends with the first size that has room. -/
theorem growTo_some {limit : Nat} (hk : k ≤ limit) (hpos : 0 < needed) (hroom : offset + needed ≤ 2 ^ limit)
    (hav : available = 2 ^ k - offset ∨ available ≤ 2 ^ k - offset ∧ k < limit) (hfuel : limit < fuel + k) :
    ∃ j, k ≤ j ∧ j ≤ limit ∧ StatsBuf.growTo needed offset fuel available (2 ^ k) = some (2 ^ j) ∧ offset + needed ≤ 2 ^ j := by
  induction fuel generalizing k available with
  | zero => omega
  | succ fuel ih =>
    rw [StatsBuf.growTo]
    split
    · rename_i hless
      have hlt : k < limit := by
        rcases Nat.lt_or_eq_of_le hk with hlt | rfl
        · exact hlt
        · omega
      have hnext := ih hlt (.inl rfl) (by omega)
      rw [Nat.pow_succ] at hnext
      obtain ⟨j, hj, hjl, hg, hfit⟩ := hnext
      exact ⟨j, by omega, hjl, hg, hfit⟩
    · rename_i henough
      exact ⟨k, Nat.le_refl k, hk, rfl, by omega⟩

/-- What the buffer holds, and behind it room for what is needed. -/
structure Grown (protocol : Protocol) (t t' : StatsBuf) (needed : Nat) : Prop where
  text : ∃ rest, t'.buffer = some (t.text ++ rest) ∧ needed ≤ rest.length ∧ t.text.length + rest.length = t'.size
  offset : t'.offset = t.text.length
  limit : t'.size ≤ statLimit protocol
  power : ∃ k, 10 ≤ k ∧ t'.size = 2 ^ k
  remains : protocol ≠ .binary → t'.size - t'.offset < 2 ^ 31

theorem statLimit_eq (protocol : Protocol) : ∃ limit, statLimit protocol = 2 ^ limit ∧ 31 ≤ limit ∧ limit ≤ 62 ∧
    (protocol ≠ .binary → limit = 31) := by
  unfold statLimit
  split
  · rename_i hp
    exact ⟨62, rfl, by decide, by decide, fun h => absurd hp h⟩
  · exact ⟨31, rfl, by decide, by decide, fun _ => rfl⟩

theorem length_enlarge {buffer : Option Bytes} (h : (buffer.getD []).length ≤ n) : (StatsBuf.enlarge buffer n).length = n := by
  rw [StatsBuf.enlarge, List.length_append, List.length_replicate]
  omega

theorem growStatsBuf_grown (ht : StatsOk protocol t) (hpos : 0 < needed) (hroom : t.text.length + needed ≤ statLimit protocol)
    (hsmall : protocol ≠ .binary → needed ≤ 2 ^ 30) :
    ∃ t', t.growStatsBuf true needed = some (t', true) ∧ Grown protocol t t' needed := by
  obtain ⟨limit, hlimit, hlow, hhigh, hascii⟩ := statLimit_eq protocol
  rw [hlimit] at hroom
  cases hb : t.buffer with
  | none =>
    have htext : t.text = [] := by simp [StatsBuf.text, hb]
    rw [htext, List.length_nil] at hroom
    -- a new buffer: its size is chosen by what is needed alone
    obtain ⟨top, htop, htopl, hfit, hremains⟩ : ∃ top, 11 ≤ top ∧ top ≤ limit ∧ 0 + needed ≤ 2 ^ top ∧
        (protocol ≠ .binary → 2 ^ top < 2 ^ 31) := by
      by_cases hp : protocol = .binary
      · exact ⟨limit, by omega, Nat.le_refl _, hroom, fun h => absurd hp h⟩
      · exact ⟨30, by omega, by omega, by have := hsmall hp; omega, fun _ => by decide⟩
    obtain ⟨j, hj, hjl, hg, hjfit⟩ := @growTo_some needed 0 64 0 10 top (by omega) hpos hfit (.inr ⟨by omega, by omega⟩) (by omega)
    have hne : ¬2 ^ j = 0 := by positivity
    refine ⟨⟨some (StatsBuf.enlarge none (2 ^ j)), 2 ^ j, 0⟩, ?_, ?_, ?_, ?_, ?_, ?_⟩
    · rw [StatsBuf.growStatsBuf, if_pos hb, if_pos hb]
      dsimp only
      rw [Nat.sub_zero, show (1024 : Nat) = 2 ^ 10 from rfl, hg, Option.bind_eq_bind, Option.bind_some, if_pos hne, if_pos rfl, hb]
    · have hlen : (StatsBuf.enlarge none (2 ^ j)).length = 2 ^ j := length_enlarge (Nat.zero_le _)
      exact ⟨_, by rw [htext, List.nil_append], by omega, by rw [htext, List.length_nil, hlen, Nat.zero_add]⟩
    · rw [htext]
      rfl
    · rw [hlimit]
      exact Nat.pow_le_pow_right (by decide) (by omega)
    · exact ⟨j, hj, rfl⟩
    · intro hp
      have hle : 2 ^ j ≤ 2 ^ top := Nat.pow_le_pow_right (by decide) hjl
      have := hremains hp
      dsimp only
      omega
  | some buf =>
    obtain ⟨hlen, hoff, hsize, k, hk, hpow⟩ := ht.sized buf hb
    have hwithin := ht.within
    have htext : t.text = buf.take t.offset := by simp [StatsBuf.text, hb]
    have htlen : t.text.length = t.offset := by
      rw [htext, List.length_take]
      omega
    rw [htlen] at hroom
    rw [hpow, hlimit] at hsize
    have hkl : k ≤ limit := (Nat.pow_le_pow_iff_right (by decide)).mp hsize
    obtain ⟨j, hj, hjl, hg, hjfit⟩ := @growTo_some needed t.offset 64 (t.size - t.offset) k limit hkl hpos hroom
      (.inl (by rw [hpow])) (by omega)
    have hle : 2 ^ k ≤ 2 ^ j := Nat.pow_le_pow_right (by decide) hj
    have hjlimit : 2 ^ j ≤ 2 ^ limit := Nat.pow_le_pow_right (by decide) hjl
    have hsplit : StatsBuf.enlarge (some buf) (2 ^ j) = t.text ++ (buf.drop t.offset ++ List.replicate (2 ^ j - buf.length) 0) := by
      rw [StatsBuf.enlarge, Option.getD_some, htext, ← List.append_assoc, List.take_append_drop]
    have hnone : ¬t.buffer = none := by simp [hb]
    refine ⟨⟨some (StatsBuf.enlarge (some buf) (2 ^ j)), 2 ^ j, t.offset⟩, ?_, ?_, htlen.symm, ?_, ⟨j, by omega, rfl⟩, ?_⟩
    · rw [StatsBuf.growStatsBuf, if_neg hnone, if_neg hnone]
      rw [hpow] at hg ⊢
      rw [hg, Option.bind_eq_bind, Option.bind_some]
      split
      · rw [if_pos rfl, hb]
      · rename_i hsame
        have hsame : 2 ^ j = 2 ^ k := by simpa using hsame
        have hbuf : StatsBuf.enlarge (some buf) (2 ^ j) = buf := by
          rw [StatsBuf.enlarge, Option.getD_some, hlen, hpow, hsame, Nat.sub_self, List.replicate_zero, List.append_nil]
        rw [hbuf, hsame, ← hpow, ← hb]
    · refine ⟨_, congrArg some hsplit, ?_, ?_⟩
      · rw [List.length_append, List.length_drop, List.length_replicate]
        omega
      · rw [List.length_append, List.length_drop, List.length_replicate]
        dsimp only
        omega
    · rw [hlimit]
      exact hjlimit
    · intro hp
      have h31 := hascii hp
      rw [h31] at hjlimit
      dsimp only
      omega

/-! ## One statistic -/

/-- What a statistic adds to the text. -/
def statWire (protocol : Protocol) (reqOpaque : UInt32) (c : StatCall) : Bytes :=
  if protocol = .binary then statHeader reqOpaque c.name.length c.value.length ++ c.name ++ c.value
  else ascii "STAT " ++ c.name ++ (if c.value = [] then [] else 32 :: c.value) ++ [13, 10]

theorem length_statHeader (klen vlen : Nat) : (statHeader reqOpaque klen vlen).length = 24 := by
  simp [statHeader, length_bigEndian]

theorem cText_zero {text : Bytes} (h : 0 ∉ text) : cText (text ++ [0]) = text := by
  rw [cText, List.takeWhile_append_of_pos fun b hb => by simpa using ne_of_mem_of_not_mem hb h]
  simp

namespace Readable

variable {c : StatCall}

theorem key_eq (h : Readable protocol c) : c.key = c.name ++ [0] := by
  cases c with
  | stat name value => rfl
  | raw name value => rfl
  | numFmtStat name value =>
    have hlt := h.short.1
    rw [StatCall.key, formatted, List.take_of_length_le (by omega)]
    rfl

theorem val_eq (h : Readable protocol c) : c.val = c.value ++ [0] := by
  cases c with
  | stat name value =>
    have hlt : value.length < STAT_VAL_LEN - 1 := h.short
    rw [StatCall.val, formatted, List.take_of_length_le (by omega)]
    rfl
  | raw name value => rfl
  | numFmtStat name value =>
    have hlt := h.short.2
    rw [StatCall.val, formatted, List.take_of_length_le (by omega)]
    rfl

theorem value_lt (h : Readable protocol c) : c.value.length < 2 ^ 31 ∧ (protocol ≠ .binary → c.value.length < 2 ^ 29) := by
  cases c with
  | stat name value =>
    have hlt : value.length < 127 := h.short
    exact ⟨by simp only [StatCall.value]; omega, fun _ => by simp only [StatCall.value]; omega⟩
  | numFmtStat name value =>
    have hlt : value.length < 128 := h.short.2
    exact ⟨by simp only [StatCall.value]; omega, fun _ => by simp only [StatCall.value]; omega⟩
  | raw name value =>
    have hlt : value.length < if protocol = .binary then 2 ^ 31 else 2 ^ 29 := h.short
    simp only [StatCall.value]
    split at hlt
    · rename_i hp
      exact ⟨hlt, fun hne => absurd hp hne⟩
    · exact ⟨by omega, fun _ => hlt⟩

/-- As the lengths tell, the text of a line. -/
theorem statText_eq (h : Readable protocol c) (reqOpaque : UInt32) (hp : protocol ≠ .binary) :
    statText c.key c.name.length c.val c.value.length = statWire protocol reqOpaque c := by
  obtain ⟨-, -, -, hvalue⟩ := h.line hp
  have hname : ¬c.name.length = 0 := fun hn => h.named (List.length_eq_zero_iff.mp hn)
  rw [statText, if_neg fun hb => hname hb.1, h.key_eq, h.val_eq, cText_zero h.text, cText_zero hvalue, statWire, if_neg hp]
  by_cases hv : c.value = []
  · rw [if_pos (by rw [hv]; rfl), if_pos hv, List.append_nil]
  · rw [if_neg fun hn => hv (List.length_eq_zero_iff.mp hn), if_neg hv]
    simp

end Readable

theorem copyTo_append {before rest src tail : Bytes} (hn : n = src.length) (hroom : src.length ≤ rest.length) {i : Nat}
    (hi : i = before.length) :
    StatsBuf.copyTo (before ++ rest) i (src ++ tail) n = some (before ++ src ++ rest.drop src.length) := by
  rw [StatsBuf.copyTo, if_pos (by rw [List.length_append]; omega), hn, List.take_left, hi]
  exact pokes_append hroom

/-- A packet is written behind what is there. -/
theorem appendBinStats_eq {c : StatCall} (hr : Readable .binary c) {text rest : Bytes} (hb : t.buffer = some (text ++ rest))
    (ho : t.offset = text.length) (hroom : (statWire .binary reqOpaque c).length ≤ rest.length) :
    ∃ rest', t.appendBinStats reqOpaque c.key c.name.length c.val c.value.length =
      some ⟨some (text ++ statWire .binary reqOpaque c ++ rest'), t.size, (text ++ statWire .binary reqOpaque c).length⟩ ∧
      rest'.length + (statWire .binary reqOpaque c).length = rest.length := by
  have hname : 0 < c.name.length := List.length_pos_iff.mpr hr.named
  have hhead : (statHeader reqOpaque c.name.length c.value.length).length = 24 := length_statHeader _ _
  have hwire : statWire .binary reqOpaque c = statHeader reqOpaque c.name.length c.value.length ++ c.name ++ c.value := if_pos rfl
  rw [hwire, List.length_append, List.length_append] at hroom
  have hfirst := @pokes_append rest text (statHeader reqOpaque c.name.length c.value.length) (by omega)
  have hsecond := @copyTo_append c.name.length (text ++ statHeader reqOpaque c.name.length c.value.length)
    (rest.drop (statHeader reqOpaque c.name.length c.value.length).length) c.name [0] rfl
    (by rw [List.length_drop]; omega) (text.length + 24) (by rw [List.length_append, hhead])
  have hoff : (text ++ statWire .binary reqOpaque c).length = text.length + (24 + (c.name.length + c.value.length)) := by
    rw [hwire, List.length_append, List.length_append, List.length_append, hhead]
    omega
  rw [hoff, StatsBuf.appendBinStats, hb, ho, hr.key_eq, hr.val_eq]
  simp only [Option.bind_eq_bind, Option.bind_some]
  rw [hfirst, Option.bind_some, if_pos hname, hsecond, Option.bind_some]
  by_cases hv : c.value = []
  · refine ⟨(rest.drop (statHeader reqOpaque c.name.length c.value.length).length).drop c.name.length, ?_, ?_⟩
    · rw [if_neg fun h => by rw [hv, List.length_nil] at h; omega, hwire, hv]
      simp
    · have hnil : c.value.length = 0 := List.length_eq_zero_iff.mpr hv
      rw [hwire, List.length_append, List.length_append, List.length_drop, List.length_drop]
      omega
  · have hvpos : 0 < c.value.length := List.length_pos_iff.mpr hv
    have hthird := @copyTo_append c.value.length (text ++ statHeader reqOpaque c.name.length c.value.length ++ c.name)
      ((rest.drop (statHeader reqOpaque c.name.length c.value.length).length).drop c.name.length) c.value [0] rfl
      (by rw [List.length_drop, List.length_drop]; omega) (text.length + 24 + c.name.length)
      (by rw [List.length_append, List.length_append, hhead])
    refine ⟨((rest.drop (statHeader reqOpaque c.name.length c.value.length).length).drop c.name.length).drop c.value.length, ?_, ?_⟩
    · rw [if_pos ⟨hname, hvpos⟩, hthird, hwire]
      simp
    · rw [hwire, List.length_append, List.length_append, List.length_drop, List.length_drop, List.length_drop]
      omega

/-- A line is written behind what is there, and a zero. -/
theorem appendAsciiStats_eq {key val : Bytes} {klen vlen : Nat} {text rest : Bytes} (hb : t.buffer = some (text ++ rest))
    (ho : t.offset = text.length) (hsize : text.length + rest.length = t.size) (hint : t.size - t.offset < 2 ^ 31)
    (hroom : (statText key klen val vlen).length + 1 < rest.length) :
    ∃ rest', t.appendAsciiStats key klen val vlen =
      some ⟨some (text ++ statText key klen val vlen ++ rest'), t.size, (text ++ statText key klen val vlen).length⟩ ∧
      rest'.length + (statText key klen val vlen).length = rest.length := by
  have hremaining : (Int32.ofNat (t.size - t.offset)).toInt = rest.length := by
    rw [Int32.toInt_ofNat_of_lt hint]
    omega
  have hrooms : (Int32.ofNat (t.size - t.offset) - 1).toInt = rest.length - 1 := by
    have hone : (1 : Int32).toInt = 1 := rfl
    rw [Int32.toInt_sub, hremaining, hone, Int.bmod_eq_of_le (by omega) (by omega)]
  have hneg : ¬Int32.ofNat (t.size - t.offset) - 1 < 0 := by
    rw [Int32.lt_iff_toInt_lt, hrooms]
    have hzero : (0 : Int32).toInt = 0 := rfl
    omega
  have htonat : (Int32.ofNat (t.size - t.offset) - 1).toInt.toNat = rest.length - 1 := by omega
  refine ⟨0 :: rest.drop ((statText key klen val vlen).length + 1), ?_, ?_⟩
  · rw [StatsBuf.appendAsciiStats, hb, Option.bind_eq_bind, Option.bind_some]
    dsimp only
    rw [if_neg hneg, htonat, ho, snprintf_append rfl (by omega) (by omega), Option.bind_some, List.length_append]
  · rw [List.length_cons, List.length_drop]
    omega

/-- More text in a buffer that was made large enough for it. -/
theorem Grown.written (h : Grown protocol t t' needed) (text rest : Bytes) (hpos : 0 < text.length)
    (hrest : rest.length + text.length + t.text.length = t'.size) :
    StatsOk protocol ⟨some (t.text ++ text ++ rest), t'.size, (t.text ++ text).length⟩ ∧
      StatsBuf.text ⟨some (t.text ++ text ++ rest), t'.size, (t.text ++ text).length⟩ = t.text ++ text := by
  refine ⟨⟨?_, fun buf hb => ?_⟩, ?_⟩
  · rw [List.length_append]
    dsimp only
    omega
  · obtain rfl := Option.some.inj hb
    refine ⟨?_, ?_, h.limit, h.power⟩
    · simp only [List.length_append]
      omega
    · simp only [List.length_append]
      omega
  · rw [StatsBuf.text, Option.getD_some]
    exact List.take_left

/-- A statistic that is cut short nowhere is appended. -/
theorem emit_spec (reqOpaque : UInt32) {c : StatCall} (ht : StatsOk protocol t) (hg : StatGuard protocol t (c, true)) :
    ∃ t', t.emit protocol reqOpaque c true = some t' ∧ StatsOk protocol t' ∧ t'.text = t.text ++ statWire protocol reqOpaque c := by
  have hr : Readable protocol c := hg.2.1
  have hroom : t.text.length + statNeeded protocol c ≤ statLimit protocol := hg.2.2
  have hname : 0 < c.name.length := List.length_pos_iff.mpr hr.named
  have hkeep : ¬(c.name.length % 2 ^ 16 = 0 ∧ 0 < c.value.length) := by
    rw [Nat.mod_eq_of_lt hr.name_lt]
    omega
  have hlt := hr.name_lt
  have hvalue := hr.value_lt
  obtain ⟨t₁, hgrow, hgrown⟩ := growStatsBuf_grown ht (by unfold statNeeded; omega) hroom
    (by intro hp; have := hvalue.2 hp; rw [statNeeded, if_neg hp]; omega)
  obtain ⟨rest, hb, hneed, hsize⟩ := hgrown.text
  rw [StatsBuf.emit, StatsBuf.appendStats, if_neg hkeep, Nat.mod_eq_of_lt hr.name_lt]
  have hgrow' : t.growStatsBuf true (c.value.length + c.name.length + if protocol = .binary then 24 else 10) = some (t₁, true) := hgrow
  dsimp only
  rw [hgrow', Option.bind_eq_bind, Option.bind_some]
  dsimp only
  rw [if_pos rfl]
  by_cases hp : protocol = .binary
  · subst hp
    have hlen : (statWire .binary reqOpaque c).length = 24 + c.name.length + c.value.length := by
      rw [statWire, if_pos rfl, List.length_append, List.length_append, length_statHeader]
    rw [statNeeded, if_pos rfl] at hneed
    obtain ⟨rest', happ, hrest⟩ := @appendBinStats_eq reqOpaque t₁ c hr t.text rest hb hgrown.offset (by omega)
    obtain ⟨hok, htext⟩ := hgrown.written (statWire .binary reqOpaque c) rest' (by omega) (by omega)
    exact ⟨_, by rw [if_pos rfl, happ, Option.bind_eq_bind, Option.bind_some, if_pos hok.within], hok, htext⟩
  · have htext := hr.statText_eq reqOpaque hp
    have hlen : (statWire protocol reqOpaque c).length ≤ 8 + c.name.length + c.value.length ∧
        0 < (statWire protocol reqOpaque c).length := by
      have hstat : (ascii "STAT ").length = 5 := rfl
      rw [statWire, if_neg hp]
      simp only [List.length_append, hstat, List.length_cons, List.length_nil]
      split
      · simp only [List.length_nil]
        omega
      · simp only [List.length_cons]
        omega
    rw [statNeeded, if_neg hp] at hneed
    obtain ⟨rest', happ, hrest⟩ := @appendAsciiStats_eq t₁ c.key c.val c.name.length c.value.length t.text rest hb hgrown.offset
      hsize (hgrown.remains hp) (by rw [htext]; omega)
    rw [htext] at happ hrest
    obtain ⟨hok, htext⟩ := hgrown.written (statWire protocol reqOpaque c) rest' (by omega) (by omega)
    exact ⟨_, by rw [if_neg hp, happ, Option.bind_eq_bind, Option.bind_some, if_pos hok.within], hok, htext⟩

/-- What `append_stats` writes at the end. -/
def endWire (protocol : Protocol) (reqOpaque : UInt32) : Bytes :=
  if protocol = .binary then statHeader reqOpaque 0 0 else ascii "END" ++ [13, 10]

theorem terminate_spec (reqOpaque : UInt32) (ht : StatsOk protocol t) (hroom : t.text.length + 24 ≤ statLimit protocol) :
    ∃ t', t.terminate protocol reqOpaque true = some t' ∧ StatsOk protocol t' ∧ t'.text = t.text ++ endWire protocol reqOpaque := by
  have hneeded : 0 < (0 + 0 + if protocol = .binary then 24 else 10) ∧ (0 + 0 + if protocol = .binary then 24 else 10) ≤ 24 := by
    split <;> omega
  obtain ⟨t₁, hgrow, hgrown⟩ := growStatsBuf_grown ht hneeded.1 (by omega) (by intro _; omega)
  obtain ⟨rest, hb, hneed, hsize⟩ := hgrown.text
  rw [StatsBuf.terminate, StatsBuf.appendStats, if_neg (by omega)]
  dsimp only
  rw [hgrow, Option.bind_eq_bind, Option.bind_some]
  dsimp only
  rw [if_pos rfl]
  by_cases hp : protocol = .binary
  · subst hp
    have hlen : (endWire .binary reqOpaque).length = 24 := by rw [endWire, if_pos rfl, length_statHeader]
    rw [if_pos rfl] at hneed
    have happ : t₁.appendBinStats reqOpaque [] 0 [] 0 = some ⟨some (t.text ++ endWire .binary reqOpaque ++ rest.drop 24), t₁.size,
        (t.text ++ endWire .binary reqOpaque).length⟩ := by
      have hwrite := @pokes_append rest t.text (statHeader reqOpaque 0 0) (by rw [length_statHeader]; omega)
      rw [StatsBuf.appendBinStats, hb, hgrown.offset]
      simp only [Option.bind_eq_bind, Option.bind_some]
      rw [hwrite, List.length_append, hlen, length_statHeader]
      rfl
    obtain ⟨hok, htext⟩ := hgrown.written (endWire .binary reqOpaque) (rest.drop 24) (by omega)
      (by rw [List.length_drop]; omega)
    exact ⟨_, by rw [if_pos rfl, happ, Option.bind_eq_bind, Option.bind_some, if_pos hok.within], hok, htext⟩
  · have htext : statText [] 0 [] 0 = endWire protocol reqOpaque := by rw [endWire, if_neg hp, statText, if_pos ⟨rfl, rfl⟩]
    have hlen : (endWire protocol reqOpaque).length = 5 := by
      rw [endWire, if_neg hp]
      rfl
    rw [if_neg hp] at hneed
    obtain ⟨rest', happ, hrest⟩ := @appendAsciiStats_eq t₁ [] [] 0 0 t.text rest hb hgrown.offset hsize (hgrown.remains hp)
      (by rw [htext]; omega)
    rw [htext] at happ hrest
    obtain ⟨hok, htext⟩ := hgrown.written (endWire protocol reqOpaque) rest' (by omega) (by omega)
    exact ⟨_, by rw [if_neg hp, happ, Option.bind_eq_bind, Option.bind_some, if_pos hok.within], hok, htext⟩

/-! ## Reading it back -/

theorem foldl_bigEndian (n v acc : Nat) :
    (bigEndian n v).foldl (fun a b => a * 256 + b.toNat) acc = acc * 256 ^ n + v % 256 ^ n := by
  induction n generalizing acc with
  | zero => simp [bigEndian, Nat.mod_one]
  | succ n ih =>
    have hmod : v % 256 ^ (n + 1) = v % 256 ^ n + 256 ^ n * (v / 256 ^ n % 256) := by rw [Nat.pow_succ, Nat.mod_mul]
    have hbyte : (UInt8.ofNat (v / 256 ^ n)).toNat = v / 256 ^ n % 256 := UInt8.toNat_ofNat'
    rw [bigEndian, List.foldl_cons, ih, hmod, hbyte, Nat.pow_succ]
    ring

theorem readBigEndian_bigEndian {v : Nat} (h : v < 256 ^ n) : readBigEndian (bigEndian n v) = v := by
  rw [readBigEndian, foldl_bigEndian, Nat.zero_mul, Nat.zero_add, Nat.mod_eq_of_lt h]

/-- The two lengths in a header are found where they stand. -/
theorem statHeader_lengths {klen vlen : Nat} (hk : klen < 2 ^ 16) (hv : vlen < 2 ^ 31) (rest : Bytes) :
    readBigEndian (((statHeader reqOpaque klen vlen ++ rest).drop 2).take 2) = klen ∧
      readBigEndian (((statHeader reqOpaque klen vlen ++ rest).drop 8).take 4) = klen + vlen := by
  let front : Bytes := [0x81, 0x10] ++ (bigEndian 2 klen ++ ([0, 0] ++ bigEndian 2 0))
  let back : Bytes := bigEndian 4 reqOpaque.toNat ++ (bigEndian 8 0 ++ rest)
  have hfront : front.length = 8 := by simp [front, length_bigEndian]
  have hklen : statHeader reqOpaque klen vlen ++ rest =
      [0x81, 0x10] ++ (bigEndian 2 klen ++ ([0, 0] ++ (bigEndian 2 0 ++ (bigEndian 4 (klen + vlen) ++ back)))) := by
    simp [statHeader, back]
  have hbody : statHeader reqOpaque klen vlen ++ rest = front ++ (bigEndian 4 (klen + vlen) ++ back) := by
    simp [statHeader, front, back]
  have htwo : ∀ bs : Bytes, (([0x81, 0x10] : Bytes) ++ bs).drop 2 = bs := fun _ => rfl
  constructor
  · rw [hklen, htwo, List.take_left' (length_bigEndian 2 klen), readBigEndian_bigEndian (by omega)]
  · rw [hbody, List.drop_left' hfront, List.take_left' (length_bigEndian 4 _), readBigEndian_bigEndian (by omega)]

theorem readStatPackets_wire {c : StatCall} (hr : Readable .binary c) (rest : Bytes) :
    readStatPackets (n + 1) (statWire .binary reqOpaque c ++ rest) =
      (readStatPackets n rest).map ((c.name, c.value) :: ·) := by
  have hlt := hr.name_lt
  have hv := hr.value_lt.1
  have hname : 0 < c.name.length := List.length_pos_iff.mpr hr.named
  have hwire : statWire .binary reqOpaque c ++ rest =
      statHeader reqOpaque c.name.length c.value.length ++ (c.name ++ (c.value ++ rest)) := by simp [statWire]
  have hhead : (statHeader reqOpaque c.name.length c.value.length).length = 24 := length_statHeader _ _
  obtain ⟨hk, hb⟩ := @statHeader_lengths reqOpaque _ _ hlt hv (c.name ++ (c.value ++ rest))
  have hdrop : (statHeader reqOpaque c.name.length c.value.length ++ (c.name ++ (c.value ++ rest))).drop
      (24 + (c.name.length + c.value.length)) = rest := by
    rw [← List.append_assoc, ← List.append_assoc]
    exact List.drop_left' (by rw [List.length_append, List.length_append, hhead, Nat.add_assoc])
  have hkey : ((statHeader reqOpaque c.name.length c.value.length ++ (c.name ++ (c.value ++ rest))).drop 24).take c.name.length =
      c.name := by
    rw [List.drop_left' hhead, List.take_left]
  have hvalue : ((statHeader reqOpaque c.name.length c.value.length ++ (c.name ++ (c.value ++ rest))).drop
      (24 + c.name.length)).take c.value.length = c.value := by
    rw [← List.append_assoc, List.drop_left' (by rw [List.length_append, hhead]), List.take_left]
  have hnonempty : ¬(statHeader reqOpaque c.name.length c.value.length ++ (c.name ++ (c.value ++ rest)) = [] ∨ c.name.length = 0) := by
    rintro (hnil | hzero)
    · rw [List.append_eq_nil_iff] at hnil
      rw [hnil.1, List.length_nil] at hhead
      omega
    · omega
  have hlong : ¬((statHeader reqOpaque c.name.length c.value.length ++ (c.name ++ (c.value ++ rest))).length <
      24 + (c.name.length + c.value.length) ∨ c.name.length + c.value.length < c.name.length) := by
    rw [List.length_append, List.length_append, List.length_append, hhead]
    omega
  rw [hwire, readStatPackets]
  rw [hk, hb, if_neg hnonempty, if_neg hlong, hdrop, hkey, Nat.add_sub_cancel_left, hvalue]
  cases readStatPackets n rest <;> rfl

theorem readStatLine_eq {c : StatCall} (hblank : 32 ∉ c.name) :
    readStatLine (ascii "STAT " ++ c.name ++ if c.value = [] then [] else 32 :: c.value) = some (c.name, c.value) := by
  have hstat : (ascii "STAT ").length = 5 := rfl
  rw [readStatLine, List.append_assoc, if_pos (List.prefix_append _ _), List.drop_left' hstat]
  dsimp only
  have hpass : ∀ b ∈ c.name, (b != 32) = true := fun b hb => by simpa using ne_of_mem_of_not_mem hb hblank
  rw [List.takeWhile_append_of_pos hpass, List.dropWhile_append_of_pos hpass]
  by_cases hv : c.value = []
  · simp [hv]
  · simp [hv]

theorem readStatLines_wire {c : StatCall} (hr : Readable protocol c) (hp : protocol ≠ .binary) (rest : Bytes) :
    readStatLines (n + 1) (statWire protocol reqOpaque c ++ rest) = (readStatLines n rest).map ((c.name, c.value) :: ·) := by
  obtain ⟨hblank, hlf, hvlf, -⟩ := hr.line hp
  let line := ascii "STAT " ++ c.name ++ if c.value = [] then [] else 32 :: c.value
  have hwire : statWire protocol reqOpaque c ++ rest = (line ++ [13]) ++ 10 :: rest := by
    rw [statWire, if_neg hp]
    simp [line]
  have hstat : ∀ b ∈ ascii "STAT ", b ≠ 10 := by decide +kernel
  have hnolf : ∀ b ∈ line ++ [13], (b != 10) = true := by
    intro b hb
    have hcases : b ∈ ascii "STAT " ∨ b ∈ c.name ∨ b = 32 ∨ b ∈ c.value ∨ b = 13 := by
      simp only [line, List.mem_append, List.mem_singleton] at hb
      rcases hb with ((hb | hb) | hb) | hb
      · exact .inl hb
      · exact .inr (.inl hb)
      · split at hb
        · cases hb
        · exact .inr (.inr ((List.mem_cons.mp hb).imp id .inl))
      · exact .inr (.inr (.inr (.inr hb)))
    rw [bne_iff_ne]
    rcases hcases with hb | hb | rfl | hb | rfl
    · exact hstat b hb
    · exact ne_of_mem_of_not_mem hb hlf
    · decide
    · exact ne_of_mem_of_not_mem hb hvlf
    · decide
  have htake : ((line ++ [13]) ++ 10 :: rest).takeWhile (· != 10) = line ++ [13] := by
    rw [List.takeWhile_append_of_pos hnolf]
    simp
  have hdrop : (((line ++ [13]) ++ 10 :: rest).dropWhile (· != 10)).drop 1 = rest := by
    rw [List.dropWhile_append_of_pos hnolf]
    simp
  have hgo : ¬((line ++ [13]) ++ 10 :: rest = [] ∨ line = ascii "END") := by
    rintro (hnil | hend)
    · simp at hnil
    · have hhead := congrArg List.head? hend
      have hfirst : line.head? = some 83 := rfl
      rw [hfirst] at hhead
      exact absurd hhead (by decide)
  rw [hwire, readStatLines]
  rw [htake, hdrop, List.dropLast_concat, if_neg hgo, readStatLine_eq hblank]
  cases readStatLines n rest <;> rfl

/-- What comes behind the statistics does not matter if it reads as their end. -/
theorem readStats_wires {calls : List StatCall} (hr : ∀ c ∈ calls, Readable protocol c) {rest : Bytes}
    (hend : rest = [] ∨ rest = endWire protocol reqOpaque) :
    readStats protocol (calls.flatMap (statWire protocol reqOpaque) ++ rest) = some (calls.map fun c => (c.name, c.value)) := by
  have hlen : calls.length ≤ (calls.flatMap (statWire protocol reqOpaque) ++ rest).length := by
    have hpos : ∀ c ∈ calls, 1 ≤ (statWire protocol reqOpaque c).length := by
      intro c _
      unfold statWire
      split
      · rw [List.length_append, List.length_append, length_statHeader]
        omega
      · rw [List.length_append, List.length_cons]
        omega
    rw [List.length_append, List.length_flatMap]
    have hsum := List.length_le_sum_of_one_le (calls.map fun c => (statWire protocol reqOpaque c).length)
      (List.forall_mem_map.mpr hpos)
    rw [List.length_map] at hsum
    omega
  rw [readStats]
  generalize hfuel : (calls.flatMap (statWire protocol reqOpaque) ++ rest).length + 1 = fuel
  have hmore : calls.length < fuel := by omega
  clear hlen hfuel
  by_cases hp : protocol = .binary
  · subst hp
    rw [if_pos rfl]
    induction calls generalizing fuel with
    | nil =>
      obtain ⟨n, rfl⟩ : ∃ n, fuel = n + 1 := ⟨fuel - 1, by simp at hmore; omega⟩
      rw [readStatPackets]
      rcases hend with rfl | rfl
      · rfl
      · have hk : readBigEndian ((([] : List StatCall).flatMap (statWire .binary reqOpaque) ++ endWire .binary reqOpaque).drop 2 |>.take 2) = 0 := by
          have h := (@statHeader_lengths reqOpaque 0 0 (by decide) (by decide) []).1
          rwa [List.append_nil] at h
        rw [hk, if_pos (.inr rfl)]
        rfl
    | cons c calls ih =>
      rw [List.length_cons] at hmore
      obtain ⟨n, rfl⟩ : ∃ n, fuel = n + 1 := ⟨fuel - 1, by omega⟩
      rw [List.flatMap_cons, List.append_assoc, readStatPackets_wire (hr c List.mem_cons_self),
        ih n (by omega) fun x hx => hr x (List.mem_cons_of_mem _ hx)]
      rfl
  · rw [if_neg hp]
    induction calls generalizing fuel with
    | nil =>
      obtain ⟨n, rfl⟩ : ∃ n, fuel = n + 1 := ⟨fuel - 1, by simp at hmore; omega⟩
      rw [readStatLines]
      rcases hend with rfl | rfl
      · rfl
      · have hline : (([] : List StatCall).flatMap (statWire protocol reqOpaque) ++ endWire protocol reqOpaque) = ascii "END" ++ [13, 10] := by
          rw [endWire, if_neg hp]
          rfl
        rw [hline]
        rfl
    | cons c calls ih =>
      rw [List.length_cons] at hmore
      obtain ⟨n, rfl⟩ : ∃ n, fuel = n + 1 := ⟨fuel - 1, by omega⟩
      rw [List.flatMap_cons, List.append_assoc, readStatLines_wire (hr c List.mem_cons_self) hp,
        ih (fun x hx => hr x (List.mem_cons_of_mem _ hx)) n (by omega)]
      rfl

end

/-! ## Any number of statistics -/

/-- After these statistics: the text is inside of the buffer and reads as what was emitted, and nothing
that may come next reads or writes out of bounds. -/
structure StatsRead (protocol : Protocol) (reqOpaque : UInt32) (calls : List (StatCall × Bool)) (t : StatsBuf) : Prop where
  within : t.offset ≤ t.size
  copies : ∀ c, StatGuard protocol t c → t.emit protocol reqOpaque c.1 c.2 ≠ none
  read : readStats protocol t.text = some (calls.map fun c => (c.1.name, c.1.value))
  ended : t.text.length + 24 ≤ statLimit protocol → ∃ t', t.terminate protocol reqOpaque true = some t' ∧
    t'.offset ≤ t'.size ∧ readStats protocol t'.text = some (calls.map fun c => (c.1.name, c.1.value))

/-- What is emitted without being cut can be read back, in the lines as in the packets. -/
theorem stats_round_trip (protocol : Protocol) (reqOpaque : UInt32) (calls : List (StatCall × Bool)) (t₀ t : StatsBuf)
    (hnone : t₀.buffer = none) (hle : t₀.offset ≤ t₀.size)
    (hr : Run (Guarded (StatGuard protocol) (StatStep protocol reqOpaque)) t₀ calls t) : StatsRead protocol reqOpaque calls t := by
  have hrun : ∀ (seen : List StatCall) (s : StatsBuf), StatsOk protocol s → (∀ c ∈ seen, Readable protocol c) →
      s.text = seen.flatMap (statWire protocol reqOpaque) → Run (Guarded (StatGuard protocol) (StatStep protocol reqOpaque)) s calls t →
      StatsOk protocol t ∧ (∀ c ∈ seen ++ calls.map Prod.fst, Readable protocol c) ∧
        t.text = (seen ++ calls.map Prod.fst).flatMap (statWire protocol reqOpaque) := by
    clear hr
    intro seen s hs hseen htext hrun
    induction hrun generalizing seen with
    | nil => exact ⟨hs, by simpa using hseen, by simpa using htext⟩
    | @cons s s' u c cs hstep _ ih =>
      obtain ⟨hg, hemit⟩ := hstep
      obtain ⟨call, granted⟩ := c
      obtain rfl : granted = true := hg.1
      obtain ⟨s'', hemit', hs', hwritten⟩ := emit_spec reqOpaque hs hg
      obtain rfl : s'' = s' := Option.some.inj (hemit'.symm.trans hemit)
      have hcalls : ∀ c ∈ seen ++ [call], Readable protocol c := by
        intro c hc
        rcases List.mem_append.mp hc with hc | hc
        · exact hseen c hc
        · rw [List.mem_singleton.mp hc]
          exact hg.2.1
      have hnext := ih (seen ++ [call]) hs' hcalls (by rw [hwritten, htext]; simp)
      rw [List.append_assoc] at hnext
      exact hnext
  have hstart : StatsOk protocol t₀ := ⟨hle, fun buf hb => by rw [hnone] at hb; cases hb⟩
  obtain ⟨hok, hreadable, htext⟩ := hrun [] t₀ hstart nofun (by simp [StatsBuf.text, hnone]) hr
  rw [List.nil_append] at hreadable htext
  have hnames : (calls.map fun c => (c.1.name, c.1.value)) = (calls.map Prod.fst).map fun c => (c.name, c.value) := by
    rw [List.map_map]
    rfl
  constructor
  · exact hok.within
  · rintro ⟨c, granted⟩ hg
    obtain rfl : granted = true := hg.1
    obtain ⟨t', hemit, -, -⟩ := emit_spec reqOpaque hok hg
    rw [hemit]
    exact Option.some_ne_none t'
  · rw [hnames, htext, ← @readStats_wires _ reqOpaque _ hreadable [] (.inl rfl), List.append_nil]
  · intro hroom
    obtain ⟨t', hend, hok', hwritten⟩ := terminate_spec reqOpaque hok hroom
    refine ⟨t', hend, hok'.within, ?_⟩
    rw [hnames, hwritten, htext, ← readStats_wires hreadable (.inr rfl)]

/-- Two lines of `stats`. -/
def pidAndVersion : List (StatCall × Bool) :=
  [(.stat (ascii "pid") (ascii "7"), true), (.stat (ascii "version") [], true)]

theorem pidAndVersion_run (protocol : Protocol) :
    ∃ t, Run (Guarded (StatGuard protocol) (StatStep protocol 0)) ⟨none, 0, 0⟩ pidAndVersion t := by
  have hpid : Readable protocol (.stat (ascii "pid") (ascii "7")) :=
    ⟨by simp [StatCall.name, ascii], by decide, by decide, show 1 < STAT_VAL_LEN - 1 by decide, fun _ => by decide⟩
  have hversion : Readable protocol (.stat (ascii "version") []) :=
    ⟨by simp [StatCall.name, ascii], by decide, by decide, show 0 < STAT_VAL_LEN - 1 by decide, fun _ => by decide⟩
  have hfirst : StatGuard protocol ⟨none, 0, 0⟩ (.stat (ascii "pid") (ascii "7"), true) :=
    ⟨rfl, hpid, by cases protocol <;> decide⟩
  have hok : StatsOk protocol ⟨none, 0, 0⟩ := ⟨Nat.le_refl _, fun _ h => absurd h.symm (Option.some_ne_none _)⟩
  obtain ⟨t₁, hemit₁, hok₁, htext₁⟩ := emit_spec 0 hok hfirst
  have hsecond : StatGuard protocol t₁ (.stat (ascii "version") [], true) := by
    refine ⟨rfl, hversion, ?_⟩
    rw [htext₁]
    cases protocol <;> decide
  obtain ⟨t₂, hemit₂, -, -⟩ := emit_spec 0 hok₁ hsecond
  exact ⟨t₂, .cons ⟨hfirst, hemit₁⟩ (.single ⟨hsecond, hemit₂⟩)⟩

theorem stats_round_trip_two : ∃ t u,
    Run (Guarded (StatGuard .ascii) (StatStep .ascii 0)) ⟨none, 0, 0⟩ pidAndVersion t ∧ StatsRead .ascii 0 pidAndVersion t ∧
      Run (Guarded (StatGuard .binary) (StatStep .binary 0)) ⟨none, 0, 0⟩ pidAndVersion u ∧ StatsRead .binary 0 pidAndVersion u := by
  obtain ⟨t, hascii⟩ := pidAndVersion_run .ascii
  obtain ⟨u, hbinary⟩ := pidAndVersion_run .binary
  exact ⟨t, u, hascii, stats_round_trip .ascii 0 _ _ _ rfl (Nat.le_refl _) hascii,
    hbinary, stats_round_trip .binary 0 _ _ _ rfl (Nat.le_refl _) hbinary⟩

/-- The path of a socket with 130 bytes: a packet is filled from behind `val_str`, a line tells less of it. -/
theorem socket_path_cut : StatsBuf.emit .binary 0 ⟨none, 0, 0⟩ (.stat (ascii "domain_socket") (List.replicate 130 97)) true = none ∧
    ((StatsBuf.emit .ascii 0 ⟨none, 0, 0⟩ (.stat (ascii "domain_socket") (List.replicate 130 97)) true).map fun t =>
      readStats .ascii t.text) = some (some [(ascii "domain_socket", List.replicate 126 97)]) := by
  decide +kernel

end RamCube
