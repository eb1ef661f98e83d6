import RamCube.Backup.Merged
import RamCube.Backup.RecordBuffers
import RamCube.Server.BackupConn

/-! # Batches of messages (Segment.c)

When messages of a primary arrive in one read, `appendToSegment` is given them all: it
takes a record to end at its second line feed and the next one to start behind the
carriage return of the next command line. It finds the records of the messages exactly if
no value holds a line feed and the batch fits `IpPort` (`batch_appended_iff`), and it
keeps them all, in memory or in a file, if none but the last fills the segment and the
file of that one can be opened (`batch_kept_iff`). -/
namespace RamCube

/-- A message of a primary: a stored item, and the connection that waits for the reply. -/
structure UnitMessage where
  dataConnPtr : Nat
  key : Bytes
  value : Bytes
  key_ok : ∀ b ∈ key, 32 < b
  value_ok : ∀ b ∈ value, b ≠ 0

/-- The record of a message. -/
def UnitMessage.text (u : UnitMessage) : Bytes := recordText u.key u.value

/-- The messages as `appendToSegment` sees them, the command line of the first having been
taken off, up to the last address. -/
def batchBody (p : Address) : UnitMessage → List UnitMessage → Bytes
  | u, [] => u.text
  | u, v :: rest => u.text ++ between p (requestLine v.dataConnPtr) ++ batchBody p v rest

def batch (p : Address) (u : UnitMessage) (rest : List UnitMessage) : Bytes :=
  batchBody p u rest ++ p.text ++ [CR, LF]

/-- The records of a batch. -/
def batchTexts (u : UnitMessage) (rest : List UnitMessage) : List Bytes := (u :: rest).map UnitMessage.text

namespace UnitMessage

/-- The command line of a record, with its carriage return. -/
def line (u : UnitMessage) : Bytes :=
  ascii "set " ++ u.key ++ ascii " 0 0 " ++ decimal u.value.length ++ [CR]

theorem text_eq (u : UnitMessage) : u.text = u.line ++ LF :: (u.value ++ [CR, LF]) := by
  simp [text, recordText, line]

theorem line_ok (u : UnitMessage) {b : UInt8} (hb : b ∈ u.line) : b ≠ 0 ∧ b ≠ LF := by
  simp only [line, List.mem_append, List.mem_singleton] at hb
  obtain (((hb | hb) | hb) | hb) | rfl := hb
  · revert b
    decide +kernel
  · have hlt := u.key_ok b hb
    refine ⟨?_, ?_⟩ <;>
    · rintro rfl
      revert hlt
      decide
  · revert b
    decide +kernel
  · exact ⟨(digit_ne (mem_decimal hb)).1, (digit_ne (mem_decimal hb)).2.1⟩
  · decide

end UnitMessage

/-! ## The loop over a record -/

section

variable {st : Cut} {used : Nat} {xs line data cs : Bytes} {c : UInt8}

/-- The loop is at the start of a record. `command` was written below `used`, and cleared
up to half. -/
structure CutAt (st : Cut) (used : Nat) : Prop where
  flag1 : st.flag1 = 0
  flag2 : st.flag2 = 0
  j : st.j = 0
  isDone : st.isDone = false
  zero : ∀ i, i < 1024 ∨ used ≤ i → st.command i = 0

theorem cutAt_init : CutAt initCut 0 := ⟨rfl, rfl, rfl, rfl, fun _ _ => rfl⟩

theorem blit_nil (m : Nat → UInt8) (off : Nat) : blit m off [] = m :=
  funext fun i => blit_of_out (by simp; omega)

/-- A line is copied with its end. -/
theorem cut_line (hx : ∀ b ∈ xs, b ≠ LF) (h1 : st.flag1 < 2) (hj : st.j + xs.length < 2048) :
    cutTexts st (xs ++ LF :: cs) = cutTexts { st with
      command := blit st.command st.j (xs ++ [LF])
      j := st.j + xs.length + 1
      flag1 := st.flag1 + 1 } cs := by
  induction xs generalizing st with
  | nil =>
    rw [List.nil_append, cutTexts, if_pos h1, if_pos (by simpa using hj), if_pos rfl, List.nil_append, blit_cons, blit_nil]
    rfl
  | cons x xs ih =>
    simp only [List.length_cons] at hj
    have hx0 : x ≠ LF := hx x List.mem_cons_self
    have hrest : cutTexts { st with command := setByte st.command st.j x, j := st.j + 1 } (xs ++ LF :: cs) = _ :=
      ih (fun b hb => hx b (List.mem_cons_of_mem x hb)) h1 (by dsimp only; omega)
    rw [List.cons_append, cutTexts, if_pos h1, if_pos (by omega), if_neg hx0, hrest]
    dsimp only
    rw [List.cons_append, blit_cons, List.length_cons, Nat.add_assoc st.j 1, Nat.add_comm 1]

/-- The state behind a record: it was stored at `c`. -/
def cutDone (command : Nat → UInt8) (text : Bytes) (c : UInt8) : Cut :=
  { command := blit command 0 text, j := text.length, flag1 := 2, flag2 := if c = CR then 1 else 0, isDone := true }

/-- The text up to the second line feed is stored at the next character. -/
theorem cut_record (h : CutAt st used) (hline : ∀ b ∈ line, b ≠ 0 ∧ b ≠ LF) (hdata : ∀ b ∈ data, b ≠ 0 ∧ b ≠ LF)
    (hlen : used + (line ++ LF :: (data ++ [LF])).length < 2048) :
    cutTexts st (line ++ LF :: (data ++ LF :: c :: cs)) =
      (cutTexts (cutDone st.command (line ++ LF :: (data ++ [LF])) c) cs).map
        ((line ++ LF :: (data ++ [LF])) :: ·) := by
  have hlength : (line ++ LF :: (data ++ [LF])).length = line.length + 1 + (data.length + 1) := by
    simp only [List.length_append, List.length_cons, List.length_nil]
    omega
  rw [cut_line (fun b hb => (hline b hb).2) (by rw [h.flag1]; omega) (by rw [h.j]; omega)]
  rw [cut_line (fun b hb => (hdata b hb).2) (by dsimp only; rw [h.flag1]; omega) (by dsimp only; rw [h.j]; omega)]
  dsimp only
  have hcopy : blit (blit st.command st.j (line ++ [LF])) (st.j + line.length + 1) (data ++ [LF]) =
      blit st.command 0 (line ++ LF :: (data ++ [LF])) := by
    have hsplit : line ++ LF :: (data ++ [LF]) = (line ++ [LF]) ++ (data ++ [LF]) := by simp
    rw [hsplit, blit_append _ 0 (line ++ [LF]), h.j, List.length_append, List.length_singleton, Nat.add_assoc]
  have hread : cString (blit st.command 0 (line ++ LF :: (data ++ [LF]))) 0 2048 = some (line ++ LF :: (data ++ [LF])) := by
    refine cString_eq slice_blit_self (fun b hb => ?_) ?_ (by omega)
    · simp only [List.mem_append, List.mem_cons, List.not_mem_nil, or_false] at hb
      obtain hb | rfl | hb | rfl := hb
      · exact (hline b hb).1
      · decide
      · exact (hdata b hb).1
      · decide
    · rw [Nat.zero_add, blit_of_out (.inr (by omega))]
      exact h.zero _ (by omega)
  have hj : st.j + line.length + 1 + data.length + 1 = (line ++ LF :: (data ++ [LF])).length := by
    rw [h.j, hlength]
    omega
  rw [cutTexts, if_neg (by dsimp only; rw [h.flag1]; omega), if_pos (by dsimp only; rw [h.flag2]; omega)]
  dsimp only
  rw [if_neg (by rw [h.isDone]; simp), hcopy, hread, hj, h.flag1, h.flag2]
  cases hcr : cutTexts (cutDone st.command (line ++ LF :: (data ++ [LF])) c) cs <;>
  · unfold cutDone at hcr
    simp only [Nat.zero_add] at hcr ⊢
    rw [hcr]
    rfl

/-! ## Between two records -/

theorem cut_skip (h1 : st.flag1 = 2) (h2 : st.flag2 < 2) (hd : st.isDone = true) (hx : ∀ b ∈ xs, b ≠ CR) :
    cutTexts st (xs ++ cs) = cutTexts st cs := by
  induction xs with
  | nil => rfl
  | cons x xs ih =>
    have hx0 : x ≠ CR := hx x List.mem_cons_self
    rw [List.cons_append, cutTexts, if_neg (by omega), if_pos h2]
    dsimp only
    rw [if_pos hd, if_neg hx0, ← hd]
    exact ih fun b hb => hx b (List.mem_cons_of_mem x hb)

theorem cut_cr (h1 : st.flag1 = 2) (h2 : st.flag2 < 2) (hd : st.isDone = true) :
    cutTexts st (CR :: cs) = cutTexts { st with flag2 := st.flag2 + 1 } cs := by
  rw [cutTexts, if_neg (by omega), if_pos h2]
  dsimp only
  rw [if_pos hd, if_pos rfl, ← hd]

/-- The carriage returns behind the address and behind the next command line end the
search for the next record. -/
theorem cut_between {p : Address} {command : Nat → UInt8} (text cs : Bytes) (hzero : ∀ i, i < 1024 ∨ used ≤ i → command i = 0)
    {ps : Bytes} (hp : p.text = c :: ps) (hline : ∀ b ∈ line, b ≠ CR) :
    ∃ st', CutAt st' (used + text.length) ∧
      cutTexts (cutDone command text c) (ps ++ CR :: LF :: (line ++ CR :: LF :: cs)) = cutTexts st' cs := by
  have hc : c ≠ CR := (p.mem_text (by simp [hp])).2
  have hps : ∀ b ∈ ps, b ≠ CR := fun b hb => (p.mem_text (by simp [hp, hb])).2
  refine ⟨⟨fun i => if i < 1024 then 0 else blit command 0 text i, 0, 0, 0, false⟩, ⟨rfl, rfl, rfl, rfl, fun i hi => ?_⟩, ?_⟩
  · dsimp only
    by_cases hlow : i < 1024
    · rw [if_pos hlow]
    · rw [if_neg hlow, blit_of_out (.inr (by omega)), hzero i (.inr (by omega))]
  · rw [cut_skip rfl (by unfold cutDone; dsimp only; rw [if_neg hc]; omega) rfl hps,
      cut_cr rfl (by unfold cutDone; dsimp only; rw [if_neg hc]; omega) rfl]
    have hsplit : LF :: (line ++ CR :: LF :: cs) = (LF :: line) ++ CR :: LF :: cs := rfl
    have hskip : ∀ b ∈ LF :: line, b ≠ CR := by
      intro b hb
      obtain rfl | hb := List.mem_cons.mp hb
      · decide
      · exact hline b hb
    rw [hsplit, cut_skip rfl (by unfold cutDone; dsimp only; rw [if_neg hc]; omega) rfl hskip,
      cut_cr rfl (by unfold cutDone; dsimp only; rw [if_neg hc]; omega) rfl]
    unfold cutDone
    dsimp only
    rw [if_neg hc]
    rfl

end

theorem requestLine_ne_cr (ptr : Nat) : ∀ b ∈ requestLine ptr, b ≠ CR := by
  have hname : ∀ b ∈ ascii "BACKUP_REQUEST ", b ≠ CR := by decide +kernel
  intro b hb
  obtain hb | hb := List.mem_append.mp hb
  · exact hname b hb
  · exact (digit_ne (mem_decimal hb)).2.2.1

/-! ## The records of a batch -/

variable {p : Address} {u : UnitMessage} {rest : List UnitMessage}

/-- A record without a line feed in its value is stored whole. -/
theorem cut_closed {st : Cut} {used : Nat} {c : UInt8} (h : CutAt st used) (hlf : LF ∉ u.value)
    (hlen : used + u.text.length < 2048) (cs : Bytes) :
    cutTexts st (u.text ++ c :: cs) = (cutTexts (cutDone st.command u.text c) cs).map (u.text :: ·) := by
  have hdata : ∀ b ∈ u.value ++ [CR], b ≠ 0 ∧ b ≠ LF := by
    intro b hb
    obtain hb | hb := List.mem_append.mp hb
    · exact ⟨u.value_ok b hb, fun he => hlf (he ▸ hb)⟩
    · obtain rfl := List.mem_singleton.mp hb
      decide
  have htext : u.text = u.line ++ LF :: ((u.value ++ [CR]) ++ [LF]) := by
    rw [u.text_eq]
    simp
  have hrecord : cutTexts st (u.line ++ LF :: ((u.value ++ [CR]) ++ LF :: c :: cs)) = _ :=
    cut_record h (fun b hb => u.line_ok hb) hdata (by rw [← htext]; exact hlen)
  have hsplit : u.text ++ c :: cs = u.line ++ LF :: ((u.value ++ [CR]) ++ LF :: c :: cs) := by
    rw [htext]
    simp
  rw [hsplit, hrecord, ← htext]

/-- A value with a line feed cuts its record short. -/
theorem cut_open {st : Cut} {used : Nat} (h : CutAt st used) (hlf : LF ∈ u.value) (hlen : used + u.text.length < 2048)
    (cs : Bytes) (texts : List Bytes) : cutTexts st (u.text ++ cs) ≠ some (u.text :: texts) := by
  obtain ⟨v1, v2, hvalue, hfirst⟩ := List.eq_append_cons_of_mem hlf
  obtain ⟨c, cs', hnext⟩ : ∃ c cs', v2 ++ [CR, LF] ++ cs = c :: cs' := by
    cases v2 with
    | nil => exact ⟨CR, LF :: cs, rfl⟩
    | cons b v2 => exact ⟨b, v2 ++ [CR, LF] ++ cs, rfl⟩
  have hdata : ∀ b ∈ v1, b ≠ 0 ∧ b ≠ LF := fun b hb =>
    ⟨u.value_ok b (hvalue ▸ List.mem_append_left _ hb), fun he => hfirst (he ▸ hb)⟩
  have htext : u.text = (u.line ++ LF :: (v1 ++ [LF])) ++ (v2 ++ [CR, LF]) := by
    rw [u.text_eq, hvalue]
    simp
  have hsplit : u.text ++ cs = u.line ++ LF :: (v1 ++ LF :: c :: cs') := by
    rw [htext, List.append_assoc, hnext]
    simp
  have hshort : (u.line ++ LF :: (v1 ++ [LF])).length < u.text.length := by
    have hpos : 0 < (v2 ++ [CR, LF]).length := by simp
    have hsum : u.text.length = (u.line ++ LF :: (v1 ++ [LF])).length + (v2 ++ [CR, LF]).length := by
      rw [htext, List.length_append]
    omega
  rw [hsplit, cut_record h (fun b hb => u.line_ok hb) hdata (by omega)]
  intro hsome
  obtain ⟨ts, -, hts⟩ := Option.map_eq_some_iff.mp hsome
  rw [(List.cons.inj hts).1] at hshort
  exact Nat.lt_irrefl _ hshort

/-- The loop finds the records of a batch exactly if no value holds a line feed: the first
value that does cuts its record short. -/
theorem cut_batch {st : Cut} {used : Nat} {c : UInt8} (h : CutAt st used) (hlen : used + (batchBody p u rest).length < 2048) :
    cutTexts st (batchBody p u rest ++ [c]) = some (batchTexts u rest) ↔ ∀ v ∈ u :: rest, LF ∉ v.value := by
  induction rest generalizing u st used with
  | nil =>
    rw [batchBody] at hlen ⊢
    by_cases hlf : LF ∈ u.value
    · exact iff_of_false (cut_open h hlf hlen [c] []) fun hall => hall u List.mem_cons_self hlf
    · rw [cut_closed h hlf hlen]
      exact iff_of_true rfl fun v hv => List.mem_singleton.mp hv ▸ hlf
  | cons v rest ih =>
    have hbody : batchBody p u (v :: rest) = u.text ++ between p (requestLine v.dataConnPtr) ++ batchBody p v rest := rfl
    rw [hbody, List.length_append, List.length_append] at hlen
    rw [hbody, List.append_assoc, List.append_assoc]
    by_cases hlf : LF ∈ u.value
    · exact iff_of_false (cut_open h hlf (by omega) _ _) fun hall => hall u List.mem_cons_self hlf
    · obtain ⟨c', ps, hp⟩ := List.exists_cons_of_ne_nil p.text_ne_nil
      have hbetween : between p (requestLine v.dataConnPtr) ++ (batchBody p v rest ++ [c]) =
          c' :: (ps ++ CR :: LF :: (requestLine v.dataConnPtr ++ CR :: LF :: (batchBody p v rest ++ [c]))) := by
        simp [between, hp]
      obtain ⟨st', hst', hcut⟩ := cut_between u.text (batchBody p v rest ++ [c]) h.zero hp (requestLine_ne_cr v.dataConnPtr)
      rw [hbetween, cut_closed h hlf (by omega), hcut]
      have hrest := ih (u := v) hst' (by omega)
      constructor
      · intro hsome
        obtain ⟨ts, hts, hcons⟩ := Option.map_eq_some_iff.mp hsome
        have htail : ts = batchTexts v rest := (List.cons.inj hcons).2
        have hall := hrest.mp (htail ▸ hts)
        intro w hw
        obtain rfl | hw := List.mem_cons.mp hw
        · exact hlf
        · exact hall w hw
      · intro hall
        rw [hrest.mpr fun w hw => hall w (List.mem_cons_of_mem u hw)]
        rfl

/-! ## A batch as a message -/

theorem batchBody_ends (p : Address) (u : UnitMessage) (rest : List UnitMessage) :
    ∃ ys, batchBody p u rest = ys ++ [LF] := by
  induction rest generalizing u with
  | nil => exact ⟨u.line ++ LF :: (u.value ++ [CR]), by simp [batchBody, u.text_eq]⟩
  | cons v rest ih =>
    obtain ⟨ys, hys⟩ := ih v
    exact ⟨u.text ++ between p (requestLine v.dataConnPtr) ++ ys, by rw [batchBody, hys, ← List.append_assoc]⟩

/-- What `appendToSegment` makes of a batch: nothing where `IpPort` is overrun. -/
theorem messageTexts_batch (p : Address) (u : UnitMessage) (rest : List UnitMessage) :
    ∃ c, messageTexts (batch p u rest) =
      if (batchBody p u rest).length + p.text.length < 2048 then
        (cutTexts initCut (batchBody p u rest ++ [c])).map fun texts => (p.ip, (p.port : Int), texts)
      else none := by
  obtain ⟨ys, hys⟩ := batchBody_ends p u rest
  obtain ⟨c, cs, hp⟩ := List.exists_cons_of_ne_nil p.text_ne_nil
  have hstrip : stripEol (batch p u rest) = batchBody p u rest ++ p.text := stripEol_message p _
  have hlast : (batchBody p u rest ++ p.text).rtakeWhile (· != LF) = p.text := by
    rw [hys, List.append_assoc, List.singleton_append]
    exact rtakeWhile_append (by simp) fun b hb => by simpa using (p.mem_text hb).1
  have hlf : LF ∈ batchBody p u rest ++ p.text := by simp [hys]
  have hparse : parseIpPort (batch p u rest) =
      if (batchBody p u rest).length + p.text.length < 2048 then some p.text else none := by
    simp only [parseIpPort, hstrip, hlf, hlast, List.length_append, and_true]
  have hlen : getCommandLen (batch p u rest) p.text = (batchBody p u rest).length := by
    rw [getCommandLen, hstrip, List.length_append, Nat.add_sub_cancel]
  have htake : (batch p u rest ++ [0]).take ((batchBody p u rest).length + 1) = batchBody p u rest ++ [c] := by
    simp [batch, hp, List.take_append]
  refine ⟨c, ?_⟩
  unfold messageTexts
  rw [hparse]
  split
  · simp only [Option.bind_eq_bind, Option.bind_some, getIp_text, getPort_text, hlen, htake]
    rw [Option.map_eq_bind]
    rfl
  · rfl

/-- The records of a batch are what `appendToSegment` stores exactly if no value holds a
line feed and the batch fits. -/
theorem messageTexts_batch_iff (p : Address) (u : UnitMessage) (rest : List UnitMessage) :
    messageTexts (batch p u rest) = some (p.ip, (p.port : Int), batchTexts u rest) ↔
      (∀ v ∈ u :: rest, LF ∉ v.value) ∧ (batchBody p u rest).length + p.text.length < 2048 := by
  obtain ⟨c, hc⟩ := messageTexts_batch p u rest
  rw [hc]
  by_cases hfit : (batchBody p u rest).length + p.text.length < 2048
  · have hcut : cutTexts initCut (batchBody p u rest ++ [c]) = some (batchTexts u rest) ↔ _ :=
      cut_batch cutAt_init (by omega)
    rw [if_pos hfit, ← hcut]
    simp [hfit]
  · rw [if_neg hfit]
    simp [hfit]

/-! ## Storing the records -/

section

variable {os : Os} {ip : Bytes} {port : Int} {b b' : Backup} {cur : Option Segment} {isFirst : Bool} {str : Bytes}
  {texts : List Bytes}

/-- All but the last of the strings must leave room: a string that fills the segment
leaves none to chain the next one to. -/
theorem storeTexts_isSome_iff (h : OneSegment b cur)
    (hfirst : isFirst = true ∨ ∃ s, cur = some s ∧ s.isOf ip port = true) :
    (storeTexts os ip port isFirst b (str :: texts)).isSome ↔
      (textsOf cur ip port ++ (str :: texts).dropLast).flatten.length ≤ segmentBytes := by
  have hcap : MAX_SEGMENT_CAPACITY = (segmentBytes : Int) := rfl
  have hroom := extended_texts os ip port str h
  have hcapacity := hroom.ok.capacity
  rw [hroom.texts, hcap] at hcapacity
  rw [storeTexts, storeText_eq h hfirst, Option.bind_some]
  induction texts generalizing b cur isFirst str with
  | nil =>
    have hheld : (textsOf cur ip port).flatten.length ≤ segmentBytes := by
      unfold textsOf
      cases hcur : cur.filter fun s => s.isOf ip port with
      | none => exact Nat.zero_le _
      | some s =>
        obtain ⟨rfl, -⟩ := Option.filter_eq_some_iff.mp hcur
        obtain ⟨hok, hpos⟩ := h.ok s rfl
        have hs := hok.capacity
        dsimp only [Option.elim_some]
        omega
    simpa [storeTexts] using hheld
  | cons next texts ih =>
    rw [List.dropLast_cons_of_ne_nil (List.cons_ne_nil next texts)]
    by_cases hfull : (extended cur ip port (textSeglet os str)).header.capacity < 0
    · have hnone := OneSegment.persist os b hfull
      rw [storeTexts, storeText_none hnone (by simp)]
      simp only [Option.bind_none, Option.isSome_none, Bool.false_eq_true, false_iff, List.flatten_append,
        List.length_append, List.flatten_cons] at hcapacity ⊢
      simp only [List.flatten_nil, List.length_nil] at hcapacity
      omega
    · have hkeep := OneSegment.keep os b hroom.ok (Int.not_lt.mp hfull)
      have hof : (extended cur ip port (textSeglet os str)).isOf ip port = true := by
        simp [Segment.isOf]
      have hheld : textsOf (some (extended cur ip port (textSeglet os str))) ip port = textsOf cur ip port ++ [str] := by
        simp [textsOf, Option.filter, hof, hroom.texts]
      have hnext := extended_texts os ip port next hkeep
      have hnextCapacity := hnext.ok.capacity
      rw [hnext.texts, hcap] at hnextCapacity
      have hrest := ih hkeep (show false = true ∨ _ from .inr ⟨_, rfl, hof⟩) hnext hnextCapacity
      rw [storeTexts, storeText_eq hkeep (.inr ⟨_, rfl, hof⟩), Option.bind_some]
      rw [hheld, List.append_assoc, List.singleton_append] at hrest
      exact hrest

theorem heldOf_textsOf (h : OneSegment b cur) (p : Address) : heldOf b p = textsOf cur p.ip p.port :=
  heldOf_one h.list p

theorem dropLast_flatten_le {l : List Bytes} (h : l ≠ []) : l.dropLast.flatten.length ≤ l.flatten.length := by
  have hsplit := List.dropLast_append_getLast h
  conv_rhs => rw [← hsplit]
  rw [List.flatten_append, List.length_append]
  exact Nat.le_add_right _ _

theorem HoldsTexts.full {s : Segment} {held : List Bytes} (hs : HoldsTexts s ip port held)
    (hfull : segmentBytes < held.flatten.length) : s.header.capacity < 0 := by
  have hcapacity := hs.ok.capacity
  have hcap : MAX_SEGMENT_CAPACITY = (segmentBytes : Int) := rfl
  rw [hs.texts, hcap] at hcapacity
  omega

/-- The file that `persist` opens for a segment, in terms of what it holds. -/
theorem HoldsTexts.file_eq {s : Segment} {held : List Bytes} (hs : HoldsTexts s ip port held) (b : Backup) :
    os.fopen (segmentFile os b s).dir (segmentFile os b s).name =
      os.fopen (mkStorage b.cwd (ipPortDir ip port)) (fileName held.length os.now) := by
  have hnum : s.header.segletnum = held.length := by rw [hs.ok.num, ← hs.texts, commands, List.length_map]
  rw [segmentFile]
  dsimp only
  rw [hs.ip, hs.port, hnum]

/-- What becomes of a segment is seen in what is held: a segment that is full is not. -/
theorem heldOf_keepOrPersist {s : Segment} {p : Address} {held : List Bytes} (hs : HoldsTexts s p.ip p.port held) :
    heldOf (keepOrPersist os b s) p = if segmentBytes < held.flatten.length then [] else held := by
  have hcapacity := hs.ok.capacity
  have hcap : MAX_SEGMENT_CAPACITY = (segmentBytes : Int) := rfl
  rw [hs.texts, hcap] at hcapacity
  by_cases hfull : segmentBytes < held.flatten.length
  · have hneg : s.header.capacity < 0 := by omega
    rw [if_pos hfull, heldOf_textsOf (OneSegment.persist os b hneg)]
    rfl
  · have hpos : 0 ≤ s.header.capacity := by omega
    have hof : s.isOf p.ip p.port = true := by simp [Segment.isOf, hs.ip, hs.port]
    rw [if_neg hfull, heldOf_textsOf (OneSegment.keep os b hs.ok hpos)]
    simp [textsOf, Option.filter, hof, hs.texts]

end

/-! ## Batches at a backup -/

section

variable {cwd : Path} {calls : List AppendCall} {b : Backup} {os : Os}

theorem oneSegment_of_run (hrun : Run Appended (initSegmentManager cwd) calls b) : ∃ cur, OneSegment b cur := by
  obtain ⟨-, ⟨cur, hone, -⟩, -⟩ := (matches_init cwd).run hrun
  exact ⟨cur, hone⟩

theorem batchTexts_ne_nil (u : UnitMessage) (rest : List UnitMessage) : batchTexts u rest ≠ [] := by
  simp [batchTexts]

/-- A call that comes to an end stored the strings of its message in the segment of its
address, which was kept or went to its file. -/
theorem append_batch {b' : Backup} {cur : Option Segment} (h : OneSegment b cur)
    (ha : appendToSegment os b (batch p u rest) = some b') :
    ∃ texts, messageTexts (batch p u rest) = some (p.ip, (p.port : Int), texts) ∧ (texts = [] → b' = b) ∧
      (texts ≠ [] → ∃ s, HoldsTexts s p.ip p.port (heldOf b p ++ texts) ∧ b' = keepOrPersist os b s) := by
  obtain ⟨c, hc⟩ := messageTexts_batch p u rest
  rw [appendToSegment_eq, Option.bind_eq_some_iff] at ha
  obtain ⟨⟨ip, port, texts⟩, htexts, hstore⟩ := ha
  have haddr : ip = p.ip ∧ port = p.port := by
    rw [hc] at htexts
    split at htexts
    · obtain ⟨ts, -, hts⟩ := Option.map_eq_some_iff.mp htexts
      obtain ⟨rfl, rfl, -⟩ := Prod.mk.injEq .. ▸ hts
      exact ⟨rfl, rfl⟩
    · cases htexts
  obtain ⟨rfl, rfl⟩ := haddr
  refine ⟨texts, htexts, fun hnil => ?_, fun hne => ?_⟩
  · subst hnil
    exact (Option.some.inj hstore).symm
  · obtain ⟨str, texts, rfl⟩ := List.exists_cons_of_ne_nil hne
    obtain ⟨s, hs, hb'⟩ := storeTexts_one h hstore
    rw [← heldOf_textsOf h] at hs
    exact ⟨s, hs, hb'⟩

/-- So a call on a batch whose records are found stored them. -/
theorem append_found {b' : Backup} {cur : Option Segment} (h : OneSegment b cur)
    (htexts : messageTexts (batch p u rest) = some (p.ip, (p.port : Int), batchTexts u rest))
    (ha : appendToSegment os b (batch p u rest) = some b') :
    ∃ s, HoldsTexts s p.ip p.port (heldOf b p ++ batchTexts u rest) ∧ b' = keepOrPersist os b s := by
  obtain ⟨texts, htexts', -, hstored⟩ := append_batch h ha
  obtain rfl : batchTexts u rest = texts := by
    rw [htexts] at htexts'
    simpa using htexts'
  exact hstored (batchTexts_ne_nil u rest)

/-- A batch whose records are found, and leave room for each other. -/
theorem append_batch_isSome {cur : Option Segment} (h : OneSegment b cur)
    (htexts : messageTexts (batch p u rest) = some (p.ip, (p.port : Int), batchTexts u rest)) :
    (appendToSegment os b (batch p u rest)).isSome ↔
      (heldOf b p ++ (batchTexts u rest).dropLast).flatten.length ≤ segmentBytes := by
  rw [appendToSegment_eq, htexts, heldOf_textsOf h]
  exact storeTexts_isSome_iff h (.inl rfl)

/-- What is held behind the records before it was found in the message. -/
theorem found_of_held {b' : Backup} {cur : Option Segment} (h : OneSegment b cur)
    (ha : appendToSegment os b (batch p u rest) = some b') (hheld : heldOf b' p = heldOf b p ++ batchTexts u rest) :
    messageTexts (batch p u rest) = some (p.ip, (p.port : Int), batchTexts u rest) := by
  obtain ⟨texts, htexts, hnil, hstored⟩ := append_batch h ha
  by_cases hne : texts = []
  · rw [hnil hne] at hheld
    exact absurd (List.self_eq_append_right.mp hheld) (batchTexts_ne_nil u rest)
  · obtain ⟨s, hs, rfl⟩ := hstored hne
    rw [heldOf_keepOrPersist hs] at hheld
    split at hheld
    · exact absurd (List.append_eq_nil_iff.mp hheld.symm).2 (batchTexts_ne_nil u rest)
    · rw [List.append_cancel_left hheld] at htexts
      exact htexts

/-- A batch that does not fill the segment is stored as one seglet for each message, with
its record, exactly if no value holds a line feed and the batch fits `IpPort`. -/
theorem batch_appended_iff (hrun : Run Appended (initSegmentManager cwd) calls b)
    (hroom : (heldOf b p ++ batchTexts u rest).flatten.length ≤ segmentBytes) :
    (∃ b', appendToSegment os b (batch p u rest) = some b' ∧ heldOf b' p = heldOf b p ++ batchTexts u rest) ↔
      (∀ v ∈ u :: rest, LF ∉ v.value) ∧ (batchBody p u rest).length + p.text.length < 2048 := by
  obtain ⟨cur, hone⟩ := oneSegment_of_run hrun
  rw [← messageTexts_batch_iff]
  constructor
  · rintro ⟨b', ha, hheld⟩
    exact found_of_held hone ha hheld
  · intro htexts
    have hless := dropLast_flatten_le (batchTexts_ne_nil u rest)
    have hsome : (appendToSegment os b (batch p u rest)).isSome := by
      refine (append_batch_isSome hone htexts).mpr (Nat.le_trans ?_ hroom)
      simp only [List.flatten_append, List.length_append]
      omega
    obtain ⟨b', hb'⟩ := Option.isSome_iff_exists.mp hsome
    obtain ⟨s, hs, rfl⟩ := append_found hone htexts hb'
    exact ⟨_, hb', by rw [heldOf_keepOrPersist hs, if_neg (by omega)]⟩

/-- A key and a value of one byte each. -/
def smallUnit : UnitMessage := ⟨1, [97], [118], List.forall_mem_singleton.mpr (by decide), List.forall_mem_singleton.mpr (by decide)⟩

theorem batch_appended_two :
    ∃ b', appendToSegment noon (initSegmentManager []) (batch firstPrimary smallUnit [smallUnit]) = some b' ∧
      heldOf b' firstPrimary = heldOf (initSegmentManager []) firstPrimary ++ batchTexts smallUnit [smallUnit] :=
  (batch_appended_iff (.nil _) (by decide +kernel)).mpr ⟨by decide, by decide +kernel⟩

/-- A value that is a line feed. -/
def lfUnit : UnitMessage :=
  ⟨1, [97], [LF], List.forall_mem_singleton.mpr (by decide), List.forall_mem_singleton.mpr (by decide)⟩

/-- The record of a line feed is stored without its last two bytes. -/
theorem batch_cut_short :
    ¬∃ b', appendToSegment noon (initSegmentManager [])
        (batch firstPrimary lfUnit []) = some b' ∧
      heldOf b' firstPrimary = heldOf (initSegmentManager []) firstPrimary ++ batchTexts lfUnit [] := by
  rintro ⟨b', ha, hheld⟩
  obtain ⟨cur, hone⟩ := oneSegment_of_run (.nil (initSegmentManager []))
  obtain ⟨hlf, -⟩ := (messageTexts_batch_iff ..).mp (found_of_held hone ha hheld)
  exact hlf _ List.mem_cons_self (List.mem_singleton_self LF)

/-- Every record of a batch without line feeds in its values ends up in memory or in a file
that this call wrote exactly if the batch fits `IpPort`, none of its records but the last
fills the segment, and the file can be opened if that one does. -/
theorem batch_kept_iff (hrun : Run Appended (initSegmentManager cwd) calls b) (hlf : ∀ v ∈ u :: rest, LF ∉ v.value) :
    (∃ b', appendToSegment os b (batch p u rest) = some b' ∧
      (heldOf b' p = heldOf b p ++ batchTexts u rest ∨
        ∃ c, b'.persists = b.persists ++ [c] ∧ c.opened = true ∧ c.file ∈ b'.disk ∧
          commands c.file.seglets = heldOf b p ++ batchTexts u rest)) ↔
      (batchBody p u rest).length + p.text.length < 2048 ∧
        (heldOf b p ++ (batchTexts u rest).dropLast).flatten.length ≤ segmentBytes ∧
        (segmentBytes < (heldOf b p ++ batchTexts u rest).flatten.length →
          os.fopen (mkStorage b.cwd (ipPortDir p.ip p.port))
            (fileName (heldOf b p ++ batchTexts u rest).length os.now) = true) := by
  obtain ⟨cur, hone⟩ := oneSegment_of_run hrun
  have htexts_iff := messageTexts_batch_iff p u rest
  constructor
  · rintro ⟨b', ha, hkept⟩
    have hfit : (batchBody p u rest).length + p.text.length < 2048 := by
      by_contra hno
      obtain ⟨c, hc⟩ := messageTexts_batch p u rest
      rw [appendToSegment_eq, hc, if_neg hno] at ha
      cases ha
    have htexts := htexts_iff.mpr ⟨hlf, hfit⟩
    have hsome : (appendToSegment os b (batch p u rest)).isSome := by rw [ha]; rfl
    obtain ⟨s, hs, rfl⟩ := append_found hone htexts ha
    refine ⟨hfit, (append_batch_isSome hone htexts).mp hsome, fun hfull => ?_⟩
    have hneg := hs.full hfull
    obtain hheld | ⟨c, hcalls, hopened, -⟩ := hkept
    · rw [heldOf_keepOrPersist hs, if_pos hfull] at hheld
      exact absurd (List.append_eq_nil_iff.mp hheld.symm).2 (batchTexts_ne_nil u rest)
    · rw [keepOrPersist, if_pos hneg] at hcalls
      have hcall := List.append_cancel_left hcalls
      rw [← (List.cons.inj hcall).1] at hopened
      rw [← hs.file_eq b]
      exact hopened
  · rintro ⟨hfit, hroom, hopen⟩
    have htexts := htexts_iff.mpr ⟨hlf, hfit⟩
    obtain ⟨b', hb'⟩ := Option.isSome_iff_exists.mp ((append_batch_isSome hone htexts).mpr hroom)
    obtain ⟨s, hs, rfl⟩ := append_found hone htexts hb'
    refine ⟨_, hb', ?_⟩
    by_cases hfull : segmentBytes < (heldOf b p ++ batchTexts u rest).flatten.length
    · have hneg := hs.full hfull
      have hopened : os.fopen (segmentFile os b s).dir (segmentFile os b s).name = true := by
        rw [hs.file_eq b]
        exact hopen hfull
      refine .inr ?_
      rw [keepOrPersist, if_pos hneg]
      refine ⟨_, rfl, hopened, ?_, hs.texts⟩
      dsimp only [persist]
      rw [if_pos hopened]
      exact List.mem_append_right _ (List.mem_singleton_self _)
    · exact .inl (by rw [heldOf_keepOrPersist hs, if_neg hfull])

theorem batch_kept_two :
    ∃ b', appendToSegment noon (initSegmentManager []) (batch firstPrimary smallUnit [smallUnit]) = some b' ∧
      (heldOf b' firstPrimary = heldOf (initSegmentManager []) firstPrimary ++ batchTexts smallUnit [smallUnit] ∨
        ∃ c, b'.persists = (initSegmentManager []).persists ++ [c] ∧ c.opened = true ∧ c.file ∈ b'.disk ∧
          commands c.file.seglets =
            heldOf (initSegmentManager []) firstPrimary ++ batchTexts smallUnit [smallUnit]) :=
  (batch_kept_iff (.nil _) (by decide)).mpr ⟨by decide +kernel, by decide +kernel, fun _ => rfl⟩

/-- A segment of small records. -/
theorem heldOf_smallCalls {k : Nat} (hk : k ≠ 0) (hroom : k * setRecord.text.length ≤ 1024 * 1024) :
    ∃ b cur, Run Appended (initSegmentManager []) (List.replicate k smallCall) b ∧ OneSegment b cur ∧
      heldOf b firstPrimary = List.replicate k setRecord.text := by
  obtain ⟨b, hrun⟩ := run_smallCalls k
  obtain ⟨-, ⟨cur, hone, howner, hheld⟩, -⟩ := (matches_init []).run hrun
  rw [show initFilling [] = ⟨[], none, [], []⟩ from rfl, calls_held smallCall_texts hroom] at howner hheld
  refine ⟨b, cur, hrun, hone, ?_⟩
  rw [heldOf_textsOf hone, textsOf_eq howner hheld]
  dsimp only
  rw [if_neg hk, if_pos rfl]

/-- A segment that is used up to the last byte: the first of two records fills it, and
there is no segment for the second. -/
theorem batch_lost : ¬∀ (calls : List AppendCall) (b : Backup), Run Appended (initSegmentManager []) calls b →
    ∃ b', appendToSegment noon b (batch firstPrimary smallUnit [smallUnit]) = some b' ∧
      (heldOf b' firstPrimary = heldOf b firstPrimary ++ batchTexts smallUnit [smallUnit] ∨
        ∃ c, b'.persists = b.persists ++ [c] ∧ c.opened = true ∧ c.file ∈ b'.disk ∧
          commands c.file.seglets = heldOf b firstPrimary ++ batchTexts smallUnit [smallUnit]) := by
  intro h
  have hlen : setRecord.text.length = 16 := by decide +kernel
  obtain ⟨k, hk⟩ : ∃ k, k = 65536 := ⟨_, rfl⟩
  obtain ⟨b, cur, hrun, hone, hold⟩ := heldOf_smallCalls (k := k) (by omega) (by rw [hlen]; omega)
  obtain ⟨b', ha, -⟩ := h _ b hrun
  have htexts : messageTexts (batch firstPrimary smallUnit [smallUnit]) = _ :=
    (messageTexts_batch_iff firstPrimary smallUnit [smallUnit]).mpr ⟨by decide, by decide +kernel⟩
  have hsome : (appendToSegment noon b (batch firstPrimary smallUnit [smallUnit])).isSome := by rw [ha]; rfl
  have hroom := (append_batch_isSome hone htexts).mp hsome
  have hfirst : ((batchTexts smallUnit [smallUnit]).dropLast).flatten.length = 16 := by decide +kernel
  rw [hold, List.flatten_append, List.length_append, hfirst, List.length_flatten, List.map_replicate, List.sum_replicate_nat,
    hlen, segmentBytes] at hroom
  omega

end

end RamCube
