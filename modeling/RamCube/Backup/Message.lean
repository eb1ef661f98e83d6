import RamCube.Backup.Segment

/-! # One record in a message

A message of a primary is one record, two lines long, followed by the address of the
primary. `appendToSegment` finds the address and the record again, whatever they are,
and stores the record once (`appendToSegment_message`). -/
namespace RamCube

/-- How many neighbours a node has at most. -/
def MAX_NEIGHBORS : Nat := 128

def dot : UInt8 := 46

/-- The address a node listens at and announces itself with. -/
structure Address where
  ip : Bytes
  port : Nat
  ip_ok : ∀ b ∈ ip, isDigit b = true ∨ b = 46
  ip_ne : ip ≠ []
  ip_length : ip.length < 16
  port_pos : 0 < port
  port_lt : port < 65536
deriving DecidableEq

def Address.text (p : Address) : Bytes := p.ip ++ colon :: decimal p.port

/-- A command line and a data line, each up to its line feed. -/
structure Record where
  line : Bytes
  data : Bytes
  line_ok : ∀ b ∈ line, b ≠ 0 ∧ b ≠ LF
  data_ok : ∀ b ∈ data, b ≠ 0 ∧ b ≠ LF
deriving DecidableEq

def Record.text (r : Record) : Bytes := r.line ++ LF :: (r.data ++ [LF])

def message (p : Address) (r : Record) : Bytes := r.text ++ p.text ++ [CR, LF]

/-- The message without its last line end fits `IpPort[2048]`. -/
def Fits (p : Address) (r : Record) : Prop := r.text.length + p.text.length < 2048

instance (p : Address) (r : Record) : Decidable (Fits p r) := inferInstanceAs (Decidable (_ < _))

/-! ## The address -/

theorem digit_ne {b : UInt8} (h : isDigit b = true) : b ≠ 0 ∧ b ≠ LF ∧ b ≠ CR ∧ b ≠ colon ∧ b ≠ 46 ∧ b ≠ 32 := by
  have hb : 48 ≤ b.toNat ∧ b.toNat ≤ 57 := by
    simpa [isDigit, UInt8.le_iff_toNat_le] using h
  refine ⟨?_, ?_, ?_, ?_, ?_, ?_⟩ <;>
  · intro he
    subst he
    revert hb
    decide

theorem Address.mem_ip (p : Address) {b : UInt8} (h : b ∈ p.ip) : b ≠ 0 ∧ b ≠ LF ∧ b ≠ CR ∧ b ≠ colon := by
  obtain hd | rfl := p.ip_ok b h
  · obtain ⟨h0, h1, h2, h3, _⟩ := digit_ne hd
    exact ⟨h0, h1, h2, h3⟩
  · decide

theorem Address.mem_text (p : Address) {b : UInt8} (h : b ∈ p.text) : b ≠ LF ∧ b ≠ CR := by
  simp only [text, List.mem_append, List.mem_cons] at h
  obtain h | rfl | h := h
  · exact ⟨(p.mem_ip h).2.1, (p.mem_ip h).2.2.1⟩
  · decide
  · exact ⟨(digit_ne (mem_decimal h)).2.1, (digit_ne (mem_decimal h)).2.2.1⟩

theorem Address.text_ne_nil (p : Address) : p.text ≠ [] := by
  simp [text]

/-- Trailing characters that are not line ends stop the search for the end of the text. -/
theorem stripEol_message (p : Address) (xs : Bytes) : stripEol (xs ++ p.text ++ [CR, LF]) = xs ++ p.text := by
  obtain ⟨ys, b, hb⟩ := (List.eq_nil_or_concat p.text).resolve_left p.text_ne_nil
  have hmem : b ∈ p.text := by simp [hb]
  have hlast := p.mem_text hmem
  have hsplit : xs ++ p.text ++ [CR, LF] = xs ++ ys ++ [b] ++ [CR] ++ [LF] := by simp [hb]
  unfold stripEol
  rw [hsplit, List.rdropWhile_concat_pos _ _ _ (by decide), List.rdropWhile_concat_pos _ _ _ (by decide),
    List.rdropWhile_concat_neg _ _ _ (by simpa using ⟨hlast.2, hlast.1⟩), hb]
  simp

theorem rtakeWhile_append {α : Type} {q : α → Bool} {xs ys : List α} {a : α} (ha : q a = false)
    (hy : ∀ b ∈ ys, q b = true) : (xs ++ a :: ys).rtakeWhile q = ys := by
  have hr : ∀ b ∈ ys.reverse, q b = true := fun b hb => hy b (List.mem_reverse.mp hb)
  simp only [List.rtakeWhile, List.reverse_append, List.reverse_cons, List.append_assoc,
    List.singleton_append]
  rw [List.takeWhile_append_of_pos hr, List.takeWhile_cons_of_neg (by simp [ha])]
  simp

theorem parseIpPort_message (p : Address) (r : Record) :
    parseIpPort (message p r) = if Fits p r then some p.text else none := by
  have hlf : LF ∈ r.text ++ p.text := by simp [Record.text]
  have hlast : (r.text ++ p.text).rtakeWhile (· != LF) = p.text := by
    have hsplit : r.text ++ p.text = (r.line ++ LF :: r.data) ++ LF :: p.text := by simp [Record.text]
    rw [hsplit]
    exact rtakeWhile_append (by decide) fun b hb => by simpa using (p.mem_text hb).1
  simp only [parseIpPort, message, stripEol_message, hlf, hlast, List.length_append, and_true]
  rfl

theorem getIp_text (p : Address) : getIp p.text = some p.ip := by
  have htake : p.text.takeWhile (· != colon) = p.ip := by
    unfold Address.text
    rw [List.takeWhile_append_of_pos (fun b hb => by simpa using (p.mem_ip hb).2.2.2),
      List.takeWhile_cons_of_neg (by simp), List.append_nil]
  have hmem : colon ∈ p.text := by simp [Address.text]
  simp [getIp, htake, hmem, p.ip_length]

theorem digitByte_toInt8 {d : Nat} (h : d < 10) : (digitByte d).toInt8.toInt - 48 = d := by
  have hd : ∀ e : Fin 10, (digitByte e).toInt8.toInt - 48 = (e.val : Int) := by decide
  exact hd ⟨d, h⟩

/-- A printed number is read back. -/
theorem charNumber_decimal (n : Nat) : charNumber (decimal n) = n := by
  obtain ⟨ds, hd, _, he, hf⟩ := decimal_eq_map n
  have hfold : ∀ (ds : List Nat) (acc : Nat), (∀ d ∈ ds, d < 10) →
      (ds.map digitByte).foldl (fun (n : Int) b => n * 10 + (b.toInt8.toInt - 48)) acc =
        (ds.foldl (fun a d => a * 10 + d) acc : Nat) := by
    intro ds
    induction ds with
    | nil => intros; rfl
    | cons d ds ih =>
      intro acc hd
      simp only [List.map_cons, List.foldl_cons, digitByte_toInt8 (hd d (by simp))]
      rw [← ih _ fun e he => hd e (by simp [he])]
      norm_cast
  unfold charNumber
  rw [he]
  exact (hfold ds 0 hd).trans (congrArg _ hf)

theorem decimal_inj {m n : Nat} (h : decimal m = decimal n) : m = n := by
  have hnum := congrArg charNumber h
  rw [charNumber_decimal, charNumber_decimal] at hnum
  exact Int.ofNat.inj hnum

/-- A byte ends the text before its first place. -/
theorem append_cons_inj {b : UInt8} {xs ys zs ws : Bytes} (hx : b ∉ xs) (hy : b ∉ ys)
    (h : xs ++ b :: zs = ys ++ b :: ws) : xs = ys ∧ zs = ws := by
  induction xs generalizing ys with
  | nil =>
    cases ys with
    | nil => exact ⟨rfl, (List.cons.inj h).2⟩
    | cons y ys => exact absurd (by simp [(List.cons.inj h).1]) hy
  | cons x xs ih =>
    simp only [List.mem_cons, not_or] at hx
    cases ys with
    | nil => exact absurd (List.cons.inj h).1.symm hx.1
    | cons y ys =>
      obtain ⟨hxy, h⟩ := List.cons.inj h
      obtain ⟨hxs, hzs⟩ := ih hx.2 (fun hm => hy (List.mem_cons_of_mem _ hm)) h
      exact ⟨by rw [hxy, hxs], hzs⟩

theorem getPort_text (p : Address) : getPort p.text = p.port := by
  have hdrop : (p.text.dropWhile (· != colon)).drop 1 = decimal p.port := by
    unfold Address.text
    rw [List.dropWhile_append_of_pos (fun b hb => by simpa using (p.mem_ip hb).2.2.2),
      List.dropWhile_cons_of_neg (by simp)]
    rfl
  rw [getPort, hdrop, charNumber_decimal]

theorem getCommandLen_message (p : Address) (r : Record) :
    getCommandLen (message p r) p.text = r.text.length := by
  unfold getCommandLen message
  rw [stripEol_message, List.length_append, Nat.add_sub_cancel]

/-! ## The record -/

theorem blit_cons (m : Nat → UInt8) (off : Nat) (c : UInt8) (cs : Bytes) :
    blit m off (c :: cs) = blit (setByte m off c) (off + 1) cs := by
  funext i
  simp only [blit, setByte, List.length_cons]
  by_cases hi : i = off
  · simp [hi]
  · by_cases hin : off + 1 ≤ i ∧ i < off + 1 + cs.length
    · rw [if_pos (by omega), if_pos hin, show i - off = i - (off + 1) + 1 by omega, List.getD_cons_succ]
    · rw [if_neg (by omega), if_neg hin, if_neg hi]

theorem blit_append (m : Nat → UInt8) (off : Nat) (as bs : Bytes) :
    blit m off (as ++ bs) = blit (blit m off as) (off + as.length) bs := by
  induction as generalizing m off with
  | nil =>
    have : blit m off [] = m := funext fun i => blit_of_out (by simp; omega)
    simp [this]
  | cons c cs ih => simp only [List.cons_append, blit_cons, ih, List.length_cons, Nat.add_assoc, Nat.add_comm 1]

/-- A string is read back from the buffer it was copied to. -/
theorem cString_eq {m : Nat → UInt8} {off room : Nat} {bs : Bytes} (hb : slice m off bs.length = bs)
    (h0 : ∀ b ∈ bs, b ≠ 0) (hend : m (off + bs.length) = 0) (hroom : bs.length < room) :
    cString m off room = some bs := by
  induction bs generalizing off room with
  | nil =>
    obtain ⟨k, rfl⟩ := Nat.exists_eq_add_of_lt hroom
    simpa [cString] using hend
  | cons c cs ih =>
    obtain ⟨k, rfl⟩ := Nat.exists_eq_add_of_lt hroom
    rw [List.length_cons, Nat.add_comm, slice_add] at hb
    obtain ⟨hc, hcs⟩ := List.cons.inj hb
    have hne : m off ≠ 0 := by
      rw [show m off = c from hc]
      exact h0 c (by simp)
    have hrec : cString m (off + 1) (cs.length + 1 + k) = some cs :=
      ih hcs (fun b hb => h0 b (by simp [hb])) (by simpa [Nat.add_assoc, Nat.add_comm 1] using hend) (by omega)
    simp only [List.length_cons, cString, if_neg hne, hrec, Option.map_some]
    rw [show m off = c from hc]

variable {os : Os} {ip : Bytes} {port : Int}

/-- The loop copies a line and counts its end. -/
theorem scan_line (line : Bytes) (st : Scan) (hline : ∀ b ∈ line, b ≠ LF) (h1 : st.flag1 < 2)
    (hj : st.j + line.length < 2048) :
    (line ++ [LF]).foldlM (scanChar os ip port) st = some { st with
      command := blit st.command st.j (line ++ [LF])
      j := st.j + line.length + 1
      flag1 := st.flag1 + 1 } := by
  induction line generalizing st with
  | nil =>
    have hb : setByte st.command st.j LF = blit st.command st.j [LF] := by
      rw [blit_cons]
      exact (funext fun i => blit_of_out (by simp; omega)).symm
    simp at hj
    simp [scanChar, h1, hj, hb]
  | cons c cs ih =>
    simp only [List.length_cons] at hj
    have hc : c ≠ LF := hline c (by simp)
    simp only [List.cons_append, List.foldlM_cons, scanChar, h1, if_true, if_neg hc,
      if_pos (show st.j < 2048 by omega), Option.bind_eq_bind, Option.bind_some]
    have hrec := ih { st with command := setByte st.command st.j c, j := st.j + 1 }
      (fun b hb => hline b (by simp [hb])) h1 (by simp only; omega)
    rw [blit_cons]
    simpa [Nat.add_assoc, Nat.add_comm 1] using hrec

theorem Record.ok (r : Record) {b : UInt8} (h : b ∈ r.text) : b ≠ 0 := by
  simp only [text, List.mem_append, List.mem_cons, List.not_mem_nil, or_false] at h
  obtain h | rfl | h | rfl := h
  · exact (r.line_ok b h).1
  · decide
  · exact (r.data_ok b h).1
  · decide

def recordSeglet (os : Os) (r : Record) : Seglet :=
  { length := r.text.length, objector := { avaliable := true, timestamp := os.created, command := r.text } }

theorem createSeglet_record (r : Record) (h : r.text.length < 2048) :
    createSeglet os (blit (fun _ => 0) 0 r.text) = some (recordSeglet os r) := by
  have hread : cString (blit (fun _ => 0) 0 r.text) 0 2048 = some r.text :=
    cString_eq slice_blit_self (fun b hb => r.ok hb) (blit_of_out (.inr (Nat.le_refl _))) h
  simp [createSeglet, hread, recordSeglet]

/-- Beyond the record the loop sees the first character of the address. -/
theorem take_message (p : Address) (r : Record) : ∃ c, c ≠ CR ∧
    (message p r ++ [0]).take (r.text.length + 1) = r.text ++ [c] := by
  cases hp : p.text with
  | nil => exact absurd hp p.text_ne_nil
  | cons c cs =>
    refine ⟨c, (p.mem_text (by simp [hp])).2, ?_⟩
    simp [message, hp, List.take_append]

/-- A message is stored as one record of its primary; a longer one than the buffer
holds overruns it. -/
theorem appendToSegment_message (b : Backup) (p : Address) (r : Record) :
    appendToSegment os b (message p r) =
      if Fits p r then
        (storeFirst p.ip p.port (recordSeglet os r) b.Manager).bind fun Manager =>
          persistFull os { b with Manager := Manager }
      else none := by
  unfold appendToSegment
  rw [parseIpPort_message]
  by_cases hfit : Fits p r
  · have hlen : r.text.length < 2048 := by
      unfold Fits at hfit
      omega
    have htext : r.text.length = r.line.length + 1 + (r.data.length + 1) := by
      simp only [Record.text, List.length_append, List.length_cons, List.length_nil]
      omega
    obtain ⟨c, hc, htake⟩ := take_message p r
    have hscan : r.text ++ [c] = (r.line ++ [LF]) ++ ((r.data ++ [LF]) ++ [c]) := by simp [Record.text]
    have hcopy : blit (blit (fun _ => 0) 0 (r.line ++ [LF])) (0 + r.line.length + 1) (r.data ++ [LF]) =
        blit (fun _ => 0) 0 r.text := by
      rw [show r.text = (r.line ++ [LF]) ++ (r.data ++ [LF]) by simp [Record.text],
        blit_append _ _ (r.line ++ [LF]), List.length_append, List.length_singleton, Nat.add_assoc]
    simp only [if_pos hfit, Option.bind_eq_bind, Option.bind_some, getIp_text, getPort_text,
      getCommandLen_message, htake]
    rw [hscan, List.foldlM_append, scan_line _ _ (fun b hb => (r.line_ok b hb).2) (by simp) (by simp only []; omega)]
    simp only [Option.bind_eq_bind, Option.bind_some]
    rw [List.foldlM_append, scan_line _ _ (fun b hb => (r.data_ok b hb).2) (by simp) (by simp only []; omega)]
    simp only [Option.bind_eq_bind, Option.bind_some, hcopy, List.foldlM_cons, List.foldlM_nil, scanChar,
      createSeglet_record r hlen, if_neg hc]
    cases hs : storeFirst p.ip p.port (recordSeglet os r) b.Manager with
    | none => simp [hs]
    | some Manager =>
      cases hp : persistFull os { b with Manager := Manager } with
      | none => simp [hs, hp]
      | some b' => simp [hs, hp]
  · simp [hfit]

end RamCube
