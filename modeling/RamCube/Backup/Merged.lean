import RamCube.Backup.Interleaving

/-! # Several records in a message

When messages arrive together, what follows the first request line is a record, the
address, the line of the next request, its record, and so on to the last address. The
loop of `appendToSegment` stores each record in turn (`appendToSegment_merged`); the
records after the first need the segment to be there. -/
namespace RamCube

/-- A record, and further ones with the command line before each. -/
def merged (p : Address) : Record → List (Bytes × Record) → Bytes
  | r, [] => r.text
  | r, (line, q) :: rest => r.text ++ (p.text ++ CR :: LF :: (line ++ [CR, LF])) ++ merged p q rest

/-- One record is stored, the first of its message or another one. -/
def storeRecord (os : Os) (p : Address) (isFirst : Bool) (b : Backup) (r : Record) : Option Backup :=
  ((if isFirst then storeFirst else storeNext) p.ip p.port (recordSeglet os r) b.Manager).bind fun Manager =>
    persistFull os { b with Manager := Manager }

section

variable {os : Os} {p : Address} {r : Record}

/-! ## The loop -/

/-- The state of the loop at the start of a record: of `command` all is cleared but what
longer records before left in its second half. -/
structure AtRecord (st : Scan) (used : Nat) : Prop where
  flag1 : st.flag1 = 0
  flag2 : st.flag2 = 0
  j : st.j = 0
  isDone : st.isDone = false
  command : ∀ i, i < 1024 ∨ used ≤ i → st.command i = 0

theorem text_length (r : Record) : r.text.length = r.line.length + 1 + (r.data.length + 1) := by
  simp only [Record.text, List.length_append, List.length_cons, List.length_nil]
  omega

/-- The loop copies a record. -/
theorem scan_record {st : Scan} {used : Nat} (h : AtRecord st used) (hlen : r.text.length < 2048) :
    r.text.foldlM (scanChar os p.ip p.port) st =
      some { st with command := blit st.command 0 r.text, j := r.text.length, flag1 := 2 } := by
  have htext := text_length r
  have hsplit : r.text = (r.line ++ [LF]) ++ (r.data ++ [LF]) := by simp [Record.text]
  have hcopy : blit (blit st.command 0 (r.line ++ [LF])) (0 + r.line.length + 1) (r.data ++ [LF]) =
      blit st.command 0 r.text := by
    rw [hsplit, blit_append _ _ (r.line ++ [LF]), List.length_append, List.length_singleton, Nat.add_assoc]
  have hlines : r.text.foldlM (scanChar os p.ip p.port) st =
      ((r.line ++ [LF]) ++ (r.data ++ [LF])).foldlM (scanChar os p.ip p.port) st := by rw [← hsplit]
  rw [hlines, List.foldlM_append, scan_line _ _ (fun b hb => (r.line_ok b hb).2) (by rw [h.flag1]; simp)
    (by rw [h.j]; omega)]
  simp only [Option.bind_eq_bind, Option.bind_some]
  rw [scan_line _ _ (fun b hb => (r.data_ok b hb).2) (by rw [h.flag1]; simp) (by rw [h.j]; simp only; omega)]
  simp only [h.j, h.flag1, hcopy]
  rw [htext]
  simp [Nat.add_comm, Nat.add_left_comm]

theorem createSeglet_at {m : Nat → UInt8} {used : Nat} (hm : ∀ i, i < 1024 ∨ used ≤ i → m i = 0)
    (hlen : used + r.text.length < 2048) : createSeglet os (blit m 0 r.text) = some (recordSeglet os r) := by
  have hend : m (0 + r.text.length) = 0 := hm _ (by omega)
  have hread : cString (blit m 0 r.text) 0 2048 = some r.text :=
    cString_eq slice_blit_self (fun b hb => r.ok hb) ((blit_of_out (.inr (Nat.le_refl _))).trans hend) (by omega)
  simp [createSeglet, hread, recordSeglet]

/-- The character behind a record. -/
theorem scan_store (st : Scan) {c : UInt8} {seglet : Seglet} (h1 : st.flag1 = 2) (h2 : st.flag2 = 0)
    (hd : st.isDone = false) (hc : c ≠ CR) (hs : createSeglet os st.command = some seglet) :
    scanChar os p.ip p.port st c =
      (((if st.isFirst then storeFirst else storeNext) p.ip p.port seglet st.backup.Manager).bind fun Manager =>
        persistFull os { st.backup with Manager := Manager }).map fun b =>
          { st with backup := b, isDone := true, isFirst := false } := by
  unfold scanChar
  rw [if_neg (by rw [h1]; simp), if_pos (by rw [h2]; simp)]
  simp only [hd, hs, if_neg hc, Bool.false_eq_true, if_false, Option.bind_eq_bind, Option.bind_some]
  generalize (if st.isFirst = true then storeFirst else storeNext) p.ip p.port seglet st.backup.Manager = o
  cases o with
  | none => rfl
  | some Manager =>
    simp only [Option.bind_some]
    generalize persistFull os { st.backup with Manager := Manager } = o
    cases o <;> rfl

/-- Nothing happens until the second carriage return. -/
theorem scan_skip (st : Scan) {xs : Bytes} (h1 : st.flag1 = 2) (h2 : st.flag2 < 2) (hd : st.isDone = true)
    (hf : st.isFirst = false) (hcr : ∀ b ∈ xs, b ≠ CR) :
    xs.foldlM (scanChar os p.ip p.port) st = some st := by
  induction xs with
  | nil => rfl
  | cons b xs ih =>
    have hb : scanChar os p.ip p.port st b = some st := by
      unfold scanChar
      rw [if_neg (by rw [h1]; simp), if_pos h2]
      simp only [hd, if_true, if_neg (hcr b List.mem_cons_self), Option.bind_eq_bind, Option.bind_some]
      rw [← hd, ← hf]
    rw [List.foldlM_cons, hb]
    exact ih fun x hx => hcr x (List.mem_cons_of_mem _ hx)

/-- A carriage return is counted. -/
theorem scan_cr (st : Scan) (h1 : st.flag1 = 2) (h2 : st.flag2 < 2) (hd : st.isDone = true) (hf : st.isFirst = false) :
    scanChar os p.ip p.port st CR = some { st with flag2 := st.flag2 + 1 } := by
  unfold scanChar
  rw [if_neg (by rw [h1]; simp), if_pos h2]
  simp only [hd, if_true, Option.bind_eq_bind, Option.bind_some]
  rw [← hd, ← hf]

/-- The loop starts over behind the second line end. -/
theorem scan_reset (st : Scan) {c : UInt8} (h1 : st.flag1 = 2) (h2 : st.flag2 = 2) :
    scanChar os p.ip p.port st c = some { st with
      command := fun i => if i < 1024 then 0 else st.command i, j := 0, flag1 := 0, flag2 := 0, isDone := false } := by
  unfold scanChar
  rw [if_neg (by rw [h1]; simp), if_neg (by rw [h2]; simp)]

/-- What stands between two records. -/
def between (p : Address) (line : Bytes) : Bytes := p.text ++ CR :: LF :: (line ++ [CR, LF])

theorem scan_between (st : Scan) {line : Bytes} {seglet : Seglet} (h1 : st.flag1 = 2) (h2 : st.flag2 = 0)
    (hd : st.isDone = false) (hline : ∀ b ∈ line, b ≠ CR) (hs : createSeglet os st.command = some seglet) :
    (between p line).foldlM (scanChar os p.ip p.port) st =
      (((if st.isFirst then storeFirst else storeNext) p.ip p.port seglet st.backup.Manager).bind fun Manager =>
        persistFull os { st.backup with Manager := Manager }).map fun b =>
          { st with
            backup := b
            command := fun i => if i < 1024 then 0 else st.command i
            j := 0
            flag1 := 0
            flag2 := 0
            isDone := false
            isFirst := false } := by
  cases hp : p.text with
  | nil => exact absurd hp p.text_ne_nil
  | cons c cs =>
    have hc : c ≠ CR := (p.mem_text (by simp [hp])).2
    have hcs : ∀ b ∈ cs, b ≠ CR := fun b hb => (p.mem_text (by simp [hp, hb])).2
    have hlf : ∀ b ∈ LF :: line, b ≠ CR := by
      intro b hb
      obtain rfl | hb := List.mem_cons.mp hb
      · exact show (10 : UInt8) ≠ 13 by simp
      · exact hline b hb
    have hsplit : between p line = c :: (cs ++ (CR :: ((LF :: line) ++ [CR, LF]))) := by simp [between, hp]
    rw [hsplit, List.foldlM_cons, scan_store st h1 h2 hd hc hs]
    generalize ((if st.isFirst = true then storeFirst else storeNext) p.ip p.port seglet st.backup.Manager).bind
      (fun Manager => persistFull os { st.backup with Manager := Manager }) = o
    cases o with
    | none => rfl
    | some b =>
      let st1 : Scan := { st with backup := b, isDone := true, isFirst := false }
      have hlt : st1.flag2 < 2 := show st.flag2 < 2 by rw [h2]; simp
      have hlt' : st1.flag2 + 1 < 2 := show st.flag2 + 1 < 2 by rw [h2]; simp
      have hcr1 : scanChar os p.ip p.port st1 CR = _ := scan_cr st1 h1 hlt rfl rfl
      have hskip : (LF :: line).foldlM (scanChar os p.ip p.port) _ = _ := scan_skip { st1 with flag2 := st1.flag2 + 1 } h1 hlt' rfl rfl hlf
      have hcr2 : scanChar os p.ip p.port _ CR = _ := scan_cr { st1 with flag2 := st1.flag2 + 1 } h1 hlt' rfl rfl
      have htwo : st1.flag2 + 1 + 1 = 2 := show st.flag2 + 1 + 1 = 2 by rw [h2]
      have hreset : scanChar os p.ip p.port _ LF = _ := scan_reset { st1 with flag2 := st1.flag2 + 1 + 1 } h1 htwo
      simp only [Option.map_some, Option.bind_eq_bind, Option.bind_some]
      rw [List.foldlM_append, scan_skip st1 h1 hlt rfl rfl hcs]
      simp only [Option.bind_eq_bind, Option.bind_some]
      rw [List.foldlM_cons, hcr1]
      simp only [Option.bind_eq_bind, Option.bind_some]
      rw [List.foldlM_append, hskip]
      simp only [Option.bind_eq_bind, Option.bind_some, List.foldlM_cons, List.foldlM_nil, hcr2, hreset]
      rfl

theorem storeRecord_eq (st : Scan) (r : Record) :
    (((if st.isFirst then storeFirst else storeNext) p.ip p.port (recordSeglet os r) st.backup.Manager).bind fun Manager =>
      persistFull os { st.backup with Manager := Manager }) = storeRecord os p st.isFirst st.backup r := rfl

/-- The loop stores the records one after the other. -/
theorem scan_merged {rest : List (Bytes × Record)} {st : Scan} {used : Nat} {c : UInt8} (h : AtRecord st used) (hc : c ≠ CR)
    (hlines : ∀ q ∈ rest, ∀ b ∈ q.1, b ≠ CR) (hlen : used + (merged p r rest).length < 2048) :
    ((merged p r rest ++ [c]).foldlM (scanChar os p.ip p.port) st).map Scan.backup =
      (storeRecord os p st.isFirst st.backup r).bind fun b =>
        rest.foldlM (fun b q => storeRecord os p false b q.2) b := by
  induction rest generalizing r st used with
  | nil =>
    simp only [merged] at hlen ⊢
    rw [List.foldlM_append, scan_record h (by omega)]
    simp only [Option.bind_eq_bind, Option.bind_some, List.foldlM_cons, List.foldlM_nil]
    rw [scan_store { st with command := blit st.command 0 r.text, j := r.text.length, flag1 := 2 } rfl h.flag2 h.isDone hc
      (createSeglet_at h.command hlen)]
    simp only
    rw [storeRecord_eq]
    cases storeRecord os p st.isFirst st.backup r <;> rfl
  | cons q rest ih =>
    obtain ⟨line, q⟩ := q
    have hmerged : merged p r ((line, q) :: rest) = r.text ++ between p line ++ merged p q rest := rfl
    rw [hmerged, List.length_append, List.length_append] at hlen
    rw [hmerged, List.append_assoc, List.append_assoc, List.foldlM_append, scan_record h (by omega)]
    simp only [Option.bind_eq_bind, Option.bind_some]
    rw [List.foldlM_append, scan_between { st with command := blit st.command 0 r.text, j := r.text.length, flag1 := 2 }
      rfl h.flag2 h.isDone (hlines (line, q) List.mem_cons_self) (createSeglet_at h.command (by omega))]
    simp only
    rw [storeRecord_eq]
    cases hs : storeRecord os p st.isFirst st.backup r with
    | none => rfl
    | some b =>
      simp only [Option.map_some, Option.bind_eq_bind, Option.bind_some, List.foldlM_cons]
      refine ih (show AtRecord _ (max used r.text.length) from ⟨rfl, rfl, rfl, rfl, fun i hi => ?_⟩)
        (fun q hq => hlines q (List.mem_cons_of_mem _ hq)) (by omega)
      by_cases hhalf : i < 1024
      · simp [hhalf]
      · simp only [hhalf, if_false]
        have hused : used ≤ i ∧ r.text.length ≤ i := by omega
        rw [blit_of_out (by omega)]
        exact h.command i (.inr hused.1)

/-! ## The whole message -/

theorem merged_ends (p : Address) (r : Record) (rest : List (Bytes × Record)) :
    ∃ ys, merged p r rest = ys ++ [LF] := by
  induction rest generalizing r with
  | nil => exact ⟨r.line ++ LF :: r.data, by simp [merged, Record.text]⟩
  | cons q rest ih =>
    obtain ⟨ys, hys⟩ := ih q.2
    exact ⟨r.text ++ (p.text ++ CR :: LF :: (q.1 ++ [CR, LF])) ++ ys, by rw [merged, hys, List.append_assoc _ ys]⟩

theorem stripEol_ends {xs eol : Bytes} (p : Address) (heol : ∀ b ∈ eol, b = CR ∨ b = LF) :
    stripEol (xs ++ p.text ++ eol) = xs ++ p.text := by
  induction eol using List.reverseRecOn with
  | nil =>
    obtain ⟨ys, b, hb⟩ := (List.eq_nil_or_concat p.text).resolve_left p.text_ne_nil
    have hlast := p.mem_text (show b ∈ p.text by simp [hb])
    unfold stripEol
    rw [List.append_nil, hb, List.concat_eq_append, ← List.append_assoc,
      List.rdropWhile_concat_neg _ _ _ (by simpa using ⟨hlast.2, hlast.1⟩)]
  | append_singleton eol b ih =>
    have hb : (fun b => b == CR || b == LF) b = true := by simpa using heol b (by simp)
    unfold stripEol at ih ⊢
    rw [← List.append_assoc, List.rdropWhile_concat_pos (fun b => b == CR || b == LF) _ _ hb]
    exact ih fun x hx => heol x (List.mem_append_left _ hx)

/-- What follows the last record and its address is the end of a line, or a part of it. -/
theorem appendToSegment_merged (b : Backup) (p : Address) (r : Record) {rest : List (Bytes × Record)} {eol : Bytes}
    (hlines : ∀ q ∈ rest, ∀ b ∈ q.1, b ≠ CR) (heol : ∀ b ∈ eol, b = CR ∨ b = LF) :
    appendToSegment os b (merged p r rest ++ p.text ++ eol) =
      if (merged p r rest).length + p.text.length < 2048 then
        (storeRecord os p true b r).bind fun b => rest.foldlM (fun b q => storeRecord os p false b q.2) b
      else none := by
  obtain ⟨ys, hys⟩ := merged_ends p r rest
  have hstrip : stripEol (merged p r rest ++ p.text ++ eol) = merged p r rest ++ p.text := stripEol_ends p heol
  have hlast : (merged p r rest ++ p.text).rtakeWhile (· != LF) = p.text := by
    rw [hys, List.append_assoc, List.singleton_append]
    exact rtakeWhile_append (by simp) fun b hb => by simpa using (p.mem_text hb).1
  have hlf : LF ∈ merged p r rest ++ p.text := by simp [hys]
  have hparse : parseIpPort (merged p r rest ++ p.text ++ eol) =
      if (merged p r rest).length + p.text.length < 2048 then some p.text else none := by
    simp only [parseIpPort, hstrip, hlf, hlast, List.length_append, and_true]
  unfold appendToSegment
  rw [hparse]
  by_cases hfit : (merged p r rest).length + p.text.length < 2048
  · have hlen : getCommandLen (merged p r rest ++ p.text ++ eol) p.text = (merged p r rest).length := by
      unfold getCommandLen
      rw [hstrip, List.length_append, Nat.add_sub_cancel]
    obtain ⟨c, cs, hp⟩ := List.exists_cons_of_ne_nil p.text_ne_nil
    have hc : c ≠ CR := (p.mem_text (by simp [hp])).2
    have htake : (merged p r rest ++ p.text ++ eol ++ [0]).take ((merged p r rest).length + 1) =
        merged p r rest ++ [c] := by simp [hp, List.take_append]
    let st : Scan := ⟨b, fun _ => 0, 0, 0, 0, false, true⟩
    have hscan : ((merged p r rest ++ [c]).foldlM (scanChar os p.ip p.port) st).map Scan.backup = _ :=
      scan_merged (show AtRecord st 0 from ⟨rfl, rfl, rfl, rfl, fun _ _ => rfl⟩) hc hlines (by omega)
    simp only [if_pos hfit, Option.bind_eq_bind, Option.bind_some, getIp_text, getPort_text, hlen, htake]
    rw [← hscan]
    generalize (merged p r rest ++ [c]).foldlM (scanChar os p.ip p.port) st = o
    cases o <;> rfl
  · simp [hfit]

end

/-! ## Stored one after the other -/

section

variable {os : Os} {p : Address} {r : Record} {b b' : Backup}

theorem storeRecord_first (hfit : Fits p r) :
    storeRecord os p true b r = appendToSegment os b (message p r) := by
  rw [appendToSegment_message, if_pos hfit]
  rfl

/-- A further record needs the segment of its primary, and is then stored as if it had
come alone. -/
theorem storeRecord_next (hok : BackupOk b) (hfit : Fits p r) :
    storeRecord os p false b r =
      if heldOf b p = [] then none else appendToSegment os b (message p r) := by
  obtain ⟨cur, hlist, hcur⟩ := hok.list
  have hheld := heldOf_one hlist p
  have hfirst : storeFirst p.ip p.port (recordSeglet os r) b.Manager = _ := storeFirst_one hlist hok.unused
  rw [appendToSegment_message, if_pos hfit, hfirst]
  unfold storeRecord
  cases cur with
  | none =>
    have hnone : storeNext p.ip p.port (recordSeglet os r) b.Manager = none := by
      simp [storeNext, hlist, SegmentPtr.ofOption, getSegment]
    have hempty : heldOf b p = [] := hheld
    rw [if_pos hempty]
    simp [hnone]
  | some s =>
    by_cases hs : s.isOf p.ip p.port = true
    · have hne : heldOf b p ≠ [] := by
        have hfilled := (hcur s rfl).1.filled
        simpa [hheld, Option.filter, hs, commands] using hfilled
      have hused : b.Manager.used = true := by
        by_contra h
        have hnull := hok.unused (by simpa using h)
        simp [hlist, SegmentPtr.ofOption] at hnull
      rw [if_neg hne]
      simp [storeNext_one hlist hs, hused]
    · have hnone : storeNext p.ip p.port (recordSeglet os r) b.Manager = none := by
        simp [storeNext, hlist, SegmentPtr.ofOption, getSegment, hs]
      have hempty : heldOf b p = [] := by simp [hheld, Option.filter, hs]
      rw [if_pos hempty]
      simp [hnone]

/-- The records of a merged message. -/
def recordsIn (r : Record) (rest : List (Bytes × Record)) : List Record := r :: rest.map Prod.snd

theorem fits_of_merged {rest : List (Bytes × Record)} (h : (merged p r rest).length + p.text.length < 2048) :
    ∀ q ∈ recordsIn r rest, Fits p q := by
  induction rest generalizing r with
  | nil =>
    intro q hq
    rw [List.mem_singleton.mp hq]
    exact h
  | cons x rest ih =>
    have hlen : (merged p r (x :: rest)).length = r.text.length + (between p x.1).length + (merged p x.2 rest).length := by
      rw [merged, List.length_append, List.length_append]
      rfl
    intro q hq
    obtain rfl | hq := List.mem_cons.mp hq
    · unfold Fits
      omega
    · exact ih (by omega) q hq

/-- The deliveries of the records one by one. -/
def deliveries (os : Os) (p : Address) (rs : List Record) : List Delivery := rs.map fun r => ⟨os, p, r⟩

theorem storeRecords_delivers {rs : List Record} (hok : BackupOk b) (hfits : ∀ r ∈ rs, Fits p r)
    (h : rs.foldlM (storeRecord os p false) b = some b') : Run Delivered b (deliveries os p rs) b' := by
  induction rs generalizing b with
  | nil =>
    obtain rfl := Option.some.inj h
    exact .nil b
  | cons r rs ih =>
    rw [List.foldlM_cons, Option.bind_eq_bind, Option.bind_eq_some_iff] at h
    obtain ⟨b1, h1, h⟩ := h
    rw [storeRecord_next hok (hfits r List.mem_cons_self), Option.ite_none_left_eq_some] at h1
    have hd : Delivered b ⟨os, p, r⟩ b1 := h1.2
    exact .cons hd (ih (hok.step hd) (fun q hq => hfits q (List.mem_cons_of_mem _ hq)) h)

/-- A merged message that the backup takes stores its records as if they had come one by
one. -/
theorem appendToSegment_delivers {rest : List (Bytes × Record)} {eol : Bytes} (hok : BackupOk b)
    (hlines : ∀ q ∈ rest, ∀ b ∈ q.1, b ≠ CR) (heol : ∀ b ∈ eol, b = CR ∨ b = LF)
    (h : appendToSegment os b (merged p r rest ++ p.text ++ eol) = some b') :
    Run Delivered b (deliveries os p (recordsIn r rest)) b' := by
  rw [appendToSegment_merged b p r hlines heol, Option.ite_none_right_eq_some] at h
  obtain ⟨hlen, h⟩ := h
  have hfits := fits_of_merged hlen
  obtain ⟨b1, h1, h⟩ := Option.bind_eq_some_iff.mp h
  rw [storeRecord_first (hfits r List.mem_cons_self)] at h1
  have hd : Delivered b ⟨os, p, r⟩ b1 := h1
  rw [← List.foldlM_map] at h
  exact .cons hd (storeRecords_delivers (hok.step hd) (fun q hq => hfits q (List.mem_cons_of_mem _ hq)) h)

/-! ## Room in the segment -/

/-- The bytes of records that the segment of a primary holds. -/
def heldBytes (b : Backup) (p : Address) : Nat := (heldOf b p).flatten.length

/-- `MAX_SEGMENT_CAPACITY` -/
def segmentBytes : Nat := 1024 * 1024

/-- The bytes held after a record of this length: a segment that is full is persisted. -/
def fill (used len : Nat) : Nat := if segmentBytes < used + len then 0 else used + len

/-- The records in the segment after another one. -/
def keepRecord (held : List Bytes) (text : Bytes) : List Bytes :=
  if segmentBytes < held.flatten.length + text.length then [] else held ++ [text]

/-- A record of the only primary. -/
theorem Delivered.own (hok : BackupOk b) (h : Delivered b ⟨os, p, r⟩ b') :
    OwnSegment b' p ∧ heldOf b' p = keepRecord (heldOf b p) r.text := by
  obtain ⟨_, cur, s, hlist, hcur, hs, hb⟩ := h.cases hok
  have hheld := heldOf_one hlist p
  have hall : commands s.segleter = heldOf b p ++ [r.text] := by
    rw [hs, extended_commands, hheld, recordSeglet_command]
  have hof : s.isOf p.ip p.port = true := by simp [hs, extended_isOf]
  have hsum : (commands s.segleter).flatten.length = heldBytes b p + r.text.length := by
    simp [hall, heldBytes]
  have hcap : s.header.capacity = segmentBytes - ((heldBytes b p + r.text.length : Nat) : Int) := by
    have hok' : SegmentOk s := by
      rw [hs]
      exact .extended hcur rfl
    rw [hok'.capacity, hsum]
    rfl
  have hb' : b'.Manager.segment = .ofOption (some s) ∧ 0 ≤ s.header.capacity ∨
      b'.Manager.segment = .ofOption none ∧ s.header.capacity < 0 :=
    hb.imp (fun ⟨hcap, hb⟩ => ⟨by rw [hb]; rfl, hcap⟩) fun ⟨hcap, hb⟩ => ⟨by rw [hb]; rfl, hcap⟩
  have hlen : (heldOf b p).flatten.length = heldBytes b p := rfl
  unfold OwnSegment keepRecord
  obtain ⟨hseg, hroom⟩ | ⟨hseg, hfull⟩ := hb'
  · refine ⟨fun q hq => ?_, ?_⟩
    · rw [hseg] at hq
      rw [List.mem_singleton.mp hq]
      exact hof
    · rw [if_neg (by omega), heldOf_one hseg p, ← hall]
      simp [Option.filter, hof]
  · refine ⟨fun q hq => ?_, ?_⟩
    · rw [hseg] at hq
      exact absurd hq List.not_mem_nil
    · rw [if_pos (by omega), heldOf_one hseg p]
      rfl

theorem keepRecord_bytes (held : List Bytes) (text : Bytes) :
    (keepRecord held text).flatten.length = fill held.flatten.length text.length := by
  unfold keepRecord fill
  split <;> simp

/-- Records of the only primary, all but the last of which leave the segment with room,
can be stored. -/
theorem storeRecords_isSome {rs : List Record} (os : Os) (hok : BackupOk b)
    (hfits : ∀ r ∈ rs, Fits p r) (hne : rs = [] ∨ heldOf b p ≠ [])
    (hroom : heldBytes b p + (rs.dropLast.map fun r => r.text.length).sum ≤ segmentBytes) :
    (rs.foldlM (storeRecord os p false) b).isSome := by
  induction rs generalizing b with
  | nil => rfl
  | cons r rs ih =>
    have hheld := hne.resolve_left (List.cons_ne_nil r rs)
    have hfit := hfits r List.mem_cons_self
    obtain ⟨b1, hd⟩ := delivered_of_fits (d := ⟨os, p, r⟩) hok hfit
    have h1 : storeRecord os p false b r = some b1 := by
      rw [storeRecord_next hok hfit, if_neg hheld]
      exact hd
    obtain ⟨_, hheld1⟩ := hd.own hok
    have hbytes1 : heldBytes b1 p = fill (heldBytes b p) r.text.length := by
      rw [heldBytes, hheld1, keepRecord_bytes]
      rfl
    have hroom1 : rs ≠ [] → heldBytes b p + r.text.length + (rs.dropLast.map fun r => r.text.length).sum ≤ segmentBytes := by
      intro hrs
      obtain ⟨q, rs, rfl⟩ := List.exists_cons_of_ne_nil hrs
      rw [List.dropLast_cons_cons, List.map_cons, List.sum_cons] at hroom
      omega
    rw [List.foldlM_cons, h1]
    by_cases hrs : rs = []
    · subst hrs
      rfl
    · have hroom := hroom1 hrs
      have hfill : fill (heldBytes b p) r.text.length = heldBytes b p + r.text.length := if_neg (by omega)
      refine ih (hok.step hd) (fun q hq => hfits q (List.mem_cons_of_mem _ hq)) (.inr ?_) (by omega)
      have hlen : (heldOf b p).flatten.length = heldBytes b p := rfl
      rw [hheld1, keepRecord, if_neg (by omega)]
      simp

end

end RamCube
