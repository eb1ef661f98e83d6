import RamCube.Backup.RecordBuffers
import RamCube.Lib.CString

/-! # A message body in the buffers of appendToSegment (Segment.c)

The functions that take a message apart look for the characters they need and stop at
nothing else. They are modelled with their buffers, each access at its index: a result
of `none` is an access outside the body, the buffers `IpPort`, `rip` and `command`, or
through NULL. `parseIpPort` copies the last line with `strcpy` over the start of the buffer
that it lies in; where the two overlap the C library decides what the buffer holds then. For
every library the functions stay inside exactly for the bodies of `BodyParses`, whatever else
is in them (`body_in_bounds_iff`). Where the last line is copied right they find what the
functions on strings find (`appendToSegmentBuf_messageTexts`). -/
namespace RamCube

/-- What `strcpy(str, str + temp)` leaves of `str` where the copy overlaps what is copied,
`none` where it does not stay inside. -/
abbrev OverlappingCopy := Bytes → Nat → Option Bytes

variable (overlapping : OverlappingCopy)

/-- `strcpy(str, str + temp)` -/
def strcpyWithin (str : Bytes) (temp : Nat) : Option Bytes := do
  if temp ≤ (← strlen (str.drop temp)) then overlapping str temp else strcpy str (str.drop temp)

/-- `while (cont[len - 1] == '\r' || cont[len - 1] == '\n') --len;` -/
def dropEol (cont : Bytes) : Nat → Option Nat
  | 0 => none
  | len + 1 => do
    let b ← cont[len]?
    if b = CR ∨ b = LF then dropEol cont len else some (len + 1)

def parseIpPortBuf (cont str : Bytes) : Option Bytes := do
  let len ← dropEol cont (← strlen cont)
  let str ← memcpy str cont len
  let str ← poke str len 0
  let temp ← ← strrchr LF str
  let str ← strcpyWithin overlapping str (temp + 1)
  poke str (← strlen str) 0

def getIpBuf (cont ip : Bytes) : Option Bytes := do
  let i ← seekByte colon cont
  let ip ← memcpy ip cont i
  poke ip i 0

/-- The inner loop of `getPort`, without the overflow of an `int`. -/
def portDigits : Int → Bytes → Option Int
  | _, [] => none
  | port, b :: cont => if b = 0 then some port else portDigits (port * 10 + (b.toInt8.toInt - 48)) cont

def getPortBuf : Bytes → Option Int
  | [] => none
  | b :: cont => if b = 0 then some 0 else if b = colon then portDigits 0 cont else getPortBuf cont

def getCommandLenBuf (cont Iport : Bytes) : Option Int := do
  let len ← dropEol cont (← strlen cont)
  some (len - (← strlen Iport))

/-- `createSeglet`: the string in `command` of the new object. -/
def createSegletBuf (command : Bytes) : Option Bytes := do
  let objCommand ← strcpy (List.replicate 2048 0) command
  some (objCommand.take (← strlen command))

/-- The loop of `appendToSegment`, with the strings it gave to `createSeglet`. -/
structure ScanBuf where
  command : Bytes
  j : Nat
  flag1 : Nat
  flag2 : Nat
  isDone : Bool
  texts : List Bytes

def scanCharBuf (st : ScanBuf) (c : UInt8) : Option ScanBuf :=
  if st.flag1 < 2 then do
    let command ← poke st.command st.j c
    some { st with
      command := command
      flag1 := if c = LF then st.flag1 + 1 else st.flag1
      j := st.j + 1 }
  else if st.flag2 < 2 then do
    let texts ← if st.isDone then some st.texts else (createSegletBuf st.command).map fun text => st.texts ++ [text]
    some { st with
      flag2 := if c = CR then st.flag2 + 1 else st.flag2
      isDone := true
      texts := texts }
  else do
    let command ← memset st.command 0 1024
    some { st with command := command, j := 0, flag1 := 0, flag2 := 0, isDone := false }

/-- `for (i = 0; i <= length; ++i)` -/
def scanBuf (cont : Bytes) (length : Int) (st : ScanBuf) : Option ScanBuf :=
  (List.range (length + 1).toNat).foldlM (fun st i => cont[i]?.bind (scanCharBuf st)) st

def initScanBuf : ScanBuf :=
  { command := List.replicate 2048 0, j := 0, flag1 := 0, flag2 := 0, isDone := false, texts := [] }

/-- `appendToSegment` up to what it stores: the address, and the records in their order. -/
def appendToSegmentBuf (cont : Bytes) : Option (Bytes × Int × List Bytes) := do
  let IpPort ← parseIpPortBuf overlapping cont (List.replicate 2048 0)
  let rip ← getIpBuf IpPort (List.replicate 16 0)
  let rport ← getPortBuf IpPort
  let length ← getCommandLenBuf cont IpPort
  let st ← scanBuf cont length initScanBuf
  some (rip.take (← strlen rip), rport, st.texts)

/-- The last line of a body, without its end. -/
def lastLine (body : Bytes) : Bytes := (stripEol body).rtakeWhile (· != LF)

/-- `str` before its last line is copied. -/
def strBuffer (body : Bytes) : Bytes := stripEol body ++ List.replicate (2048 - (stripEol body).length) 0

/-- The last line reaches into its copy, or begins where that ends. -/
def LineOverlaps (body : Bytes) : Prop := (stripEol body).length ≤ 2 * (lastLine body).length

instance (body : Bytes) : Decidable (LineOverlaps body) := Nat.decLe _ _

/-- What `IpPort` holds: the last line was copied over the start of the body, and behind
its zero the body is still there. -/
def ipPortBuffer (body : Bytes) : Option Bytes :=
  if LineOverlaps body then overlapping (strBuffer body) ((stripEol body).length - (lastLine body).length)
  else some (lastLine body ++ 0 :: (strBuffer body).drop ((lastLine body).length + 1))

/-- The body has a last line behind another one and fits `IpPort`, which then holds a string,
and `getIp` finds a colon where `rip` ends at the latest. -/
structure BodyParses (body : Bytes) : Prop where
  line : LF ∈ stripEol body
  room : (stripEol body).length < 2048
  ip : ∃ IpPort, ipPortBuffer overlapping body = some IpPort ∧ 0 ∈ IpPort ∧ colon ∈ IpPort.take 16

variable {overlapping} {body rest : Bytes}

/-! ## The address -/

theorem dropEol_append : dropEol (body ++ rest) body.length =
    if stripEol body = [] then none else some (stripEol body).length := by
  induction body using List.reverseRecOn generalizing rest with
  | nil => rfl
  | append_singleton body b ih =>
    have hlast : ((body ++ [b]) ++ rest)[body.length]? = some b := by simp
    rw [List.length_append, List.length_singleton, dropEol, hlast, Option.bind_eq_bind, Option.bind_some]
    by_cases hb : b = CR ∨ b = LF
    · have hstrip : stripEol (body ++ [b]) = stripEol body := by
        rw [stripEol, List.rdropWhile_concat_pos _ _ _ (by simpa using hb)]
        rfl
      rw [if_pos hb, hstrip, List.append_assoc]
      exact ih
    · have hstrip : stripEol (body ++ [b]) = body ++ [b] := by
        rw [stripEol, List.rdropWhile_concat_neg _ _ _ (by simpa using hb)]
      rw [if_neg hb, hstrip, if_neg (by simp), List.length_append, List.length_singleton]

theorem stripEol_isPrefix (body : Bytes) : stripEol body <+: body := List.rdropWhile_prefix _ _

/-- A text is cut at its last line feed. -/
theorem split_last {s : Bytes} (h : LF ∈ s) :
    ∃ front, s = front ++ LF :: s.rtakeWhile (· != LF) ∧ LF ∉ s.rtakeWhile (· != LF) := by
  obtain ⟨rlast, rfront, hsplit, hlast⟩ := List.eq_append_cons_of_mem (List.mem_reverse.mpr h)
  have htake : s.rtakeWhile (· != LF) = rlast.reverse := by
    have hall : ∀ b ∈ rlast, (b != LF) = true := fun b hb => bne_iff_ne.mpr fun he => hlast (he ▸ hb)
    rw [List.rtakeWhile, hsplit, List.takeWhile_append_of_pos hall, List.takeWhile_cons_of_neg (by simp), List.append_nil]
  refine ⟨rfront.reverse, ?_, ?_⟩
  · rw [htake, ← List.reverse_reverse s, hsplit]
    simp
  · rwa [htake, List.mem_reverse]

variable (overlapping) in
/-- The last line of a string is copied to its start. -/
theorem strcpyWithin_last {s : Bytes} (pad : Bytes) (hs : 0 ∉ s) (hline : LF ∈ s) :
    let last := s.rtakeWhile (· != LF)
    (do
      let temp ← ← strrchr LF (s ++ 0 :: pad)
      strcpyWithin overlapping (s ++ 0 :: pad) (temp + 1)) =
        if s.length ≤ 2 * last.length then overlapping (s ++ 0 :: pad) (s.length - last.length)
        else some (last ++ 0 :: (s ++ 0 :: pad).drop (last.length + 1)) := by
  intro last
  obtain ⟨front, hsplit, hlf⟩ : ∃ front, s = front ++ LF :: last ∧ LF ∉ last := split_last hline
  have hlen : s.length = front.length + 1 + last.length := by
    rw [hsplit, List.length_append, List.length_cons]
    omega
  have hfront : 0 ∉ front := fun h => hs (hsplit ▸ List.mem_append_left _ h)
  have hlast : 0 ∉ last := fun h => hs (hsplit ▸ List.mem_append_right _ (List.mem_cons_of_mem _ h))
  have htemp : strrchr LF (s ++ 0 :: pad) = some (some front.length) := by
    rw [hsplit]
    exact strrchr_last hfront hlast (by decide) hlf
  have hdrop : (s ++ 0 :: pad).drop (front.length + 1) = last ++ 0 :: pad := by
    rw [hsplit, List.append_assoc, List.drop_length_add_append]
    rfl
  have hroom : last.length < (s ++ 0 :: pad).length := by
    rw [List.length_append]
    omega
  have hstart : front.length + 1 = s.length - last.length := by omega
  rw [htemp, Option.bind_eq_bind, Option.bind_some, Option.bind_eq_bind, Option.bind_some, strcpyWithin, hdrop,
    strlen_append hlast, Option.bind_eq_bind, Option.bind_some, strcpy_append hlast hroom, hstart]
  by_cases hover : s.length ≤ 2 * last.length
  · rw [if_pos hover, if_pos (by omega)]
  · rw [if_neg hover, if_neg (by omega)]

/-- The zero of a string is written once more. -/
theorem poke_strlen (buf : Bytes) : (do poke buf (← strlen buf) 0) = if 0 ∈ buf then some buf else none := by
  by_cases h : 0 ∈ buf
  · obtain ⟨s, rest, rfl, hs⟩ := List.eq_append_cons_of_mem h
    rw [strlen_append hs, Option.bind_eq_bind, Option.bind_some, poke_append, if_pos h]
  · rw [if_neg h, strlen, seekByte, List.idxOf?_eq_none_iff.mpr h]
    rfl

theorem strBuffer_eq (hroom : (stripEol body).length < 2048) :
    ∃ pad, strBuffer body = stripEol body ++ 0 :: pad ∧ (List.replicate 2048 (0 : UInt8)).drop (stripEol body).length = 0 :: pad := by
  obtain ⟨n, hn⟩ := Nat.exists_eq_add_of_lt hroom
  have hpad : List.replicate (2048 - (stripEol body).length) (0 : UInt8) = 0 :: List.replicate n 0 := by
    rw [← List.replicate_succ]
    congr 1
    omega
  exact ⟨List.replicate n 0, by rw [strBuffer, hpad], by rw [List.drop_replicate, hpad]⟩

section

variable (h0 : 0 ∉ body)
include h0

theorem zero_notMem_stripEol : 0 ∉ stripEol body := fun h => h0 ((stripEol_isPrefix body).subset h)

theorem zero_notMem_lastLine : 0 ∉ lastLine body := fun h =>
  zero_notMem_stripEol h0 ((List.rtakeWhile_suffix _ _).subset h)

/-- `parseIpPort` stays inside exactly for a last line behind another one, in 2048 bytes. -/
theorem parseIpPortBuf_eq : parseIpPortBuf overlapping (body ++ [0]) (List.replicate 2048 0) =
    if (stripEol body).length < 2048 ∧ LF ∈ stripEol body then
      (ipPortBuffer overlapping body).bind fun IpPort => if 0 ∈ IpPort then some IpPort else none
    else none := by
  have hs := zero_notMem_stripEol h0
  rw [parseIpPortBuf, strlen_append h0, Option.bind_eq_bind, Option.bind_some, Option.bind_eq_bind, dropEol_append]
  by_cases hnil : stripEol body = []
  · rw [if_pos hnil, if_neg (by simp [hnil])]
    rfl
  have hpre : stripEol body <+: body ++ [0] := (stripEol_isPrefix body).trans (List.prefix_append body [0])
  rw [if_neg hnil, Option.bind_some, Option.bind_eq_bind, memcpy_eq, ← List.prefix_iff_eq_take.mp hpre]
  by_cases hroom : (stripEol body).length < 2048
  · -- `str` holds the text, its zero, and zeros
    obtain ⟨pad, hbuffer, hpad⟩ := strBuffer_eq hroom
    rw [if_pos ⟨hpre.length_le, by rw [List.length_replicate]; omega⟩, hpad, Option.bind_some, poke_append,
      Option.bind_some]
    by_cases hline : LF ∈ stripEol body
    · have hcopy := strcpyWithin_last overlapping pad hs hline
      have hlast : (stripEol body).rtakeWhile (· != LF) = lastLine body := rfl
      rw [hlast, ← hbuffer] at hcopy
      have hcopied : (do
          let temp ← ← strrchr LF (strBuffer body)
          strcpyWithin overlapping (strBuffer body) (temp + 1)) = ipPortBuffer overlapping body := hcopy
      rw [if_pos ⟨hroom, hline⟩, ← hbuffer, ← hcopied]
      simp only [Option.bind_eq_bind, Option.bind_assoc, ← poke_strlen]
    · rw [strrchr_none hs hline, if_neg (fun h => hline h.2)]
      rfl
  · -- a text of 2048 bytes leaves no room for its zero
    have hno : ¬((stripEol body).length < 2048 ∧ LF ∈ stripEol body) := fun h => hroom h.1
    rw [if_neg hno]
    split
    · rename_i h
      rw [List.length_replicate] at h
      rw [Option.bind_some, poke_full, Option.bind_none]
      rw [List.length_append, List.length_drop, List.length_replicate]
      omega
    · rfl

theorem getCommandLenBuf_eq (hline : LF ∈ stripEol body) (Iport : Bytes) :
    getCommandLenBuf (body ++ [0]) Iport = (strlen Iport).map fun (n : Nat) => ((stripEol body).length : Int) - n := by
  rw [getCommandLenBuf, strlen_append h0, Option.bind_eq_bind, Option.bind_some, dropEol_append,
    if_neg (List.ne_nil_of_mem hline), Option.bind_some]
  cases strlen Iport <;> rfl

end

theorem getIpBuf_eq {buf : Bytes} : getIpBuf buf (List.replicate 16 0) =
    (seekByte colon buf).bind fun i => if i < 16 then some (buf.take i ++ 0 :: List.replicate (15 - i) 0) else none := by
  rw [getIpBuf]
  cases hseek : seekByte colon buf with
  | none => rfl
  | some i =>
    have hlen : (buf.take i).length = i := List.length_take_of_le (Nat.le_of_lt (seekByte_lt hseek))
    rw [Option.bind_eq_bind, Option.bind_some, Option.bind_some, memcpy_eq]
    by_cases hi : i < 16
    · have hpad : (List.replicate 16 (0 : UInt8)).drop i = 0 :: List.replicate (15 - i) 0 := by
        rw [List.drop_replicate, ← List.replicate_succ]
        congr 1
        omega
      have hpoke : poke (buf.take i ++ 0 :: List.replicate (15 - i) 0) (buf.take i).length 0 = _ := poke_append
      rw [hlen] at hpoke
      rw [if_pos hi, if_pos ⟨Nat.le_of_lt (seekByte_lt hseek), by rw [List.length_replicate]; omega⟩, hpad,
        Option.bind_eq_bind, Option.bind_some, hpoke]
    · rw [if_neg hi]
      split
      · rename_i h
        rw [Option.bind_eq_bind, Option.bind_some, poke_full]
        rw [List.length_append, hlen, List.length_drop, List.length_replicate]
        omega
      · rfl

theorem getIpBuf_isSome {buf : Bytes} : (getIpBuf buf (List.replicate 16 0)).isSome ↔ colon ∈ buf.take 16 := by
  rw [getIpBuf_eq, mem_take_iff]
  cases seekByte colon buf with
  | none => simp
  | some i => simp

theorem portDigits_append {s : Bytes} {port : Int} (hs : 0 ∉ s) :
    portDigits port (s ++ 0 :: rest) = some (s.foldl (fun n b => n * 10 + (b.toInt8.toInt - 48)) port) := by
  induction s generalizing port with
  | nil => simp [portDigits]
  | cons b s ih =>
    rw [List.mem_cons, not_or] at hs
    rw [List.cons_append, portDigits, if_neg (Ne.symm hs.1), ih hs.2]
    rfl

theorem getPortBuf_append {s : Bytes} (hs : 0 ∉ s) : getPortBuf (s ++ 0 :: rest) = some (getPort s) := by
  induction s with
  | nil => simp [getPortBuf, getPort, charNumber]
  | cons b s ih =>
    rw [List.mem_cons, not_or] at hs
    rw [List.cons_append, getPortBuf, if_neg (Ne.symm hs.1)]
    by_cases hb : b = colon
    · rw [if_pos hb, portDigits_append hs.2, getPort, List.dropWhile_cons_of_neg (by simp [hb])]
      rfl
    · rw [if_neg hb, ih hs.2, getPort, getPort, List.dropWhile_cons_of_pos (by simpa using hb)]

/-! ## The records -/

theorem slice_succ (m : Nat → UInt8) (off n : Nat) : slice m off (n + 1) = m off :: slice m (off + 1) n := by
  rw [Nat.add_comm n 1, slice_add]
  rfl

/-- `cString` is the text before the zero of a buffer. -/
theorem cString_eq_strlen (m : Nat → UInt8) (off room : Nat) :
    cString m off room = (strlen (slice m off room)).map fun n => (slice m off room).take n := by
  induction room generalizing off with
  | zero => rfl
  | succ room ih =>
    rw [slice_succ, cString, ih, strlen, strlen, seekByte, seekByte, List.idxOf?_cons]
    by_cases h0 : m off = 0
    · simp [h0]
    · have hne : (m off == 0) = false := beq_false_of_ne h0
      rw [if_neg h0, hne, if_neg Bool.false_ne_true, Option.map_map, Option.map_map]
      rfl

theorem createSegletBuf_slice (m : Nat → UInt8) : createSegletBuf (slice m 0 2048) = cString m 0 2048 := by
  rw [createSegletBuf, cString_eq_strlen]
  cases hn : strlen (slice m 0 2048) with
  | none =>
    rw [strcpy, hn]
    rfl
  | some n =>
    have hlt : n < 2048 := by simpa using seekByte_lt hn
    have hcopy : strcpy (List.replicate 2048 0) (slice m 0 2048) =
        some ((slice m 0 2048).take (n + 1) ++ (List.replicate 2048 0).drop (n + 1)) := by
      rw [strcpy, hn, Option.bind_some, memcpy_eq, if_pos]
      rw [length_slice, List.length_replicate]
      exact ⟨hlt, hlt⟩
    have hlen : n ≤ ((slice m 0 2048).take (n + 1)).length := by
      rw [List.length_take_of_le (by rw [length_slice]; exact hlt)]
      exact Nat.le_succ n
    rw [hcopy, Option.bind_eq_bind, Option.bind_some, Option.bind_eq_bind, Option.bind_some, List.take_append_of_le_length hlen,
      List.take_take, Nat.min_eq_left (Nat.le_succ n)]
    rfl

theorem poke_slice {m : Nat → UInt8} {j n : Nat} {c : UInt8} (hj : j < n) :
    poke (slice m 0 n) j c = some (slice (setByte m j c) 0 n) := by
  rw [poke, length_slice, if_pos hj]
  congr 1
  apply List.ext_getElem (by simp)
  intro i h1 h2
  simp only [List.getElem_set, slice, List.getElem_map, List.getElem_range, setByte, Nat.zero_add, eq_comm]

theorem memset_slice {n k : Nat} (m : Nat → UInt8) (hk : k ≤ n) :
    memset (slice m 0 n) 0 k = some (slice (fun i => if i < k then 0 else m i) 0 n) := by
  rw [memset_eq (by rwa [length_slice])]
  congr 1
  apply List.ext_getElem (by simp [hk])
  intro i h1 h2
  rw [List.getElem_append]
  simp only [slice, List.length_replicate, List.getElem_replicate, List.getElem_drop, List.getElem_map, List.getElem_range,
    Nat.zero_add]
  by_cases hi : i < k
  · simp [hi]
  · simp only [hi, dite_false, if_false]
    congr 1
    omega

/-- The loop, with its memory in a buffer. -/
def Cut.buf (st : Cut) (texts : List Bytes) : ScanBuf :=
  { command := slice st.command 0 2048, j := st.j, flag1 := st.flag1, flag2 := st.flag2, isDone := st.isDone, texts := texts }

theorem scanCharBuf_cut {cs : Bytes} {st : Cut} {texts : List Bytes} :
    (cs.foldlM scanCharBuf (st.buf texts)).map ScanBuf.texts = (cutTexts st cs).map (texts ++ ·) := by
  induction cs generalizing st texts with
  | nil => simp [cutTexts, Cut.buf]
  | cons c cs ih =>
    rw [List.foldlM_cons, cutTexts]
    by_cases h1 : st.flag1 < 2
    · by_cases hj : st.j < 2048
      · have hscan : scanCharBuf (st.buf texts) c = some (({ st with
            command := setByte st.command st.j c
            flag1 := if c = LF then st.flag1 + 1 else st.flag1
            j := st.j + 1 } : Cut).buf texts) := by
          simp only [scanCharBuf, Cut.buf, if_pos h1, poke_slice hj, Option.bind_eq_bind, Option.bind_some]
        rw [hscan, if_pos h1, if_pos hj]
        exact ih
      · have hscan : scanCharBuf (st.buf texts) c = none := by
          have hfull : poke (slice st.command 0 2048) st.j c = none := poke_full (by rw [length_slice]; omega)
          simp only [scanCharBuf, Cut.buf, if_pos h1, hfull, Option.bind_eq_bind, Option.bind_none]
        rw [hscan, if_pos h1, if_neg hj]
        rfl
    · by_cases h2 : st.flag2 < 2
      · let next : Cut := { st with flag2 := if c = CR then st.flag2 + 1 else st.flag2, isDone := true }
        rw [if_neg h1, if_pos h2]
        cases hdone : st.isDone with
        | true =>
          have hscan : scanCharBuf (st.buf texts) c = some (next.buf texts) := by
            simp only [scanCharBuf, Cut.buf, if_neg h1, if_pos h2, hdone, if_true, Option.bind_eq_bind, Option.bind_some, next]
          rw [hscan, if_pos rfl]
          exact ih
        | false =>
          have hscan : scanCharBuf (st.buf texts) c =
              (cString st.command 0 2048).map fun str => next.buf (texts ++ [str]) := by
            simp only [scanCharBuf, Cut.buf, if_neg h1, if_pos h2, hdone, Bool.false_eq_true, if_false, createSegletBuf_slice,
              Option.bind_eq_bind, next]
            cases cString st.command 0 2048 <;> rfl
          rw [hscan, if_neg Bool.false_ne_true]
          cases cString st.command 0 2048 with
          | none => rfl
          | some str =>
            have hrest : (cs.foldlM scanCharBuf (next.buf (texts ++ [str]))).map ScanBuf.texts = _ := ih
            refine hrest.trans ?_
            rw [Option.bind_eq_bind, Option.bind_some]
            cases cutTexts next cs <;> simp
      · have hscan : scanCharBuf (st.buf texts) c = some (({
            command := fun i => if i < 1024 then 0 else st.command i
            j := 0
            flag1 := 0
            flag2 := 0
            isDone := false } : Cut).buf texts) := by
          simp only [scanCharBuf, Cut.buf, if_neg h1, if_neg h2, memset_slice st.command (show 1024 ≤ 2048 by omega),
            Option.bind_eq_bind, Option.bind_some]
        rw [hscan, if_neg h1, if_neg h2]
        exact ih

/-- The indices up to `length` are those of the first characters. -/
theorem scanBuf_eq {cont : Bytes} {length : Int} {st : ScanBuf} (h : length < cont.length) :
    scanBuf cont length st = (cont.take (length + 1).toNat).foldlM scanCharBuf st := by
  have hle : (length + 1).toNat ≤ cont.length := by omega
  rw [scanBuf]
  revert hle
  induction (length + 1).toNat with
  | zero =>
    intro _
    rfl
  | succ n ih =>
    intro hle
    have hn : n < cont.length := by omega
    rw [List.range_succ, List.take_succ_eq_append_getElem hn, List.foldlM_append, List.foldlM_append, ih (by omega)]
    simp only [List.foldlM_cons, List.foldlM_nil, List.getElem?_eq_getElem hn, Option.bind_some]

/-- The records of a body that fits `IpPort` have room. -/
theorem cutTexts_short {cs : Bytes} (h : cs.length ≤ 2048) : ∃ texts, cutTexts initCut cs = some texts := by
  refine Option.isSome_iff_exists.mp (scanWrites_iff.mp ?_)
  exact scanWrites_inBuffers (Nat.le_refl 0) (fun _ _ => rfl) (by rwa [Nat.zero_add])

theorem initScanBuf_eq : initScanBuf = initCut.buf [] := by
  have hzero : slice (fun _ => 0) 0 2048 = List.replicate 2048 0 := by rw [slice, List.map_const', List.length_range]
  rw [initScanBuf, Cut.buf, ← hzero]
  rfl

/-- What is stored of a body that is taken apart, where `IpPort` holds `str`. -/
theorem appendToSegmentBuf_eq {str rest : Bytes} {i : Nat} (h0 : 0 ∉ body) (hline : LF ∈ stripEol body)
    (hroom : (stripEol body).length < 2048) (hbuffer : ipPortBuffer overlapping body = some (str ++ 0 :: rest)) (hstr : 0 ∉ str)
    (hcolon : seekByte colon (str ++ 0 :: rest) = some i) (hi : i < 16) :
    ∃ texts, cutTexts initCut ((body ++ [0]).take ((stripEol body).length + 1 - str.length)) = some texts ∧
      appendToSegmentBuf overlapping (body ++ [0]) =
        some (((str ++ 0 :: rest).take i).takeWhile (· != 0), getPort str, texts) := by
  have hparse : parseIpPortBuf overlapping (body ++ [0]) (List.replicate 2048 0) = some (str ++ 0 :: rest) := by
    rw [parseIpPortBuf_eq h0, if_pos ⟨hroom, hline⟩, hbuffer, Option.bind_some, if_pos (by simp)]
  have hip : getIpBuf (str ++ 0 :: rest) (List.replicate 16 0) =
      some ((str ++ 0 :: rest).take i ++ 0 :: List.replicate (15 - i) 0) := by
    rw [getIpBuf_eq, hcolon, Option.bind_some, if_pos hi]
  have hlen : getCommandLenBuf (body ++ [0]) (str ++ 0 :: rest) = some (((stripEol body).length : Int) - str.length) := by
    rw [getCommandLenBuf_eq h0 hline, strlen_append hstr, Option.map_some]
  have hshort : ((body ++ [0]).take ((stripEol body).length + 1 - str.length)).length ≤ 2048 := by
    rw [List.length_take]
    omega
  obtain ⟨texts, htexts⟩ := cutTexts_short hshort
  have hcount : ((stripEol body).length - str.length + 1 : Int).toNat = (stripEol body).length + 1 - str.length := by omega
  have hscan : (scanBuf (body ++ [0]) ((stripEol body).length - str.length) initScanBuf).map ScanBuf.texts = some texts := by
    have hle : (stripEol body).length ≤ body.length := (stripEol_isPrefix body).length_le
    have hlt : ((stripEol body).length : Int) - str.length < (body ++ [0]).length := by
      rw [List.length_append, List.length_singleton]
      omega
    rw [scanBuf_eq hlt, hcount, initScanBuf_eq, scanCharBuf_cut, htexts]
    rfl
  obtain ⟨st, hst, rfl⟩ := Option.map_eq_some_iff.mp hscan
  have htext : ((str ++ 0 :: rest).take i).takeWhile (· != 0) <+: (str ++ 0 :: rest).take i ++ 0 :: List.replicate (15 - i) 0 :=
    (List.takeWhile_prefix _).trans (List.prefix_append _ _)
  refine ⟨st.texts, htexts, ?_⟩
  rw [appendToSegmentBuf, hparse, Option.bind_eq_bind, Option.bind_some, hip, Option.bind_eq_bind, Option.bind_some,
    getPortBuf_append hstr, Option.bind_eq_bind, Option.bind_some, hlen, Option.bind_eq_bind, Option.bind_some, hst,
    Option.bind_some, strlen_takeWhile, Option.bind_some, ← List.prefix_iff_eq_take.mp htext]

theorem BodyParses.of_some {r : Bytes × Int × List Bytes} (h0 : 0 ∉ body)
    (h : appendToSegmentBuf overlapping (body ++ [0]) = some r) : BodyParses overlapping body := by
  simp only [appendToSegmentBuf, Option.bind_eq_bind, Option.bind_eq_some_iff] at h
  obtain ⟨IpPort, hparse, rip, hrip, -⟩ := h
  rw [parseIpPortBuf_eq h0, Option.ite_none_right_eq_some, Option.bind_eq_some_iff] at hparse
  obtain ⟨⟨hroom, hline⟩, IpPort', hbuffer, hpoke⟩ := hparse
  rw [Option.ite_none_right_eq_some, Option.some.injEq] at hpoke
  obtain ⟨hzero, rfl⟩ := hpoke
  exact ⟨hline, hroom, IpPort', hbuffer, hzero, getIpBuf_isSome.mp (Option.isSome_iff_exists.mpr ⟨rip, hrip⟩)⟩

/-- Every function on the way stays inside the body and its buffers exactly if the body
without the line ends behind it has a line feed and less than 2048 bytes, and `IpPort`
then has a string in it and a colon among its first 16. -/
theorem body_in_bounds_iff (h0 : 0 ∉ body) :
    (appendToSegmentBuf overlapping (body ++ [0])).isSome ↔ BodyParses overlapping body := by
  constructor
  · intro h
    obtain ⟨r, hr⟩ := Option.isSome_iff_exists.mp h
    exact .of_some h0 hr
  · rintro ⟨hline, hroom, IpPort, hbuffer, hzero, hip⟩
    obtain ⟨str, rest, rfl, hstr⟩ := List.eq_append_cons_of_mem hzero
    obtain ⟨i, hcolon, hi⟩ := mem_take_iff.mp hip
    obtain ⟨texts, -, happ⟩ := appendToSegmentBuf_eq h0 hline hroom hbuffer hstr hcolon hi
    rw [happ]
    rfl

/-- A record of one byte, and where it comes from. -/
def shortBody : Bytes := ascii "set k 0 0 1\r\nv\r\n10.0.0.1:11211\r\n"

/-- A library that reads all of the text before it writes. -/
def copyThrough : OverlappingCopy := fun str temp => strcpy str (str.drop temp)

theorem body_in_bounds_iff_short :
    (appendToSegmentBuf copyThrough (shortBody ++ [0])).isSome ∧ BodyParses copyThrough shortBody := by
  have h0 : 0 ∉ shortBody := by decide +kernel
  have hapart : ¬LineOverlaps shortBody := by decide +kernel
  have hbuffer : ipPortBuffer copyThrough shortBody = _ := if_neg hapart
  have hparses : BodyParses copyThrough shortBody :=
    ⟨by decide +kernel, by decide +kernel, _, hbuffer, by simp, by decide +kernel⟩
  exact ⟨(body_in_bounds_iff h0).mpr hparses, hparses⟩

/-- A body cut off in its first line: `strrchr` returns NULL, whatever the library. -/
theorem cut_body_overruns : ¬∃ overlapping : OverlappingCopy, ∀ body : Bytes, 0 ∉ body →
    (appendToSegmentBuf overlapping (body ++ [0])).isSome := by
  rintro ⟨overlapping, h⟩
  have h0 : 0 ∉ ascii "set k 0 0 1" := by decide +kernel
  have hcut : appendToSegmentBuf overlapping (ascii "set k 0 0 1" ++ [0]) = none := by
    rw [appendToSegmentBuf, parseIpPortBuf_eq h0, if_neg (by decide +kernel)]
    rfl
  have hsome := h _ h0
  rw [hcut] at hsome
  cases hsome

/-! ## The functions on strings -/

/-- `IpPort` holds the last line. -/
def CopiedRight (overlapping : OverlappingCopy) (body : Bytes) : Prop :=
  ∃ rest, ipPortBuffer overlapping body = some (lastLine body ++ 0 :: rest)

theorem CopiedRight.of_apart (h : ¬LineOverlaps body) : CopiedRight overlapping body := ⟨_, if_neg h⟩

variable (rest) in
theorem seekByte_line {line : Bytes} (hcolon : colon ∈ line) :
    seekByte colon (line ++ 0 :: rest) = some (line.takeWhile (· != colon)).length ∧
      (line ++ 0 :: rest).take (line.takeWhile (· != colon)).length = line.takeWhile (· != colon) := by
  obtain ⟨ip, port, rfl, hip⟩ := List.eq_append_cons_of_mem hcolon
  have hall : ∀ b ∈ ip, (b != colon) = true := fun b hb => bne_iff_ne.mpr fun he => hip (he ▸ hb)
  have htake : (ip ++ colon :: port).takeWhile (· != colon) = ip := by
    rw [List.takeWhile_append_of_pos hall, List.takeWhile_cons_of_neg (by simp), List.append_nil]
  rw [htake, List.append_assoc]
  exact ⟨seekByte_append hip, List.take_left⟩

theorem bodyParses_of_colon (hright : CopiedRight overlapping body) (hcolon : colon ∈ lastLine body) :
    BodyParses overlapping body ↔
      ((stripEol body).length < 2048 ∧ LF ∈ stripEol body) ∧ ((lastLine body).takeWhile (· != colon)).length < 16 := by
  obtain ⟨rest, hbuffer⟩ := hright
  have hip : colon ∈ (lastLine body ++ 0 :: rest).take 16 ↔ ((lastLine body).takeWhile (· != colon)).length < 16 := by
    rw [mem_take_iff, (seekByte_line rest hcolon).1]
    simp
  constructor
  · rintro ⟨hline, hroom, IpPort, hbuffer', -, hmem⟩
    obtain rfl := Option.some.inj (hbuffer.symm.trans hbuffer')
    exact ⟨⟨hroom, hline⟩, hip.mp hmem⟩
  · rintro ⟨⟨hroom, hline⟩, hlt⟩
    exact ⟨hline, hroom, _, hbuffer, by simp, hip.mpr hlt⟩

theorem messageTexts_eq (body : Bytes) : messageTexts body =
    if ((stripEol body).length < 2048 ∧ LF ∈ stripEol body) ∧ colon ∈ lastLine body ∧
        ((lastLine body).takeWhile (· != colon)).length < 16 then
      (cutTexts initCut ((body ++ [0]).take (getCommandLen body (lastLine body) + 1))).map fun texts =>
        ((lastLine body).takeWhile (· != colon), getPort (lastLine body), texts)
    else none := by
  have hparse : parseIpPort body =
      if (stripEol body).length < 2048 ∧ LF ∈ stripEol body then some (lastLine body) else none := rfl
  have hip : getIp (lastLine body) =
      if colon ∈ lastLine body ∧ ((lastLine body).takeWhile (· != colon)).length < 16 then
        some ((lastLine body).takeWhile (· != colon))
      else none := rfl
  rw [messageTexts, hparse]
  by_cases hline : (stripEol body).length < 2048 ∧ LF ∈ stripEol body
  · rw [if_pos hline, Option.bind_eq_bind, Option.bind_some, hip]
    by_cases hcolon : colon ∈ lastLine body ∧ ((lastLine body).takeWhile (· != colon)).length < 16
    · rw [if_pos hcolon, if_pos ⟨hline, hcolon⟩]
      exact Option.map_eq_bind.symm
    · rw [if_neg hcolon, if_neg fun h => hcolon h.2]
      rfl
  · rw [if_neg hline, if_neg fun h => hline h.1]
    rfl

/-- Where the last line has a colon and is copied right the buffers hold what the functions
on strings return. -/
theorem appendToSegmentBuf_messageTexts (h0 : 0 ∉ body) (hright : CopiedRight overlapping body) (hcolon : colon ∈ lastLine body) :
    appendToSegmentBuf overlapping (body ++ [0]) = messageTexts body := by
  rw [messageTexts_eq]
  by_cases h : BodyParses overlapping body
  · obtain ⟨hbody, hlt⟩ := (bodyParses_of_colon hright hcolon).mp h
    obtain ⟨rest, hbuffer⟩ := hright
    obtain ⟨hip, htake⟩ := seekByte_line rest hcolon
    obtain ⟨texts, htexts, happ⟩ := appendToSegmentBuf_eq h0 hbody.2 hbody.1 hbuffer (zero_notMem_lastLine h0) hip hlt
    have hline : 0 ∉ (lastLine body).takeWhile (· != colon) := fun hm =>
      zero_notMem_lastLine h0 ((List.takeWhile_prefix _).subset hm)
    have htext : ((lastLine body).takeWhile (· != colon)).takeWhile (· != 0) = (lastLine body).takeWhile (· != colon) := by
      rw [List.takeWhile_eq_self_iff]
      exact fun b hb => bne_iff_ne.mpr fun he => hline (he ▸ hb)
    have hlen : (lastLine body).length ≤ (stripEol body).length := (List.rtakeWhile_suffix _ _).length_le
    have hcount : getCommandLen body (lastLine body) + 1 = (stripEol body).length + 1 - (lastLine body).length := by
      rw [getCommandLen]
      omega
    rw [happ, htake, htext, if_pos ⟨hbody, hcolon, hlt⟩, hcount, htexts]
    rfl
  · rw [if_neg fun hall => h ((bodyParses_of_colon hright hcolon).mpr ⟨hall.1, hall.2.2⟩)]
    exact Option.eq_none_iff_forall_ne_some.mpr fun r hr => h (.of_some h0 hr)

/-- What is stored was taken apart inside the buffers. -/
theorem appendToSegment_parses {os : Os} {b b' : Backup} (hright : CopiedRight overlapping body)
    (h : appendToSegment os b body = some b') : BodyParses overlapping body := by
  rw [appendToSegment_eq, Option.bind_eq_some_iff] at h
  obtain ⟨⟨ip, port, texts⟩, htexts, -⟩ := h
  rw [messageTexts_eq, Option.ite_none_right_eq_some] at htexts
  exact (bodyParses_of_colon hright htexts.1.2.1).mpr ⟨htexts.1.1, htexts.1.2.2⟩

end RamCube
