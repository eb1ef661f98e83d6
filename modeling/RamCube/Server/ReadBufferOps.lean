import RamCube.Server.ReadBuffer

/-! # What the operations on the read buffer keep

`window` is what the list model of a connection calls `rbuf`. -/
namespace RamCube

variable {b : ReadBuffer} {w got : Bytes}

/-- The last bytes of a stretch. -/
theorem drop_slice {m : Nat → UInt8} {off len n : Nat} (h : n ≤ len) : (slice m off len).drop n = slice m (off + n) (len - n) := by
  obtain ⟨k, rfl⟩ := Nat.exists_eq_add_of_le h
  rw [slice_add, List.drop_left' length_slice, Nat.add_sub_cancel_left]

theorem slice_blit_eq {m : Nat → UInt8} {off len : Nat} {bs : Bytes} (h : bs.length = len) : slice (blit m off bs) off len = bs := by
  rw [← h, slice_blit_self]

namespace ReadBuffer

/-- What is in the buffer and not yet taken. -/
def window (b : ReadBuffer) : Bytes :=
  match b.rcurr with
  | some r => slice b.mem r b.rbytes
  | none => []

/-- Where the pointers are. -/
structure Fits (b : ReadBuffer) : Prop where
  low : DATA_BUFFER_SIZE ≤ b.size
  high : b.size < 2 ^ 31
  inside : ∀ r, b.rcurr = some r → r + b.rbytes ≤ b.size
  outside : b.rcurr = none → b.rbytes = 0

theorem window_at {r : Nat} (h : b.rcurr = some r) : b.window = slice b.mem r b.rbytes := by
  rw [window, h]

theorem Fits.length_window (h : b.Fits) : b.window.length = b.rbytes := by
  cases hr : b.rcurr with
  | some r => rw [window_at hr, length_slice]
  | none =>
    rw [h.outside hr, window, hr]
    rfl

theorem load_eq {off len : Nat} (h : off + len ≤ b.size) : b.load off len = some (slice b.mem off len) := if_pos h

theorem store_eq {off : Nat} {bs : Bytes} (h : off + bs.length ≤ b.size) :
    b.store off bs = some { b with mem := blit b.mem off bs } := if_pos h

theorem memmove_eq {dst src len : Nat} (hs : src + len ≤ b.size) (hd : dst + len ≤ b.size) :
    b.memmove dst src len = some { b with mem := blit b.mem dst (slice b.mem src len) } := by
  rw [memmove, load_eq hs]
  exact store_eq (by rwa [length_slice])

/-- What is left is at the start of the buffer. -/
structure Packed (b b' : ReadBuffer) : Prop where
  rcurr : b'.rcurr = some 0
  rbytes : b'.rbytes = b.rbytes
  size : b'.size = b.size
  ritem : b'.ritem = b.ritem
  window : slice b'.mem 0 b.rbytes = b.window

theorem Fits.pack (h : b.Fits) : ∃ b', b.pack = some b' ∧ Packed b b' := by
  cases hr : b.rcurr with
  | none =>
    have h0 := h.outside hr
    refine ⟨{ b with rcurr := some 0 }, by simp [ReadBuffer.pack, hr, h0], rfl, rfl, rfl, rfl, ?_⟩
    rw [ReadBuffer.window, hr, h0, slice_zero]
  | some r =>
    have hin := h.inside r hr
    cases r with
    | zero => exact ⟨b, by simp [ReadBuffer.pack, hr], hr, rfl, rfl, rfl, (window_at hr).symm⟩
    | succ r =>
      refine ⟨{ b with mem := blit b.mem 0 (slice b.mem (r + 1) b.rbytes), rcurr := some 0 }, ?_, rfl, rfl, rfl, rfl, ?_⟩
      · simp [ReadBuffer.pack, hr, memmove_eq hin (show 0 + b.rbytes ≤ b.size by omega)]
      · rw [window_at hr]
        exact slice_blit_eq length_slice

theorem Packed.fits {b' : ReadBuffer} (hp : Packed b b') (h : b.Fits) : b'.Fits where
  low := hp.size ▸ h.low
  high := hp.size ▸ h.high
  inside r hr := by
    obtain rfl : 0 = r := Option.some.inj (hp.rcurr.symm.trans hr)
    rw [Nat.zero_add, hp.rbytes, hp.size, ← h.length_window]
    cases hb : b.rcurr with
    | some r =>
      have := h.inside r hb
      rw [h.length_window]
      omega
    | none =>
      rw [ReadBuffer.window, hb]
      exact Nat.zero_le _
  outside hr := absurd (hp.rcurr.symm.trans hr) (Option.some_ne_none 0)

theorem Packed.window_eq {b' : ReadBuffer} (hp : Packed b b') : b'.window = b.window := by
  rw [window_at hp.rcurr, hp.rbytes, hp.window]

/-! ## Reading from the socket -/

/-- The buffer in the loop of `try_read_network`, after some bytes came behind what was left. -/
structure Reading (w got : Bytes) (b : ReadBuffer) : Prop where
  rcurr : b.rcurr = some 0
  low : DATA_BUFFER_SIZE ≤ b.size
  bytes : b.rbytes ≤ b.size
  window : slice b.mem 0 b.rbytes = w ++ got

/-- What `try_read_network` leaves where it finds `w`. -/
def ReadTo (w : Bytes) (b : ReadBuffer) : TryRead → Prop
  | .READ_DATA_RECEIVED bs => bs ≠ [] ∧ b.window = w ++ bs
  | .READ_NO_DATA_RECEIVED => b.window = w
  | .READ_ERROR _ => True
  | .READ_MEMORY_ERROR => b.window = []

theorem Reading.fits (h : Reading w got b) (hs : b.size < 2 ^ 31) : b.Fits where
  low := h.low
  high := hs
  inside r hr := by
    obtain rfl : 0 = r := Option.some.inj (h.rcurr.symm.trans hr)
    rw [Nat.zero_add]
    exact h.bytes
  outside hr := absurd (h.rcurr.symm.trans hr) (Option.some_ne_none 0)

/-- The result of a call that returns what came so far. -/
theorem Reading.readTo (h : Reading w got b) :
    ReadTo w b (if got = [] then .READ_NO_DATA_RECEIVED else .READ_DATA_RECEIVED got) := by
  have hw := (window_at h.rcurr).trans h.window
  split
  · next hg => rw [ReadTo, hw, hg, List.append_nil]
  · next hg => exact ⟨hg, hw⟩

/-- Zeros behind what is there. -/
theorem Reading.zeroed (h : Reading w got b) (zeros : Bytes) :
    Reading w got { b with mem := blit b.mem b.rbytes zeros } where
  rcurr := h.rcurr
  low := h.low
  bytes := h.bytes
  window := (slice_blit_of_disjoint (.inl (Nat.zero_add _).le)).trans h.window

theorem Reading.received (h : Reading w got b) {bs : Bytes} (hb : b.rbytes + bs.length ≤ b.size) :
    Reading w (got ++ bs) { b with mem := blit b.mem b.rbytes bs, rbytes := b.rbytes + bs.length } where
  rcurr := h.rcurr
  low := h.low
  bytes := hb
  window := by
    have hold : slice (blit b.mem b.rbytes bs) 0 b.rbytes = w ++ got :=
      (slice_blit_of_disjoint (.inl (Nat.zero_add _).le)).trans h.window
    rw [slice_add, hold, Nat.zero_add, slice_blit_self, List.append_assoc]

/-- A call that stays in the buffer and leaves what it should. -/
def Reads (w : Bytes) (o : Option (ReadBuffer × TryRead)) : Prop :=
  ∃ b res, o = some (b, res) ∧ b.Fits ∧ b.rcurr = some 0 ∧ ReadTo w b res

theorem Reading.ends {w' : Bytes} {res : TryRead} (h : Reading w got b) (hs : b.size < 2 ^ 31) (hr : ReadTo w' b res) :
    Reads w' (some (b, res)) := ⟨b, res, rfl, h.fits hs, h.rcurr, hr⟩

/-- A pass of the loop, where it goes on in the same way. -/
theorem Reading.once {calls : NetworkCalls} {n : Nat} {more : ReadBuffer → Bytes → Option (ReadBuffer × TryRead)}
    (h : Reading w got b) (hs : b.size < 2 ^ 31)
    (hmore : ∀ b' got', b'.size = b.size → Reading w got' b' → Reads w (more b' got')) :
    Reads w (b.readOnce calls n got more) := by
  have hroom : b.rbytes + (List.replicate (b.size - b.rbytes) (0 : UInt8)).length ≤ b.size := by
    rw [List.length_replicate]
    have := h.bytes
    omega
  have hz := h.zeroed (List.replicate (b.size - b.rbytes) 0)
  rw [readOnce, store_eq hroom]
  generalize blit b.mem b.rbytes (List.replicate (b.size - b.rbytes) 0) = mem at hz
  simp only [Option.bind_eq_bind, Option.bind_some]
  cases calls.read n with
  | data bs =>
    dsimp only
    by_cases hnil : bs.take (b.size - b.rbytes) = []
    · rw [if_pos hnil]
      exact hz.ends hs trivial
    rw [if_neg hnil]
    have hlen : b.rbytes + (bs.take (b.size - b.rbytes)).length ≤ b.size := by
      rw [List.length_take]
      have := h.bytes
      omega
    have hr := hz.received hlen
    have hgot : got ++ bs.take (b.size - b.rbytes) ≠ [] := fun he => hnil (List.append_eq_nil_iff.mp he).2
    rw [store_eq (b := { b with mem := mem }) hlen]
    simp only [Option.bind_some]
    split
    · exact hmore _ _ rfl hr
    · exact hr.ends hs ⟨hgot, (window_at hr.rcurr).trans hr.window⟩
  | eof => exact hz.ends hs trivial
  | again => exact hz.ends hs hz.readTo
  | error => exact hz.ends hs trivial

theorem Reading.grown (h : Reading w got b) (undefined : Nat → UInt8) :
    Reading w got { b.resize (b.size * 2) undefined with rcurr := some 0 } where
  rcurr := rfl
  low := by
    have := h.low
    show _ ≤ b.size * 2
    omega
  bytes := by
    have := h.bytes
    show b.rbytes ≤ b.size * 2
    omega
  window := by
    rw [← h.window]
    apply slice_congr
    intro i _ hi
    have hi' : i < b.rbytes := by rwa [Nat.zero_add] at hi
    exact if_pos (lt_of_lt_of_le hi' h.bytes)

theorem Reading.more {calls : NetworkCalls} (n : Nat) : ∀ {b : ReadBuffer} {got : Bytes}, Reading w got b → b.size * 2 ^ n < 2 ^ 31 →
    Reads w (readMore calls n b got) := by
  induction n with
  | zero =>
    intro b got h hs
    exact h.ends (by omega) h.readTo
  | succ n ih =>
    intro b got h hs
    have hpos : 1 ≤ 2 ^ n := Nat.one_le_two_pow
    have hstep : b.size * 2 ^ (n + 1) = b.size * 2 * 2 ^ n := by rw [Nat.pow_succ]; ac_rfl
    have hdouble : b.size * 2 < 2 ^ 31 := lt_of_le_of_lt (Nat.le_mul_of_pos_right _ hpos) (hstep ▸ hs)
    rw [readMore, if_neg (by omega)]
    cases calls.realloc n with
    | none =>
      have hempty : Reading [] [] { b with rbytes := 0 } := ⟨h.rcurr, h.low, Nat.zero_le _, rfl⟩
      have hsize : b.size < 2 ^ 31 := by omega
      exact hempty.ends hsize ((window_at hempty.rcurr).trans hempty.window)
    | some undefined =>
      refine (h.grown undefined).once hdouble ?_
      intro b' got' hsize h'
      refine ih h' ?_
      rw [hsize]
      exact hstep ▸ hs

theorem Fits.tryReadNetwork (h : b.Fits) (hs : b.size < 2 ^ 27) (calls : NetworkCalls) :
    Reads b.window (b.tryReadNetwork calls) := by
  obtain ⟨b₁, hpack, hp⟩ := h.pack
  have hfits := hp.fits h
  have hr : Reading b.window [] b₁ := by
    refine ⟨hp.rcurr, hfits.low, ?_, ?_⟩
    · have := hfits.inside 0 hp.rcurr
      omega
    · rw [List.append_nil, hp.rbytes, hp.window]
  have hsize : b₁.size * 2 ^ 4 < 2 ^ 31 := by
    rw [hp.size]
    omega
  rw [ReadBuffer.tryReadNetwork, hpack]
  simp only [Option.bind_eq_bind, Option.bind_some]
  split
  · exact hr.more 4 hsize
  · exact hr.once hfits.high fun b' got' hb h' => h'.more 4 (by rw [hb]; exact hsize)

/-- How a call ends that has read `got` without an error. -/
def received (got : Bytes) : TryRead := if got = [] then .READ_NO_DATA_RECEIVED else .READ_DATA_RECEIVED got

/-- What the reads of a call return, where the buffer may grow less than `n` times. -/
def results (calls : NetworkCalls) : Nat → List ReadResult
  | 0 => []
  | n + 1 => calls.read n :: results calls n

/-- A call that leaves a buffer of `rsize` bytes and has read `got`. -/
def Received (got : Bytes) (rsize : Nat) (o : Option (ReadBuffer × TryRead)) : Prop :=
  ∃ b, o = some (b, received got) ∧ b.size = rsize

section

variable {calls : NetworkCalls} {n rsize : Nat} {before : Bytes} {rest : List ReadResult}

theorem received_pass {more : ReadBuffer → Bytes → Option (ReadBuffer × TryRead)} (hfree : b.rbytes < b.size)
    (hmore : ∀ b' before' got', b'.size = b.size → b'.rbytes = b.size →
      networkCall n b.size b.size (results calls n) = some (got', rsize, rest) → Received (before' ++ got') rsize (more b' before'))
    (hcall : networkCall n b.size b.rbytes (results calls (n + 1)) = some (got, rsize, rest)) :
    Received (before ++ got) rsize (b.readOnce calls n before more) := by
  have hzeros : b.rbytes + (List.replicate (b.size - b.rbytes) (0 : UInt8)).length ≤ b.size := by
    rw [List.length_replicate]
    omega
  have hroom : makeRoom n b.size b.rbytes = some (n, b.size) := if_pos hfree
  rw [results, networkCall, hroom] at hcall
  rw [readOnce, store_eq hzeros]
  generalize blit b.mem b.rbytes (List.replicate (b.size - b.rbytes) 0) = mem
  simp only [Option.bind_eq_bind, Option.bind_some]
  cases hres : calls.read n with
  | data bs =>
    rw [hres] at hcall
    dsimp only at hcall ⊢
    split at hcall
    · cases hcall
    · next hfits =>
      obtain ⟨hne, hlen⟩ := not_or.mp hfits
      have htake : bs.take (b.size - b.rbytes) = bs := List.take_of_length_le (by omega)
      have hstore := store_eq (b := { b with mem := mem }) (show b.rbytes + bs.length ≤ b.size by omega)
      rw [htake, if_neg hne, hstore, Option.bind_some]
      split at hcall
      · next hall =>
        obtain ⟨⟨got', more'⟩, hnext, hend⟩ := Option.map_eq_some_iff.mp hcall
        cases hend
        have hfull : b.rbytes + bs.length = b.size := by omega
        rw [if_pos hall, ← List.append_assoc]
        rw [hfull] at hnext ⊢
        exact hmore _ _ _ rfl rfl hnext
      · next hall =>
        cases hcall
        have hgot : before ++ got ≠ [] := fun he => hne (List.append_eq_nil_iff.mp he).2
        rw [if_neg hall]
        exact ⟨_, congrArg (fun r => some (_, r)) (if_neg hgot).symm, rfl⟩
  | again =>
    rw [hres] at hcall
    cases hcall
    rw [List.append_nil]
    exact ⟨_, rfl, rfl⟩
  | eof | error =>
    rw [hres] at hcall
    cases hcall

theorem received_more (hrealloc : ∀ n, (calls.realloc n).isSome) (n : Nat) : ∀ {b : ReadBuffer} {before got : Bytes}, 0 < b.size →
    b.rbytes = b.size → b.size * 2 ^ n < 2 ^ 31 → networkCall n b.size b.size (results calls n) = some (got, rsize, rest) →
    Received (before ++ got) rsize (readMore calls n b before) := by
  induction n with
  | zero =>
    intro b before got _ _ _ hcall
    have hroom : makeRoom 0 b.size b.size = none := if_neg (Nat.lt_irrefl _)
    rw [results, networkCall, hroom] at hcall
    cases hcall
    rw [List.append_nil]
    exact ⟨b, rfl, rfl⟩
  | succ n ih =>
    intro b before got hpos hfull hs hcall
    have hstep : b.size * 2 ^ (n + 1) = b.size * 2 * 2 ^ n := by rw [Nat.pow_succ]; ac_rfl
    rw [hstep] at hs
    have hdouble : b.size * 2 < 2 ^ 31 := lt_of_le_of_lt (Nat.le_mul_of_pos_right _ Nat.one_le_two_pow) hs
    obtain ⟨undefined, hundefined⟩ := Option.isSome_iff_exists.mp (hrealloc n)
    rw [readMore, if_neg (by omega), hundefined]
    have hgrown : makeRoom (n + 1) b.size b.size = some (n, b.size * 2) := if_neg (Nat.lt_irrefl _)
    have hfree : makeRoom n (b.size * 2) b.size = some (n, b.size * 2) := if_pos (by omega)
    have hsame : networkCall (n + 1) b.size b.size (results calls (n + 1)) =
        networkCall n (b.size * 2) b.size (results calls (n + 1)) := by
      rw [results, networkCall, networkCall, hgrown, hfree]
    rw [hsame] at hcall
    have hgrew : networkCall n (b.size * 2) b.rbytes (results calls (n + 1)) = some (got, rsize, rest) := by rwa [hfull]
    refine received_pass (b := { b.resize (b.size * 2) undefined with rcurr := some 0 }) (show b.rbytes < b.size * 2 by omega) ?_ hgrew
    intro b' before' got' hsize hbytes hnext
    have hsize' : b'.size = b.size * 2 := hsize
    rw [← hsize] at hnext
    exact ih (by omega) (hbytes.trans hsize.symm) (by rwa [hsize']) hnext

/-- A call on the buffer reads what the calls of the sizes have, and leaves a buffer of that size. -/
theorem Fits.received (h : b.Fits) (hs : b.size < 2 ^ 27) (hrealloc : ∀ n, (calls.realloc n).isSome)
    (hcall : networkCall 4 b.size b.rbytes (results calls (if b.rbytes < b.size then 5 else 4)) = some (got, rsize, rest)) :
    Received got rsize (b.tryReadNetwork calls) := by
  obtain ⟨b₁, hpack, hp⟩ := h.pack
  have hin := (hp.fits h).inside 0 hp.rcurr
  have hlow := h.low
  have hpos : 0 < b₁.size := Nat.lt_of_lt_of_le (by decide) (hp.fits h).low
  have hmore : ∀ b' before got', b'.size = b₁.size → b'.rbytes = b₁.size →
      networkCall 4 b₁.size b₁.size (results calls 4) = some (got', rsize, rest) →
      Received (before ++ got') rsize (readMore calls 4 b' before) := by
    intro b' before got' hsize hbytes hnext
    refine received_more hrealloc 4 (hsize ▸ hpos) (hbytes.trans hsize.symm) ?_ (by rwa [hsize])
    rw [hsize, hp.size]
    omega
  rw [ReadBuffer.tryReadNetwork, hpack]
  rw [← hp.size, ← hp.rbytes] at hcall
  simp only [Option.bind_eq_bind, Option.bind_some]
  split
  · next hfull =>
    have hbytes : b₁.rbytes = b₁.size := by omega
    rw [if_neg (by omega), hbytes] at hcall
    exact hmore b₁ [] got rfl hbytes hcall
  · next hfree =>
    rw [if_pos (by omega)] at hcall
    rw [← List.nil_append got]
    exact received_pass (by omega) hmore hcall

end

/-! ## Moving on -/

/-- The same bytes are left. -/
structure Kept (b b' : ReadBuffer) : Prop where
  fits : b'.Fits
  window : b'.window = b.window

theorem Packed.kept {b' : ReadBuffer} (hp : Packed b b') (h : b.Fits) : Kept b b' := ⟨hp.fits h, hp.window_eq⟩

theorem Fits.connShrink (h : b.Fits) (realloc : Realloc) : ∃ b', b.connShrink realloc = some b' ∧ Kept b b' := by
  unfold ReadBuffer.connShrink
  split
  · next hlarge =>
    obtain ⟨b₁, hpack, hp⟩ := h.pack
    have hr : Reading b.window [] { b₁ with size := DATA_BUFFER_SIZE } := by
      refine ⟨hp.rcurr, Nat.le_refl _, ?_, ?_⟩
      · have := hp.rbytes
        exact this ▸ hlarge.2.le
      · rw [List.append_nil, ← hp.window, ← hp.rbytes]
    rw [hpack]
    cases realloc with
    | none => exact ⟨b₁, rfl, hp.kept h⟩
    | some undefined =>
      refine ⟨_, rfl, hr.fits (show DATA_BUFFER_SIZE < 2 ^ 31 by decide), ?_⟩
      exact ((window_at hr.rcurr).trans hr.window).trans (List.append_nil _)
  · exact ⟨b, rfl, h, rfl⟩

theorem Fits.advance (h : b.Fits) {n : Nat} (hn : n ≤ b.rbytes) :
    (b.advance n).Fits ∧ (b.advance n).window = b.window.drop n := by
  cases hr : b.rcurr with
  | none =>
    have h0 := h.outside hr
    have hnone : (b.advance n).rcurr = none := by rw [ReadBuffer.advance, hr, Option.map_none]
    refine ⟨⟨h.low, h.high, fun r hr' => absurd (hnone.symm.trans hr') (by simp), fun _ => ?_⟩, ?_⟩
    · rw [ReadBuffer.advance, h0, Nat.zero_sub]
    · rw [ReadBuffer.window, hnone, ReadBuffer.window, hr, List.drop_nil]
  | some r =>
    have hin := h.inside r hr
    have hsome : (b.advance n).rcurr = some (r + n) := by rw [ReadBuffer.advance, hr, Option.map_some]
    refine ⟨⟨h.low, h.high, fun r' hr' => ?_, fun hr' => absurd (hsome.symm.trans hr') (Option.some_ne_none _)⟩, ?_⟩
    · obtain rfl : r + n = r' := Option.some.inj (hsome.symm.trans hr')
      show r + n + (b.rbytes - n) ≤ b.size
      omega
    · rw [window_at hsome, window_at hr, drop_slice hn]
      rfl

/-! ## Requests -/

theorem doubled_enough {size nsize : Nat} (h : size ≤ nsize) (fuel : Nat) : doubled size fuel nsize = nsize := by
  cases fuel with
  | zero => rfl
  | succ fuel => exact if_neg (by omega)

/-- The request at `rcurr`, whose extras and key are read behind its header. -/
structure KeyRoom (b : ReadBuffer) (rlbytes : Nat) : Prop where
  rcurr : ∃ r, b.rcurr = some r ∧ b.ritem = some (r + HEADER_SIZE) ∧ r + HEADER_SIZE + rlbytes ≤ b.size

/-- The buffer of a connection is large enough for every key: `bin_read_key` moves the request at most. -/
theorem Fits.binReadKey (h : b.Fits) {rlbytes : Nat} (hl : rlbytes + HEADER_SIZE ≤ DATA_BUFFER_SIZE) (hb : HEADER_SIZE ≤ b.rbytes)
    (realloc : Realloc) : ∃ b', b.binReadKey rlbytes realloc = some (b', true) ∧ Kept b b' ∧ b'.rbytes = b.rbytes ∧ KeyRoom b' rlbytes := by
  have hlow := h.low
  cases hr : b.rcurr with
  | none =>
    have h0 := h.outside hr
    rw [h0] at hb
    exact absurd hb (by decide)
  | some r =>
    have hin := h.inside r hr
    by_cases hroom : b.size - (r + HEADER_SIZE) < rlbytes
    · have hsame := doubled_enough (show rlbytes + HEADER_SIZE ≤ b.size by omega) (rlbytes + HEADER_SIZE)
      obtain ⟨b₁, hpack, hp⟩ := h.pack
      obtain ⟨hf, hw⟩ := hp.kept h
      refine ⟨{ b₁ with ritem := some HEADER_SIZE }, ?_, ⟨⟨hf.low, hf.high, hf.inside, hf.outside⟩, hw⟩, hp.rbytes, 0,
        hp.rcurr, by rw [Nat.zero_add], ?_⟩
      · simp [ReadBuffer.binReadKey, hr, hroom, hsame, hpack]
      · show 0 + HEADER_SIZE + rlbytes ≤ b₁.size
        rw [hp.size]
        omega
    · refine ⟨{ b with ritem := some (r + HEADER_SIZE) }, ?_, ⟨⟨h.low, h.high, h.inside, h.outside⟩, rfl⟩, rfl, r, hr, rfl, ?_⟩
      · simp [ReadBuffer.binReadKey, hr, hroom]
      · show r + HEADER_SIZE + rlbytes ≤ b.size
        omega

/-- A part of a request that was read in place, behind the header and before `rcurr`. -/
structure InPlace (b : ReadBuffer) (part : Bytes) (rlbytes : Nat) : Prop where
  place : ∃ r, b.rcurr = some r ∧ b.ritem = some r ∧ HEADER_SIZE + part.length ≤ r ∧
    slice b.mem (r - part.length) part.length = part ∧ r + rlbytes ≤ b.size

theorem KeyRoom.inPlace {rlbytes : Nat} (h : KeyRoom b rlbytes) : InPlace (b.advance HEADER_SIZE) [] rlbytes := by
  obtain ⟨r, hr, hi, hroom⟩ := h.rcurr
  refine ⟨r + HEADER_SIZE, ?_, hi, ?_, slice_zero, hroom⟩
  · rw [ReadBuffer.advance, hr, Option.map_some]
  · rw [List.length_nil]
    omega

/-- What is in the buffer already stays where it is. -/
theorem InPlace.copied {part : Bytes} {rlbytes tocopy : Nat} (h : InPlace b part rlbytes) (hf : b.Fits) (hb : tocopy ≤ b.rbytes)
    (hl : tocopy ≤ rlbytes) : ∃ b', b.copyLeftovers tocopy = some b' ∧ b'.Fits ∧ b'.window = b.window.drop tocopy ∧
      InPlace b' (part ++ b.window.take tocopy) (rlbytes - tocopy) := by
  obtain ⟨r, hr, hi, hlow, hpart, hroom⟩ := h.place
  obtain ⟨hfits, hwindow⟩ := hf.advance hb
  have hin := hf.inside r hr
  have htake : b.window.take tocopy = slice b.mem r tocopy := by rw [window_at hr, take_slice hb]
  have hlen : (part ++ b.window.take tocopy).length = part.length + tocopy := by
    rw [List.length_append, htake, length_slice]
  refine ⟨{ b.advance tocopy with ritem := some (r + tocopy) }, ?_, ?_, hwindow, ?_⟩
  · simp [ReadBuffer.copyLeftovers, hr, hi]
  · exact ⟨hfits.low, hfits.high, hfits.inside, hfits.outside⟩
  · refine ⟨r + tocopy, ?_, rfl, ?_, ?_, ?_⟩
    · show b.rcurr.map _ = _
      rw [hr, Option.map_some]
    · rw [hlen]
      omega
    · have hoff : r + tocopy - (part.length + tocopy) = r - part.length := by omega
      have hmid : r - part.length + part.length = r := by omega
      rw [hlen, hoff, slice_add]
      show slice b.mem _ _ ++ slice b.mem _ _ = _
      rw [hpart, hmid, htake]
    · show r + tocopy + (rlbytes - tocopy) ≤ b.size
      omega

/-- What comes from the socket is read behind it. -/
theorem InPlace.read {part bs : Bytes} {rlbytes : Nat} (h : InPlace b part rlbytes) (hf : b.Fits) (hb : b.rbytes = 0)
    (hl : bs.length ≤ rlbytes) : ∃ b', b.readItem rlbytes bs = some b' ∧ b'.Fits ∧ b'.window = [] ∧
      InPlace b' (part ++ bs) (rlbytes - bs.length) := by
  obtain ⟨r, hr, hi, hlow, hpart, hroom⟩ := h.place
  refine ⟨{ b with mem := blit b.mem r bs, rcurr := some (r + bs.length), ritem := some (r + bs.length) }, ?_, ?_, ?_, ?_⟩
  · simp [ReadBuffer.readItem, hi, hr, Nat.not_lt.mpr hroom, store_eq (show r + bs.length ≤ b.size by omega)]
  · refine ⟨hf.low, hf.high, fun r' hr' => ?_, fun hr' => absurd hr' (Option.some_ne_none _)⟩
    obtain rfl : r + bs.length = r' := Option.some.inj hr'
    show r + bs.length + b.rbytes ≤ b.size
    omega
  · show slice _ _ b.rbytes = []
    rw [hb, slice_zero]
  · refine ⟨r + bs.length, rfl, rfl, ?_, ?_, ?_⟩
    · rw [List.length_append]
      omega
    · have hoff : r + bs.length - (part ++ bs).length = r - part.length := by
        rw [List.length_append]
        omega
      have hmid : r - part.length + part.length = r := by omega
      rw [hoff, List.length_append, slice_add, hmid]
      show slice (blit b.mem r bs) _ _ ++ slice (blit b.mem r bs) _ _ = _
      rw [slice_blit_self, slice_blit_of_disjoint (.inl hmid.le), hpart]
    · show r + bs.length + (rlbytes - bs.length) ≤ b.size
      omega

/-! ## Command lines -/

/-- A text that is not blank ends the search for a word. -/
theorem skipBlanks_text {r : Nat} (hin : r + b.rbytes ≤ b.size) (hx : ∃ x ∈ slice b.mem r b.rbytes, x ≠ space) :
    b.skipBlanks r = some (r + ((slice b.mem r b.rbytes).takeWhile (· == space)).length) := by
  obtain ⟨rest, hrest⟩ := Nat.exists_eq_add_of_le (show b.rbytes ≤ b.size - r by omega)
  rw [skipBlanks, hrest, slice_add]
  generalize slice b.mem r b.rbytes = text at hx
  have hfind : ∀ tail : Bytes, (text ++ tail).findIdx? (· != space) = some (text.takeWhile (· == space)).length := by
    induction text with
    | nil =>
      obtain ⟨x, hx, _⟩ := hx
      exact absurd hx List.not_mem_nil
    | cons y text ih =>
      intro tail
      by_cases hy : y = space
      · have hx' : ∃ x ∈ text, x ≠ space := by
          obtain ⟨x, hmem, hne⟩ := hx
          obtain rfl | hmem := List.mem_cons.mp hmem
          · exact absurd hy hne
          · exact ⟨x, hmem, hne⟩
        simp [List.findIdx?_cons, hy, ih hx' tail]
      · simp [List.findIdx?_cons, hy]
  rw [hfind, Option.map_some]

/-- The check of a long text is that of the bytes that are left, unless they are all blank. -/
theorem isMultiget_window {r : Nat} (hr : b.rcurr = some r) (hf : b.Fits) (hlong : 1024 < b.rbytes)
    (hx : ∃ x ∈ b.window, x ≠ space) : b.isMultiget r = some (largeMultiget b.window) := by
  have hin := hf.inside r hr
  rw [window_at hr] at hx ⊢
  have hskip := skipBlanks_text hin hx
  have hsplit := List.takeWhile_append_dropWhile (p := (· == space)) (l := slice b.mem r b.rbytes)
  have hlen := congrArg List.length hsplit
  rw [List.length_append, length_slice] at hlen
  have hblanks : (slice b.mem r b.rbytes).length - ((slice b.mem r b.rbytes).dropWhile (· == space)).length =
      ((slice b.mem r b.rbytes).takeWhile (· == space)).length := by
    rw [length_slice]
    omega
  have hdrop : (slice b.mem r b.rbytes).dropWhile (· == space) =
      (slice b.mem r b.rbytes).drop ((slice b.mem r b.rbytes).takeWhile (· == space)).length :=
    calc _ = List.drop _ (_ ++ _) := (List.drop_left' rfl).symm
      _ = _ := by rw [hsplit]
  simp only [isMultiget, hskip, Option.bind_eq_bind, Option.bind_some, Nat.add_sub_cancel_left, largeMultiget, hblanks]
  generalize ((slice b.mem r b.rbytes).takeWhile (· == space)).length = k at *
  split
  · next hk => simp [Nat.not_le.mpr hk]
  · next hk =>
    rw [hdrop, drop_slice (by omega), take_slice (by omega), take_slice (by omega), load_eq (by omega), load_eq (by omega)]
    simp [Nat.not_lt.mp hk]

theorem slice_getLast {m : Nat → UInt8} {off len : Nat} (h : 0 < len) : (slice m off len).getLast? = some (m (off + len - 1)) := by
  obtain ⟨k, rfl⟩ := Nat.exists_eq_add_of_lt h
  have hlast : slice m off (0 + k + 1) = slice m off k ++ [m (off + k)] := by
    rw [Nat.zero_add, slice_add]
    rfl
  rw [hlast, List.getLast?_concat, Nat.zero_add, ← Nat.add_assoc, Nat.add_sub_cancel]

theorem lineEnd_le (b : ReadBuffer) (r len : Nat) : r ≤ b.lineEnd r len ∧ b.lineEnd r len ≤ r + len := by
  unfold lineEnd
  split <;> omega

/-- The line up to the end that is written over it. -/
theorem slice_lineEnd (b : ReadBuffer) (r len : Nat) : slice b.mem r (b.lineEnd r len - r) = chopLine (slice b.mem r len) := by
  unfold lineEnd chopLine
  rw [length_slice]
  by_cases hlen : 1 < len
  · rw [slice_getLast (by omega)]
    by_cases hcr : b.mem (r + len - 1) = CR
    · have hsub : r + len - 1 - r = len - 1 := by omega
      rw [if_pos ⟨hlen, hcr⟩, if_pos ⟨hlen, congrArg some hcr⟩, hsub, List.dropLast_eq_take, length_slice, take_slice (by omega)]
    · rw [if_neg fun h => hcr h.2, if_neg fun h => hcr (Option.some.inj h.2), Nat.add_sub_cancel_left]
  · rw [if_neg fun h => hlen h.1, if_neg fun h => hlen h.1, Nat.add_sub_cancel_left]

/-- A line is run as the list of what is left has it, and what follows it is left. -/
theorem Fits.line {cfg : Config} {env : Env} {c c' : Conn} {g g' : Globals} {text cont : Bytes} {rtn : Int} (h : b.Fits)
    (htext : b.window = text) (hd : text.dropWhile (· != LF) = LF :: cont)
    (hc : processCommand cfg env { c with out := [] } g (cText (chopLine (text.takeWhile (· != LF)))) (cText cont) = some (c', g', rtn)) :
    ∃ b', b.tryReadAscii cfg env c g = some b' ∧ b'.Fits ∧ b'.window = (if rtn = 1 then [] else cont) ∧
      ∀ it off, c'.ritem = .item it off → b'.ritem = none := by
  subst htext
  cases hr : b.rcurr with
  | none =>
    rw [window, hr] at hd
    cases hd
  | some r =>
    have hin := h.inside r hr
    have hw := window_at hr
    have hsplit := List.takeWhile_append_dropWhile (p := (· != LF)) (l := b.window)
    rw [hd, hw] at hsplit
    rw [hw] at hd hc
    generalize hline : (slice b.mem r b.rbytes).takeWhile (· != LF) = line at hsplit hc
    have hlen := congrArg List.length hsplit
    rw [List.length_append, List.length_cons, length_slice] at hlen
    have hel := b.lineEnd_le r line.length
    have hcommand : slice (blit b.mem (b.lineEnd r line.length) [0]) r (b.lineEnd r line.length - r) = chopLine line := by
      have hslice : slice b.mem r line.length = line := by
        rw [← take_slice (show line.length ≤ b.rbytes by omega), ← hsplit, List.take_left' rfl]
      rw [slice_blit_of_disjoint (.inl (by omega)), slice_lineEnd, hslice]
    have hstore : b.store (b.lineEnd r line.length) [0] = some { b with mem := blit b.mem (b.lineEnd r line.length) [0] } :=
      store_eq (show b.lineEnd r line.length + 1 ≤ b.size by omega)
    generalize hmem : blit b.mem (b.lineEnd r line.length) [0] = mem at hcommand hstore
    have hload : ({ b with mem := mem } : ReadBuffer).load r (b.lineEnd r line.length - r) = some (chopLine line) := by
      have hle : r + (b.lineEnd r line.length - r) ≤ b.size := by omega
      exact (load_eq (b := { b with mem := mem }) hle).trans (congrArg some hcommand)
    have hrun : b.tryReadAscii cfg env c g = some (({ b with mem := mem } : ReadBuffer).takeLine r line.length rtn |>.pointTo c'.ritem) := by
      rw [ReadBuffer.tryReadAscii, if_neg (show ¬b.rbytes = 0 by omega), hr]
      simp only [load_eq hin, hd, hline, hstore, hload, hc, Option.bind_eq_bind, Option.bind_some]
      rfl
    have hcont : slice mem (r + line.length + 1) (b.rbytes - (line.length + 1)) = cont := by
      have hdrop := @drop_slice b.mem r _ _ (show line.length + 1 ≤ b.rbytes by omega)
      rw [← hsplit, ← List.singleton_append, ← List.append_assoc, List.drop_left' (by simp)] at hdrop
      rw [hdrop, ← hmem]
      exact slice_blit_of_disjoint (.inr (by simp only [List.length_singleton]; omega))
    have hfits : (({ b with mem := mem } : ReadBuffer).takeLine r line.length rtn).Fits ∧
        (({ b with mem := mem } : ReadBuffer).takeLine r line.length rtn).window = if rtn = 1 then [] else cont := by
      unfold takeLine
      split
      · exact ⟨⟨h.low, h.high, fun _ hr' => absurd hr' (Option.some_ne_none _).symm, fun _ => rfl⟩, rfl⟩
      · refine ⟨⟨h.low, h.high, fun r' hr' => ?_, fun hr' => absurd hr' (Option.some_ne_none _)⟩, hcont⟩
        obtain rfl : r + line.length + 1 = r' := Option.some.inj hr'
        show r + line.length + 1 + (b.rbytes - (line.length + 1)) ≤ b.size
        omega
    refine ⟨_, hrun, ?_, ?_, ?_⟩
    · cases c'.ritem with
      | item it off => exact ⟨hfits.1.low, hfits.1.high, hfits.1.inside, hfits.1.outside⟩
      | packet got => exact hfits.1
    · cases c'.ritem with
      | item it off => exact hfits.2
      | packet got => exact hfits.2
    · intro it off hi
      rw [hi]
      rfl

/-- The search for a word leaves the buffer where all that is behind `ptr` is blank. -/
theorem skipBlanks_none {ptr : Nat} : b.skipBlanks ptr = none ↔ ∀ x ∈ slice b.mem ptr (b.size - ptr), x = space := by
  rw [skipBlanks, Option.map_eq_none_iff, List.findIdx?_eq_none_iff]
  simp

/-- The word itself is compared within what has been read. -/
theorem isMultiget_none {r : Nat} (hin : r + b.rbytes ≤ b.size) (hlong : 1024 < b.rbytes) :
    b.isMultiget r = none ↔ ∀ x ∈ slice b.mem r (b.size - r), x = space := by
  rw [← skipBlanks_none]
  cases hs : b.skipBlanks r with
  | none => simp [isMultiget, hs]
  | some ptr =>
    simp only [isMultiget, hs, Option.bind_eq_bind, Option.bind_some, reduceCtorEq, iff_false]
    split
    · simp
    · next hptr =>
      rw [load_eq (by omega), load_eq (by omega)]
      simp

/-- What is taken as text is read within the buffer, except where a text of more than 1024 bytes without a line
end is blank, and the buffer behind it. -/
theorem text_leaves_buffer {cfg : Config} {env : Env} {c : Conn} {g : Globals} (h : b.Fits)
    (hruns : LF ∈ b.window → ∃ out, processCommand cfg env { c with out := [] } g (cText (chopLine (b.window.takeWhile (· != LF))))
      (cText (b.window.dropWhile (· != LF)).tail) = some out) :
    b.tryReadAscii cfg env c g = none ↔
      1024 < b.rbytes ∧ LF ∉ b.window ∧ ∃ r, b.rcurr = some r ∧ ∀ x ∈ slice b.mem r (b.size - r), x = space := by
  cases hd : b.window.dropWhile (· != LF) with
  | nil =>
    have hlf : LF ∉ b.window := by
      intro hmem
      simpa using List.dropWhile_eq_nil_iff.mp hd _ hmem
    cases hr : b.rcurr with
    | none =>
      have hzero := h.outside hr
      simp [tryReadAscii, hzero]
    | some r =>
      have hin := h.inside r hr
      have hnil : (slice b.mem r b.rbytes).dropWhile (· != LF) = [] := by rw [← window_at hr, hd]
      rw [tryReadAscii]
      by_cases hzero : b.rbytes = 0
      · simp [hzero]
      · simp only [if_neg hzero, hr, load_eq hin, hnil, Option.bind_eq_bind, Option.bind_some]
        by_cases hlong : 1024 < b.rbytes
        · have hblank := isMultiget_none hin hlong
          cases hm : b.isMultiget r with
          | none =>
            have hall := hblank.mp hm
            simp only [if_pos hlong, Option.bind_none, true_iff]
            exact ⟨hlong, hlf, r, rfl, hall⟩
          | some multi =>
            have hword : ¬∀ x ∈ slice b.mem r (b.size - r), x = space := fun hall => by simp [hblank.mpr hall] at hm
            simp only [if_pos hlong, Option.bind_some, reduceCtorEq, Option.some.injEq, exists_eq_left', hword, and_false]
        · simp [hlong]
  | cons y cont =>
    have hy : y = LF := by
      have hhead := List.head?_dropWhile_not (p := (· != LF)) b.window
      simpa [hd] using hhead
    subst hy
    have hlf : LF ∈ b.window := (List.dropWhile_suffix _).subset (hd ▸ List.mem_cons_self)
    obtain ⟨⟨c', g', rtn⟩, hc⟩ := hruns hlf
    obtain ⟨b', hb, _⟩ := h.line rfl hd (by rwa [hd] at hc)
    rw [hb]
    simp [hlf]

/-- A buffer that is full of blanks. -/
def blanks (n : Nat) : ReadBuffer := ⟨fun _ => space, n, some 0, n, none⟩

theorem mem_slice_blanks {n off len : Nat} {x : UInt8} (h : x ∈ slice (blanks n).mem off len) : x = space := by
  obtain ⟨_, _, hx⟩ := List.mem_map.mp h
  exact hx.symm

theorem text_leaves_buffer_blanks :
    (blanks 2048).tryReadAscii smallServer default (connNew smallServer 4096 .newCmd .tcp) (globalsInit 16) = none := by
  have hfits : (blanks 2048).Fits := ⟨by decide, by decide, fun r hr => by cases hr; decide, fun hr => by cases hr⟩
  have hlf : LF ∉ (blanks 2048).window := fun hmem => absurd (mem_slice_blanks hmem) (by decide)
  exact (text_leaves_buffer hfits fun h => absurd h hlf).mpr ⟨by decide, hlf, 0, rfl, fun _ => mem_slice_blanks⟩

end ReadBuffer
end RamCube
