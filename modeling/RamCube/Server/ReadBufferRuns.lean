import RamCube.Server.HandlerFrames
import RamCube.Server.ReadBufferOps
import RamCube.Server.ReferenceTurns

/-! # A connection with its read buffer (memcached.c)

`drive_machine` on the list of the bytes that are left and on the buffer that they lie in, turn by
turn. Whatever the calls of a turn return, the buffer is not left, and the list and the request
that is read in place are in it. -/
namespace RamCube

variable {cfg : Config} {env : Env} {b b' : ReadBuffer} {c c' : Conn} {s' : Session} {S : Buffered} {e : Calls}

/-! ## Turns -/

/-- What the calls of a turn return: the one of the list model, those of `try_read_network` and `realloc`. -/
structure Calls where
  inp : Input
  network : NetworkCalls
  realloc : Realloc

structure Buffered where
  s : Session
  b : ReadBuffer

/-- `read` gives no more than it is asked for. A negative count is a huge one. -/
def Input.upTo (count : Int) (room : Nat) : Input → Input
  | .data bs => .data (if count < 0 then bs else bs.take (min count.toNat room))
  | inp => inp

namespace Buffered

variable (S : Buffered) (e : Calls)

/-- The result that `try_read_network` has for the session. -/
def networkInput : Input :=
  match S.b.tryReadNetwork e.network with
  | some (_, .READ_DATA_RECEIVED bs) => .data bs
  | some (_, .READ_NO_DATA_RECEIVED) => .again
  | some (_, .READ_ERROR eof) => if eof then .data [] else .error
  | some (_, .READ_MEMORY_ERROR) => .noMemory
  | none => .go

/-- The input of the turn of the session. -/
def input : Input :=
  if S.s.stop then e.inp
  else match S.s.c.state with
    | .read => S.networkInput e
    | .nread => e.inp.upTo S.s.c.rlbytes S.s.c.rlbytes.toNat
    | .swallow => e.inp.upTo S.s.c.sbytes S.b.size
    | _ => e.inp

section

variable (cfg : Config) (env : Env)

/-- The turn of `conn_nread` on the buffer. `memmove` and `read` take a negative count for one that
is larger than the buffer. -/
def nreadBuffer : Option ReadBuffer :=
  match S.input e with
  | .go =>
    if S.s.c.rlbytes = 0 then (completeNreadConn cfg env S.s.c S.s.g).map fun r => S.b.pointTo r.1.ritem
    else if S.b.rbytes = 0 then some S.b
    else if S.s.c.rlbytes < 0 then none
    else S.b.copyLeftovers (min S.b.rbytes S.s.c.rlbytes.toNat)
  | .data bs =>
    if S.s.c.rlbytes = 0 ∨ S.b.rbytes ≠ 0 ∨ bs = [] then some S.b
    else if S.s.c.rlbytes < 0 then none
    else S.b.readItem S.s.c.rlbytes.toNat bs
  | _ => some S.b

/-- The turn of `conn_swallow` on the buffer. A negative count takes `rcurr` out of it. -/
def swallowBuffer : Option ReadBuffer :=
  match S.input e with
  | .go =>
    if S.s.c.sbytes = 0 ∨ S.b.rbytes = 0 then some S.b
    else if S.s.c.sbytes < 0 then none
    else some (S.b.advance (min S.b.rbytes S.s.c.sbytes.toNat))
  | .data bs =>
    if S.s.c.sbytes = 0 ∨ S.b.rbytes ≠ 0 ∨ bs = [] then some S.b
    else if S.s.c.sbytes < 0 then none
    else S.b.store 0 bs
  | _ => some S.b

/-- What a turn of `drive_machine` does to the buffer. -/
def bufferTurn : Option ReadBuffer :=
  if S.s.stop then some S.b
  else match S.s.c.state with
    | .newCmd => if e.inp = .go ∧ 0 ≤ S.s.nreqs - 1 then S.b.connShrink e.realloc else some S.b
    | .read => (S.b.tryReadNetwork e.network).map Prod.fst
    | .parseCmd => if e.inp = .go then S.b.tryReadCommand cfg env S.s.c S.s.g e.realloc else some S.b
    | .nread => S.nreadBuffer e cfg env
    | .swallow => S.swallowBuffer e
    | .waiting | .write | .mwrite | .closing | .closed => some S.b

end
end Buffered

/-- A turn of both. -/
def bufferedTurn (cfg : Config) (S : Buffered) (a : Env × Calls) : Option Buffered := do
  let s ← S.s.turn cfg a.1 (S.input a.2)
  let b ← S.bufferTurn a.2 cfg a.1
  return ⟨s, b⟩

def BufferedStep (cfg : Config) (S : Buffered) (a : Env × Calls) (S' : Buffered) : Prop := bufferedTurn cfg S a = some S'

/-- The buffer is no larger than it may be when more is read, and a long text is not all blank. -/
@[mk_iff]
structure Moderate (S : Buffered) : Prop where
  small : S.s.c.state = .read → S.b.size < 2 ^ 27
  text : S.s.c.state = .parseCmd → (negotiate S.s.c).protocol ≠ .binary → LF ∉ S.s.c.rbuf → 1024 < S.s.c.rbuf.length →
    ∃ x ∈ S.s.c.rbuf, x ≠ space

instance (S : Buffered) : Decidable (Moderate S) := decidable_of_iff' _ (moderate_iff S)

/-! ## What holds between turns -/

/-- Before the protocol is known nothing is taken from the buffer. -/
def FirstRead (b : ReadBuffer) (c : Conn) : Prop :=
  c.protocol = .negotiating → c.rbuf = [] ∧ c.state ≠ .parseCmd ∨ c.state ∈ [.closing, .closed] ∨
    c.state ∈ [.waiting, .read, .parseCmd] ∧ c.rbuf ≠ [] ∧ c.rbuf0 = c.rbuf.getD 0 0 ∧ b.rcurr = some 0

/-- A request whose extras and key are being read, as long as its header says. -/
structure KeyPart (b : ReadBuffer) (c : Conn) (got : Bytes) : Prop where
  nonneg : 0 ≤ c.rlbytes
  length : (got.length : Int) + c.rlbytes = c.binaryHeader.keylen.toNat + c.binaryHeader.extlen.toNat
  keylen : c.keylen = c.binaryHeader.keylen.toNat
  inPlace : b.InPlace got c.rlbytes.toNat

/-- The buffer holds what the connection has read: the bytes that are left, and what came of a request in place. -/
structure BufferOk (b : ReadBuffer) (c : Conn) : Prop where
  tcp : c.transport ≠ .udp
  fits : b.Fits
  window : c.state ∉ [.closing, .closed] → b.window = c.rbuf
  packet : c.state = .nread → ∀ got, c.ritem = .packet got → KeyPart b c got
  item : c.state = .nread → ∀ it off, c.ritem = .item it off → b.ritem = none
  first : FirstRead b c

theorem FirstRead.of_protocol (h : c.protocol ≠ .negotiating) : FirstRead b c := fun hp => absurd hp h

theorem FirstRead.of_closing (h : c.state ∈ [.closing, .closed]) : FirstRead b c := fun _ => .inr (.inl h)

/-- Elsewhere nothing is left. -/
theorem FirstRead.empty (h : FirstRead b c) (hs : c.state ∉ [.waiting, .read, .parseCmd, .closing, .closed]) (hp : c.protocol = .negotiating) :
    c.rbuf = [] := by
  obtain h | h | h := h hp
  · exact h.1
  · exact absurd (List.mem_append_right [ConnState.waiting, .read, .parseCmd] h) hs
  · exact absurd (List.mem_append_left [ConnState.closing, .closed] h.1) hs

theorem BufferOk.empty (h : BufferOk b c) (hs : c.state ∉ [.closing, .closed]) : b.rbytes = 0 ↔ c.rbuf = [] := by
  rw [← h.window hs, ← h.fits.length_window, List.length_eq_zero_iff]

/-- A connection that is closed needs no bytes. -/
theorem BufferOk.of_closing (ht : c.transport ≠ .udp) (hf : b.Fits) (hs : c.state ∈ [.closing, .closed]) : BufferOk b c where
  tcp := ht
  fits := hf
  window hn := absurd hs hn
  packet hn := by
    rw [hn] at hs
    exact absurd hs (by decide)
  item hn := by
    rw [hn] at hs
    exact absurd hs (by decide)
  first := .of_closing hs

/-- A turn that reads to no place. -/
theorem BufferOk.of_window (ht : c.transport ≠ .udp) (hf : b.Fits) (hw : b.window = c.rbuf) (hn : c.state ≠ .nread)
    (hfirst : FirstRead b c) : BufferOk b c where
  tcp := ht
  fits := hf
  window _ := hw
  packet hs := absurd hs hn
  item hs := absurd hs hn
  first := hfirst

theorem resetCmdHandler_state (cfg : Settings) (c : Conn) (g : Globals) :
    (resetCmdHandler cfg c g).1.state = if 0 < c.rbuf.length then .parseCmd else .waiting := by
  unfold resetCmdHandler Conn.dropItem
  cases c.item <;> rfl

section

variable {inp : Input} (h : BufferOk S.b S.s.c)
include h

theorem newCmdTurn_buffer (realloc : Realloc) (hs : S.s.c.state = .newCmd) (ht : S.s.newCmdTurn cfg inp = some s') :
    ∃ b', (if inp = .go ∧ 0 ≤ S.s.nreqs - 1 then S.b.connShrink realloc else some S.b) = some b' ∧ BufferOk b' s'.c := by
  have hopen : S.s.c.state ∉ [.closing, .closed] := by simp [hs]
  have hempty : S.s.c.protocol = .negotiating → S.s.c.rbuf = [] := h.first.empty (by simp [hs])
  cases inp with
  | go =>
    simp only [Session.newCmdTurn] at ht
    split at ht
    · next hreqs =>
      cases ht
      obtain ⟨b', hshrink, hkept⟩ := h.fits.connShrink realloc
      obtain ⟨hr, htr, hp, _⟩ := resetCmdHandler_same cfg.toSettings S.s.c S.s.g
      have hstate := resetCmdHandler_state cfg.toSettings S.s.c S.s.g
      refine ⟨b', by rw [if_pos ⟨rfl, hreqs⟩, hshrink], .of_window (htr ▸ h.tcp) hkept.fits ?_ ?_ ?_⟩
      · rw [hkept.window, h.window hopen, hr]
      · rw [hstate]
        split <;> exact fun h => by cases h
      · intro hneg
        have h0 := hempty (hp ▸ hneg)
        refine .inl ⟨hr.trans h0, ?_⟩
        rw [hstate, h0]
        exact fun h => by cases h
    · next hreqs =>
      cases ht
      exact ⟨S.b, if_neg fun h => hreqs h.2, h⟩
  | eventFailed =>
    simp only [Session.newCmdTurn] at ht
    split at ht <;> cases ht
    · exact ⟨S.b, if_neg (by simp), .of_closing h.tcp h.fits (by simp [Session.setState])⟩
    · exact ⟨S.b, if_neg (by simp), h⟩
  | event | data _ | wrote _ | again | error | noMemory =>
    cases ht
    exact ⟨S.b, if_neg (by simp), h⟩

theorem waitingTurn_buffer (hs : S.s.c.state = .waiting) (ht : S.s.waitingTurn inp = some s') : BufferOk S.b s'.c := by
  have hopen : S.s.c.state ∉ [.closing, .closed] := by simp [hs]
  cases inp with
  | go =>
    cases ht
    refine .of_window h.tcp h.fits (h.window hopen) (fun h => by cases h) fun hneg => ?_
    obtain h0 | h0 | h0 := h.first hneg
    · exact .inl ⟨h0.1, fun h => by cases h⟩
    · exact absurd h0 hopen
    · exact .inr (.inr ⟨by simp [Session.setState], h0.2⟩)
  | eventFailed =>
    cases ht
    exact .of_closing h.tcp h.fits (by simp [Session.setState])
  | event | data _ | wrote _ | again | error | noMemory =>
    cases ht
    exact h

theorem readTurn_buffer (hsmall : S.b.size < 2 ^ 27) (hs : S.s.c.state = .read) (ht : S.s.readTurn (S.networkInput e) = some s') :
    ∃ b', (S.b.tryReadNetwork e.network).map Prod.fst = some b' ∧ BufferOk b' s'.c := by
  have hopen : S.s.c.state ∉ [.closing, .closed] := by simp [hs]
  obtain ⟨b', res, he, hfits, hr0, hto⟩ := h.fits.tryReadNetwork hsmall e.network
  rw [h.window hopen] at hto
  rw [Buffered.networkInput, he] at ht
  refine ⟨b', by rw [he, Option.map_some], ?_⟩
  cases res with
  | READ_DATA_RECEIVED bs =>
    obtain ⟨hne, hw⟩ := hto
    simp only [Session.readTurn, if_neg h.tcp, if_neg hne] at ht
    cases ht
    refine .of_window h.tcp hfits hw (fun h => by cases h) fun _ => .inr (.inr ⟨by simp [tryReadNetwork], ?_, rfl, hr0⟩)
    exact fun hnil => hne (List.append_eq_nil_iff.mp hnil).2
  | READ_NO_DATA_RECEIVED =>
    cases ht
    refine .of_window h.tcp hfits hto (fun h => by cases h) fun hneg => ?_
    obtain h0 | h0 | h0 := h.first hneg
    · exact .inl ⟨h0.1, fun h => by cases h⟩
    · exact absurd h0 hopen
    · exact .inr (.inr ⟨by simp [Session.setState], h0.2.1, h0.2.2.1, hr0⟩)
  | READ_ERROR eof =>
    cases eof with
    | true =>
      simp only [Session.readTurn, if_neg h.tcp, if_true] at ht
      cases ht
      exact .of_closing h.tcp hfits (by simp [Session.setState])
    | false =>
      simp only [Session.readTurn, if_neg h.tcp, Bool.false_eq_true, if_false] at ht
      cases ht
      exact .of_closing h.tcp hfits (by simp [Session.setState])
  | READ_MEMORY_ERROR =>
    simp only [Session.readTurn, if_neg h.tcp] at ht
    cases ht
    have hout := handled_outString { S.s.c with rbuf := [] } (ascii "SERVER_ERROR out of memory reading request")
    have hcore := core_outString { S.s.c with rbuf := [] } (ascii "SERVER_ERROR out of memory reading request")
    have hrbuf : (readMemoryError S.s.c).rbuf = [] := core_field Conn.rbuf (fun _ => rfl) hcore
    have hnext := outString_next { S.s.c with rbuf := [] } (ascii "SERVER_ERROR out of memory reading request")
    have hstate : (readMemoryError S.s.c).state = .newCmd ∨ (readMemoryError S.s.c).state = .write := hnext.imp id And.left
    refine .of_window ?_ hfits (hto.trans hrbuf.symm) ?_ fun _ => .inl ⟨hrbuf, ?_⟩
    · exact fun hu => h.tcp (hout.transport.symm.trans hu)
    · obtain hstate | hstate := hstate <;> rw [hstate] <;> exact fun h => by cases h
    · obtain hstate | hstate := hstate <;> rw [hstate] <;> exact fun h => by cases h

end

/-! ## Commands -/

theorem negotiate_settled (c : Conn) : (negotiate c).protocol ≠ .negotiating := by
  unfold negotiate
  split
  · dsimp only
    split <;> exact fun h => by cases h
  · next h => exact fun hp => h (.inl hp)

/-- The first byte of the buffer is the first that came. -/
theorem BufferOk.negotiate (h : BufferOk b c) (hs : c.state = .parseCmd) : b.negotiate c = RamCube.negotiate c := by
  unfold ReadBuffer.negotiate RamCube.negotiate
  split
  swap
  · rfl
  next hneg =>
  have hp := hneg.resolve_right h.tcp
  obtain ⟨_, h0⟩ | h0 | ⟨_, hne, hfirst, hr⟩ := h.first hp
  · exact absurd hs h0
  · rw [hs] at h0
    exact absurd h0 (by decide)
  · have hw := h.window (by simp [hs])
    rw [ReadBuffer.window_at hr] at hw
    have hpos : 0 < b.rbytes := by
      rw [← @length_slice b.mem 0 b.rbytes, hw]
      exact List.length_pos_iff.mpr hne
    obtain ⟨n, hn⟩ := Nat.exists_eq_add_of_lt hpos
    have hmem : c.rbuf0 = b.mem 0 := by
      rw [hfirst, ← hw, hn, Nat.zero_add, Nat.add_comm n 1, slice_add]
      rfl
    rw [hmem]

/-- The binary branch. -/
theorem tryReadBinary_buffer {g : Globals} {c₁ : Conn} (realloc : Realloc) (h : BufferOk b c) (hs : c.state ∉ [.closing, .closed])
    (hb : c.protocol = .binary) (hc : c₁ = if (tryReadBinary cfg c g).more then { (tryReadBinary cfg c g).c with state := .waiting }
      else (tryReadBinary cfg c g).c) : ∃ b', b.tryReadBinary cfg c realloc = some b' ∧ BufferOk b' c₁ := by
  have hw := h.window hs
  have hlen : c.rbuf.length = b.rbytes := by rw [← hw, h.fits.length_window]
  have hfirst : ∀ {b : ReadBuffer} {c' : Conn}, c'.protocol = c.protocol → FirstRead b c' := fun hp =>
    .of_protocol (by rw [hp, hb]; exact fun h => by cases h)
  unfold tryReadBinary at hc
  rw [hlen] at hc
  unfold ReadBuffer.tryReadBinary
  by_cases hshort : b.rbytes < HEADER_SIZE
  · rw [if_pos hshort] at hc ⊢
    rw [hc]
    exact ⟨b, rfl, .of_window h.tcp h.fits hw (fun h => by cases h) (hfirst rfl)⟩
  rw [if_neg hshort] at hc ⊢
  cases hr : b.rcurr with
  | none =>
    have h0 := h.fits.outside hr
    exact absurd (h0 ▸ (by decide)) hshort
  | some r =>
    have hin := h.fits.inside r hr
    have hload : b.load r HEADER_SIZE = some (c.rbuf.take HEADER_SIZE) := by
      rw [ReadBuffer.load_eq (by omega), ← hw, ReadBuffer.window_at hr, take_slice (by omega)]
    simp only [hload, Option.bind_eq_bind, Option.bind_some]
    dsimp only at hc
    generalize parseHeader (c.rbuf.take HEADER_SIZE) = hdr at hc ⊢
    by_cases hmagic : hdr.magic ≠ 0x80
    · rw [if_pos hmagic] at hc ⊢
      rw [hc]
      exact ⟨b, rfl, .of_closing h.tcp h.fits (by simp)⟩
    rw [if_neg hmagic] at hc ⊢
    have htaken : TakenUp (startRequest c hdr) (dispatchBinCommand cfg (startRequest c hdr)) := dispatchBinCommand_takenUp rfl
    generalize dispatchBinCommand cfg (startRequest c hdr) = c' at hc htaken ⊢
    have hc₁ : c₁ = { c' with rbuf := c'.rbuf.drop HEADER_SIZE } := hc
    subst hc₁
    have hrest : ∀ {b' : ReadBuffer}, b'.window = b.window → (b'.window.drop HEADER_SIZE) = c'.rbuf.drop HEADER_SIZE := by
      intro b' hb'
      rw [hb', hw, htaken.rbuf]
      rfl
    have htcp : c'.transport ≠ .udp := htaken.transport ▸ h.tcp
    by_cases hn : c'.state = .nread
    · obtain ⟨hpacket, hhdr, hkeylen, hrl, hmax⟩ := htaken.key hn
      have hext := hdr.extlen.toNat_lt
      have hfit : c'.rlbytes.toNat + HEADER_SIZE ≤ DATA_BUFFER_SIZE := by
        have hmax' : hdr.keylen.toNat ≤ 250 := hmax
        have hrl' : c'.rlbytes = hdr.keylen.toNat + hdr.extlen.toNat := hrl
        show c'.rlbytes.toNat + 24 ≤ 2048
        omega
      obtain ⟨b', hread, hkept, hbytes, hroom⟩ := h.fits.binReadKey hfit (Nat.not_lt.mp hshort) realloc
      obtain ⟨hfits, hwindow⟩ := hkept.fits.advance (n := HEADER_SIZE) (by omega)
      rw [if_pos hn, hread]
      refine ⟨b'.advance HEADER_SIZE, rfl, htcp, hfits, fun _ => hwindow.trans (hrest hkept.window), fun _ got hgot => ?_,
        fun _ it off hi => ?_, hfirst (htaken.protocol)⟩
      · obtain rfl : [] = got := ReadItem.packet.inj (hpacket.symm.trans hgot)
        refine ⟨?_, ?_, hkeylen.trans (congrArg (fun h => h.keylen.toNat) hhdr).symm, hroom.inPlace⟩
        · show 0 ≤ c'.rlbytes
          rw [hrl]
          omega
        · show ((0 : Nat) : Int) + c'.rlbytes = _
          rw [hrl, hhdr, Int.natCast_zero, Int.zero_add]
      · exact absurd (hpacket.symm.trans hi) (fun h => by cases h)
    · obtain ⟨hfits, hwindow⟩ := h.fits.advance (n := HEADER_SIZE) (Nat.not_lt.mp hshort)
      rw [if_neg hn]
      exact ⟨b.advance HEADER_SIZE, rfl, .of_window htcp hfits (hwindow.trans (hrest rfl)) hn (hfirst htaken.protocol)⟩

/-- The text branch. -/
theorem tryReadAscii_buffer {g : Globals} {p : Parsed} (h : BufferOk b c) (hs : c.state ∉ [.nread, .closing, .closed])
    (hneg : c.protocol ≠ .negotiating) (htext : LF ∉ c.rbuf → 1024 < c.rbuf.length → ∃ x ∈ c.rbuf, x ≠ space)
    (hp : tryReadAscii cfg env c g = some p) :
    ∃ b', b.tryReadAscii cfg env c g = some b' ∧ BufferOk b' (if p.more then { p.c with state := .waiting } else p.c) := by
  have hopen : c.state ∉ [.closing, .closed] := fun hc => hs (List.mem_cons_of_mem _ hc)
  have hn : c.state ≠ .nread := fun hc => hs (by simp [hc])
  have hw := h.window hopen
  have hlen : c.rbuf.length = b.rbytes := by rw [← hw, h.fits.length_window]
  by_cases hlf : LF ∈ c.rbuf
  · obtain ⟨cont, hd⟩ : ∃ cont, c.rbuf.dropWhile (· != LF) = LF :: cont := ⟨_, dropWhile_nextLine (s := connSession c g) hlf⟩
    rw [tryReadAscii_line hd] at hp
    obtain ⟨⟨c', g', rtn⟩, hproc, rfl⟩ := Option.map_eq_some_iff.mp hp
    obtain ⟨b', hline, hfits, hwindow, hitem⟩ := h.fits.line hw hd hproc
    have hhandled : Handled c c' := (processCommand_handled (c := { c with out := [] }) hn hproc).after rfl rfl
    refine ⟨b', hline, hhandled.transport ▸ h.tcp, hfits, fun _ => hwindow, fun hs' got hgot => ?_, fun _ => hitem, ?_⟩
    · obtain ⟨it, off, hi⟩ := hhandled.value hs'
      exact absurd (hi.symm.trans hgot) (fun h => by cases h)
    · exact .of_protocol (by rw [if_neg Bool.false_ne_true]; exact hhandled.protocol ▸ hneg)
  · have hd : c.rbuf.dropWhile (· != LF) = [] := by
      rw [List.dropWhile_eq_nil_iff]
      exact fun x hx => bne_iff_ne.mpr fun he => hlf (he ▸ hx)
    rw [tryReadAscii_no_line hd] at hp
    have hbuffer : b.tryReadAscii cfg env c g = some b := by
      unfold ReadBuffer.tryReadAscii
      split
      · rfl
      · next h0 =>
        cases hr : b.rcurr with
        | none => exact absurd (h.fits.outside hr) h0
        | some r =>
          have hload : b.load r b.rbytes = some c.rbuf := by
            rw [ReadBuffer.load_eq (h.fits.inside r hr), ← ReadBuffer.window_at hr, hw]
          simp only [hload, hd, Option.bind_eq_bind, Option.bind_some]
          split
          · next hlong =>
            have hmulti := ReadBuffer.isMultiget_window hr h.fits hlong (by rw [hw]; exact htext hlf (hlen ▸ hlong))
            rw [hmulti]
            rfl
          · rfl
    refine ⟨b, hbuffer, ?_⟩
    split at hp <;> cases hp
    · exact .of_closing h.tcp h.fits (by simp)
    · exact .of_window h.tcp h.fits hw (fun h => by cases h) (.of_protocol hneg)

theorem parseTurn_buffer {inp : Input} (h : BufferOk S.b S.s.c) (hm : Moderate S) (realloc : Realloc) (hs : S.s.c.state = .parseCmd)
    (ht : S.s.parseTurn cfg env inp = some s') :
    ∃ b', (if inp = .go then S.b.tryReadCommand cfg env S.s.c S.s.g realloc else some S.b) = some b' ∧ BufferOk b' s'.c := by
  cases inp with
  | go =>
    obtain ⟨p, hp, rfl⟩ := Option.map_eq_some_iff.mp ht
    have hn := h.negotiate hs
    have hstate : (negotiate S.s.c).state = .parseCmd := (negotiate_state S.s.c).trans hs
    have hopen : (negotiate S.s.c).state ∉ [.closing, .closed] := by simp [hstate]
    have hw := h.window (by simp [hs])
    have hneg : BufferOk S.b (negotiate S.s.c) := by
      refine .of_window ((negotiate_same S.s.c).2.1 ▸ h.tcp) h.fits ?_ (by simp [hstate]) (.of_protocol (negotiate_settled _))
      rw [hw, (negotiate_same S.s.c).1]
    rw [if_pos rfl, ReadBuffer.tryReadCommand, hn]
    unfold tryReadCommand at hp
    dsimp only at hp ⊢
    by_cases hb : (negotiate S.s.c).protocol = .binary
    · rw [if_pos hb] at hp ⊢
      cases hp
      exact tryReadBinary_buffer realloc hneg hopen hb rfl
    · rw [if_neg hb] at hp ⊢
      refine tryReadAscii_buffer hneg (by simp [hstate]) (negotiate_settled _) ?_ hp
      rw [(negotiate_same S.s.c).1]
      exact hm.text hs hb
  | event | data _ | wrote _ | again | error | noMemory | eventFailed =>
    cases ht
    exact ⟨S.b, if_neg (by simp), h⟩

/-! ## Blocks and what is swallowed -/

theorem take_min (bs : Bytes) (n : Nat) : bs.take (min bs.length n) = bs.take n := by
  rw [List.take_eq_take_iff]
  omega

theorem drop_min (bs : Bytes) (n : Nat) : bs.drop (min bs.length n) = bs.drop n := by
  obtain h | h := Nat.le_total bs.length n
  · rw [Nat.min_eq_left h, List.drop_length, List.drop_of_length_le h]
  · rw [Nat.min_eq_right h]

/-- Bytes of a request that came in place. -/
theorem KeyPart.receive {got bs : Bytes} {g : Globals} {b' : ReadBuffer} (h : KeyPart b c got) (hr : c.ritem = .packet got)
    (hl : bs.length ≤ c.rlbytes) (hin : b'.InPlace (got ++ bs) (c.rlbytes.toNat - bs.length)) :
    (receive c g bs).1.ritem = .packet (got ++ bs) ∧ KeyPart b' (receive c g bs).1 (got ++ bs) := by
  have h0 := h.nonneg
  have hlen := h.length
  simp only [RamCube.receive, hr]
  refine ⟨trivial, ?_, ?_, h.keylen, ?_⟩
  · show 0 ≤ c.rlbytes - bs.length
    omega
  · show ((got ++ bs).length : Int) + (c.rlbytes - bs.length) = c.binaryHeader.keylen.toNat + c.binaryHeader.extlen.toNat
    rw [List.length_append]
    omega
  · have hsub : (c.rlbytes - bs.length).toNat = c.rlbytes.toNat - bs.length := by omega
    show b'.InPlace (got ++ bs) (c.rlbytes - bs.length).toNat
    rwa [hsub]

/-- The bytes of a turn of `conn_nread`, in the place where they belong. -/
theorem BufferOk.received {bs rest : Bytes} {g : Globals} (h : BufferOk b c) (hs : c.state = .nread) (hfits : b'.Fits)
    (hwindow : b'.window = rest) (hrest : c.rbuf = [] → rest = []) (hl : bs.length ≤ c.rlbytes)
    (hpacket : ∀ got, c.ritem = .packet got → b'.InPlace (got ++ bs) (c.rlbytes.toNat - bs.length))
    (hitem : b.ritem = none → b'.ritem = none) : BufferOk b' { (receive c g bs).1 with rbuf := rest } := by
  obtain ⟨⟨htr, hp⟩, _, hstate, _⟩ := receive_same (c := c) (g := g) bs
  have hnil : c.protocol = .negotiating → c.rbuf = [] := h.first.empty (by simp [hs])
  refine ⟨htr ▸ h.tcp, hfits, fun _ => hwindow, fun _ got' hgot' => ?_, fun _ it off' hi => ?_, fun hneg => .inl ⟨?_, ?_⟩⟩
  · cases hr : c.ritem with
    | packet got =>
      obtain ⟨hri, hpart⟩ := (h.packet hs got hr).receive (g := g) hr hl (hpacket got hr)
      obtain rfl : got ++ bs = got' := ReadItem.packet.inj (hri.symm.trans hgot')
      exact ⟨hpart.nonneg, hpart.length, hpart.keylen, hpart.inPlace⟩
    | item it off =>
      simp only [receive, hr] at hgot'
      exact absurd hgot' (fun h => by cases h)
  · cases hr : c.ritem with
    | packet got =>
      simp only [receive, hr] at hi
      exact absurd hi (fun h => by cases h)
    | item it off => exact hitem (h.item hs it off hr)
  · exact hrest (hnil (hp.symm.trans hneg))
  · show (receive c g bs).1.state ≠ _
    rw [hstate, hs]
    exact fun h => by cases h

theorem copyLeftovers_item {n : Nat} (h : b.Fits) (hi : b.ritem = none) (hn : n ≤ b.rbytes) (hb : b.rbytes ≠ 0) :
    b.copyLeftovers n = some (b.advance n) := by
  cases hr : b.rcurr with
  | none => exact absurd (h.outside hr) hb
  | some r =>
    have hin := h.inside r hr
    simp [ReadBuffer.copyLeftovers, hr, hi, ReadBuffer.load_eq (show r + n ≤ b.size by omega)]

/-- `complete_nread` takes nothing from the buffer. -/
theorem BufferOk.completed {g g' : Globals} (h : BufferOk b c) (hs : c.state = .nread)
    (hc : completeNreadConn cfg env c g = some (c', g')) : BufferOk (b.pointTo c'.ritem) c' := by
  have hopen : c.state ∉ [.closing, .closed] := by simp [hs]
  obtain ⟨hrbuf, hhandled⟩ := completeNreadConn_handled hc
  have hempty : c.protocol = .negotiating → c.rbuf = [] := h.first.empty (by simp [hs])
  have hproceeds := (completeNreadConn_proceeds hc).state
  refine ⟨hhandled.transport ▸ h.tcp, ?_, fun _ => ?_, fun hs' got hgot => ?_, fun _ it off hi => by rw [hi]; rfl,
    fun hneg => .inl ⟨?_, fun hp => ?_⟩⟩
  · cases c'.ritem with
    | item it off => exact ⟨h.fits.low, h.fits.high, h.fits.inside, h.fits.outside⟩
    | packet got => exact h.fits
  · cases c'.ritem with
    | item it off => exact (h.window hopen).trans hrbuf.symm
    | packet got => exact (h.window hopen).trans hrbuf.symm
  · obtain ⟨it, off, hi⟩ := hhandled.value hs'
    exact absurd (hi.symm.trans hgot) (fun h => by cases h)
  · exact hrbuf.trans (hempty (hhandled.protocol.symm.trans hneg))
  · exact absurd (show MovedOn .parseCmd from hp ▸ hproceeds) (by simp [MovedOn])

/-- What is left in the buffer of the request is copied to its place. -/
theorem BufferOk.leftovers {g : Globals} (h : BufferOk b c) (hs : c.state = .nread) (hb : c.rbuf ≠ []) (hneg : 0 ≤ c.rlbytes) :
    ∃ b', b.copyLeftovers (min b.rbytes c.rlbytes.toNat) = some b' ∧
      BufferOk b' { (receive c g (c.rbuf.take c.rlbytes.toNat)).1 with rbuf := c.rbuf.drop c.rlbytes.toNat } := by
  have hopen : c.state ∉ [.closing, .closed] := by simp [hs]
  have hw := h.window hopen
  have hb' : b.rbytes ≠ 0 := fun h0 => hb ((h.empty hopen).mp h0)
  have hbytes : c.rbuf.length = b.rbytes := by rw [← hw, h.fits.length_window]
  have htake : c.rbuf.take c.rlbytes.toNat = b.window.take (min b.rbytes c.rlbytes.toNat) := by
    rw [hw, ← hbytes, take_min]
  have hdrop : c.rbuf.drop c.rlbytes.toNat = b.window.drop (min b.rbytes c.rlbytes.toNat) := by
    rw [hw, ← hbytes, drop_min]
  have hlen : (b.window.take (min b.rbytes c.rlbytes.toNat)).length = min b.rbytes c.rlbytes.toNat := by
    rw [List.length_take, h.fits.length_window]
    omega
  have hl : ((b.window.take (min b.rbytes c.rlbytes.toNat)).length : Int) ≤ c.rlbytes := by
    rw [hlen]
    omega
  have hrest : c.rbuf = [] → b.window.drop (min b.rbytes c.rlbytes.toNat) = [] := fun h0 => absurd h0 hb
  rw [htake, hdrop]
  cases hr : c.ritem with
  | packet got =>
    have hpart := (h.packet hs got hr).inPlace
    obtain ⟨b', hcopy, hfits, hwindow, hplace⟩ := hpart.copied h.fits (Nat.min_le_left _ _) (Nat.min_le_right _ _)
    refine ⟨b', hcopy, h.received hs hfits hwindow hrest hl ?_ ?_⟩
    · intro got' hgot'
      obtain rfl : got = got' := ReadItem.packet.inj (hr.symm.trans hgot')
      rwa [hlen]
    · intro hnone
      obtain ⟨r, _, hi, _⟩ := hpart.place
      exact absurd (hi.symm.trans hnone) (fun h => by cases h)
  | item it off =>
    have hi := h.item hs it off hr
    obtain ⟨hfits, hwindow⟩ := h.fits.advance (Nat.min_le_left b.rbytes c.rlbytes.toNat)
    refine ⟨_, copyLeftovers_item h.fits hi (Nat.min_le_left _ _) hb', h.received hs hfits hwindow hrest hl ?_ id⟩
    intro got hgot
    exact absurd (hr.symm.trans hgot) (fun h => by cases h)

/-- What comes of the request is read to its place. -/
theorem BufferOk.readOn {bs : Bytes} {g : Globals} (h : BufferOk b c) (hs : c.state = .nread) (hb : c.rbuf = [])
    (hl : bs.length ≤ c.rlbytes) :
    ∃ b', b.readItem c.rlbytes.toNat bs = some b' ∧ BufferOk b' (receive c g bs).1 := by
  have hopen : c.state ∉ [.closing, .closed] := by simp [hs]
  have hrb : (receive c g bs).1 = { (receive c g bs).1 with rbuf := [] } := by
    cases hri : c.ritem <;> simp [receive, hri, hb]
  rw [hrb]
  cases hr : c.ritem with
  | packet got =>
    have hpart := (h.packet hs got hr).inPlace
    obtain ⟨b', hread, hfits, hwindow, hplace⟩ :=
      hpart.read h.fits ((h.empty hopen).mpr hb) (by omega : bs.length ≤ c.rlbytes.toNat)
    refine ⟨b', hread, h.received hs hfits hwindow (fun _ => rfl) hl ?_ ?_⟩
    · intro got' hgot'
      obtain rfl : got = got' := ReadItem.packet.inj (hr.symm.trans hgot')
      exact hplace
    · intro hnone
      obtain ⟨r, _, hi, _⟩ := hpart.place
      exact absurd (hi.symm.trans hnone) (fun h => by cases h)
  | item it off =>
    have hi := h.item hs it off hr
    refine ⟨b, by rw [ReadBuffer.readItem, hi], h.received hs h.fits ((h.window hopen).trans hb) (fun _ => rfl) hl ?_ id⟩
    intro got hgot
    exact absurd (hr.symm.trans hgot) (fun h => by cases h)

/-- `read` gives no more than it is asked for. -/
theorem Input.length_upTo {inp : Input} {count : Int} {room : Nat} {bs : Bytes} (h : inp.upTo count room = .data bs)
    (h0 : 0 ≤ count) : bs.length ≤ count ∧ bs.length ≤ room := by
  cases inp with
  | data all =>
    simp only [Input.upTo, Input.data.injEq, if_neg (Int.not_lt.mpr h0)] at h
    rw [← h, List.length_take]
    omega
  | event | go | wrote _ | again | error | noMemory | eventFailed => cases h

theorem nreadTurn_buffer (h : BufferOk S.b S.s.c) (hst : S.s.stop = false) (hs : S.s.c.state = .nread)
    (ht : S.s.nreadTurn cfg env (S.input e) = some s') : ∃ b', S.nreadBuffer e cfg env = some b' ∧ BufferOk b' s'.c := by
  have hnil := h.empty (show S.s.c.state ∉ [.closing, .closed] by simp [hs])
  have hclose : BufferOk S.b (S.s.setState .closing).c := .of_closing h.tcp h.fits (by simp [Session.setState])
  have hinput : S.input e = e.inp.upTo S.s.c.rlbytes S.s.c.rlbytes.toNat := by
    simp only [Buffered.input, hst, hs, Bool.false_eq_true, if_false]
  have hup : ∀ bs, S.input e = .data bs → 0 ≤ S.s.c.rlbytes → bs.length ≤ S.s.c.rlbytes ∧ bs.length ≤ S.s.c.rlbytes.toNat :=
    fun _ h => Input.length_upTo (hinput.symm.trans h)
  unfold Buffered.nreadBuffer
  generalize S.input e = inp at ht hup
  cases inp with
  | go =>
    simp only [Session.nreadTurn] at ht
    dsimp only
    by_cases hz : S.s.c.rlbytes = 0
    · rw [if_pos hz] at ht ⊢
      obtain ⟨⟨c', g'⟩, hc, ht⟩ := Option.map_eq_some_iff.mp ht
      cases ht
      exact ⟨_, by rw [hc, Option.map_some], h.completed hs hc⟩
    rw [if_neg hz] at ht ⊢
    by_cases hb : S.s.c.rbuf = []
    · rw [if_pos hb] at ht
      cases ht
      rw [if_pos (hnil.mpr hb)]
      exact ⟨S.b, rfl, h⟩
    rw [if_neg hb] at ht
    rw [if_neg fun h0 => hb (hnil.mp h0)]
    split at ht
    · cases ht
    next hneg =>
    cases ht
    rw [if_neg hneg]
    exact h.leftovers hs hb (Int.not_lt.mp hneg)
  | data bs =>
    simp only [Session.nreadTurn] at ht
    dsimp only
    by_cases hz : S.s.c.rlbytes = 0 ∨ S.s.c.rbuf ≠ []
    · rw [if_pos hz] at ht
      cases ht
      refine ⟨S.b, if_pos ?_, h⟩
      exact hz.imp id fun hb => .inl fun h0 => hb (hnil.mp h0)
    rw [if_neg hz] at ht
    obtain ⟨hz0, hb⟩ := not_or.mp hz
    have hb := not_not.mp hb
    by_cases hbs : bs = []
    · rw [if_pos hbs] at ht
      cases ht
      exact ⟨S.b, if_pos (.inr (.inr hbs)), hclose⟩
    rw [if_neg hbs] at ht
    split at ht
    · cases ht
    next hneg =>
    have hl := (hup bs rfl (Int.not_lt.mp hneg)).1
    rw [if_neg (Int.not_lt.mpr hl)] at ht
    cases ht
    rw [if_neg (by rintro (h0 | h0 | h0); exacts [hz0 h0, h0 (hnil.mpr hb), hbs h0]), if_neg hneg]
    exact h.readOn hs hb hl
  | again =>
    simp only [Session.nreadTurn] at ht
    split at ht <;> cases ht <;> exact ⟨S.b, rfl, h⟩
  | error =>
    simp only [Session.nreadTurn] at ht
    split at ht <;> cases ht
    · exact ⟨S.b, rfl, h⟩
    · exact ⟨S.b, rfl, hclose⟩
  | eventFailed =>
    simp only [Session.nreadTurn] at ht
    split at ht <;> cases ht
    · exact ⟨S.b, rfl, h⟩
    · exact ⟨S.b, rfl, hclose⟩
  | event | wrote _ | noMemory =>
    cases ht
    exact ⟨S.b, rfl, h⟩

theorem swallowTurn_buffer (h : BufferOk S.b S.s.c) (hst : S.s.stop = false) (hs : S.s.c.state = .swallow)
    (ht : S.s.swallowTurn (S.input e) = some s') : ∃ b', S.swallowBuffer e = some b' ∧ BufferOk b' s'.c := by
  have hopen : S.s.c.state ∉ [.closing, .closed] := by simp [hs]
  have hw := h.window hopen
  have hnil := h.empty hopen
  have hempty : S.s.c.protocol = .negotiating → S.s.c.rbuf = [] := h.first.empty (by simp [hs])
  have hclose : BufferOk S.b (S.s.setState .closing).c := .of_closing h.tcp h.fits (by simp [Session.setState])
  have hinput : S.input e = e.inp.upTo S.s.c.sbytes S.b.size := by
    simp only [Buffered.input, hst, hs, Bool.false_eq_true, if_false]
  have hup : ∀ bs, S.input e = .data bs → 0 ≤ S.s.c.sbytes → bs.length ≤ S.s.c.sbytes ∧ bs.length ≤ S.b.size :=
    fun _ h => Input.length_upTo (hinput.symm.trans h)
  unfold Buffered.swallowBuffer
  generalize S.input e = inp at ht hup
  cases inp with
  | go =>
    simp only [Session.swallowTurn] at ht
    dsimp only
    by_cases hz : S.s.c.sbytes = 0
    · rw [if_pos hz] at ht
      cases ht
      rw [if_pos (.inl hz)]
      exact ⟨S.b, rfl, .of_window h.tcp h.fits hw (fun h => by cases h) fun hneg => .inl ⟨hempty hneg, fun h => by cases h⟩⟩
    rw [if_neg hz] at ht
    by_cases hb : S.s.c.rbuf = []
    · rw [if_pos hb] at ht
      cases ht
      rw [if_pos (.inr (hnil.mpr hb))]
      exact ⟨S.b, rfl, h⟩
    rw [if_neg hb] at ht
    split at ht
    · cases ht
    next hneg =>
    cases ht
    rw [if_neg (not_or.mpr ⟨hz, fun h0 => hb (hnil.mp h0)⟩), if_neg hneg]
    obtain ⟨hfits, hwindow⟩ := h.fits.advance (Nat.min_le_left S.b.rbytes S.s.c.sbytes.toNat)
    have hbytes : S.s.c.rbuf.length = S.b.rbytes := by rw [← hw, h.fits.length_window]
    refine ⟨_, rfl, .of_window h.tcp hfits ?_ (by simp [hs]) fun hneg => absurd (hempty hneg) hb⟩
    rw [hwindow, hw, ← hbytes, drop_min]
  | data bs =>
    simp only [Session.swallowTurn] at ht
    dsimp only
    by_cases hz : S.s.c.sbytes = 0 ∨ S.s.c.rbuf ≠ []
    · rw [if_pos hz] at ht
      cases ht
      refine ⟨S.b, if_pos ?_, h⟩
      exact hz.imp id fun hb => .inl fun h0 => hb (hnil.mp h0)
    rw [if_neg hz] at ht
    obtain ⟨hz0, hb⟩ := not_or.mp hz
    have hb := not_not.mp hb
    by_cases hbs : bs = []
    · rw [if_pos hbs] at ht
      cases ht
      exact ⟨S.b, if_pos (.inr (.inr hbs)), hclose⟩
    rw [if_neg hbs] at ht
    split at ht
    · cases ht
    next hneg =>
    obtain ⟨hl, hroom⟩ := hup bs rfl (Int.not_lt.mp hneg)
    rw [if_neg (Int.not_lt.mpr hl)] at ht
    cases ht
    have hb0 := hnil.mpr hb
    rw [if_neg (by rintro (h0 | h0 | h0); exacts [hz0 h0, h0 hb0, hbs h0]), if_neg hneg, ReadBuffer.store_eq (by omega)]
    have hfits : ReadBuffer.Fits { S.b with mem := blit S.b.mem 0 bs } := ⟨h.fits.low, h.fits.high, h.fits.inside, h.fits.outside⟩
    refine ⟨_, rfl, .of_window h.tcp hfits ?_ (by simp [hs]) fun hneg => .inl ⟨hempty hneg, by simp [hs]⟩⟩
    have h0 := hfits.length_window
    rw [hb0] at h0
    exact (List.length_eq_zero_iff.mp h0).trans hb.symm
  | again =>
    simp only [Session.swallowTurn] at ht
    split at ht <;> cases ht <;> exact ⟨S.b, rfl, h⟩
  | error =>
    simp only [Session.swallowTurn] at ht
    split at ht <;> cases ht
    · exact ⟨S.b, rfl, h⟩
    · exact ⟨S.b, rfl, hclose⟩
  | eventFailed =>
    simp only [Session.swallowTurn] at ht
    split at ht <;> cases ht
    · exact ⟨S.b, rfl, h⟩
    · exact ⟨S.b, rfl, hclose⟩
  | event | wrote _ | noMemory =>
    cases ht
    exact ⟨S.b, rfl, h⟩

/-- An answer that is sent leads to no read to a place. -/
theorem writeTurn_buffer {inp : Input} (h : BufferOk S.b S.s.c) (hn : AnswersOn S.s.c) (hs : S.s.c.state = .write ∨ S.s.c.state = .mwrite)
    (ht : S.s.writeTurn cfg inp = some s') : BufferOk S.b s'.c := by
  have hopen : S.s.c.state ∉ [.closing, .closed] := by obtain hs | hs := hs <;> simp [hs]
  have hempty : S.s.c.protocol = .negotiating → S.s.c.rbuf = [] := h.first.empty (by obtain hs | hs := hs <;> simp [hs])
  have hclose : ∀ c' : Conn, c'.transport = S.s.c.transport → c'.state = .closing → BufferOk S.b c' := fun c' htr hc =>
    .of_closing (htr ▸ h.tcp) h.fits (by simp [hc])
  cases inp with
  | go =>
    simp only [Session.writeTurn] at ht
    split at ht <;> cases ht
    · obtain ⟨hstate, _, htr, hp, _⟩ := @transmitComplete_same cfg S.s hs
      have hrbuf : (S.s.transmitComplete cfg).c.rbuf = S.s.c.rbuf := by
        unfold Session.transmitComplete
        split <;> rfl
      have hnext := hn hs
      rw [← hstate] at hnext
      refine .of_window (htr ▸ h.tcp) h.fits ((h.window hopen).trans hrbuf.symm) ?_ fun hneg => .inl ⟨hrbuf.trans (hempty (hp ▸ hneg)), ?_⟩
      · exact fun hs' => absurd (hs' ▸ hnext) (by simp)
      · exact fun hs' => absurd (hs' ▸ hnext) (by simp)
    · exact h
  | wrote n =>
    simp only [Session.writeTurn] at ht
    split at ht <;> cases ht
    · exact h
    · exact ⟨h.tcp, h.fits, h.window, fun hs' => by obtain hs | hs := hs <;> exact absurd (hs.symm.trans hs') (fun h => by cases h), h.item, h.first⟩
  | again =>
    simp only [Session.writeTurn] at ht
    split at ht <;> cases ht <;> exact h
  | eventFailed =>
    simp only [Session.writeTurn] at ht
    split at ht <;> cases ht
    · exact h
    · exact hclose _ rfl rfl
  | error =>
    simp only [Session.writeTurn, if_neg h.tcp] at ht
    split at ht <;> cases ht
    · exact h
    · exact hclose _ rfl rfl
  | event | data _ | noMemory =>
    cases ht
    exact h

/-! ## Runs -/

/-- A turn stays in the buffer and keeps what holds of it. -/
theorem BufferOk.turn (h : BufferOk S.b S.s.c) (hn : AnswersOn S.s.c) (hm : Moderate S)
    (ht : S.s.turn cfg env (S.input e) = some s') : ∃ b', S.bufferTurn e cfg env = some b' ∧ BufferOk b' s'.c := by
  have hinput : S.s.stop = true ∨ S.s.c.state ∉ [.read, .nread, .swallow] → S.input e = e.inp := by
    intro hor
    unfold Buffered.input
    split
    · rfl
    · next hst =>
      have hne := hor.resolve_left hst
      cases hs : S.s.c.state <;> first | rfl | exact absurd hne (by simp [hs])
  unfold Buffered.bufferTurn
  unfold Session.turn at ht
  by_cases hst : S.s.stop = true
  · rw [if_pos hst] at ht ⊢
    refine ⟨S.b, rfl, ?_⟩
    generalize S.input e = inp at ht
    cases inp <;> cases ht <;> exact h
  rw [if_neg hst] at ht ⊢
  have hst' := Bool.eq_false_iff.mpr hst
  cases hs : S.s.c.state with
  | newCmd =>
    rw [hs, hinput (.inr (by simp [hs]))] at ht
    exact newCmdTurn_buffer h e.realloc hs ht
  | waiting =>
    rw [hs] at ht
    exact ⟨S.b, rfl, waitingTurn_buffer h hs ht⟩
  | read =>
    have hin : S.input e = S.networkInput e := by
      unfold Buffered.input
      rw [if_neg hst, hs]
    rw [hs, hin] at ht
    exact readTurn_buffer h (hm.small hs) hs ht
  | parseCmd =>
    rw [hs, hinput (.inr (by simp [hs]))] at ht
    exact parseTurn_buffer h hm e.realloc hs ht
  | nread =>
    rw [hs] at ht
    exact nreadTurn_buffer h hst' hs ht
  | swallow =>
    rw [hs] at ht
    exact swallowTurn_buffer h hst' hs ht
  | write =>
    rw [hs] at ht
    exact ⟨S.b, rfl, writeTurn_buffer h hn (.inl hs) ht⟩
  | mwrite =>
    rw [hs] at ht
    exact ⟨S.b, rfl, writeTurn_buffer h hn (.inr hs) ht⟩
  | closing =>
    rw [hs] at ht
    refine ⟨S.b, rfl, ?_⟩
    cases hi : S.input e with
    | go =>
      rw [hi] at ht
      simp only [Session.closingTurn, if_neg h.tcp] at ht
      cases ht
      obtain ⟨⟨htr, _⟩, _⟩ := connCleanup_same cfg.toSettings S.s.c S.s.g
      exact .of_closing (htr ▸ h.tcp) h.fits (by simp [connClose])
    | event | data _ | wrote _ | again | error | noMemory | eventFailed =>
      rw [hi] at ht
      cases ht
      exact h
  | closed =>
    rw [hs] at ht
    cases ht
    exact ⟨S.b, rfl, h⟩

/-! ### The end of the stream -/

theorem Taken.suffix {s : Session} {bs rest input : Bytes} (ht : Taken s bs rest input) (h : s.c.rbuf <:+ s.input) : rest <:+ input := by
  obtain ⟨hb, hi⟩ | ⟨_, hr, _⟩ := ht
  · rw [hi]
    exact (hb ▸ List.suffix_append bs rest).trans h
  · rw [hr]
    exact List.nil_suffix

theorem BusyTurn.suffix {s : Session} (ht : BusyTurn cfg env s s') (h : s.c.rbuf <:+ s.input) (htcp : s.c.transport ≠ .udp) :
    s'.c.rbuf <:+ s'.input := by
  cases ht with
  | same | closing => exact h
  | reset nreqs hs =>
    rw [show (resetCmdHandler cfg.toSettings s.c s.g).1.rbuf = s.c.rbuf from (resetCmdHandler_same ..).1]
    exact h
  | dropped erange hu => exact absurd hu htcp
  | closed hs =>
    have hr : (connClose cfg.toSettings s.c s.g).1.rbuf = s.c.rbuf := by
      unfold connClose connCleanup Conn.dropItem
      cases s.c.item <;> (dsimp only [Conn.dropIlist]; split <;> rfl)
    simp only [if_neg htcp]
    exact hr ▸ h
  | received bs rest input hs hl ht => exact ht.suffix h
  | completed c' g' hs hz hc =>
    rw [show c'.rbuf = s.c.rbuf from (completeNreadConn_handled hc).1]
    exact h
  | swallowed bs rest input hs hl ht => exact ht.suffix h
  | swallowDone => exact h
  | sent hs ho =>
    have hsame : (s.transmitComplete cfg).c.rbuf = s.c.rbuf ∧ (s.transmitComplete cfg).input = s.input := by
      unfold Session.transmitComplete
      split <;> exact ⟨rfl, rfl⟩
    rw [hsame.1, hsame.2]
    exact h

theorem tryReadCommand_suffix {g : Globals} {p : Parsed} (h : tryReadCommand cfg env c g = some p) : p.c.rbuf <:+ c.rbuf := by
  have hr := (negotiate_same c).1
  unfold tryReadCommand at h
  dsimp only at h
  split at h
  · cases h
    unfold tryReadBinary
    dsimp only
    split
    · rw [hr]
    · split
      · exact (hr ▸ List.suffix_refl _)
      · have htaken := @dispatchBinCommand_takenUp cfg (startRequest (negotiate c) (parseHeader ((negotiate c).rbuf.take HEADER_SIZE))) rfl
        show List.drop HEADER_SIZE (dispatchBinCommand _ _).rbuf <:+ _
        rw [htaken.rbuf, ← hr]
        exact List.drop_suffix _ _
  · by_cases hlf : LF ∈ (negotiate c).rbuf
    · obtain ⟨cont, hd⟩ : ∃ cont, (negotiate c).rbuf.dropWhile (· != LF) = LF :: cont :=
        ⟨_, dropWhile_nextLine (s := connSession (negotiate c) g) hlf⟩
      rw [tryReadAscii_line hd] at h
      obtain ⟨⟨c', g', rtn⟩, _, rfl⟩ := Option.map_eq_some_iff.mp h
      have hcont : cont <:+ c.rbuf := by
        rw [← hr]
        exact ((List.suffix_cons LF cont).trans (hd ▸ List.dropWhile_suffix _))
      dsimp only
      split
      · exact List.nil_suffix
      · exact hcont
    · have hd : (negotiate c).rbuf.dropWhile (· != LF) = [] := by
        rw [List.dropWhile_eq_nil_iff]
        exact fun x hx => bne_iff_ne.mpr fun he => hlf (he ▸ hx)
      rw [tryReadAscii_no_line hd] at h
      split at h <;> cases h <;> exact hr ▸ List.suffix_refl _

/-- What is left is the end of the stream. -/
theorem turn_suffix {s : Session} {inp : Input} (h : s.c.rbuf <:+ s.input) (htcp : s.c.transport ≠ .udp) (ht : s.turn cfg env inp = some s') :
    s'.c.rbuf <:+ s'.input := by
  by_cases hat : AtCommand s
  swap
  · exact (turn_busy hat ht).suffix h htcp
  simp only [AtCommand, List.mem_cons, List.not_mem_nil, or_false] at hat
  unfold Session.turn at ht
  split at ht
  · cases inp <;> cases ht <;> exact h
  obtain hs | hs | hs := hat <;> rw [hs] at ht
  · cases inp <;> cases ht <;> exact h
  · cases inp with
    | data bs =>
      simp only [Session.readTurn, if_neg htcp] at ht
      split at ht <;> cases ht
      · exact h
      · obtain ⟨front, hfront⟩ := h
        exact ⟨front, by rw [← hfront, List.append_assoc]; rfl⟩
    | noMemory =>
      simp only [Session.readTurn, if_neg htcp] at ht
      cases ht
      have hrbuf : (readMemoryError s.c).rbuf = [] := core_field Conn.rbuf (fun _ => rfl) (core_outString ..)
      show (readMemoryError s.c).rbuf <:+ _
      rw [hrbuf]
      exact List.nil_suffix
    | again =>
      cases ht
      exact h
    | error =>
      cases ht
      exact h
    | event | go | wrote _ | eventFailed =>
      cases ht
      exact h
  · cases inp with
    | go =>
      obtain ⟨p, hp, rfl⟩ := Option.map_eq_some_iff.mp ht
      have hsuffix := (tryReadCommand_suffix hp).trans h
      dsimp only
      split <;> exact hsuffix
    | event | data _ | wrote _ | again | error | noMemory | eventFailed =>
      cases ht
      exact h

/-- The buffer of a new connection. One from the freelist keeps its size. -/
def newBuffer (mem : Nat → UInt8) (size : Nat) : ReadBuffer := ⟨mem, size, some 0, 0, none⟩

/-- A connection that `conn_new` made. -/
def bufferedNew (cfg : Config) (addr : Nat) (transport : Transport) (g : Globals) (mem : Nat → UInt8) (size : Nat) : Buffered :=
  ⟨connSession (connNew cfg addr .newCmd transport) g, newBuffer mem size⟩

/-- What holds in every run. -/
structure BufferedOk (S : Buffered) : Prop where
  ok : BufferOk S.b S.s.c
  next : AnswersOn S.s.c
  suffix : S.s.c.rbuf <:+ S.s.input

theorem bufferedOk_new {addr size : Nat} {transport : Transport} {g : Globals} {mem : Nat → UInt8} (ht : transport ≠ .udp)
    (hlow : DATA_BUFFER_SIZE ≤ size) (hhigh : size < 2 ^ 31) : BufferedOk (bufferedNew cfg addr transport g mem size) where
  ok := by
    refine .of_window ht ⟨hlow, hhigh, fun r hr => ?_, fun h => by cases h⟩ rfl (fun h => by cases h) fun _ => .inl ⟨rfl, fun h => by cases h⟩
    obtain rfl : 0 = r := Option.some.inj hr
    exact Nat.zero_le size
  next := .of_state (fun h => by cases h) (fun h => by cases h)
  suffix := List.suffix_refl []

theorem BufferedOk.step {a : Env × Calls} {S' : Buffered} (h : BufferedOk S) (hm : Moderate S) (hs : BufferedStep cfg S a S') :
    BufferedOk S' := by
  obtain ⟨s', ht, hs⟩ := Option.bind_eq_some_iff.mp hs
  obtain ⟨b', hb', hok⟩ := h.ok.turn h.next hm ht
  rw [hb'] at hs
  cases hs
  exact ⟨hok, answersOn_turn h.next ht, turn_suffix h.suffix h.ok.tcp ht⟩

section

variable {cfg : Config} {addr size : Nat} {transport : Transport} {g : Globals} {mem : Nat → UInt8} {es : List (Env × Calls)}

theorem bufferedOk_run (ht : transport ≠ .udp) (hlow : DATA_BUFFER_SIZE ≤ size) (hhigh : size < 2 ^ 31)
    (hrun : Run (Guarded (fun S _ => Moderate S) (BufferedStep cfg)) (bufferedNew cfg addr transport g mem size) es S) : BufferedOk S :=
  hrun.invariant_of_guard (I := BufferedOk) (fun _ _ _ h hm hs => h.step hm hs) (bufferedOk_new ht hlow hhigh)

/-- Between the turns of a connection, the bytes from `rcurr` on are the last ones of the stream, those that the list
model has, and they lie in `rbuf`. A turn that the list model makes stays in the buffer, whatever its calls return:
what is moved, read to, zeroed or written over is never outside of `rbuf`. -/
theorem read_buffer_stays (ht : transport ≠ .udp) (hlow : DATA_BUFFER_SIZE ≤ size) (hhigh : size < 2 ^ 31)
    (hrun : Run (Guarded (fun S _ => Moderate S) (BufferedStep cfg)) (bufferedNew cfg addr transport g mem size) es S) :
    S.b.Fits ∧ (S.s.c.state ∉ [.closing, .closed] → S.b.window = S.s.c.rbuf ∧ S.b.window <:+ S.s.input) ∧
      (Moderate S → ∀ env e s', S.s.turn cfg env (S.input e) = some s' → ∃ b', S.bufferTurn e cfg env = some b') := by
  have h := bufferedOk_run ht hlow hhigh hrun
  refine ⟨h.ok.fits, fun hs => ?_, fun hm env e s' hturn => ?_⟩
  · have hw := h.ok.window hs
    exact ⟨hw, hw ▸ h.suffix⟩
  · obtain ⟨b', hb', _⟩ := h.ok.turn h.next hm hturn
    exact ⟨b', hb'⟩

/-- When the extras and the key of a request have come, they lie behind its header in the buffer: `binary_get_request`
asserts what holds, and `binary_get_key` and the extras are the bytes that came. -/
theorem request_in_place (ht : transport ≠ .udp) (hlow : DATA_BUFFER_SIZE ≤ size) (hhigh : size < 2 ^ 31)
    (hrun : Run (Guarded (fun S _ => Moderate S) (BufferedStep cfg)) (bufferedNew cfg addr transport g mem size) es S)
    (hs : S.s.c.state = .nread) (hp : ∃ got, S.s.c.ritem = .packet got) (h0 : S.s.c.rlbytes = 0) :
    (S.b.binaryGetRequest S.s.c.binaryHeader).isSome ∧ S.b.binaryGetKey S.s.c.binaryHeader = some S.s.c.binKey ∧
      S.b.binaryGetExtras S.s.c.binaryHeader = some (S.s.c.packet.take S.s.c.binaryHeader.extlen.toNat) ∧
      S.s.c.packet.length = S.s.c.binaryHeader.extlen.toNat + S.s.c.binaryHeader.keylen.toNat := by
  obtain ⟨got, hgot⟩ := hp
  have h := bufferedOk_run ht hlow hhigh hrun
  have hpart := h.ok.packet hs got hgot
  obtain ⟨r, hr, _, hbefore, hslice, hroom⟩ := hpart.inPlace.place
  have hlen := hpart.length
  rw [h0] at hlen
  have hin := h.ok.fits.inside r hr
  have hpacket : S.s.c.packet = got := by rw [Conn.packet, hgot]
  generalize hk : S.s.c.binaryHeader.keylen.toNat = keylen at *
  generalize hx : S.s.c.binaryHeader.extlen.toNat = extlen at *
  have hgotlen : got.length = extlen + keylen := by omega
  have hrequest : S.b.binaryGetRequest S.s.c.binaryHeader = some (r - (HEADER_SIZE + keylen + extlen)) := by
    simp only [ReadBuffer.binaryGetRequest, hr, hk, hx, Option.bind_eq_bind, Option.bind_some]
    rw [if_neg (by omega)]
    rfl
  refine ⟨by rw [hrequest]; rfl, ?_, ?_, hpacket ▸ hgotlen⟩
  · simp only [ReadBuffer.binaryGetKey, hr, hk, Option.bind_eq_bind, Option.bind_some]
    rw [if_neg (by omega), ReadBuffer.load_eq (by omega), Conn.binKey, hpacket, hpart.keylen, hk, ← hslice, length_slice, hgotlen,
      Nat.add_sub_cancel, drop_slice (Nat.le_add_right ..)]
    have hoff : r - (extlen + keylen) + extlen = r - keylen := by omega
    rw [hoff, Nat.add_sub_cancel_left]
  · simp only [ReadBuffer.binaryGetExtras, hrequest, hx, Option.bind_eq_bind, Option.bind_some]
    have hoff : r - (HEADER_SIZE + keylen + extlen) + HEADER_SIZE = r - got.length := by omega
    rw [ReadBuffer.load_eq (by omega), hpacket, hoff]
    conv_rhs => rw [← hslice]
    rw [take_slice (by omega)]

end

/-! ### A request for a key -/

/-- A GET of the key `k`. -/
def getPacket : Bytes := [0x80, 0, 0, 1, 0, 0, 0, 0, 0, 0, 0, 1] ++ List.replicate 12 0 ++ [107]

/-- The request comes at once, and its key is read from the buffer. -/
def getArrives : List (Env × Calls) :=
  let calls := fun inp => (default, ⟨inp, ⟨fun _ => none, fun n => if n = 4 then .data getPacket else .again⟩, none⟩)
  [calls .event, calls .go, calls .go, calls .event, calls .go, calls .go, calls .go]

def newSmall : Buffered := bufferedNew smallServer 4096 .tcp (globalsInit 16) (fun _ => 0) DATA_BUFFER_SIZE

theorem getArrives_runs : ∃ S, Run (Guarded (fun S _ => Moderate S) (BufferedStep smallServer)) newSmall getArrives S ∧
    (S.s.c.state = .nread ∧ S.s.c.ritem = .packet [107] ∧ S.s.c.rlbytes = 0) := by
  have hchecks : (∀ k : Fin getArrives.length, ∀ S ∈ (getArrives.take k).foldlM (bufferedTurn smallServer) newSmall, Moderate S) ∧
      (getArrives.foldlM (bufferedTurn smallServer) newSmall).map (fun S => (S.s.c.state, S.s.c.ritem, S.s.c.rlbytes)) =
        some (.nread, .packet [107], 0) := by
    decide +kernel
  obtain ⟨S, hs, hend⟩ := Option.map_eq_some_iff.mp hchecks.2
  simp only [Prod.mk.injEq] at hend
  exact ⟨S, .of_foldlM_guard hs hchecks.1, hend⟩

theorem read_buffer_stays_get : ∃ S, Run (Guarded (fun S _ => Moderate S) (BufferedStep smallServer)) newSmall getArrives S ∧ S.b.Fits := by
  obtain ⟨S, hrun, _⟩ := getArrives_runs
  exact ⟨S, hrun, (read_buffer_stays (by decide) (by decide) (by decide) hrun).1⟩

theorem request_in_place_get : ∃ S, Run (Guarded (fun S _ => Moderate S) (BufferedStep smallServer)) newSmall getArrives S ∧
    S.b.binaryGetKey S.s.c.binaryHeader = some S.s.c.binKey := by
  obtain ⟨S, hrun, hs, hp, h0⟩ := getArrives_runs
  exact ⟨S, hrun, (request_in_place (by decide) (by decide) (by decide) hrun hs ⟨_, hp⟩ h0).2.1⟩

end RamCube
