import RamCube.Server.Requests
import RamCube.Store.ItemsFrame

/-! # Quiet requests

A quiet opcode is handled as the loud one with `noreply` set. Two connections that have
read the same request, one of them under the quiet opcode, take the same turns: what they
share stays the same, and what the quiet one answers is nothing or the loud answer under
its own opcode. Only a GATKQ is rewritten to an opcode that answers without the key. -/
namespace RamCube

variable {cfg : Config} {env : Env} {c c' : Conn} {g : Globals} {s t t' u : Session} {h : BinaryHeader}
  {o q : UInt8}

/-! ## Opcodes -/

/-- The opcodes with a quiet variant, each with it. -/
def quietPairs : List (UInt8 × UInt8) :=
  [(0x01, 0x11), (0x02, 0x12), (0x03, 0x13), (0x04, 0x14), (0x05, 0x15), (0x06, 0x16), (0x0e, 0x19),
    (0x0f, 0x1a), (0x08, 0x18), (0x00, 0x09), (0x0c, 0x0d), (0x1d, 0x1e), (0x23, 0x24)]

/-- What the quiet variant of a command is handled as; a GATKQ is not handled as a GATK. -/
def hushCmd (cmd : Int) : Int := if cmd = CMD_GATK then CMD_GAT else cmd

/-- A connection that handles its request under the quiet opcode `q`. -/
def hush (q : UInt8) (c : Conn) : Conn :=
  { c with
    binaryHeader := { c.binaryHeader with opcode := q }
    noreply := true
    cmd := hushCmd c.cmd }

/-- The quiet answer is nothing, or the loud one under the quiet opcode. -/
def Muted (q : UInt8) (loud quiet : Bytes) : Prop := quiet = [] ∨ quiet = loud.set 1 q

/-- The same request under the opcode `q`. -/
def Session.asking (s : Session) (q : UInt8) : Session :=
  { s with c := { s.c with rbuf := s.c.rbuf.set 1 q } }

/-- The request is still to be read, or its body is. -/
def AtRequest (s : Session) : Prop := s.c.state = .parseCmd ∨ s.c.state = .nread

section

variable (q : UInt8) (c : Conn)

@[simp] theorem hush_binKey : (hush q c).binKey = c.binKey := rfl
@[simp] theorem hush_bodyField : (hush q c).bodyField = c.bodyField := rfl
@[simp] theorem hush_headerCas : (hush q c).binaryHeader.cas = c.binaryHeader.cas := rfl
@[simp] theorem hush_item : (hush q c).item = c.item := rfl
@[simp] theorem hush_ritem : (hush q c).ritem = c.ritem := rfl
@[simp] theorem hush_substate : (hush q c).substate = c.substate := rfl
@[simp] theorem hush_state : (hush q c).state = c.state := rfl
@[simp] theorem hush_rlbytes : (hush q c).rlbytes = c.rlbytes := rfl
@[simp] theorem hush_rbuf : (hush q c).rbuf = c.rbuf := rfl
@[simp] theorem hush_protocol : (hush q c).protocol = c.protocol := rfl

end

/-! ## Answers -/

/-- Both connections are done with their requests. -/
structure Answered (q : UInt8) (c c' : Conn) : Prop where
  loud : c.state ≠ .parseCmd ∧ c.state ≠ .nread
  quiet : c'.state ≠ .parseCmd ∧ c'.state ≠ .nread
  muted : Muted q c.out c'.out

theorem hush_cmd {cmd : Int} (h1 : cmd ≠ CMD_GATK) (h2 : cmd ≠ CMD_GAT) : (hush q c).cmd = cmd ↔ c.cmd = cmd := by
  unfold hush hushCmd
  dsimp only
  split
  · rename_i hc
    exact ⟨fun he => absurd he.symm h2, fun he => absurd (he.symm.trans hc) h1⟩
  · exact Iff.rfl

theorem length_binHeader (err : BinStatus) (hdrLen keyLen bodyLen : Nat) :
    (binHeader c err hdrLen keyLen bodyLen).length = 24 := by
  simp [binHeader, length_bigEndian]

theorem binHeader_hush (err : BinStatus) (hdrLen keyLen bodyLen : Nat) (body : Bytes) :
    binHeader (hush q c) err hdrLen keyLen bodyLen ++ body =
      (binHeader c err hdrLen keyLen bodyLen ++ body).set 1 q := rfl

theorem answered_writeBinError (err : BinStatus) (swallow : Int) :
    Answered q (writeBinError c err swallow) (writeBinError (hush q c) err swallow) := by
  have hstate : ∀ d : Conn, (writeBinError d err swallow).state ≠ .parseCmd ∧
      (writeBinError d err swallow).state ≠ .nread := fun d => by simp [writeBinError_state]
  refine ⟨hstate c, hstate _, .inr ?_⟩
  have hout : ∀ d : Conn, (writeBinError d err swallow).out = binHeader d err 0 0 err.errstr.length ++ err.errstr := by
    intro d
    unfold writeBinError
    dsimp only
    split <;> rfl
  rw [hout, hout, binHeader_hush]

/-- Where to go when all is sent is no part of the answer. -/
theorem Answered.goes (h : Answered q c c') (next : ConnState) :
    Answered q { c with writeAndGo := next } { c' with writeAndGo := next } := ⟨h.loud, h.quiet, h.muted⟩

theorem Answered.item (h : Answered q c c') (it : Option Ptr) :
    Answered q { c with item := it } { c' with item := it } := ⟨h.loud, h.quiet, h.muted⟩

theorem answered_writeBinResponse (d : Bytes) (hlen keylen : Nat) (ho : c.out = []) :
    Answered q (writeBinResponse c d hlen keylen) (writeBinResponse (hush q c) d hlen keylen) := by
  have hstate : ∀ e : Conn, (writeBinResponse e d hlen keylen).state ≠ .parseCmd ∧
      (writeBinResponse e d hlen keylen).state ≠ .nread := by
    intro e
    rcases writeBinResponse_next e d hlen keylen with hs | ⟨hs, _⟩ <;> simp [hs]
  refine ⟨hstate c, hstate _, ?_⟩
  have hget : ((hush q c).cmd = CMD_GET ∨ (hush q c).cmd = CMD_GETK) ↔ (c.cmd = CMD_GET ∨ c.cmd = CMD_GETK) :=
    or_congr (hush_cmd (by decide) (by decide)) (hush_cmd (by decide) (by decide))
  by_cases hc : c.cmd = CMD_GET ∨ c.cmd = CMD_GETK
  · refine .inr ?_
    rw [writeBinResponse, if_pos (.inr (hget.mpr hc)), writeBinResponse, if_pos (.inr hc), binHeader_hush]
  · refine .inl ?_
    have hquiet : ¬((hush q c).noreply = false ∨ (hush q c).cmd = CMD_GET ∨ (hush q c).cmd = CMD_GETK) :=
      not_or.mpr ⟨Bool.noConfusion, fun h => hc (hget.mp h)⟩
    rw [writeBinResponse, if_neg hquiet]
    exact ho

theorem answered_itemResponse (it : Ptr) (i : Item) (key value : Bytes) :
    Answered q (itemResponse c it i key value) (itemResponse (hush q c) it i key value) :=
  ⟨⟨nofun, nofun⟩, ⟨nofun, nofun⟩, .inr rfl⟩

theorem answered_missResponse (withKey withKey' : Bool) (ho : c.out = []) :
    Answered q (missResponse c withKey) (missResponse (hush q c) withKey') := by
  refine ⟨?_, ⟨nofun, nofun⟩, .inl ho⟩
  unfold missResponse
  split
  · exact ⟨nofun, nofun⟩
  · split
    · exact ⟨nofun, nofun⟩
    · simp [writeBinError_state]

/-! ## Lookups -/

/-- A retrieval of `key` finds an item. -/
def Hit (cfg : Settings) (s : Store) (key : Bytes) : Prop :=
  ∃ it, assocFind s.key s.assoc key (cfg.hash key) = some it ∧ inRebalance s it = false ∧
    flushedOrExpired s (s.mem it) = false

theorem flushedOrExpired_refcountIncr (cfg : Settings) (s : Store) (it : Ptr) :
    flushedOrExpired (refcountIncr cfg s it) ((refcountIncr cfg s it).mem it) = flushedOrExpired s (s.mem it) := by
  rw [show (refcountIncr cfg s it).mem it = _ from modify_mem_self ..]
  rfl

theorem doItemGet_found (cfg : Settings) (s : Store) (key : Bytes) :
    (∃ it s', doItemGet cfg s key (cfg.hash key) = (s', some it) ∧ Hit cfg s key ∧ itemKey (s'.mem it) = key) ∨
    (∃ s', doItemGet cfg s key (cfg.hash key) = (s', none) ∧ ¬Hit cfg s key) := by
  unfold doItemGet Hit
  cases hf : assocFind s.key s.assoc key (cfg.hash key) with
  | none => exact .inr ⟨s, rfl, nofun⟩
  | some it =>
    dsimp only
    rw [flushedOrExpired_refcountIncr, show inRebalance (refcountIncr cfg s it) it = inRebalance s it from rfl]
    have hkey : s.key it = key := by
      unfold assocFind at hf
      extract_lets chain at hf
      have hfound := List.find?_some hf
      exact (of_decide_eq_true hfound).symm
    by_cases hr : inRebalance s it = true
    · rw [if_pos hr]
      refine .inr ⟨_, rfl, ?_⟩
      rintro ⟨_, hit, hr', _⟩
      cases hit
      simp [hr] at hr'
    · rw [if_neg hr]
      by_cases he : flushedOrExpired s (s.mem it) = true
      · rw [if_pos he]
        refine .inr ⟨_, rfl, ?_⟩
        rintro ⟨_, hit, _, he'⟩
        cases hit
        simp [he] at he'
      · rw [if_neg he]
        refine .inl ⟨it, _, rfl, ⟨it, rfl, by simpa using hr, by simpa using he⟩, ?_⟩
        rw [modify_mem_self, show (refcountIncr cfg s it).mem it = _ from modify_mem_self ..]
        exact hkey

theorem touchItem_found (cfg : Settings) (s : Store) (key : Bytes) (exptime : UInt32) :
    (∃ it s', touchItem cfg s key exptime = (s', some it) ∧ Hit cfg s key ∧ itemKey (s'.mem it) = key) ∨
    (∃ s', touchItem cfg s key exptime = (s', none) ∧ ¬Hit cfg s key) := by
  unfold touchItem doItemTouch
  rcases doItemGet_found cfg s key with ⟨it, s', he, hfound, hkey⟩ | ⟨s', he, hnot⟩
  · rw [he]
    refine .inl ⟨it, _, rfl, hfound, ?_⟩
    obtain ⟨t, hb, _⟩ := update_mem (s'.modify it fun i => { i with exptime := exptime }) it it
    change itemKey ((doItemUpdate (s'.modify it fun i => { i with exptime := exptime }) it).mem it).body = key
    rw [hb, modify_mem_self]
    exact hkey
  · rw [he]
    exact .inr ⟨s', rfl, hnot⟩

/-! ## Bodies -/

def bodySubstates : List BinSubstate :=
  [.readingSetHeader, .readSetValue, .readingGetKey, .readingTouchKey, .readingDelHeader, .readingIncrHeader,
    .readFlushExptime]

/-- The rest of a request with a quiet variant is read. -/
structure Reads (c : Conn) : Prop where
  state : c.state = .nread
  out : c.out = []
  substate : c.substate ∈ bodySubstates
  binary : c.protocol = .binary
  gatk : c.cmd = CMD_GATK → 0 < c.keylen ∧ c.substate = .readingTouchKey ∧
    ∃ got, c.ritem = .packet got ∧ got.length + c.rlbytes = c.keylen + 4

/-- What a turn leaves of both connections: the rest of the request is still to be read,
or it is answered; `lost` says whether the answers differ. -/
inductive Echo (q : UInt8) (lost : Prop) : Conn → Conn → Prop where
  | reads {c : Conn} (hr : Reads c) (hl : ¬lost) : Echo q lost c (hush q c)
  | same {c c' : Conn} (ha : Answered q c c') (hl : ¬lost) : Echo q lost c c'
  | keyless {c c' : Conn} (hc : c.state = .mwrite) (hc' : c'.state = .mwrite) (hm : ¬Muted q c.out c'.out)
      (hl : lost) : Echo q lost c c'

/-- The results of a turn of both. -/
def Echoes (q : UInt8) (lost : Prop) (r r' : Conn × Globals) : Prop := r'.2 = r.2 ∧ Echo q lost r.1 r'.1

theorem Answered.echoes (h : Answered q c c') : Echoes q False (c, g) (c', g) := ⟨rfl, .same h id⟩

theorem processBinGet_echoes (ho : c.out = []) :
    Echoes q False (processBinGet cfg c g) (processBinGet cfg (hush q c) g) := by
  unfold processBinGet
  rw [hush_binKey]
  have hcmd : (hush q c).cmd = CMD_GETK ↔ c.cmd = CMD_GETK := hush_cmd (by decide) (by decide)
  rcases getItem cfg.toSettings g.store c.binKey with ⟨s', _ | it⟩
  · exact (answered_missResponse _ ((hush q c).cmd = CMD_GETK) ho).echoes
  · simp only [hcmd]
    exact (answered_itemResponse ..).echoes

theorem processBinDelete_echoes (ho : c.out = []) :
    Echoes q False (processBinDelete cfg c g) (processBinDelete cfg (hush q c) g) := by
  unfold processBinDelete
  rw [hush_binKey, hush_headerCas]
  rcases deleteItem cfg.toSettings g.store c.binKey c.binaryHeader.cas with ⟨s', _ | _ | _⟩
  · exact (answered_writeBinError ..).echoes
  · exact (answered_writeBinError ..).echoes
  · exact (answered_writeBinResponse _ _ _ ho).echoes

theorem processBinFlush_echoes (ho : c.out = []) :
    Echoes q False (processBinFlush cfg c g) (processBinFlush cfg (hush q c) g) :=
  (answered_writeBinResponse _ _ _ ho).echoes

/-- An answer to a request with `noreply`, without the key. -/
theorem not_muted_of_length {loud quiet : Bytes} (h0 : quiet ≠ []) (hl : quiet.length ≠ loud.length) :
    ¬Muted q loud quiet := by
  rintro (h | h)
  · exact h0 h
  · exact hl (h ▸ List.length_set)

/-- A GATK that finds its key answers with it, a GATKQ does not. -/
theorem processBinTouch_echoes (ho : c.out = []) (hkey : c.cmd = CMD_GATK → c.binKey ≠ []) :
    Echoes q (c.cmd = CMD_GATK ∧ Hit cfg.toSettings g.store c.binKey) (processBinTouch cfg c g)
      (processBinTouch cfg (hush q c) g) := by
  unfold processBinTouch
  rw [hush_binKey, hush_bodyField]
  have htouch : (hush q c).cmd = CMD_TOUCH ↔ c.cmd = CMD_TOUCH := hush_cmd (by decide) (by decide)
  have hgatk : (hush q c).cmd ≠ CMD_GATK := by
    unfold hush hushCmd
    dsimp only
    split
    · decide
    · assumption
  rcases touchItem_found cfg.toSettings g.store c.binKey (realtime cfg.processStarted g.store (c.bodyField 0 4)) with
    ⟨it, s', he, hit, hk⟩ | ⟨s', he, hnot⟩
  · dsimp only
    rw [he]
    simp only [htouch, if_neg hgatk]
    refine ⟨rfl, ?_⟩
    by_cases hc : c.cmd = CMD_GATK
    · rw [if_pos hc, hk]
      refine .keyless rfl rfl (not_muted_of_length nofun ?_) ⟨hc, hit⟩
      have hlen := List.length_pos_iff.mpr (hkey hc)
      simp only [itemResponse, List.length_append, length_binHeader, List.length_nil]
      omega
    · rw [if_neg hc]
      exact .same (answered_itemResponse ..) fun h => hc h.1
  · dsimp only
    rw [he]
    exact ⟨rfl, .same (answered_missResponse _ ((hush q c).cmd = CMD_GATK) ho) fun h => hnot h.2⟩

theorem answered_casResponse (cas : UInt64) (d : Bytes) (hlen keylen : Nat) (ho : c.out = []) :
    Answered q (writeBinResponse { c with cas := cas } d hlen keylen)
      (writeBinResponse { hush q c with cas := cas } d hlen keylen) :=
  answered_writeBinResponse (c := { c with cas := cas }) d hlen keylen ho

theorem storeItem_hush (it : Ptr) (comm : NRead) : storeItem cfg env (hush q c) g it comm =
    (hush q (storeItem cfg env c g it comm).1, (storeItem cfg env c g it comm).2) := rfl

theorem storeItem_out (cfg : Config) (env : Env) (c : Conn) (g : Globals) (it : Ptr) (comm : NRead) :
    (storeItem cfg env c g it comm).1.out = c.out := rfl

theorem incrInitial_echoes (initial expiration : Nat) (ho : c.out = []) :
    Echoes q False (incrInitial cfg env c g initial expiration) (incrInitial cfg env (hush q c) g initial expiration) := by
  unfold incrInitial
  rw [hush_binKey]
  split
  · exact (answered_writeBinError ..).echoes
  · rcases doItemAlloc cfg.toSettings (env.alloc g.store) g.store c.binKey 0
      (realtime cfg.processStarted g.store expiration) INCR_MAX_STORAGE_LEN 0 with ⟨s', _ | it⟩
    · exact (answered_writeBinError ..).echoes
    · dsimp only
      rw [storeItem_hush]
      have hout := (storeItem_out cfg env c { g with store := s'.modify it (writeData 0 (decimal initial ++ [0])) }
        it .add).trans ho
      generalize storeItem cfg env c { g with store := s'.modify it (writeData 0 (decimal initial ++ [0])) } it .add = r
        at hout ⊢
      obtain ⟨d, g', ret⟩ := r
      dsimp only at hout ⊢
      split
      · exact (answered_writeBinError ..).echoes
      · exact (answered_casResponse _ _ _ _ hout).echoes

theorem completeIncrBin_echoes (ho : c.out = []) :
    Echoes q False (completeIncrBin cfg env c g) (completeIncrBin cfg env (hush q c) g) := by
  unfold completeIncrBin
  have hcmd : (hush q c).cmd = CMD_INCREMENT ↔ c.cmd = CMD_INCREMENT := hush_cmd (by decide) (by decide)
  rw [hush_binKey, hush_bodyField,
    hush_headerCas]
  simp only [hcmd]
  rcases addDelta cfg env g c.binKey (c.cmd = CMD_INCREMENT) (UInt64.ofNat (c.bodyField 0 8)) c.binaryHeader.cas with
    ⟨g', r⟩
  dsimp only
  cases r.result with
  | OK =>
    dsimp only
    split
    · exact (answered_casResponse _ _ _ _ ho).echoes
    · exact (answered_writeBinResponse _ _ _ ho).echoes
  | NON_NUMERIC => exact (answered_writeBinError ..).echoes
  | EOM => exact (answered_writeBinError ..).echoes
  | DELTA_ITEM_NOT_FOUND => exact incrInitial_echoes _ _ ho
  | DELTA_ITEM_CAS_MISMATCH => exact (answered_writeBinError ..).echoes

/-- The line end of the value is written and the item stored. -/
theorem completeUpdateBin_echoes (ho : c.out = []) :
    Option.Rel (Echoes q False) (completeUpdateBin cfg env c g) (completeUpdateBin cfg env (hush q c) g) := by
  have hnread : nreadOfCmd (hush q c).cmd = nreadOfCmd c.cmd := by
    unfold hush hushCmd
    dsimp only
    split
    · rename_i hc
      rw [hc]
      rfl
    · rfl
  unfold completeUpdateBin
  rw [hnread, hush_item]
  cases c.item with
  | none => exact .none
  | some it =>
    cases hn : nreadOfCmd c.cmd with
    | none => exact .none
    | some comm =>
      simp only [Option.bind_eq_bind, Option.bind_some]
      generalize { g with store := g.store.modify it fun i => writeData (i.nbytes - 2) [CR, LF] i } = g₁
      rw [storeItem_hush]
      have hout := (storeItem_out cfg env c g₁ it comm).trans ho
      generalize storeItem cfg env c g₁ it comm = r at hout ⊢
      obtain ⟨d, g', ret⟩ := r
      refine .some ?_
      dsimp only at hout ⊢
      cases ret with
      | STORED => exact ((answered_writeBinResponse _ _ _ hout).item none).echoes
      | EXISTS => exact ((answered_writeBinError ..).item none).echoes
      | NOT_FOUND => exact ((answered_writeBinError ..).item none).echoes
      | NOT_STORED =>
        have herr : notStoredError (hush q d).cmd = notStoredError d.cmd := by
          unfold notStoredError
          simp only [hush_cmd (show NRead.add.num ≠ CMD_GATK by decide) (by decide),
            hush_cmd (show NRead.replace.num ≠ CMD_GATK by decide) (by decide)]
        rw [herr]
        exact ((answered_writeBinError ..).item none).echoes

theorem hush_cmd_eq (h : c.cmd ≠ CMD_GATK) : (hush q c).cmd = c.cmd := if_neg h

/-- The item of a value is there; the value is read next. -/
theorem readValue_echo {cmd : Int} (hcmd : cmd ≠ CMD_GATK) (ho : c.out = []) (hb : c.protocol = .binary) (it : Ptr)
    (vlen : Int) : Echo q False (readValue { c with cmd := cmd } it vlen .readSetValue)
      (readValue { hush q c with cmd := cmd } it vlen .readSetValue) := by
  have heq : readValue { hush q c with cmd := cmd } it vlen .readSetValue =
      hush q (readValue { c with cmd := cmd } it vlen .readSetValue) := by
    unfold readValue hush hushCmd
    dsimp only
    rw [if_neg hcmd]
  rw [heq]
  refine .reads ⟨rfl, ho, ?_, hb, fun h => absurd h hcmd⟩ id
  simp [readValue, bodySubstates]

theorem updateFailed_echoes (flags vlen : Int) : Echoes q False (updateFailed cfg c flags vlen, g)
    (updateFailed cfg (hush q c) flags vlen, g) :=
  ((answered_writeBinError ..).goes .swallow).echoes

theorem processBinUpdate_echoes (ho : c.out = []) (hb : c.protocol = .binary) (hcmd : c.cmd ≠ CMD_GATK) :
    Option.Rel (Echoes q False) (processBinUpdate cfg env c g) (processBinUpdate cfg env (hush q c) g) := by
  have hupdate : ∀ cas, updateCmd c.cmd cas ≠ CMD_GATK := by
    intro cas
    unfold updateCmd
    split_ifs <;> first | decide | exact hcmd
  unfold processBinUpdate
  rw [hush_binKey, hush_bodyField, hush_cmd_eq hcmd,
    show updateVlen (hush q c).binaryHeader = updateVlen c.binaryHeader from rfl,
    hush_headerCas]
  dsimp only
  cases itemAlloc cfg.toSettings (env.alloc g.store) g.store c.binKey (asInt (c.bodyField 0 4))
      (realtime cfg.processStarted g.store (c.bodyField 4 4)) (asInt (updateVlen c.binaryHeader + 2)) with
  | none => exact .none
  | some r =>
    obtain ⟨s', _ | it⟩ := r
    · exact .some (updateFailed_echoes _ _)
    · exact .some ⟨rfl, readValue_echo (hupdate _) ho hb _ _⟩

theorem processBinAppendPrepend_echoes (ho : c.out = []) (hb : c.protocol = .binary) (hcmd : c.cmd ≠ CMD_GATK) :
    Option.Rel (Echoes q False) (processBinAppendPrepend cfg env c g)
      (processBinAppendPrepend cfg env (hush q c) g) := by
  have happend : appendCmd c.cmd ≠ CMD_GATK := by
    unfold appendCmd
    split_ifs <;> first | decide | exact hcmd
  unfold processBinAppendPrepend
  rw [hush_binKey, hush_cmd_eq hcmd,
    show keyedVlen (hush q c).binaryHeader = keyedVlen c.binaryHeader from rfl,
    hush_headerCas]
  dsimp only
  cases itemAlloc cfg.toSettings (env.alloc g.store) g.store c.binKey 0 0 (asInt (keyedVlen c.binaryHeader + 2)) with
  | none => exact .none
  | some r =>
    obtain ⟨s', _ | it⟩ := r
    · exact .some (updateFailed_echoes _ _)
    · exact .some ⟨rfl, readValue_echo happend ho hb _ _⟩

/-- The key of a GATK has been read, and an item is found for it. -/
def FindsKey (cfg : Config) (c : Conn) (g : Globals) : Prop :=
  c.state = .nread ∧ c.cmd = CMD_GATK ∧ c.rlbytes = 0 ∧ Hit cfg.toSettings g.store c.binKey

theorem Echoes.congr {lost lost' : Prop} {r r' : Conn × Globals} (h : Echoes q lost r r') (hl : lost ↔ lost') :
    Echoes q lost' r r' := propext hl ▸ h

theorem Reads.binKey_ne_nil (hr : Reads c) (h0 : c.rlbytes = 0) (hc : c.cmd = CMD_GATK) : c.binKey ≠ [] := by
  obtain ⟨hpos, _, got, hgot, hlen⟩ := hr.gatk hc
  have hlength : c.binKey.length = c.keylen := by
    unfold Conn.binKey Conn.packet
    rw [hgot]
    simp only [List.length_drop]
    omega
  exact List.length_pos_iff.mp (hlength ▸ hpos)

/-- `complete_nread_binary` for both. -/
theorem completeNreadBinary_echoes (hr : Reads c) (h0 : c.rlbytes = 0) :
    Option.Rel (Echoes q (FindsKey cfg c g)) (completeNreadBinary cfg env c g)
      (completeNreadBinary cfg env (hush q c) g) := by
  by_cases ht : c.substate = .readingTouchKey
  · unfold completeNreadBinary
    rw [hush_substate, ht]
    have htouch : Echoes q _ (processBinTouch cfg c g) _ := processBinTouch_echoes hr.out (hr.binKey_ne_nil h0)
    exact .some (htouch.congr ⟨fun h => ⟨hr.state, h.1, h0, h.2⟩, fun h => ⟨h.2.1, h.2.2.2⟩⟩)
  · have hcmd : c.cmd ≠ CMD_GATK := fun h => ht (hr.gatk h).2.1
    have hlost : FindsKey cfg c g = False := propext ⟨fun h => hcmd h.2.1, False.elim⟩
    unfold completeNreadBinary
    rw [hlost, hush_substate, hush_cmd_eq hcmd]
    have hsub := hr.substate
    simp only [bodySubstates, List.mem_cons, List.not_mem_nil, or_false] at hsub
    rcases hsub with h | h | h | h | h | h | h <;> rw [h]
    · dsimp only
      split
      · exact processBinAppendPrepend_echoes hr.out hr.binary hcmd
      · exact processBinUpdate_echoes hr.out hr.binary hcmd
    · exact completeUpdateBin_echoes hr.out
    · exact .some (processBinGet_echoes hr.out)
    · exact absurd h ht
    · exact .some (processBinDelete_echoes hr.out)
    · exact .some (completeIncrBin_echoes hr.out)
    · exact .some (processBinFlush_echoes hr.out)

/-! ## Turns -/

/-- Both connections wait for the rest of the request, and share the same. -/
structure Twins (q : UInt8) (t t' : Session) : Prop where
  reads : Reads t.c
  conn : t'.c = hush q t.c
  globals : t'.g = t.g
  stop : t'.stop = t.stop

/-- What a turn leaves of both sessions. -/
structure TwinTurn (q : UInt8) (lost : Prop) (u u' : Session) : Prop where
  globals : u'.g = u.g
  stop : u'.stop = u.stop
  conn : Echo q lost u.c u'.c

theorem closing_same {lost : Prop} (hr : Reads c) (hl : ¬lost) :
    Echo q lost { c with state := .closing } { hush q c with state := .closing } :=
  .same ⟨⟨nofun, nofun⟩, ⟨nofun, nofun⟩, .inl hr.out⟩ hl

theorem Reads.received (bs rest : Bytes) (hr : Reads c) :
    Reads { (receive c g bs).1 with rbuf := rest } ∧
      { (receive (hush q c) g bs).1 with rbuf := rest } = hush q { (receive c g bs).1 with rbuf := rest } ∧
      (receive (hush q c) g bs).2 = (receive c g bs).2 := by
  unfold receive
  dsimp only
  rw [hush_ritem]
  cases hri : c.ritem with
  | packet got =>
    refine ⟨⟨hr.state, hr.out, hr.substate, hr.binary, fun hc => ?_⟩, rfl, rfl⟩
    obtain ⟨hpos, hs, got', hgot, hlen⟩ := hr.gatk hc
    obtain rfl : got = got' := by simpa [hri] using hgot
    refine ⟨hpos, hs, got ++ bs, rfl, ?_⟩
    dsimp only
    rw [List.length_append]
    omega
  | item it off =>
    refine ⟨⟨hr.state, hr.out, hr.substate, hr.binary, fun hc => ?_⟩, rfl, rfl⟩
    obtain ⟨_, _, got', hgot, _⟩ := hr.gatk hc
    simp [hri] at hgot

theorem with_rbuf {rest : Bytes} (h : c.rbuf = rest) : { c with rbuf := rest } = c := h ▸ rfl

/-- The turn that answers a GATK which finds its key. -/
def KeyTurn (cfg : Config) (t : Session) (inp : Input) : Prop :=
  t.stop = false ∧ inp = .go ∧ FindsKey cfg t.c t.g

theorem Twins.complete (hw : Twins q t t') (hs : t.stop = false) (h0 : t.c.rlbytes = 0) :
    Option.Rel (TwinTurn q (KeyTurn cfg t .go)) (t.nreadTurn cfg env .go) (t'.nreadTurn cfg env .go) := by
  have hrel : Option.Rel (Echoes q (FindsKey cfg t.c t.g)) (completeNreadBinary cfg env t.c t.g)
      (completeNreadBinary cfg env (hush q t.c) t.g) := completeNreadBinary_echoes hw.reads h0
  have hquiet : t'.c.rlbytes = 0 := by rw [hw.conn, hush_rlbytes, h0]
  unfold Session.nreadTurn
  dsimp only
  rw [if_pos h0, if_pos hquiet, hw.conn, hw.globals]
  unfold completeNreadConn
  rw [hush_protocol, if_pos hw.reads.binary, if_pos hw.reads.binary]
  generalize completeNreadBinary cfg env t.c t.g = r at hrel ⊢
  generalize completeNreadBinary cfg env (hush q t.c) t.g = r' at hrel ⊢
  cases hrel with
  | none => exact .none
  | some h =>
    have hkey : FindsKey cfg t.c t.g ↔ KeyTurn cfg t .go := ⟨fun h => ⟨hs, rfl, h⟩, fun h => h.2.2⟩
    obtain ⟨hg, hc⟩ := h.congr hkey
    exact .some ⟨hg, hw.stop, hc⟩

theorem Twins.stays {lost : Prop} (hw : Twins q t t') (hl : ¬lost) : TwinTurn q lost t t' :=
  ⟨hw.globals, hw.stop, hw.conn ▸ .reads hw.reads hl⟩

theorem Twins.nread {inp : Input} (hw : Twins q t t') (hs : t.stop = false) :
    Option.Rel (TwinTurn q (KeyTurn cfg t inp)) (t.nreadTurn cfg env inp) (t'.nreadTurn cfg env inp) := by
  by_cases hgo : inp = .go ∧ t.c.rlbytes = 0
  · obtain ⟨rfl, h0⟩ := hgo
    exact hw.complete hs h0
  have hl : ¬KeyTurn cfg t inp := fun h => hgo ⟨h.2.1, h.2.2.2.2.1⟩
  have hstays : Option.Rel (TwinTurn q (KeyTurn cfg t inp)) (some t) (some t') := .some (hw.stays hl)
  have hcloses : TwinTurn q (KeyTurn cfg t inp) (t.setState .closing) (t'.setState .closing) :=
    ⟨hw.globals, hw.stop, by simpa only [Session.setState, hw.conn] using closing_same hw.reads hl⟩
  have hcloses' : TwinTurn q (KeyTurn cfg t inp) (t.clearErange.setState .closing)
      (t'.clearErange.setState .closing) :=
    ⟨congrArg (fun g : Globals => { g with erange := false }) hw.globals, hw.stop, hcloses.conn⟩
  have hreceive : ∀ bs rest input input',
      TwinTurn q (KeyTurn cfg t inp)
        { t with c := { (receive t.c t.g bs).1 with rbuf := rest }, g := (receive t.c t.g bs).2, input := input }
        { t' with c := { (receive t'.c t'.g bs).1 with rbuf := rest }, g := (receive t'.c t'.g bs).2, input := input' } := by
    intro bs rest input input'
    obtain ⟨hr, hc, hg⟩ := hw.reads.received (g := t.g) (q := q) bs rest
    rw [hw.conn, hw.globals]
    refine ⟨hg, hw.stop, ?_⟩
    dsimp only at hc ⊢
    rw [hc]
    exact .reads hr hl
  have hrl : t'.c.rlbytes = t.c.rlbytes := by rw [hw.conn, hush_rlbytes]
  have hrb : t'.c.rbuf = t.c.rbuf := by rw [hw.conn, hush_rbuf]
  have hkeeps : ∀ bs, { (receive t.c t.g bs).1 with rbuf := t.c.rbuf } = (receive t.c t.g bs).1 ∧
      { (receive t'.c t'.g bs).1 with rbuf := t.c.rbuf } = (receive t'.c t'.g bs).1 := fun bs =>
    ⟨with_rbuf (receive_same bs).2.1, with_rbuf ((receive_same bs).2.1.trans hrb)⟩
  cases inp with
  | go =>
    have h0 : t.c.rlbytes ≠ 0 := fun h => hgo ⟨rfl, h⟩
    unfold Session.nreadTurn
    dsimp only
    rw [hrl, hrb, if_neg h0, if_neg h0]
    split_ifs
    · exact hstays
    · exact .none
    · exact .some (hreceive _ _ _ _)
  | data bs =>
    unfold Session.nreadTurn
    dsimp only
    rw [hrl, hrb]
    split_ifs
    · exact hstays
    · exact .some hcloses
    · exact .none
    · exact hstays
    · have hdata := hreceive bs t.c.rbuf (t.input ++ bs) (t'.input ++ bs)
      rw [(hkeeps bs).1, (hkeeps bs).2] at hdata
      exact .some hdata
  | again =>
    unfold Session.nreadTurn
    dsimp only
    rw [hrl, hrb]
    split_ifs
    · exact hstays
    · exact .some ⟨congrArg (fun g : Globals => { g with erange := false }) hw.globals, rfl, (hw.stays hl).conn⟩
  | error =>
    unfold Session.nreadTurn
    dsimp only
    rw [hrl, hrb]
    split_ifs
    · exact hstays
    · exact .some hcloses'
  | eventFailed =>
    unfold Session.nreadTurn
    dsimp only
    rw [hrl, hrb]
    split_ifs
    · exact hstays
    · exact .some hcloses
  | event => exact hstays
  | wrote n => exact hstays
  | noMemory => exact hstays

theorem Twins.turn {inp : Input} (hw : Twins q t t') :
    Option.Rel (TwinTurn q (KeyTurn cfg t inp)) (t.turn cfg env inp) (t'.turn cfg env inp) := by
  have hstate : t'.c.state = .nread := by rw [hw.conn, hush_state, hw.reads.state]
  unfold Session.turn
  rw [hw.stop]
  by_cases hs : t.stop = true
  · rw [if_pos hs, if_pos hs]
    have hl : ¬KeyTurn cfg t inp := fun h => Bool.eq_false_iff.mp h.1 hs
    cases inp with
    | event => exact .some ⟨hw.globals, rfl, (hw.stays hl).conn⟩
    | _ => exact .some (hw.stays hl)
  · rw [if_neg hs, if_neg hs, hw.reads.state, hstate]
    exact hw.nread (by simpa using hs)

/-! ## Headers -/

def getCmds : List Int := [CMD_GETQ, CMD_GET, CMD_GETKQ, CMD_GETK]
def deltaCmds : List Int := [CMD_INCREMENT, CMD_DECREMENT]

theorem dispatchBinOpcode_get (hcmd : c.cmd ∈ getCmds) : dispatchBinOpcode cfg c =
    if c.binaryHeader.extlen.toNat = 0 ∧ c.binaryHeader.bodylen.toNat = c.binaryHeader.keylen.toNat ∧
        0 < c.binaryHeader.keylen.toNat then
      some (binReadKey c .readingGetKey 0)
    else none := by
  unfold dispatchBinOpcode
  simp only [getCmds, List.mem_cons, List.not_mem_nil, or_false] at hcmd
  rcases hcmd with hcmd | hcmd | hcmd | hcmd <;> simp only [hcmd] <;> rfl

theorem dispatchBinOpcode_delta (hcmd : c.cmd ∈ deltaCmds) : dispatchBinOpcode cfg c =
    if 0 < c.binaryHeader.keylen.toNat ∧ c.binaryHeader.extlen.toNat = 20 ∧
        c.binaryHeader.bodylen.toNat = c.binaryHeader.keylen.toNat + c.binaryHeader.extlen.toNat then
      some (binReadKey c .readingIncrHeader 20)
    else none := by
  unfold dispatchBinOpcode
  simp only [deltaCmds, List.mem_cons, List.not_mem_nil, or_false] at hcmd
  rcases hcmd with hcmd | hcmd <;> simp only [hcmd] <;> rfl

theorem dispatchBinOpcode_delete (hcmd : c.cmd = CMD_DELETE) : dispatchBinOpcode cfg c =
    if 0 < c.binaryHeader.keylen.toNat ∧ c.binaryHeader.extlen.toNat = 0 ∧
        c.binaryHeader.bodylen.toNat = c.binaryHeader.keylen.toNat then
      some (binReadKey c .readingDelHeader c.binaryHeader.extlen.toNat)
    else none := by
  unfold dispatchBinOpcode
  simp only [hcmd]
  rfl

theorem dispatchBinOpcode_flush (hcmd : c.cmd = CMD_FLUSH) : dispatchBinOpcode cfg c =
    if c.binaryHeader.keylen.toNat = 0 ∧ c.binaryHeader.bodylen.toNat = c.binaryHeader.extlen.toNat ∧
        (c.binaryHeader.extlen.toNat = 0 ∨ c.binaryHeader.extlen.toNat = 4) then
      some (binReadKey c .readFlushExptime c.binaryHeader.extlen.toNat)
    else none := by
  unfold dispatchBinOpcode
  simp only [hcmd]
  rfl

/-- What is read next of a request whose lengths are in order, for one command and for
what the quiet variant of it is handled as. -/
structure Planned (cfg : Config) (cmd : Int) (next : BinSubstate) (extra : Nat → Nat) (ok : Nat → Nat → Nat → Bool) :
    Prop where
  listed : next ∈ bodySubstates
  gatk : cmd = CMD_GATK → next = .readingTouchKey ∧ ∀ extlen keylen bodylen,
    ok extlen keylen bodylen = true → extra extlen = 4 ∧ 0 < keylen
  dispatch : ∀ c, c.cmd = cmd ∨ c.cmd = hushCmd cmd → dispatchBinOpcode cfg c =
    if ok c.binaryHeader.extlen.toNat c.binaryHeader.keylen.toNat c.binaryHeader.bodylen.toNat then
      some (binReadKey c next (extra c.binaryHeader.extlen.toNat))
    else none

theorem mem_of_hushed {l : List Int} {cmd : Int} (hl : ∀ x ∈ l, hushCmd x ∈ l) (hm : cmd ∈ l)
    (hc : c.cmd = cmd ∨ c.cmd = hushCmd cmd) : c.cmd ∈ l := by
  rcases hc with hc | hc
  · exact hc ▸ hm
  · exact hc ▸ hl cmd hm

/-- The commands that a pair can ask for, by the data they are sent with. -/
def pairCmds (cmd : Int) : Prop :=
  cmd ∈ updateCmds ∨ cmd ∈ appendCmds ∨ cmd ∈ getCmds ∨ cmd ∈ deltaCmds ∨ cmd ∈ [CMD_DELETE] ∨ cmd ∈ [CMD_FLUSH] ∨
    cmd ∈ touchCmds

instance (cmd : Int) : Decidable (pairCmds cmd) := inferInstanceAs (Decidable (_ ∨ _))

theorem pair_planned {cmd : Int} (hm : pairCmds cmd) : ∃ next extra ok, Planned cfg cmd next extra ok := by
  have hgatk : ∀ l : List Int, (∀ x ∈ l, x ≠ CMD_GATK) → cmd ∈ l → cmd ≠ CMD_GATK := fun l hl hm => hl cmd hm
  rcases hm with hm | hm | hm | hm | hm | hm | hm
  · refine ⟨.readingSetHeader, fun _ => 8, fun e k b => e = 8 ∧ k ≠ 0 ∧ k + 8 ≤ b, by decide,
      fun h => absurd h (hgatk _ (by decide) hm), fun c hc => ?_⟩
    rw [dispatchBinOpcode_update (mem_of_hushed (by decide) hm hc)]
    simp
  · refine ⟨.readingSetHeader, fun _ => 0, fun e k _ => 0 < k ∧ e = 0, by decide,
      fun h => absurd h (hgatk _ (by decide) hm), fun c hc => ?_⟩
    rw [dispatchBinOpcode_append (mem_of_hushed (by decide) hm hc)]
    simp
  · refine ⟨.readingGetKey, fun _ => 0, fun e k b => e = 0 ∧ b = k ∧ 0 < k, by decide,
      fun h => absurd h (hgatk _ (by decide) hm), fun c hc => ?_⟩
    rw [dispatchBinOpcode_get (mem_of_hushed (by decide) hm hc)]
    simp
  · refine ⟨.readingIncrHeader, fun _ => 20, fun e k b => 0 < k ∧ e = 20 ∧ b = k + e, by decide,
      fun h => absurd h (hgatk _ (by decide) hm), fun c hc => ?_⟩
    rw [dispatchBinOpcode_delta (mem_of_hushed (by decide) hm hc)]
    simp
  · refine ⟨.readingDelHeader, id, fun e k b => 0 < k ∧ e = 0 ∧ b = k, by decide,
      fun h => absurd h (hgatk _ (by decide) hm), fun c hc => ?_⟩
    rw [dispatchBinOpcode_delete (List.mem_singleton.mp (mem_of_hushed (by decide) hm hc))]
    simp
  · refine ⟨.readFlushExptime, id, fun e k b => k = 0 ∧ b = e ∧ (e = 0 ∨ e = 4), by decide,
      fun h => absurd h (hgatk _ (by decide) hm), fun c hc => ?_⟩
    rw [dispatchBinOpcode_flush (List.mem_singleton.mp (mem_of_hushed (by decide) hm hc))]
    simp
  · refine ⟨.readingTouchKey, fun _ => 4, fun e k _ => e = 4 ∧ k ≠ 0, by decide, fun _ => ⟨rfl, fun e k b hk => ?_⟩,
      fun c hc => ?_⟩
    · have hpos := (of_decide_eq_true hk).2
      exact ⟨rfl, Nat.pos_of_ne_zero hpos⟩
    · rw [dispatchBinOpcode_touch (mem_of_hushed (by decide) hm hc)]
      simp

/-- What `dispatch_bin_command` makes of the opcodes of a pair. -/
theorem quietPair_cmds (cfg : Config) (hp : (o, q) ∈ quietPairs) : quietOf o.toNat = none ∧
    quietOf q.toNat = some (hushCmd o.toNat) ∧ ∃ next extra ok, Planned cfg o.toNat next extra ok := by
  have hall : (quietPairs.all fun p => quietOf p.1.toNat = none ∧ quietOf p.2.toNat = some (hushCmd p.1.toNat) ∧
      pairCmds p.1.toNat) = true := by decide
  obtain ⟨h1, h2, h3⟩ := of_decide_eq_true (List.all_eq_true.mp hall _ hp)
  exact ⟨h1, h2, pair_planned h3⟩

/-- The request of the quiet connection, as it is dispatched. -/
def requestUnder (q : UInt8) (rbuf : Bytes) (c : Conn) : Conn :=
  { c with rbuf := rbuf, binaryHeader := { c.binaryHeader with opcode := q }, cmd := q.toNat }

theorem authenticated_pair (cfg : Config) (hp : (o, q) ∈ quietPairs) (hcmd : c.cmd = o.toNat) (rbuf : Bytes) :
    authenticated cfg (requestUnder q rbuf c) = authenticated cfg c := by
  have hall : (quietPairs.all fun p =>
      (p.1.toNat : Int) ∉ [CMD_SASL_LIST_MECHS, CMD_SASL_AUTH, CMD_SASL_STEP, CMD_VERSION] ∧
        (p.2.toNat : Int) ∉ [CMD_SASL_LIST_MECHS, CMD_SASL_AUTH, CMD_SASL_STEP, CMD_VERSION]) = true := by decide
  obtain ⟨h1, h2⟩ := of_decide_eq_true (List.all_eq_true.mp hall _ hp)
  unfold authenticated
  rw [hcmd, if_neg h1]
  exact if_neg h2

theorem dispatchBinCommand_loud (hauth : ¬(cfg.sasl = true ∧ authenticated cfg c = false))
    (hkey : ¬KEY_MAX_LENGTH < c.binaryHeader.keylen.toNat) (hq : quietOf c.cmd = none) : dispatchBinCommand cfg c =
      (dispatchBinOpcode cfg { c with noreply := false }).getD
        (handleBinaryProtocolError { c with noreply := false }) := by
  unfold dispatchBinCommand
  rw [if_neg hauth, if_neg hkey, hq]

theorem dispatchBinCommand_quiet {cmd : Int} (hauth : ¬(cfg.sasl = true ∧ authenticated cfg c = false))
    (hkey : ¬KEY_MAX_LENGTH < c.binaryHeader.keylen.toNat) (hq : quietOf c.cmd = some cmd) : dispatchBinCommand cfg c =
      (dispatchBinOpcode cfg { c with noreply := true, cmd := cmd }).getD
        (handleBinaryProtocolError { c with noreply := true, cmd := cmd }) := by
  unfold dispatchBinCommand
  rw [if_neg hauth, if_neg hkey, hq]

/-- Both requests are refused, or of both the rest is read. -/
theorem dispatchBinCommand_echo (hp : (o, q) ∈ quietPairs) (hcmd : c.cmd = o.toNat) (hs : Started c)
    (ho : c.out = []) {rbuf : Bytes} (hrest : rbuf.drop HEADER_SIZE = c.rbuf.drop HEADER_SIZE) :
    Echo q False { dispatchBinCommand cfg c with rbuf := (dispatchBinCommand cfg c).rbuf.drop HEADER_SIZE }
      { dispatchBinCommand cfg (requestUnder q rbuf c) with
        rbuf := (dispatchBinCommand cfg (requestUnder q rbuf c)).rbuf.drop HEADER_SIZE } := by
  obtain ⟨hloud, hquiet, next, extra, ok, hplan⟩ := quietPair_cmds cfg hp
  have hsame := authenticated_pair cfg hp hcmd rbuf
  by_cases hauth : cfg.sasl = true ∧ authenticated cfg c = false
  · unfold dispatchBinCommand
    rw [hsame, if_pos hauth, if_pos hauth]
    exact .same ⟨⟨nofun, nofun⟩, ⟨nofun, nofun⟩, .inr rfl⟩ id
  by_cases hkey : KEY_MAX_LENGTH < c.binaryHeader.keylen.toNat
  · unfold dispatchBinCommand
    rw [hsame, if_neg hauth, if_neg hauth, if_pos hkey,
      if_pos (show KEY_MAX_LENGTH < (requestUnder q rbuf c).binaryHeader.keylen.toNat from hkey)]
    exact .same ⟨⟨nofun, nofun⟩, ⟨nofun, nofun⟩, .inr rfl⟩ id
  have h1 := hplan.dispatch { c with noreply := false } (.inl hcmd)
  have h2 := hplan.dispatch { requestUnder q rbuf c with noreply := true, cmd := hushCmd o.toNat } (.inr rfl)
  rw [dispatchBinCommand_loud hauth hkey (hcmd ▸ hloud),
    dispatchBinCommand_quiet (c := requestUnder q rbuf c) (hsame ▸ hauth) hkey hquiet]
  by_cases hok : ok c.binaryHeader.extlen.toNat c.binaryHeader.keylen.toNat c.binaryHeader.bodylen.toNat = true
  · have hr : Reads { binReadKey { c with noreply := false } next (extra c.binaryHeader.extlen.toNat) with
        rbuf := c.rbuf.drop HEADER_SIZE } := by
      refine ⟨rfl, ho, hplan.listed, hs.binary, fun hc => ?_⟩
      obtain ⟨htouch, hlen⟩ := hplan.gatk (hcmd.symm.trans hc)
      obtain ⟨h4, hpos⟩ := hlen _ _ _ hok
      refine ⟨hs.keylen ▸ hpos, htouch, [], rfl, ?_⟩
      dsimp only [binReadKey]
      rw [h4, List.length_nil]
      omega
    have heq : { binReadKey { requestUnder q rbuf c with noreply := true, cmd := hushCmd o.toNat } next
        (extra c.binaryHeader.extlen.toNat) with rbuf := rbuf.drop HEADER_SIZE } =
        hush q { binReadKey { c with noreply := false } next (extra c.binaryHeader.extlen.toNat) with
          rbuf := c.rbuf.drop HEADER_SIZE } := by
      rw [hrest, ← hcmd]
      rfl
    rw [h1.trans (if_pos hok), h2.trans (if_pos hok)]
    exact Eq.subst (motive := Echo q False _) heq.symm (.reads hr id)
  · rw [h1.trans (if_neg hok), h2.trans (if_neg hok)]
    exact .same ⟨⟨nofun, nofun⟩, ⟨nofun, nofun⟩, .inr rfl⟩ id

/-! ## Runs -/

theorem parseHeader_set {bs : Bytes} (hl : 1 < bs.length) (q : UInt8) :
    parseHeader (bs.set 1 q) = { parseHeader bs with opcode := q } := by
  have hdrop : ∀ n, 1 < n → (bs.set 1 q).drop n = bs.drop n := fun n hn => List.drop_set_of_lt hn
  unfold parseHeader
  rw [hdrop 2 (by decide), hdrop 8 (by decide), hdrop 12 (by decide), hdrop 16 (by decide)]
  simp [List.getD_eq_getElem?_getD, hl]

theorem RequestNext.asking (hn : RequestNext cfg s h) (q : UInt8) :
    RequestNext cfg (s.asking q) { h with opcode := q } where
  running := hn.running
  count := hn.count
  state := hn.state
  binary := by
    have hb := hn.binary
    unfold negotiate Session.asking at *
    dsimp only at *
    split <;> rename_i hc
    · rwa [if_pos hc] at hb
    · rwa [if_neg hc] at hb
  size := by
    unfold Session.asking
    rw [List.length_set]
    exact hn.size
  header := by
    have hsize := hn.size
    have hlen : 1 < (s.c.rbuf.take HEADER_SIZE).length := by
      rw [List.length_take, Nat.min_eq_left hsize]
      decide
    rw [← hn.header, ← parseHeader_set hlen q]
    unfold Session.asking
    rw [List.take_set]
  magic := hn.magic

theorem RequestNext.waits {inp : Input} (hn : RequestNext cfg s h) (hgo : inp ≠ .go) : s.turn cfg env inp = some s := by
  unfold Session.turn
  rw [hn.running, hn.state]
  cases inp with
  | go => exact absurd rfl hgo
  | _ => rfl

theorem begun_twins (hp : (h.opcode, q) ∈ quietPairs) (hn : RequestNext cfg s h) :
    TwinTurn q False (begun cfg s h) (begun cfg (s.asking q) { h with opcode := q }) := by
  have hrest : (s.c.rbuf.set 1 q).drop HEADER_SIZE = s.c.rbuf.drop HEADER_SIZE := List.drop_set_of_lt (by decide)
  have hstart : startRequest (negotiate (s.asking q).c) { h with opcode := q } =
      requestUnder q (s.c.rbuf.set 1 q) (startRequest (negotiate s.c) h) := by
    unfold Session.asking negotiate
    dsimp only
    split <;> rfl
  refine ⟨rfl, rfl, ?_⟩
  unfold begun
  dsimp only
  rw [hstart]
  exact dispatchBinCommand_echo (c := startRequest (negotiate s.c) h) hp rfl ⟨hn.binary, rfl⟩ rfl (hrest.trans (congrArg _ (negotiate_same s.c).1.symm))

/-- A run while a request is read. -/
def RunsRequest (cfg : Config) : Session → List ServerEvent → Session → Prop :=
  Run (Guarded (fun s _ => AtRequest s) (Happens cfg))

/-- The loud request and the quiet one are as far. -/
inductive Alike (cfg : Config) (h : BinaryHeader) (q : UInt8) : Session → Session → Prop where
  | next {t : Session} (hn : RequestNext cfg t h) : Alike cfg h q t (t.asking q)
  | body {t t' : Session} (hw : Twins q t t') : Alike cfg h q t t'

/-- The event is the turn that answers a GATK which finds its key. -/
def AnswersKey (cfg : Config) (t : Session) : ServerEvent → Prop
  | .turn _ inp => KeyTurn cfg t inp
  | .others _ => False

theorem Alike.atRequest (ha : Alike cfg h q t t') : AtRequest t ∧ AtRequest t' := by
  cases ha with
  | next hn => exact ⟨.inl hn.state, .inl hn.state⟩
  | body hw =>
    refine ⟨.inr hw.reads.state, .inr ?_⟩
    rw [hw.conn, hush_state, hw.reads.state]

theorem Alike.globals (ha : Alike cfg h q t t') : t'.g = t.g := by
  cases ha with
  | next hn => rfl
  | body hw => exact hw.globals

/-- What an event leaves of both requests. -/
def Outcome (cfg : Config) (h : BinaryHeader) (q : UInt8) (lost : Prop) (u u' : Session) : Prop :=
  u'.g = u.g ∧ (Alike cfg h q u u' ∧ ¬lost ∨ ¬AtRequest u ∧ ¬AtRequest u' ∧ (Muted q u.c.out u'.c.out ↔ ¬lost))

theorem TwinTurn.outcome {lost : Prop} {u' : Session} (ht : TwinTurn q lost u u') : Outcome cfg h q lost u u' := by
  obtain ⟨hg, hs, hc⟩ := ht
  refine ⟨hg, ?_⟩
  generalize hl : u.c = d at hc
  generalize hl' : u'.c = d' at hc
  cases hc with
  | reads hr hn =>
    subst hl
    exact .inl ⟨.body ⟨hr, hl', hg, hs⟩, hn⟩
  | same ha hn =>
    subst hl hl'
    exact .inr ⟨not_or.mpr ha.loud, not_or.mpr ha.quiet, iff_of_true ha.muted hn⟩
  | keyless hc hc' hm hlost =>
    subst hl hl'
    exact .inr ⟨by simp [AtRequest, hc], by simp [AtRequest, hc'], iff_of_false hm (not_not.mpr hlost)⟩

theorem Alike.happens {e : ServerEvent} (hp : (h.opcode, q) ∈ quietPairs) (ha : Alike cfg h q t t')
    (he : Happens cfg t e u) : ∃ u', Happens cfg t' e u' ∧ Outcome cfg h q (AnswersKey cfg t e) u u' := by
  cases e with
  | others g =>
    obtain rfl : u = { t with g := g } := he
    refine ⟨{ t' with g := g }, rfl, rfl, .inl ⟨?_, id⟩⟩
    cases ha with
    | next hn => exact .next ⟨hn.running, hn.count, hn.state, hn.binary, hn.size, hn.header, hn.magic⟩
    | body hw => exact .body ⟨hw.reads, hw.conn, rfl, hw.stop⟩
  | turn env inp =>
    cases ha with
    | next hn =>
      have hl : ¬KeyTurn cfg t inp := fun hk => ConnState.noConfusion (hn.state.symm.trans hk.2.2.1)
      by_cases hgo : inp = .go
      · subst hgo
        have hturn := (request_turn hn).symm.trans he
        cases hturn
        have hquiet : (t.asking q).turn cfg env .go = some (begun cfg (t.asking q) { h with opcode := q }) :=
          request_turn (hn.asking q)
        obtain ⟨hg, hout⟩ : Outcome cfg h q False _ _ := (begun_twins hp hn).outcome
        refine ⟨_, hquiet, hg, ?_⟩
        rwa [show AnswersKey cfg t (.turn env .go) = False from propext (iff_false_intro hl)]
      · obtain rfl : t = u := Option.some.inj ((hn.waits hgo).symm.trans he)
        exact ⟨_, (hn.asking q).waits hgo, rfl, .inl ⟨.next hn, hl⟩⟩
    | body hw =>
      have hrel : Option.Rel (TwinTurn q (KeyTurn cfg t inp)) (t.turn cfg env inp) (t'.turn cfg env inp) := hw.turn
      rw [show t.turn cfg env inp = some u from he] at hrel
      generalize hr' : t'.turn cfg env inp = r' at hrel
      cases hrel with
      | some h => exact ⟨_, hr', h.outcome⟩

theorem Alike.run {es : List ServerEvent} (hp : (h.opcode, q) ∈ quietPairs) (ha : Alike cfg h q s t')
    (hr : RunsRequest cfg s es t) (ht : AtRequest t) :
    ∃ u', RunsRequest cfg t' es u' ∧ Alike cfg h q t u' := by
  unfold RunsRequest at hr ⊢
  induction hr generalizing t' with
  | nil => exact ⟨t', .nil _, ha⟩
  | @cons s s₁ t e es hs hr ih =>
    obtain ⟨s₁', he, _, ⟨ha₁, _⟩ | ⟨hdone, _⟩⟩ := ha.happens hp hs.2
    · obtain ⟨u', hr', ha'⟩ := ih ha₁ ht
      exact ⟨u', .cons ⟨ha.atRequest.2, he⟩ hr', ha'⟩
    · cases hr with
      | nil => exact absurd ht hdone
      | cons hs' _ => exact absurd hs'.1 hdone

theorem happens_unique {e : ServerEvent} {u' : Session} (h : Happens cfg s e u) (h' : Happens cfg s e u') : u = u' := by
  cases e with
  | turn env inp => exact Option.some.inj (h.symm.trans h')
  | others g => exact h.trans h'.symm

/-- The quiet request runs over the events of the loud one and leaves the same; when the
loud one is done, its answer is nothing or the same. -/
def QuietlySame (cfg : Config) (s : Session) (q : UInt8) (es : List ServerEvent) (t : Session) (e : ServerEvent)
    (u : Session) : Prop :=
  ∃ t' u', RunsRequest cfg (s.asking q) es t' ∧ Happens cfg t' e u' ∧ t'.g = t.g ∧ u'.g = u.g ∧
    (AtRequest u' ↔ AtRequest u) ∧ (¬AtRequest u → Muted q u.c.out u'.c.out)

theorem QuietlySame.not_key {es : List ServerEvent} {e : ServerEvent} (hp : (h.opcode, q) ∈ quietPairs)
    (hn : RequestNext cfg s h) (hr : RunsRequest cfg s es t) (ht : AtRequest t) (he : Happens cfg t e u)
    (hs : QuietlySame cfg s q es t e u) : ¬AnswersKey cfg t e := by
  intro hk
  obtain ⟨t', hr', ha⟩ := (Alike.next (q := q) hn).run hp hr ht
  obtain ⟨u', he', _, hout⟩ := ha.happens hp he
  obtain ⟨t₁, u₁, hr₁, he₁, _, _, _, hm⟩ := hs
  obtain rfl : t' = t₁ := hr'.unique (fun _ _ _ _ h h' => happens_unique h.2 h'.2) hr₁
  obtain rfl : u' = u₁ := happens_unique he' he₁
  rcases hout with ⟨_, hl⟩ | ⟨hdone, _, hiff⟩
  · exact hl hk
  · exact hiff.mp (hm hdone) hk

/-- A quiet request does the same as the loud one unless it is a GATKQ that finds its key. -/
theorem quietly_same_iff {es : List ServerEvent} {e : ServerEvent} (hp : (h.opcode, q) ∈ quietPairs)
    (hn : RequestNext cfg s h) (hr : RunsRequest cfg s es t) (ht : AtRequest t) (he : Happens cfg t e u) :
    QuietlySame cfg s q es t e u ↔ ¬AnswersKey cfg t e := by
  refine ⟨QuietlySame.not_key hp hn hr ht he, fun hk => ?_⟩
  obtain ⟨t', hr', ha⟩ := (Alike.next (q := q) hn).run hp hr ht
  obtain ⟨u', he', hg, hout⟩ := ha.happens hp he
  refine ⟨t', u', hr', he', ha.globals, hg, ?_⟩
  rcases hout with ⟨ha', _⟩ | ⟨hdone, hdone', hiff⟩
  · exact ⟨iff_of_true ha'.atRequest.2 ha'.atRequest.1, fun h => absurd ha'.atRequest.1 h⟩
  · exact ⟨iff_of_false hdone' hdone, fun _ => hiff.mpr hk⟩

/-- A SET of `k` to `v`. -/
def setKey : Bytes :=
  [0x80, 0x01, 0, 1, 8, 0, 0, 0, 0, 0, 0, 10, 0, 0, 0, 0, 0, 0, 0, 0, 0, 0, 0, 0] ++
    [0, 0, 0, 0, 0, 0, 0, 0] ++ ascii "kv"

/-- A GATK of `k`. -/
def gatkKey : Bytes :=
  [0x80, 0x23, 0, 1, 4, 0, 0, 0, 0, 0, 0, 5, 0, 0, 0, 0, 0, 0, 0, 0, 0, 0, 0, 0] ++ [0, 0, 0, 0] ++ ascii "k"

/-- A page for one item. -/
def onePage : Env := { (default : Env) with alloc := fun _ => ⟨fun _ => true, some [4096]⟩ }

def turned (s : Session) (inp : Input) : Session := (s.turn smallServer onePage inp).getD s

/-- The SET is answered and the GATK read. -/
@[irreducible]
def keyStored : Session :=
  [.go, .go, .go, .go, .go, .wrote 24, .go, .go].foldl turned (hasRead (setKey ++ gatkKey))

@[irreducible]
def gatkRead : Session := turned (turned keyStored .go) .go

theorem requestNext_keyStored : RequestNext smallServer keyStored (parseHeader (gatkKey.take HEADER_SIZE)) where
  running := by decide +kernel
  count := by decide
  state := by decide +kernel
  binary := by decide +kernel
  size := by decide +kernel
  header := by decide +kernel
  magic := by decide

theorem happens_turned {inp : Input} (h : (s.turn smallServer onePage inp).isSome = true) :
    Happens smallServer s (.turn onePage inp) (turned s inp) := by
  obtain ⟨s', hs⟩ := Option.isSome_iff_exists.mp h
  show s.turn smallServer onePage inp = some ((s.turn smallServer onePage inp).getD s)
  rw [hs]
  rfl

theorem gatkRead_run : RunsRequest smallServer keyStored [.turn onePage .go, .turn onePage .go] gatkRead := by
  unfold gatkRead
  refine .cons ⟨.inl requestNext_keyStored.state, happens_turned (by decide +kernel)⟩
    (.cons ⟨.inr (by decide +kernel), happens_turned (by decide +kernel)⟩ (.nil _))

theorem gatkRead_atRequest : AtRequest gatkRead := .inr (by decide +kernel)

theorem gatkRead_happens : Happens smallServer gatkRead (.turn onePage .go) (turned gatkRead .go) :=
  happens_turned (by decide +kernel)

theorem quietly_same_iff_gatk :
    QuietlySame smallServer keyStored 0x24 [.turn onePage .go, .turn onePage .go] gatkRead (.turn onePage .go)
      (turned gatkRead .go) ↔ ¬AnswersKey smallServer gatkRead (.turn onePage .go) :=
  quietly_same_iff (by decide) requestNext_keyStored gatkRead_run gatkRead_atRequest gatkRead_happens

/-- A GATKQ answers with the value of `k` and not, as the GATK does, with its key too. -/
theorem gatkq_loses_key : ∃ cfg s h q es t e u, (h.opcode, q) ∈ quietPairs ∧ RequestNext cfg s h ∧
    RunsRequest cfg s es t ∧ AtRequest t ∧ Happens cfg t e u ∧ ¬QuietlySame cfg s q es t e u := by
  refine ⟨smallServer, keyStored, _, 0x24, _, gatkRead, _, _, by decide, requestNext_keyStored, gatkRead_run,
    gatkRead_atRequest, gatkRead_happens, fun hs => ?_⟩
  have hhit : Hit smallServer.toSettings gatkRead.g.store gatkRead.c.binKey :=
    ⟨4096, by decide +kernel, by decide +kernel, by decide +kernel⟩
  exact hs.not_key (by decide) requestNext_keyStored gatkRead_run gatkRead_atRequest gatkRead_happens
    ⟨by decide +kernel, rfl, by decide +kernel, by decide +kernel, by decide +kernel, hhit⟩

end RamCube
