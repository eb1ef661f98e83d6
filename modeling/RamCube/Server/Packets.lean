import RamCube.Lib.Reading
import RamCube.Server.ReferenceTurns
import RamCube.Stats.StatsBuffer

/-! # Answers as packets (memcached.c)

What a binary connection writes is one packet after the other. A client that sends requests
without waiting finds in each packet which request it answers: the opcode and the `opaque` are those
of the request, and the answers come in the order of the requests. -/
namespace RamCube

variable {cfg : Config} {env : Env} {c c' c₁ : Conn} {g g' : Globals} {s s' : Session}

/-! ## Reading a packet -/

structure Packet where
  opcode : UInt8
  status : Nat
  reqOpaque : UInt32
  cas : UInt64
  extras : Bytes
  key : Bytes
  value : Bytes
deriving DecidableEq

/-- A number of `n` bytes in network order. -/
def readWord (n : Nat) : Reader UInt8 Nat := do
  let bs ← Reader.exactly n
  return readBigEndian bs

/-- `protocol_binary_response_header`, and the body of the length it says. -/
def readPacket : Reader UInt8 Packet := do
  Reader.literal [0x81]
  let opcode ← readWord 1
  let keylen ← readWord 2
  let extlen ← readWord 1
  Reader.literal [0]
  let status ← readWord 2
  let bodylen ← readWord 4
  let reqOpaque ← readWord 4
  let cas ← readWord 8
  let extras ← Reader.exactly extlen
  let key ← Reader.exactly keylen
  let value ← Reader.exactly (bodylen - (extlen + keylen))
  return ⟨UInt8.ofNat opcode, status, UInt32.ofNat reqOpaque, UInt64.ofNat cas, extras, key, value⟩

theorem readWord_takes {n v : Nat} (h : v < 256 ^ n) : (readWord n).Takes (bigEndian n v) v := by
  have hv : v = readBigEndian (bigEndian n v) := (readBigEndian_bigEndian h).symm
  have hread : (readWord n).Takes (bigEndian n v) (readBigEndian (bigEndian n v)) :=
    (Reader.takes_exactly (length_bigEndian n v)).last (Reader.takes_pure _)
  rwa [← hv] at hread

theorem bigEndian_one (v : Nat) : bigEndian 1 v = [UInt8.ofNat v] := by
  simp [bigEndian]

theorem BinStatus.code_lt (err : BinStatus) : err.code < 256 := by
  cases err <;> decide

/-- A header and its body are read as one packet. -/
theorem readPacket_takes (c : Conn) (err : BinStatus) {extras key value : Bytes} (he : extras.length < 256)
    (hk : key.length < 2 ^ 16) (hb : (extras ++ key ++ value).length < 2 ^ 32) :
    readPacket.Takes (binHeader c err extras.length key.length (extras ++ key ++ value).length ++ (extras ++ key ++ value))
      ⟨c.binaryHeader.opcode, err.code, c.reqOpaque, c.cas, extras, key, value⟩ := by
  have hop : (readWord 1).Takes [c.binaryHeader.opcode] c.binaryHeader.opcode.toNat := by
    have h := readWord_takes (n := 1) (v := c.binaryHeader.opcode.toNat) (by have := c.binaryHeader.opcode.toNat_lt; omega)
    rwa [bigEndian_one, UInt8.ofNat_toNat] at h
  have hext : (readWord 1).Takes [UInt8.ofNat extras.length] extras.length := by
    have h := readWord_takes (n := 1) (v := extras.length) (by omega)
    rwa [bigEndian_one] at h
  have hvalue : value.length = (extras ++ key ++ value).length - (extras.length + key.length) := by
    rw [List.length_append, List.length_append]
    omega
  have hpacket : (⟨c.binaryHeader.opcode, err.code, c.reqOpaque, c.cas, extras, key, value⟩ : Packet) =
      ⟨UInt8.ofNat c.binaryHeader.opcode.toNat, err.code, UInt32.ofNat c.reqOpaque.toNat, UInt64.ofNat c.cas.toNat, extras, key, value⟩ := by
    rw [UInt8.ofNat_toNat, UInt32.ofNat_toNat, UInt64.ofNat_toNat]
  have htext : binHeader c err extras.length key.length (extras ++ key ++ value).length ++ (extras ++ key ++ value) =
      [0x81] ++ ([c.binaryHeader.opcode] ++ (bigEndian 2 key.length ++ ([UInt8.ofNat extras.length] ++ ([0] ++ (bigEndian 2 err.code ++
        (bigEndian 4 (extras ++ key ++ value).length ++ (bigEndian 4 c.reqOpaque.toNat ++ (bigEndian 8 c.cas.toNat ++
          (extras ++ (key ++ value)))))))))) := by
    simp [binHeader]
  rw [htext, hpacket]
  refine (Reader.takes_literal _).bind (hop.bind ((readWord_takes ?_).bind (hext.bind ((Reader.takes_literal _).bind
    ((readWord_takes ?_).bind ((readWord_takes ?_).bind ((readWord_takes ?_).bind ((readWord_takes ?_).bind
      ((Reader.takes_exactly rfl).bind ((Reader.takes_exactly rfl).bind ((Reader.takes_exactly hvalue).last
        (Reader.takes_pure _))))))))))))
  · omega
  · have := err.code_lt
    omega
  · omega
  · have := c.reqOpaque.toNat_lt
    omega
  · have := c.cas.toNat_lt
    omega

theorem readPacket_not_nil (p : Packet) : ¬readPacket.Takes [] p := by
  intro h
  have hnone : readPacket.run [] = none := rfl
  have hsome := h []
  rw [List.append_nil, hnone] at hsome
  cases hsome

/-! ## Answers to a request -/

/-- `PROTOCOL_BINARY_CMD_STAT` -/
def statOpcode : UInt8 := 0x10

/-- A request that is no quiet one. -/
def Loud (h : BinaryHeader) : Prop := quietOf h.opcode.toNat = none

/-- Packets that answer a request: one, or the statistics; a quiet request may have none. -/
structure AnswersTo (h : BinaryHeader) (packets : List Packet) : Prop where
  tagged : ∀ p ∈ packets, p.opcode = h.opcode ∧ p.reqOpaque = h.reqOpaque
  single : h.opcode ≠ statOpcode → packets.length ≤ 1
  loud : Loud h → packets ≠ []

/-- The packets of each request, in the order of the requests. -/
def AnswersInOrder (requests : List BinaryHeader) (packets : List Packet) : Prop :=
  ∃ groups, List.Forall₂ AnswersTo requests groups ∧ packets = groups.flatten

theorem AnswersInOrder.snoc {requests : List BinaryHeader} {packets packets' : List Packet} {h : BinaryHeader}
    (hin : AnswersInOrder requests packets) (hto : AnswersTo h packets') :
    AnswersInOrder (requests ++ [h]) (packets ++ packets') := by
  obtain ⟨groups, hgroups, rfl⟩ := hin
  exact ⟨groups ++ [packets'], List.rel_append hgroups (.cons hto .nil), by simp⟩

/-- The request that a connection is at is the same. -/
structure SameRequest (c c' : Conn) : Prop where
  header : c'.binaryHeader = c.binaryHeader
  reqOpaque : c'.reqOpaque = c.reqOpaque
  keylen : c'.keylen = c.keylen
  noreply : c'.noreply = c.noreply

/-- The fields of the request that `try_read_command` copies. -/
structure Tagged (c : Conn) : Prop where
  reqOpaque : c.reqOpaque = c.binaryHeader.reqOpaque
  keylen : c.keylen = c.binaryHeader.keylen.toNat

/-- A request that was dispatched. -/
structure Current (c : Conn) : Prop extends Tagged c where
  noreply : Loud c.binaryHeader → c.noreply = false

theorem SameRequest.refl (c : Conn) : SameRequest c c := ⟨rfl, rfl, rfl, rfl⟩

theorem SameRequest.tagged (h : SameRequest c c') (hc : Tagged c) : Tagged c' :=
  ⟨by rw [h.reqOpaque, h.header, hc.reqOpaque], by rw [h.keylen, h.header, hc.keylen]⟩

theorem SameRequest.current (h : SameRequest c c') (hc : Current c) : Current c' :=
  ⟨h.tagged hc.toTagged, by rw [h.header, h.noreply]; exact hc.noreply⟩

/-- What a handler of the request of `c` writes, unless it goes on to read. -/
structure Says (c c' : Conn) : Prop where
  header : c'.binaryHeader = c.binaryHeader
  current : c'.state = .nread → Current c'
  answer : c'.state ≠ .nread → ∃ packets, readPacket.Series c'.out packets ∧ AnswersTo c.binaryHeader packets
  silent : c'.state ∉ [.write, .mwrite, .closing] → c'.out = []

/-- A quiet request has no answer. -/
theorem Says.quiet (h : SameRequest c c') (hs : c'.state ≠ .nread) (hq : ¬Loud c.binaryHeader) (hout : c'.out = []) : Says c c' :=
  ⟨h.header, fun hs' => absurd hs' hs,
    fun _ => ⟨[], hout ▸ Reader.series_nil _, fun _ hp => absurd hp List.not_mem_nil, fun _ => Nat.zero_le 1, fun hl => absurd hl hq⟩,
    fun _ => hout⟩

/-- More of the request is to be read. -/
theorem Says.reads (hc : Current c) (h : SameRequest c c') (hs : c'.state = .nread) (hout : c'.out = []) : Says c c' :=
  ⟨h.header, fun _ => h.current hc, fun hs' => absurd hs hs', fun _ => hout⟩

theorem Says.packet {err : BinStatus} {cas : UInt64} (extras key value : Bytes) (hc : Tagged c) (h : SameRequest c c')
    (hs : c'.state = .mwrite) (he : extras.length < 256) (hk : key.length < 2 ^ 16)
    (hb : (extras ++ key ++ value).length < 2 ^ 32)
    (hout : c'.out = binHeader { c with cas := cas } err extras.length key.length (extras ++ key ++ value).length ++
      (extras ++ key ++ value)) : Says c c' := by
  refine ⟨h.header, fun hs' => absurd (hs.symm.trans hs') (by simp),
    fun _ => ⟨_, hout ▸ (readPacket_takes { c with cas := cas } err he hk hb).series, fun p hp => ?_, fun _ => ?_, fun _ => ?_⟩,
    fun hs' => absurd (by simp [hs]) hs'⟩
  · obtain rfl := List.mem_singleton.mp hp
    exact ⟨rfl, hc.reqOpaque⟩
  · exact Nat.le_of_eq List.length_singleton
  · exact List.cons_ne_nil _ _

/-- A packet that is a header and a value. -/
theorem Says.value {err : BinStatus} {cas : UInt64} {value : Bytes} (hc : Tagged c) (h : SameRequest c c') (hs : c'.state = .mwrite)
    (hb : value.length < 2 ^ 32) (hout : c'.out = binHeader { c with cas := cas } err 0 0 value.length ++ value) : Says c c' :=
  .packet [] [] value hc h hs (by simp) (by simp) hb hout

theorem Says.after (h : Says c₁ c') (hs : c₁.binaryHeader = c.binaryHeader) : Says c c' :=
  ⟨h.header.trans hs, h.current, hs ▸ h.answer, h.silent⟩

/-- What comes after the answer is no part of it. -/
theorem Says.next (h : Says c c') (state : ConnState) : Says c { c' with writeAndGo := state } :=
  ⟨h.header, fun hs => ⟨⟨(h.current hs).reqOpaque, (h.current hs).keylen⟩, (h.current hs).noreply⟩, h.answer, h.silent⟩

theorem Says.item (h : Says c c') (it : Option Ptr) : Says c { c' with item := it } :=
  ⟨h.header, fun hs => ⟨⟨(h.current hs).reqOpaque, (h.current hs).keylen⟩, (h.current hs).noreply⟩, h.answer, h.silent⟩

theorem errstr_lt (err : BinStatus) : err.errstr.length < 2 ^ 32 := by
  cases err <;> decide

theorem answers_writeBinError (hc : Tagged c) (err : BinStatus) (swallow : Int) : Says c (writeBinError c err swallow) := by
  unfold writeBinError
  dsimp only
  split
  · exact .value hc ⟨rfl, rfl, rfl, rfl⟩ rfl (errstr_lt err) rfl
  · exact .value hc ⟨rfl, rfl, rfl, rfl⟩ rfl (errstr_lt err) rfl

section

variable (hc : Current c)
include hc

/-- What is not answered is quiet. -/
theorem Current.quiet (h : c.noreply ≠ false) : ¬Loud c.binaryHeader := fun hl => h (hc.noreply hl)

theorem answers_writeBinResponse (cas : UInt64) {d : Bytes} (hd : d.length < 2 ^ 32) (hout : c.out = []) :
    Says c (writeBinResponse { c with cas := cas } d 0 0) := by
  unfold writeBinResponse
  split
  · exact .value hc.toTagged ⟨rfl, rfl, rfl, rfl⟩ rfl hd rfl
  · next hquiet => exact .quiet ⟨rfl, rfl, rfl, rfl⟩ (by simp) (hc.quiet fun h => hquiet (.inl h)) hout

theorem answers_missResponse (withKey : Bool) (hout : c.out = []) : Says c (missResponse c withKey) := by
  have hkey : c.binKey.length < 2 ^ 16 := by
    have hlt := c.binaryHeader.keylen.toNat_lt
    rw [Conn.binKey, List.length_drop, hc.keylen]
    omega
  unfold missResponse
  split
  · next hquiet => exact .quiet ⟨rfl, rfl, rfl, rfl⟩ (by simp) (hc.quiet (by simp [hquiet])) hout
  · split
    · refine @Says.packet c _ .KEY_ENOENT c.cas [] c.binKey [] hc.toTagged ⟨rfl, rfl, rfl, rfl⟩ rfl (by simp) hkey ?_ (by simp)
      simp only [List.nil_append, List.append_nil]
      omega
    · exact answers_writeBinError hc.toTagged _ _

end

/-! ## Items in answers -/

/-- The fields of an item have the ranges of their types: `nbytes` is an `int`, and `nkey` a byte. -/
def FieldsFit (i : Item) : Prop := i.nbytes < 2 ^ 31 ∧ i.nkey < 256

section

variable (conf : Settings) {st : Store} (key : Bytes) {i j : Item}

theorem FieldsFit.of_body (h : FieldsFit i) (hn : j.body.nbytes = i.body.nbytes) (hk : j.body.nkey = i.body.nkey) : FieldsFit j :=
  ⟨lt_of_eq_of_lt hn h.1, lt_of_eq_of_lt hk h.2⟩

theorem FieldsFit.itemKey_lt (h : FieldsFit i) : (itemKey i).length < 2 ^ 16 := by
  have hlen : (itemKey i).length = i.nkey := length_slice
  have := h.2
  omega

theorem FieldsFit.itemValue_lt (h : FieldsFit i) : (itemValue i).length < 2 ^ 31 := by
  have hlen : (itemData i).length = i.nbytes := length_slice
  have := h.1
  rw [itemValue, List.length_take]
  omega

theorem FieldsFit.update (h : ∀ p, FieldsFit (st.mem p)) (it p : Ptr) : FieldsFit ((doItemUpdate st it).mem p) := by
  obtain ⟨t, hb, -⟩ := update_mem st it p
  exact (h p).of_body (by rw [hb]) (by rw [hb])

theorem doItemGet_fields (hv : UInt32) (h : ∀ p, FieldsFit (st.mem p)) (p : Ptr) :
    FieldsFit ((doItemGet conf st key hv).1.mem p) := by
  have hbody : ((doItemGet conf st key hv).1.mem p).body = (st.mem p).body := by
    unfold doItemGet
    cases assocFind st.key st.assoc key hv with
    | none => rfl
    | some it =>
      have hincr : ((refcountIncr conf st it).mem p).body = (st.mem p).body := modify_field Item.body rfl p
      dsimp only
      split
      · exact (doItemRemove_mem ..).1.trans ((unlink_mem ..).1.trans hincr)
      · split
        · exact (doItemRemove_mem ..).1.trans ((unlink_mem ..).1.trans hincr)
        · refine Eq.trans ?_ hincr
          exact modify_field (f := fun i => { i with fetched := true }) Item.body rfl p
  exact (h p).of_body (congrArg Item.nbytes hbody) (congrArg Item.nkey hbody)

theorem getItem_fields (h : ∀ p, FieldsFit (st.mem p)) (p : Ptr) : FieldsFit ((getItem conf st key).1.mem p) := by
  have hget := doItemGet_fields conf key (conf.hash key) h
  unfold getItem
  generalize doItemGet conf st key (conf.hash key) = r at hget
  obtain ⟨s', _ | it⟩ := r
  · exact hget p
  · exact .update hget it p

theorem touchItem_fields (exptime : UInt32) (h : ∀ p, FieldsFit (st.mem p)) (p : Ptr) :
    FieldsFit ((touchItem conf st key exptime).1.mem p) := by
  have hget := doItemGet_fields conf key (conf.hash key) h
  unfold touchItem doItemTouch
  generalize doItemGet conf st key (conf.hash key) = r at hget
  obtain ⟨s', _ | it⟩ := r
  · exact hget p
  · refine .update (fun p => ?_) it p
    have hbody : ((s'.modify it fun i => { i with exptime := exptime }).mem p).nbytes = (s'.mem p).nbytes ∧
        ((s'.modify it fun i => { i with exptime := exptime }).mem p).nkey = (s'.mem p).nkey :=
      ⟨modify_field Item.nbytes rfl p, modify_field Item.nkey rfl p⟩
    exact ⟨lt_of_eq_of_lt hbody.1 (hget p).1, lt_of_eq_of_lt hbody.2 (hget p).2⟩

end

/-! ## The handlers -/

/-- The lengths that the SASL library returns are 32 bits wide. -/
structure SaslFits (lib : SaslLib) : Prop where
  listmech : ∀ calls, ∀ mechs ∈ lib.listmech calls, mechs.length < 2 ^ 32
  answer : ∀ calls call out, lib.answer calls call = .CONTINUE out → out.length < 2 ^ 32

section

variable (hc : Current c)
include hc

theorem Current.answers_error (err : BinStatus) (swallow : Int) (h : SameRequest c c₁) : Says c (writeBinError c₁ err swallow) :=
  (answers_writeBinError (h.tagged hc.toTagged) err swallow).after h.header

theorem Current.answers_response {d : Bytes} (h : SameRequest c c₁) (hd : d.length < 2 ^ 32) (hout : c₁.out = []) :
    Says c (writeBinResponse c₁ d 0 0) :=
  (answers_writeBinResponse (h.current hc) c₁.cas hd hout).after h.header

theorem answers_itemResponse (it : Ptr) (i : Item) {key value : Bytes} (hk : key.length < 2 ^ 16) (hv : value.length < 2 ^ 31) :
    Says c (itemResponse c it i key value) := by
  have hextras : (bigEndian 4 (UInt32.ofInt (itemFlags i)).toNat).length = 4 := length_bigEndian _ _
  refine @Says.packet c _ .SUCCESS (itemGetCas i) (bigEndian 4 (UInt32.ofInt (itemFlags i)).toNat) key value hc.toTagged ⟨rfl, rfl, rfl, rfl⟩ rfl
    (by omega) hk ?_ ?_
  · simp only [List.length_append]
    omega
  · rw [hextras]
    rfl

theorem processBinGet_answers (hout : c.out = []) (hf : ∀ p, FieldsFit (g.store.mem p)) : Says c (processBinGet cfg c g).1 := by
  have hfits := getItem_fields cfg.toSettings c.binKey hf
  unfold processBinGet
  generalize getItem cfg.toSettings g.store c.binKey = r at hfits
  obtain ⟨s, _ | it⟩ := r
  · exact answers_missResponse hc _ hout
  · refine answers_itemResponse hc it _ ?_ (hfits it).itemValue_lt
    split
    · exact (hfits it).itemKey_lt
    · exact Nat.two_pow_pos 16

theorem processBinTouch_answers (hout : c.out = []) (hf : ∀ p, FieldsFit (g.store.mem p)) : Says c (processBinTouch cfg c g).1 := by
  have hfits := touchItem_fields cfg.toSettings c.binKey (realtime cfg.processStarted g.store (c.bodyField 0 4)) hf
  unfold processBinTouch
  dsimp only
  generalize touchItem cfg.toSettings g.store c.binKey (realtime cfg.processStarted g.store (c.bodyField 0 4)) = r at hfits
  obtain ⟨s, _ | it⟩ := r
  · exact answers_missResponse hc _ hout
  · refine answers_itemResponse hc it _ ?_ ?_
    · split
      · exact (hfits it).itemKey_lt
      · exact Nat.two_pow_pos 16
    · split
      · exact Nat.two_pow_pos 31
      · exact (hfits it).itemValue_lt

theorem processBinDelete_answers (hout : c.out = []) : Says c (processBinDelete cfg c g).1 := by
  unfold processBinDelete
  generalize deleteItem cfg.toSettings g.store c.binKey c.binaryHeader.cas = r
  obtain ⟨s, _ | _ | _⟩ := r
  · exact answers_writeBinError hc.toTagged .KEY_ENOENT 0
  · exact answers_writeBinError hc.toTagged .KEY_EEXISTS 0
  · exact hc.answers_response (.refl c) (Nat.two_pow_pos 32) hout

theorem processBinFlush_answers (hout : c.out = []) : Says c (processBinFlush cfg c g).1 :=
  hc.answers_response (.refl c) (Nat.two_pow_pos 32) hout

/-- The text of a statistic is the answer to its request. -/
theorem processBinStat_answers (hs : ∃ packets, readPacket.Series env.stats packets ∧ AnswersTo c.binaryHeader packets) :
    Says c (processBinStat env c g).1 := by
  have hstats : Says c (writeAndFree c env.stats) := ⟨rfl, fun h => (by cases h), fun _ => hs, fun h => absurd (by simp [writeAndFree]) h⟩
  unfold processBinStat
  split
  · exact hstats
  · split
    · split
      · exact hstats
      · split
        · exact hstats
        · split
          · exact hstats
          · exact answers_writeBinError hc.toTagged .KEY_ENOENT 0
    · split
      · exact hstats
      · exact answers_writeBinError hc.toTagged .KEY_ENOENT 0

theorem incrInitial_answers (initial expiration : Nat) (hout : c.out = []) : Says c (incrInitial cfg env c g initial expiration).1 := by
  have hlen : (bigEndian 8 initial).length < 2 ^ 32 := by
    rw [length_bigEndian]
    omega
  unfold incrInitial
  split
  · exact answers_writeBinError hc.toTagged .KEY_ENOENT 0
  · split
    · exact answers_writeBinError hc.toTagged .ENOMEM 0
    · dsimp only
      split
      · exact hc.answers_error _ _ ⟨rfl, rfl, rfl, rfl⟩
      · exact hc.answers_response ⟨rfl, rfl, rfl, rfl⟩ hlen hout

theorem completeIncrBin_answers (hout : c.out = []) : Says c (completeIncrBin cfg env c g).1 := by
  have hlen : ∀ v, (bigEndian 8 v).length < 2 ^ 32 := by
    intro v
    rw [length_bigEndian]
    omega
  unfold completeIncrBin
  dsimp only
  split
  · refine hc.answers_response ?_ (hlen _) ?_
    · split <;> exact ⟨rfl, rfl, rfl, rfl⟩
    · split <;> exact hout
  · exact answers_writeBinError hc.toTagged .DELTA_BADVAL 0
  · exact answers_writeBinError hc.toTagged .ENOMEM 0
  · exact incrInitial_answers hc _ _ hout
  · exact answers_writeBinError hc.toTagged .KEY_EEXISTS 0

theorem completeUpdateBin_answers (hout : c.out = []) (h : completeUpdateBin cfg env c g = some (c', g')) : Says c c' := by
  simp only [completeUpdateBin, Option.bind_eq_bind, Option.bind_eq_some_iff] at h
  obtain ⟨it, -, comm, -, h⟩ := h
  cases h
  refine Says.item ?_ none
  split
  · exact hc.answers_response ⟨rfl, rfl, rfl, rfl⟩ (Nat.two_pow_pos 32) hout
  · exact hc.answers_error _ _ ⟨rfl, rfl, rfl, rfl⟩
  · exact hc.answers_error _ _ ⟨rfl, rfl, rfl, rfl⟩
  · exact hc.answers_error _ _ ⟨rfl, rfl, rfl, rfl⟩

theorem answers_readValue {cmd : Int} (it : Ptr) (vlen : Int) (next : BinSubstate) (hout : c.out = []) :
    Says c (readValue { c with cmd := cmd } it vlen next) := .reads hc ⟨rfl, rfl, rfl, rfl⟩ rfl hout

theorem processBinUpdate_answers (hout : c.out = []) (h : processBinUpdate cfg env c g = some (c', g')) : Says c c' := by
  simp only [processBinUpdate, Option.bind_eq_bind, Option.bind_eq_some_iff] at h
  obtain ⟨⟨s, _ | it⟩, -, h⟩ := h
  · cases h
    exact (answers_writeBinError hc.toTagged _ _).next _
  · cases h
    exact answers_readValue hc it _ _ hout

theorem processBinAppendPrepend_answers (hout : c.out = []) (h : processBinAppendPrepend cfg env c g = some (c', g')) : Says c c' := by
  simp only [processBinAppendPrepend, Option.bind_eq_bind, Option.bind_eq_some_iff] at h
  obtain ⟨⟨s, _ | it⟩, -, h⟩ := h
  · cases h
    exact (answers_writeBinError hc.toTagged _ _).next _
  · cases h
    exact answers_readValue hc it _ _ hout

theorem processBinSaslAuth_answers (hout : c.out = []) (h : processBinSaslAuth cfg env c g = some (c', g')) : Says c c' := by
  unfold processBinSaslAuth at h
  dsimp only at h
  split at h
  · cases h
    exact answers_writeBinError hc.toTagged _ _
  · split at h
    · cases h
      exact (answers_writeBinError hc.toTagged _ _).next _
    · simp only [Option.bind_eq_bind, Option.bind_eq_some_iff] at h
      obtain ⟨⟨s, _ | it⟩, -, h⟩ := h
      · cases h
        exact (answers_writeBinError hc.toTagged _ _).next _
      · cases h
        exact answers_readValue hc it _ _ hout

omit hc in
theorem initSaslConn_request (cfg : Config) (c : Conn) : SameRequest c (initSaslConn cfg c) ∧ (initSaslConn cfg c).out = c.out := by
  unfold initSaslConn
  split
  · exact ⟨.refl c, rfl⟩
  · split
    · exact ⟨.refl c, rfl⟩
    · split <;> exact ⟨⟨rfl, rfl, rfl, rfl⟩, rfl⟩

theorem processBinCompleteSaslAuth_answers (hf : SaslFits cfg.saslLib) (hout : c.out = [])
    (h : processBinCompleteSaslAuth cfg c g = some (c', g')) : Says c c' := by
  obtain ⟨hsame, hout'⟩ := initSaslConn_request cfg c
  simp only [processBinCompleteSaslAuth, Option.bind_eq_bind, Option.bind_eq_some_iff] at h
  obtain ⟨it, -, h⟩ := h
  generalize initSaslConn cfg c = c₁ at hsame hout' h
  have hsame' : ∀ sasl, SameRequest c { c₁ with sasl := sasl } := fun _ => ⟨hsame.header, hsame.reqOpaque, hsame.keylen, hsame.noreply⟩
  split at h
  · cases h
    exact hc.answers_response (hsame' _) (by decide) (hout'.trans hout)
  · next out hanswer =>
    cases h
    refine @Says.value c _ .AUTH_CONTINUE c₁.cas out hc.toTagged ⟨hsame.header, hsame.reqOpaque, hsame.keylen, hsame.noreply⟩ rfl (hf.answer _ _ out hanswer) ?_
    simp only [binHeader, hsame.header, hsame.reqOpaque]
  · cases h
    exact hc.answers_error _ _ (hsame' _)

theorem completeNreadBinary_answers (hout : c.out = []) (hf : ∀ p, FieldsFit (g.store.mem p)) (hl : SaslFits cfg.saslLib)
    (hs : c.substate = .readingStat → ∃ packets, readPacket.Series env.stats packets ∧ AnswersTo c.binaryHeader packets)
    (h : completeNreadBinary cfg env c g = some (c', g')) : Says c c' := by
  unfold completeNreadBinary at h
  cases hsub : c.substate <;> rw [hsub] at h <;> dsimp only at h
  case readingSetHeader =>
    split at h
    · exact processBinAppendPrepend_answers hc hout h
    · exact processBinUpdate_answers hc hout h
  case readSetValue => exact completeUpdateBin_answers hc hout h
  case readingSaslAuth => exact processBinSaslAuth_answers hc hout h
  case readingSaslAuthData => exact processBinCompleteSaslAuth_answers hc hl hout h
  case noState => cases h
  -- the others return in any case
  all_goals have hret : Prod.fst _ = c' := congrArg Prod.fst (Option.some.inj h)
  case readingGetKey => exact hret ▸ processBinGet_answers hc hout hf
  case readingTouchKey => exact hret ▸ processBinTouch_answers hc hout hf
  case readingStat => exact hret ▸ processBinStat_answers hc (hs hsub)
  case readingDelHeader => exact hret ▸ processBinDelete_answers hc hout
  case readingIncrHeader => exact hret ▸ completeIncrBin_answers hc hout
  case readFlushExptime => exact hret ▸ processBinFlush_answers hc hout

/-! ## Requests -/

theorem binListSaslMechs_answers (hl : SaslFits cfg.saslLib) (hout : c.out = []) : Says c (binListSaslMechs cfg c) := by
  obtain ⟨hsame, hout'⟩ := initSaslConn_request cfg c
  unfold binListSaslMechs
  split
  · exact answers_writeBinError hc.toTagged _ _
  · dsimp only
    split
    · exact hc.answers_error _ _ hsame
    · next mechs hm => exact hc.answers_response hsame (hl.listmech _ mechs hm) (hout'.trans hout)

theorem dispatchBinOpcode_answers (hl : SaslFits cfg.saslLib) (hout : c.out = []) :
    ∀ c' ∈ dispatchBinOpcode cfg c, Says c c' := by
  have hkey : ∀ next extra, Says c (binReadKey c next extra) := fun _ _ => .reads hc ⟨rfl, rfl, rfl, rfl⟩ rfl hout
  have hresponse : ∀ {d : Bytes}, d.length < 2 ^ 32 → Says c (writeBinResponse c d 0 0) := fun hd =>
    hc.answers_response (.refl c) hd hout
  have hquit := (hresponse (d := []) (by decide)).next .closing
  unfold dispatchBinOpcode
  dsimp only
  repeat' refine forall_mem_ite ?_ ?_
  all_goals
    intro c' hd
    simp only [Option.mem_def, Option.some.injEq, reduceCtorEq] at hd
  all_goals rw [← hd]
  all_goals first
    | with_reducible exact hkey _ _
    | with_reducible exact answers_writeBinError hc.toTagged _ _
    | with_reducible exact binListSaslMechs_answers hc hl hout
    | exact hresponse (by decide)
    | split
      · have hstate : (writeBinResponse c [] 0 0).state ≠ .nread := (settled_writeBinResponse [] 0 0).not_nread
        exact ⟨hquit.header, fun hs => (by cases hs), fun _ => hquit.answer hstate, fun h => absurd (by simp) h⟩
      · exact hquit

omit hc in
theorem quietOf_loud (hcmd : c.cmd = c.binaryHeader.opcode.toNat) (hl : Loud c.binaryHeader) : quietOf c.cmd = none := by
  rw [hcmd]
  exact hl

omit hc in
theorem dispatchBinCommand_answers (hc : Tagged c) (hcmd : c.cmd = c.binaryHeader.opcode.toNat) (hl : SaslFits cfg.saslLib)
    (hout : c.out = []) : Says c (dispatchBinCommand cfg c) := by
  have herror : ∀ c₁ : Conn, Tagged c₁ → c₁.binaryHeader = c.binaryHeader → Says c (handleBinaryProtocolError c₁) := fun c₁ h hh =>
    ((answers_writeBinError h .EINVAL 0).next .closing).after hh
  unfold dispatchBinCommand
  split
  · exact (answers_writeBinError hc _ _).next _
  · split
    · exact herror _ ⟨hc.reqOpaque, hc.keylen⟩ rfl
    · have hnext : ∀ c₁ : Conn, Current c₁ → c₁.binaryHeader = c.binaryHeader → c₁.out = [] →
          Says c ((dispatchBinOpcode cfg c₁).getD (handleBinaryProtocolError c₁)) := by
        intro c₁ h hh hout₁
        cases hd : dispatchBinOpcode cfg c₁ with
        | none => exact herror c₁ h.toTagged hh
        | some c' => exact (dispatchBinOpcode_answers h hl hout₁ c' hd).after hh
      cases hq : quietOf c.cmd with
      | some cmd => exact hnext _ ⟨⟨hc.reqOpaque, hc.keylen⟩, fun h => absurd (hq.symm.trans (quietOf_loud hcmd h)) (by simp)⟩ rfl hout
      | none => exact hnext _ ⟨⟨hc.reqOpaque, hc.keylen⟩, fun _ => rfl⟩ rfl hout

end

/-! ## Statistics -/

theorem completeNreadConn_stat (h : completeNreadConn cfg env c g = some (c', g')) (hs : c'.state = .nread) :
    c'.substate ≠ .readingStat := by
  have hfinishes : Finishes c c' → c'.substate ≠ .readingStat := fun hf => absurd hs hf.settled.not_nread
  have hvalue : ∀ {m : Int} {next : BinSubstate} {known : Prop}, next ≠ .readingStat → ValueNext cfg c m next known c' g' →
      c'.substate ≠ .readingStat := by
    intro m next known hnext hv
    cases hv with
    | read cmd it => exact hnext
    | swallow err => exact absurd ((writeBinError_state c err m).symm.trans hs) (by simp)
    | unknown => exact absurd ((writeBinError_state c .UNKNOWN_COMMAND m).symm.trans hs) (by simp)
  unfold completeNreadConn at h
  split at h
  swap
  · exact hfinishes (completeNreadAscii_finishes h)
  cases hsub : c.substate with
  | noState => simp [completeNreadBinary, hsub] at h
  | readingSetHeader =>
    simp only [completeNreadBinary, hsub] at h
    split at h
    · exact hvalue (by simp) (processBinAppendPrepend_next h)
    · exact hvalue (by simp) (processBinUpdate_next h)
  | readSetValue =>
    simp only [completeNreadBinary, hsub] at h
    exact hfinishes (completeUpdateBin_finishes h)
  | readingSaslAuth =>
    simp only [completeNreadBinary, hsub] at h
    exact hvalue (by simp) (processBinSaslAuth_next h)
  | readingSaslAuthData =>
    simp only [completeNreadBinary, hsub] at h
    exact hfinishes (processBinCompleteSaslAuth_finishes h)
  | readingGetKey | readingTouchKey | readingStat | readingDelHeader | readingIncrHeader | readFlushExptime =>
    exact hfinishes (completeNreadBinary_noValue (by simp [NoValue, hsub]) h)

/-- No other command waits for the key of a statistic. -/
theorem dispatchBinOpcode_noStat (hn : c.cmd ≠ CMD_STAT) :
    ∀ c' ∈ dispatchBinOpcode cfg c, c'.state = .nread → c'.substate ≠ .readingStat := by
  have hresponse : ∀ d, (writeBinResponse c d 0 0).state ≠ .nread := fun d => (settled_writeBinResponse d 0 0).not_nread
  have herror : ∀ err swallow, (writeBinError c err swallow).state ≠ .nread := by simp [writeBinError_state]
  have hkey : ∀ next extra, next ≠ .readingStat → (binReadKey c next extra).substate ≠ .readingStat := fun _ _ h => h
  have hmechs : (binListSaslMechs cfg c).state ≠ .nread := by
    unfold binListSaslMechs
    split
    · exact herror _ _
    · dsimp only
      split
      · simp [writeBinError_state]
      · exact (settled_writeBinResponse _ 0 0).not_nread
  unfold dispatchBinOpcode
  simp only [if_neg hn]
  repeat' refine forall_mem_ite ?_ ?_
  all_goals
    intro c' hd hs
    simp only [Option.mem_def, Option.some.injEq, reduceCtorEq] at hd
  all_goals rw [← hd] at hs ⊢
  all_goals first
    | with_reducible exact absurd hs (hresponse _)
    | with_reducible exact absurd hs (herror _ _)
    | with_reducible exact absurd hs hmechs
    | with_reducible exact hkey _ _ (by simp)
    | split at hs
      · cases hs
      · exact absurd hs (hresponse _)

theorem dispatchBinCommand_stat (hcmd : c.cmd = c.binaryHeader.opcode.toNat) (hs : (dispatchBinCommand cfg c).state = .nread)
    (hstat : (dispatchBinCommand cfg c).substate = .readingStat) : c.binaryHeader.opcode = statOpcode := by
  have hquiet : ∀ cmd ∈ quietOf c.cmd, cmd ≠ CMD_STAT := by
    unfold quietOf
    repeat' refine forall_mem_ite ?_ ?_
    all_goals
      intro cmd h
      cases h
    all_goals decide
  have hwrite : ∀ c err swallow, (writeBinError c err swallow).state ≠ .nread := by simp [writeBinError_state]
  by_contra hne
  have hcmd' : c.cmd ≠ CMD_STAT := by
    intro h
    refine hne (UInt8.toNat_inj.mp ?_)
    rw [hcmd] at h
    exact Int.ofNat.inj h
  unfold dispatchBinCommand at hs hstat
  split at hs
  · exact hwrite _ _ _ hs
  · next hauth =>
    rw [if_neg hauth] at hstat
    split at hs
    · exact hwrite _ _ _ hs
    · next hlong =>
      rw [if_neg hlong] at hstat
      have hnext : ∀ c₁ : Conn, c₁.cmd ≠ CMD_STAT → ((dispatchBinOpcode cfg c₁).getD (handleBinaryProtocolError c₁)).state = .nread →
          ((dispatchBinOpcode cfg c₁).getD (handleBinaryProtocolError c₁)).substate ≠ .readingStat := by
        intro c₁ hn hs
        cases hd : dispatchBinOpcode cfg c₁ with
        | none =>
          rw [hd] at hs
          exact absurd hs (hwrite _ _ _)
        | some c' =>
          rw [hd] at hs
          exact dispatchBinOpcode_noStat hn c' hd hs
      cases hq : quietOf c.cmd with
      | some cmd =>
        rw [hq] at hs hstat
        exact hnext { c with noreply := true, cmd := cmd } (hquiet cmd hq) hs hstat
      | none =>
        rw [hq] at hs hstat
        exact hnext { c with noreply := false } hcmd' hs hstat

/-- The packets of the statistics, the last of which is empty. -/
theorem stats_packets {calls : List StatCall} (hc : Tagged c) (hop : c.binaryHeader.opcode = statOpcode)
    (hr : ∀ call ∈ calls, Readable .binary call) :
    ∃ packets, readPacket.Series (calls.flatMap (statWire .binary c.reqOpaque) ++ endWire .binary c.reqOpaque) packets ∧
      AnswersTo c.binaryHeader packets := by
  have hwire : ∀ {key value : Bytes}, key.length < 2 ^ 16 → value.length < 2 ^ 31 →
      ∃ p : Packet, readPacket.Takes (statHeader c.reqOpaque key.length value.length ++ key ++ value) p ∧
        p.opcode = c.binaryHeader.opcode ∧ p.reqOpaque = c.binaryHeader.reqOpaque := by
    intro key value hk hv
    refine ⟨⟨c.binaryHeader.opcode, 0, c.reqOpaque, 0, [], key, value⟩, ?_, rfl, hc.reqOpaque⟩
    have hpacket := @readPacket_takes { c with cas := 0 } .SUCCESS [] key value (by simp) hk (by simp; omega)
    simpa [binHeader, statHeader, hop, statOpcode, BinStatus.code] using hpacket
  have hmany : c.binaryHeader.opcode ≠ statOpcode → ∀ packets : List Packet, packets.length ≤ 1 := fun h => absurd hop h
  induction calls with
  | nil =>
    obtain ⟨p, hp, htag⟩ := @hwire [] [] (by simp) (by simp)
    refine ⟨[p], by simpa [endWire] using hp.series, fun p' hp' => ?_, fun h => hmany h _, fun _ => List.cons_ne_nil _ _⟩
    rwa [List.mem_singleton.mp hp']
  | cons call calls ih =>
    have hcall := hr call List.mem_cons_self
    obtain ⟨packets, hseries, hto⟩ := ih fun call' hm => hr call' (List.mem_cons_of_mem _ hm)
    obtain ⟨p, hp, htag⟩ := hwire hcall.name_lt hcall.value_lt.1
    refine ⟨p :: packets, ?_, fun p' hp' => ?_, fun h => hmany h _, fun _ => List.cons_ne_nil _ _⟩
    · have hall := hp.series.append hseries
      simpa [statWire] using hall
    · obtain rfl | hp' := List.mem_cons.mp hp'
      · exact htag
      · exact hto.tagged p' hp'

end RamCube
