import RamCube.Server.DataBlock
import RamCube.Server.Retrieval
import RamCube.Store.Flags

/-! # The flags that clients read back

A set names its flags as an unsigned number, in text or in network order. A binary
retrieval reads them back from the text between key and data, a text retrieval copies that
text: it shows them as a signed number. -/
namespace RamCube

variable {cfg : Config} {env : Env} {g g' : Globals} {p : Ptr} {held : Ptr → Nat} {key digits data : Bytes} {flags : Int}
  {bits : UInt32}

/-! ## What a retrieval shows -/

/-- A line that asks for one key. -/
structure AsksFor (line key : Bytes) : Prop where
  words : lineWords line = [ascii "get", key]
  bytes : ∀ b ∈ line, b ≠ 0 ∧ b ≠ LF

/-- The keys that a line can ask for. -/
structure Nameable (key : Bytes) : Prop where
  nonempty : key ≠ []
  bytes : ∀ b ∈ key, b ≠ space ∧ b ≠ 0 ∧ b ≠ LF

def textValue (key digits data : Bytes) : Bytes :=
  ascii "VALUE " ++ key ++ space :: digits ++ space :: decimal (data.length - 2) ++ [CR, LF] ++ data ++
    ascii "END" ++ [CR, LF]

/-- GETK is answered with the key. -/
def answeredKey (c : Conn) (key : Bytes) : Bytes := if c.cmd = CMD_GETK then key else []

def binaryValue (c : Conn) (cas : UInt64) (key : Bytes) (bits : UInt32) (value : Bytes) : Bytes :=
  let body := bigEndian 4 bits.toNat ++ answeredKey c key ++ value
  binHeader { c with cas := cas } .SUCCESS 4 (answeredKey c key).length body.length ++ body

/-- A get of either protocol is answered with these flags, in digits or bits, and the data
without its line end. -/
structure Shows (cfg : Config) (g : Globals) (key digits : Bytes) (bits : UInt32) (data : Bytes) : Prop where
  text : ∀ env c line leftCom, AsksFor line key → ∃ c' g',
    processCommand cfg env c g line leftCom = some (c', g', 0) ∧ c'.out = textValue key digits data
  binary : ∀ env c, c.substate = .readingGetKey → c.binKey = key → ∃ c' g' cas,
    completeNreadBinary cfg env c g = some (c', g') ∧ c'.out = binaryValue c cas key bits (data.take (data.length - 2))

theorem asksFor_get (h : Nameable key) : AsksFor (ascii "get" ++ space :: key) key := by
  have hget : space ∉ ascii "get" ∧ ascii "get" ≠ [] ∧ ∀ b ∈ ascii "get" ++ [space], b ≠ 0 ∧ b ≠ LF := by decide +kernel
  obtain ⟨hspace, hne, hbytes⟩ := hget
  have hkey : space ∉ key := fun hmem => (h.bytes space hmem).1 rfl
  refine ⟨?_, fun b hb => ?_⟩
  · rw [lineWords_cons hspace hne, lineWords_last hkey h.nonempty]
  · rw [show ascii "get" ++ space :: key = ascii "get" ++ [space] ++ key by simp, List.mem_append] at hb
    exact hb.elim (hbytes b) fun hb => (h.bytes b hb).2

theorem AsksFor.nameable {line : Bytes} (h : AsksFor line key) : Nameable key := by
  have hmem : key ∈ lineWords line := by
    rw [h.words]
    exact List.mem_cons_of_mem _ List.mem_cons_self
  obtain ⟨hne, hbytes⟩ := mem_tokens hmem
  exact ⟨hne, fun b hb => ⟨by simpa using (hbytes b hb).1, h.bytes b (hbytes b hb).2⟩⟩

/-! ## An item that is found -/

theorem StoredAs.fields (h : StoredAs g.store p key flags data) {i : Item} (hi : i.stored = (g.store.mem p).stored) :
    itemKey i = key ∧ itemSuffix i = headerSuffix flags data.length ∧ itemData i = data ∧ i.nbytes = data.length := by
  have hdata := (stored_field itemData (fun _ => rfl) hi).trans h.data
  refine ⟨(stored_field itemKey (fun _ => rfl) hi).trans h.key, (stored_field itemSuffix (fun _ => rfl) hi).trans h.suffix,
    hdata, ?_⟩
  rw [← hdata]
  exact length_slice.symm

/-- What both kinds of get say about an item that is found. -/
theorem StoredAs.shows (hp : StoredAs g.store p key flags data) (h : StoreOk cfg.toSettings g.store held)
    (hreb : g.store.slabRebal = none) (hlive : flushedOrExpired g.store (g.store.mem p) = false) (h2 : 2 ≤ data.length)
    (hkey : key.length ≤ KEY_MAX_LENGTH) : Shows cfg g key (decimalInt flags) (UInt32.ofInt flags) data := by
  obtain ⟨s', he, hstored⟩ := getItem_found h hreb hp.linked hp.key hlive
  obtain ⟨hk, hsuffix, hdata, hbytes⟩ := hp.fields hstored
  refine ⟨fun env c line leftCom hline => ?_, fun env c hsub hk' => ?_⟩
  · rw [processCommand_get cfg env c g leftCom hline.words (.inl rfl) (List.cons_ne_nil _ _)]
    refine ⟨_, _, rfl, ?_⟩
    have hlen : ((data.length : Int) - 2) = ((data.length - 2 : Nat) : Int) := by omega
    have hname : (ascii "get" == ascii "gets") = false := by decide +kernel
    simp only [processGetKeys, if_neg (Nat.not_lt.mpr hkey), he, hname, valueResponse, hk, hsuffix, hdata, textValue, headerSuffix,
      hlen]
    simp [decimalInt, space, CR, LF]
  · refine ⟨(processBinGet cfg c g).1, (processBinGet cfg c g).2, itemGetCas (s'.mem p), ?_, ?_⟩
    · unfold completeNreadBinary
      rw [hsub]
    · have hflags : itemFlags (s'.mem p) = flags := by
        rw [itemFlags, hsuffix, strtol_headerSuffix]
      unfold processBinGet
      rw [hk', he]
      simp only [itemResponse, itemValue, hk, hdata, hbytes, hflags, binaryValue, answeredKey]

/-- A request for a key that has been read. -/
def askingConn (cfg : Config) (key : Bytes) : Conn :=
  { connNew cfg 0 .newCmd .tcp with
    ritem := .packet key
    keylen := key.length
    cmd := CMD_GET
    noreply := false
    substate := .readingGetKey }

/-- What is flushed or expired is not shown. -/
theorem Shows.live (hs : Shows cfg g key digits bits data) (hp : StoredAs g.store p key flags data)
    (h : StoreOk cfg.toSettings g.store held) : flushedOrExpired g.store (g.store.mem p) = false := by
  by_contra hdead
  have hnone := getItem_hidden h hp.linked hp.key (by simpa using hdead)
  have hkey : (askingConn cfg key).binKey = key := by simp [askingConn, Conn.binKey, Conn.packet]
  obtain ⟨c', g', cas, hproc, hout⟩ := hs.binary default (askingConn cfg key) rfl hkey
  have hmiss : c' = writeBinError (askingConn cfg key) .KEY_ENOENT 0 := by
    have hget : completeNreadBinary cfg default (askingConn cfg key) g = some (processBinGet cfg (askingConn cfg key) g) := rfl
    have hc : c' = (processBinGet cfg (askingConn cfg key) g).1 := by
      rw [hproc] at hget
      exact congrArg Prod.fst (Option.some.inj hget)
    rw [hc]
    unfold processBinGet
    rw [hkey]
    generalize getItem cfg.toSettings g.store key = r at hnone
    obtain ⟨s', found⟩ := r
    obtain rfl : found = none := hnone
    rfl
  -- the two headers differ in the length of the extras
  have hextras := congrArg (·[4]?) hout
  rw [hmiss] at hextras
  simp [writeBinError, binHeader, binaryValue, bigEndian] at hextras

theorem asInt_flags (v : UInt32) : asInt v.toNat = if v.toNat < 2 ^ 31 then (v.toNat : Int) else v.toNat - 2 ^ 32 := by
  have hv := v.toNat_lt
  split
  · exact asInt_of_bounds (by omega) (by omega)
  · rw [← asInt_sub, asInt_of_bounds (by omega) (by omega)]

theorem ofInt_flags (v : UInt32) : UInt32.ofInt (asInt v.toNat) = v := by
  have hmod : asInt v.toNat % 2 ^ 32 = v.toNat := by
    have hv := v.toNat_lt
    have hself : (v.toNat : Int) % 2 ^ 32 = v.toNat := Int.emod_eq_of_lt (by omega) (by omega)
    unfold asInt
    exact Int.bmod_emod.trans hself
  unfold UInt32.ofInt
  rw [hmod, Int.toNat_natCast, UInt32.ofNat_toNat]

/-- The flags are printed as they were sent exactly if they are not too large for an `int`. -/
theorem decimalInt_flags_iff (v : UInt32) : decimalInt (asInt v.toNat) = decimal v.toNat ↔ v.toNat < 2 ^ 31 := by
  rw [asInt_flags]
  constructor
  · intro h
    by_contra hbig
    rw [if_neg hbig] at h
    have hv := v.toNat_lt
    obtain ⟨m, hm⟩ : ∃ m : Nat, (v.toNat : Int) - 2 ^ 32 = .negSucc m := ⟨2 ^ 32 - v.toNat - 1, by omega⟩
    have hminus : (45 : UInt8) ∈ decimal v.toNat := by
      rw [← h, hm]
      exact List.mem_cons_self
    exact absurd (mem_decimal hminus) (by simp [isDigit])
  · intro h
    rw [if_pos h]
    rfl

theorem textValue_digits {digits' : Bytes} (h : textValue key digits data = textValue key digits' data) :
    digits = digits' := by
  simp only [textValue, List.append_assoc] at h
  have htail := List.append_cancel_left (List.append_cancel_left h)
  exact List.append_cancel_right (List.cons.inj htail).2

/-- Both kinds of get return the flags that were sent if and only if the item is found and
its flags are not too large, or no line can ask for its key. -/
theorem StoredAs.shows_iff {v : UInt32} (hp : StoredAs g.store p key (asInt v.toNat) data)
    (h : StoreOk cfg.toSettings g.store held) (hreb : g.store.slabRebal = none) (h2 : 2 ≤ data.length)
    (hkey : key.length ≤ KEY_MAX_LENGTH) : Shows cfg g key (decimal v.toNat) v data ↔
      flushedOrExpired g.store (g.store.mem p) = false ∧ (v.toNat < 2 ^ 31 ∨ ¬Nameable key) := by
  constructor
  · intro hs
    have hlive := hs.live hp h
    refine ⟨hlive, or_iff_not_imp_right.mpr fun hname => ?_⟩
    have hline := asksFor_get (not_not.mp hname)
    obtain ⟨c₁, g₁, hproc, hout⟩ := hs.text default (connNew cfg 0 .newCmd .tcp) _ [] hline
    obtain ⟨c₂, g₂, hproc', hout'⟩ := (hp.shows h hreb hlive h2 hkey).text default (connNew cfg 0 .newCmd .tcp) _ [] hline
    rw [hproc] at hproc'
    cases hproc'
    exact (decimalInt_flags_iff v).mp (textValue_digits (hout'.symm.trans hout))
  · intro ⟨hlive, hflags⟩
    have hs := hp.shows h hreb hlive h2 hkey
    rw [ofInt_flags] at hs
    refine ⟨fun env c line leftCom hline => ?_, hs.binary⟩
    have hsmall := hflags.resolve_right fun hn => hn hline.nameable
    have htext := hs.text env c line leftCom hline
    rwa [(decimalInt_flags_iff v).mpr hsmall] at htext

/-! ## The data block of a command -/

/-- The line or the header and key of a storage command have been handled, and an item
waits for a value of `size` bytes. -/
inductive Starts (cfg : Config) (env : Env) (asked : NRead) (key : Bytes) (flags exptime : UInt32) (size : Nat)
    (c : Conn) (g : Globals) (c' : Conn) (g' : Globals) : Prop where
  | line {command leftCom : Bytes} {e : Int} {reqCas : UInt64} : c.protocol ≠ .binary →
      StorageLine (tokenizeCommand command) asked false flags e size reqCas →
      (tokenizeCommand command).value 1 = key →
      realtime cfg.processStarted g.store (if e < 0 then REALTIME_MAXDELTA + 1 else e) = exptime →
      processCommand cfg env c g command leftCom = some (c', g', 0) → c'.state = .nread →
      Starts cfg env asked key flags exptime size c g c' g'
  | set : c.protocol = .binary → c.substate = .readingSetHeader → asked = .set → c.cmd = CMD_SET →
      c.binKey = key → key.length ≤ KEY_MAX_LENGTH → c.bodyField 0 4 = flags.toNat →
      realtime cfg.processStarted g.store (c.bodyField 4 4) = exptime → updateVlen c.binaryHeader = size →
      completeNreadBinary cfg env c g = some (c', g') → c'.state = .nread →
      Starts cfg env asked key flags exptime size c g c' g'
  | merge : c.protocol = .binary → c.substate = .readingSetHeader →
      asked = .append ∧ c.cmd = CMD_APPEND ∨ asked = .prepend ∧ c.cmd = CMD_PREPEND →
      c.binKey = key → key.length ≤ KEY_MAX_LENGTH → flags = 0 → exptime = 0 → keyedVlen c.binaryHeader = size →
      completeNreadBinary cfg env c g = some (c', g') → c'.state = .nread →
      Starts cfg env asked key flags exptime size c g c' g'

/-- The bytes of the block that the client sends. -/
def sentBlock (c : Conn) (value : Bytes) : Bytes := if c.protocol = .binary then value else value ++ [CR, LF]

/-- The block with the end that `complete_update_bin` writes. -/
def wholeBlock (c : Conn) (g : Globals) (it : Ptr) : Store :=
  if c.protocol = .binary then g.store.modify it fun i => writeData (i.nbytes - 2) [CR, LF] i else g.store

/-- The block arrives piece by piece, while other clients are at work. -/
inductive Receives (cfg : Config) :
    Bytes → Conn → Globals → (Ptr → Nat) → Conn → Globals → (Ptr → Nat) → Prop where
  | done (c : Conn) (g : Globals) (held : Ptr → Nat) : Receives cfg [] c g held c g held
  | piece {bs block : Bytes} {c c' : Conn} {g g' : Globals} {held held' : Ptr → Nat} :
      Receives cfg block (receive c g bs).1 (receive c g bs).2 held c' g' held' →
      Receives cfg (bs ++ block) c g held c' g' held'
  | others {block : Bytes} {op : ClientOp} {c c' : Conn} {g g₁ g' : Globals} {held held₁ held' : Ptr → Nat} :
      Guarded (Unhindered cfg.toSettings cfg.processStarted) (ClientStep cfg.toSettings cfg.processStarted)
        ⟨g.store, held⟩ op ⟨g₁.store, held₁⟩ →
      (∀ it ∈ c.item, ¬Ends it op) → Receives cfg block c g₁ held₁ c' g' held' →
      Receives cfg block c g held c' g' held'

/-- What the start of a command leaves in its connection. -/
structure Prepared (c c' : Conn) (asked : NRead) (it : Ptr) (comm : NRead) : Prop where
  item : c'.item = some it
  ritem : c'.ritem = .item it 0
  protocol : c'.protocol = c.protocol
  substate : c.protocol = .binary → c'.substate = .readSetValue
  stores : nreadOfCmd c'.cmd = some comm
  own : asked = .set → comm ≠ .append ∧ comm ≠ .prepend
  merge : asked = .append ∨ asked = .prepend → comm = asked

/-- A length that is not negative with the line end added has not wrapped around. -/
theorem asInt_size {size : Nat} {n : Int} (hn : asInt n = size) (h0 : 0 ≤ asInt (asInt n + 2)) :
    asInt (asInt n + 2) = size + 2 := by
  obtain ⟨-, hlt⟩ := asInt_bounds n
  by_cases hroom : asInt n + 2 < 2 ^ 31
  · rw [asInt_of_bounds (by omega) hroom, hn]
  · rw [← asInt_sub, asInt_of_bounds (by omega) (by omega)] at h0
    omega

/-- The item of a command: its connection reads to it from then on. -/
structure Allots (cfg : Config) (env : Env) (key : Bytes) (f : Int) (exptime : UInt32) (n : Nat) (g g' : Globals) (it : Ptr) :
    Prop where
  store : ∃ s' cas, doItemAlloc cfg.toSettings (env.alloc g.store) g.store key f exptime n 0 = (s', some it) ∧
    g'.store = s'.modify it fun i => itemSetCas i cas

theorem startUpdate_allots {c c' : Conn} {comm : NRead} {f e vlen : Int} {reqCas : UInt64}
    (h : startUpdate cfg env c g comm key f e vlen reqCas = (c', g')) (hs : c'.state = .nread) :
    ∃ it, Allots cfg env key f (realtime cfg.processStarted g.store e) vlen.toNat g g' it ∧
      c'.item = some it ∧ c'.ritem = .item it 0 ∧ c'.protocol = c.protocol ∧ c'.cmd = comm.num := by
  unfold startUpdate processUpdate at h
  generalize hal : doItemAlloc cfg.toSettings (env.alloc g.store) g.store key f (realtime cfg.processStarted g.store e)
    vlen.toNat 0 = r at h
  obtain ⟨s', _ | it⟩ := r
  · -- an error is answered
    have hwrite : ∀ text, (outString c text).state ≠ .nread := fun text => by
      rcases outString_next c text with hn | ⟨hn, _⟩
      · rw [hn]
        nofun
      · rw [hn]
        nofun
    dsimp only at h
    by_cases hset : comm = .set
    · rw [if_pos hset] at h
      cases h
      exact absurd hs (hwrite _)
    · rw [if_neg hset] at h
      cases h
      exact absurd hs (hwrite _)
  · cases h
    exact ⟨it, ⟨s', reqCas, hal, rfl⟩, rfl, rfl, rfl, rfl⟩

theorem processBinUpdate_allots {c c' : Conn} (h : processBinUpdate cfg env c g = some (c', g')) (hs : c'.state = .nread) :
    0 ≤ asInt (updateVlen c.binaryHeader + 2) ∧
    ∃ it cas, Allots cfg env c.binKey (asInt (c.bodyField 0 4)) (realtime cfg.processStarted g.store (c.bodyField 4 4))
        (asInt (updateVlen c.binaryHeader + 2)).toNat g g' it ∧
      c' = readValue { c with cmd := updateCmd c.cmd cas } it (updateVlen c.binaryHeader) .readSetValue := by
  simp only [processBinUpdate, Option.bind_eq_bind, Option.bind_eq_some_iff] at h
  obtain ⟨⟨s', _ | it⟩, hal, h⟩ := h
  · cases h
    exact absurd ((writeBinError_state c _ _).symm.trans hs) (by simp)
  · cases h
    obtain ⟨h0, hal⟩ := itemAlloc_some hal
    exact ⟨h0, it, _, ⟨s', c.binaryHeader.cas, hal, rfl⟩, rfl⟩

theorem processBinAppendPrepend_allots {c c' : Conn} (h : processBinAppendPrepend cfg env c g = some (c', g'))
    (hs : c'.state = .nread) : 0 ≤ asInt (keyedVlen c.binaryHeader + 2) ∧
    ∃ it, Allots cfg env c.binKey 0 0 (asInt (keyedVlen c.binaryHeader + 2)).toNat g g' it ∧
      c' = readValue { c with cmd := appendCmd c.cmd } it (keyedVlen c.binaryHeader) .readSetValue := by
  simp only [processBinAppendPrepend, Option.bind_eq_bind, Option.bind_eq_some_iff] at h
  obtain ⟨⟨s', _ | it⟩, hal, h⟩ := h
  · cases h
    exact absurd ((writeBinError_state c _ _).symm.trans hs) (by simp)
  · cases h
    obtain ⟨h0, hal⟩ := itemAlloc_some hal
    exact ⟨h0, it, ⟨s', c.binaryHeader.cas, hal, rfl⟩, rfl⟩

theorem Allots.prepared {it : Ptr} {exptime : UInt32} {n : Nat} (ha : Allots cfg env key flags exptime n g g' it)
    (h : ClientInv cfg.toSettings ⟨g.store, held⟩) (h2 : 2 ≤ n)
    (hguard : AllocGuard cfg.toSettings (env.alloc g.store) g.store key flags n 0) :
    ClientInv cfg.toSettings ⟨g'.store, addRef held it⟩ ∧
      AwaitsData ⟨g'.store, addRef held it⟩ it key flags exptime n [] := by
  obtain ⟨s', cas, hal, hstore⟩ := ha.store
  rw [hstore]
  exact doItemAlloc_awaits h h2 hguard cas hal

theorem returnZero_eq {r : Conn × Globals} {c' : Conn} (h : returnZero r = some (c', g', 0)) : r = (c', g') := by
  have hpair := Option.some.inj h
  exact Prod.ext (congrArg (·.1) hpair) (congrArg (·.2.1) hpair)

theorem processCommand_storage {asked : NRead} {v : UInt32} {e n : Int} {reqCas : UInt64} {command : Bytes}
    (hl : StorageLine (tokenizeCommand command) asked false v e n reqCas) (env : Env) (c : Conn) (g : Globals)
    (leftCom : Bytes) : processCommand cfg env c g command leftCom = returnZero (startUpdate cfg env
      (setNoreplyMaybe c (tokenizeCommand command)) { g with erange := false } asked ((tokenizeCommand command).value 1)
      (asInt v.toNat) (if e < 0 then REALTIME_MAXDELTA + 1 else e) (n + 2) reqCas) := by
  unfold processCommand
  rw [← processUpdateCommand_eq hl]
  dsimp only
  rw [hl.handler]

theorem Starts.prepared {asked : NRead} {v exptime : UInt32} {size : Nat} {c c' : Conn}
    (hs : Starts cfg env asked key v exptime size c g c' g') (h : ClientInv cfg.toSettings ⟨g.store, held⟩)
    (hguard : AllocGuard cfg.toSettings (env.alloc g.store) g.store key (asInt v.toNat) (size + 2) 0) :
    key.length ≤ KEY_MAX_LENGTH ∧ ∃ it comm, Prepared c c' asked it comm ∧
      ClientInv cfg.toSettings ⟨g'.store, addRef held it⟩ ∧
      AwaitsData ⟨g'.store, addRef held it⟩ it key (asInt v.toNat) exptime (size + 2) [] := by
  have h2 : 2 ≤ size + 2 := Nat.le_add_left 2 size
  cases hs with
  | @line command leftCom e reqCas hp hl hkey hexp hproc hstate =>
    have hlen := hl.key
    rw [hkey] at hlen
    rw [processCommand_storage hl] at hproc
    have hstart := returnZero_eq hproc
    obtain ⟨it, ha, hitem, hritem, hprot, hcmd⟩ := startUpdate_allots hstart hstate
    have hroom : ((size : Int) + 2).toNat = size + 2 := by omega
    have ha' : Allots cfg env key (asInt v.toNat) exptime (size + 2) g g' it := by
      obtain ⟨s', cas, hal, hstore⟩ := ha.store
      dsimp only at hal
      rw [hroom, hkey, hexp] at hal
      exact ⟨s', cas, hal, hstore⟩
    obtain ⟨hinv, hawait⟩ := ha'.prepared h h2 hguard
    refine ⟨hlen, it, asked, ⟨hitem, hritem, ?_, fun hb => absurd hb hp, ?_, ?_, fun _ => rfl⟩, hinv, hawait⟩
    · exact hprot.trans (setNoreplyMaybe_same c _).2
    · rw [hcmd, nreadOfCmd_num]
    · intro hset
      rw [hset]
      exact ⟨nofun, nofun⟩
  | set hp hsub hset hcmd hkey hlen hflags hexp hsize hproc hstate =>
    have hne : ¬(c.cmd = CMD_APPEND ∨ c.cmd = CMD_PREPEND) := by
      rw [hcmd]
      decide
    unfold completeNreadBinary at hproc
    rw [hsub] at hproc
    dsimp only at hproc
    rw [if_neg hne] at hproc
    obtain ⟨h0, it, cas, ha, rfl⟩ := processBinUpdate_allots hproc hstate
    have hroom : (asInt (updateVlen c.binaryHeader + 2)).toNat = size + 2 := by
      have hbytes : asInt (updateVlen c.binaryHeader + 2) = size + 2 := asInt_size hsize h0
      omega
    rw [hkey, hflags, hexp, hroom] at ha
    obtain ⟨hinv, hawait⟩ := ha.prepared h h2 hguard
    obtain ⟨comm, hcomm, hown⟩ : ∃ comm, nreadOfCmd (updateCmd c.cmd cas) = some comm ∧ comm ≠ .append ∧ comm ≠ .prepend := by
      rw [hcmd]
      by_cases hcas : cas = 0
      · rw [hcas]
        exact ⟨.set, by decide, nofun, nofun⟩
      · rw [updateCmd, if_pos hcas, nreadOfCmd_num]
        exact ⟨.cas, rfl, nofun, nofun⟩
    exact ⟨hlen, it, comm, ⟨rfl, rfl, rfl, fun _ => rfl, hcomm, fun _ => hown, fun hm => by
      rw [hset] at hm
      exact hm.elim nofun nofun⟩, hinv, hawait⟩
  | merge hp hsub hmerge hkey hlen hflags hexp hsize hproc hstate =>
    have hcmd : c.cmd = CMD_APPEND ∨ c.cmd = CMD_PREPEND := hmerge.imp (·.2) (·.2)
    unfold completeNreadBinary at hproc
    rw [hsub] at hproc
    dsimp only at hproc
    rw [if_pos hcmd] at hproc
    obtain ⟨h0, it, ha, rfl⟩ := processBinAppendPrepend_allots hproc hstate
    have hroom : (asInt (keyedVlen c.binaryHeader + 2)).toNat = size + 2 := by
      have hbytes : asInt (keyedVlen c.binaryHeader + 2) = size + 2 := asInt_size hsize h0
      omega
    have hzero : asInt v.toNat = 0 := by
      rw [hflags]
      decide
    rw [hzero] at hguard ⊢
    rw [hkey, hroom, ← hexp] at ha
    obtain ⟨hinv, hawait⟩ := ha.prepared h h2 hguard
    refine ⟨hlen, it, asked, ⟨rfl, rfl, rfl, fun _ => rfl, ?_, ?_, fun _ => rfl⟩, hinv, hawait⟩
    · obtain ⟨rfl, hc⟩ | ⟨rfl, hc⟩ := hmerge
      · rw [show (readValue _ it _ _).cmd = appendCmd c.cmd from rfl, hc]
        decide
      · rw [show (readValue _ it _ _).cmd = appendCmd c.cmd from rfl, hc]
        decide
    · intro hset
      obtain ⟨rfl, -⟩ | ⟨rfl, -⟩ := hmerge
      · cases hset
      · cases hset

/-- The block is received into the item, which nobody else touches. -/
theorem Receives.keeps {block got : Bytes} {c c' : Conn} {held held' : Ptr → Nat} {it : Ptr} {f : Int} {exptime : UInt32}
    {n : Nat} (hr : Receives cfg block c g held c' g' held') (hitem : c.item = some it)
    (hritem : c.ritem = .item it got.length) (h : ClientInv cfg.toSettings ⟨g.store, held⟩)
    (hw : AwaitsData ⟨g.store, held⟩ it key f exptime n got) :
    ClientInv cfg.toSettings ⟨g'.store, held'⟩ ∧ AwaitsData ⟨g'.store, held'⟩ it key f exptime n (got ++ block) ∧
      c'.item = c.item ∧ c'.protocol = c.protocol ∧ c'.substate = c.substate ∧ c'.cmd = c.cmd := by
  induction hr generalizing got with
  | done c g held =>
    rw [List.append_nil]
    exact ⟨h, hw, rfl, rfl, rfl, rfl⟩
  | @piece bs block c c' g g' held held' _ ih =>
    have hreceive : receive c g bs = ({ c with rlbytes := c.rlbytes - bs.length, ritem := .item it (got.length + bs.length) },
        { g with store := g.store.modify it (writeData got.length bs) }) := by
      unfold receive
      dsimp only
      rw [hritem]
    rw [hreceive] at ih
    have hlen : ReadItem.item it (got.length + bs.length) = .item it (got ++ bs).length := by rw [List.length_append]
    rw [← List.append_assoc]
    exact ih hitem hlen (h.write hw.held hw.unlinked) (hw.write bs)
  | @others block op c c' g g₁ g' held held₁ held' hs he _ ih =>
    exact ih hitem hritem (hs.2.keeps_inv h hs.1).1 (hw.step h hs (he it hitem))

/-! ## The end of a command -/

theorem ramcubePostSetData_store {rc : Ramcube} {c : Conn} {it : Ptr} {r : Globals × Int}
    (h : ramcubePostSetData cfg rc c g it = some r) : r.1.store = g.store := by
  unfold ramcubePostSetData at h
  cases hm : c.mType with
  | DATA_SERVER | RECOVERY_SERVER =>
    rw [hm] at h
    dsimp only at h
    split at h
    · cases h
      rfl
    · obtain ⟨_, _, h⟩ := Option.bind_eq_some_iff.mp h
      cases h
      rfl
  | _ =>
    rw [hm] at h
    cases h
    rfl

theorem storeReply_store {c c' : Conn} {it : Ptr} {ret : StoreItemType} (h : storeReply cfg c g it ret = some (c', g')) :
    g'.store = g.store := by
  unfold storeReply at h
  cases ret with
  | STORED =>
    cases hr : cfg.ramcube with
    | none =>
      rw [hr] at h
      cases h
      rfl
    | some rc =>
      rw [hr] at h
      obtain ⟨⟨g1, rtn⟩, hpost, h⟩ := Option.map_eq_some_iff.mp h
      have hsame : g1.store = g.store := ramcubePostSetData_store hpost
      dsimp only at h
      split at h
      · cases h
        exact hsame
      · cases h
        exact hsame
  | EXISTS | NOT_FOUND | NOT_STORED =>
    cases h
    rfl

/-- What `complete_nread` does to the store once the block is in order. -/
theorem completeNreadConn_store {c c' : Conn} {it : Ptr} {comm : NRead}
    (h : completeNreadConn cfg env c g = some (c', g')) (hitem : c.item = some it) (hcomm : nreadOfCmd c.cmd = some comm)
    (hsub : c.protocol = .binary → c.substate = .readSetValue)
    (hends : c.protocol ≠ .binary → dataEnds (g.store.mem it) = true) : g'.store =
      (storeRelease cfg.toSettings (env.alloc (wholeBlock c g it)) (wholeBlock c g it) it comm).1 := by
  unfold completeNreadConn at h
  by_cases hb : c.protocol = .binary
  · rw [if_pos hb] at h
    unfold completeNreadBinary at h
    rw [hsub hb] at h
    simp only [completeUpdateBin, hitem, hcomm, Option.bind_eq_bind, Option.bind_some] at h
    rw [wholeBlock, if_pos hb]
    exact (congrArg (fun r => r.2.store) (Option.some.inj h)).symm
  · rw [if_neg hb] at h
    simp only [completeNreadAscii, hitem, storeBlock, hends hb, if_true, hcomm, Option.bind_eq_bind, Option.bind_some,
      Option.bind_eq_some_iff] at h
    obtain ⟨⟨c1, g1⟩, hreply, h⟩ := h
    rw [wholeBlock, if_neg hb]
    have hstore : g'.store = doItemRemove cfg.toSettings g1.store it :=
      (congrArg (fun r => r.2.store) (Option.some.inj h)).symm
    rw [hstore, storeReply_store hreply]
    rfl

/-- The whole block is there. -/
theorem AwaitsData.whole {c : Conn} {it : Ptr} {f : Int} {exptime : UInt32} {value : Bytes}
    (hw : AwaitsData ⟨g.store, held⟩ it key f exptime (value.length + 2) (sentBlock c value))
    (h : ClientInv cfg.toSettings ⟨g.store, held⟩) : ClientInv cfg.toSettings ⟨wholeBlock c g it, held⟩ ∧
      AwaitsData ⟨wholeBlock c g it, held⟩ it key f exptime (value.length + 2) (value ++ [CR, LF]) := by
  unfold sentBlock at hw
  unfold wholeBlock
  by_cases hb : c.protocol = .binary
  · rw [if_pos hb] at hw ⊢
    have hend : g.store.modify it (fun i => writeData (i.nbytes - 2) [CR, LF] i) =
        g.store.modify it (writeData value.length [CR, LF]) := by
      refine modify_congr ?_
      rw [show (g.store.mem it).nbytes = value.length + 2 from hw.item.nbytes, Nat.add_sub_cancel]
    rw [hend]
    exact ⟨h.write hw.held hw.unlinked, hw.write [CR, LF]⟩
  · rw [if_neg hb] at hw ⊢
    exact ⟨h, hw⟩

theorem dataEnds_of_data {i : Item} {value : Bytes} (h : itemData i = value ++ [CR, LF]) : dataEnds i = true := by
  have hvalue := holdsValue_iff.mpr h
  have hends : slice i.bytes (itemDataOff i + (i.nbytes - 2)) 2 = [CR, LF] := hvalue.ends
  unfold dataEnds
  rw [Nat.add_sub_assoc hvalue.nbytes, hends]
  rfl

/-- A storage command of either protocol whose block arrives whole and is stored: from the
store `g` it starts in, `g₂` before its end and `g₃` after it. -/
inductive StoresData (cfg : Config) (asked : NRead) (key : Bytes) (flags exptime : UInt32) (value : Bytes) (g : Globals)
    (held : Ptr → Nat) : Globals → Globals → Prop where
  | stored {c c₁ c₂ c₃ : Conn} {g₁ g₂ g₃ : Globals} {held₂ : Ptr → Nat} {env env' : Env} {it : Ptr} {comm : NRead} :
      AllocGuard cfg.toSettings (env.alloc g.store) g.store key (asInt flags.toNat) (value.length + 2) 0 →
      Starts cfg env asked key flags exptime value.length c g c₁ g₁ →
      c₁.item = some it → nreadOfCmd c₁.cmd = some comm →
      Receives cfg (sentBlock c value) c₁ g₁ (addRef held it) c₂ g₂ held₂ →
      StoreGuard cfg.toSettings (env'.alloc (wholeBlock c₂ g₂ it)) (wholeBlock c₂ g₂ it) held₂ it comm →
      (storeRelease cfg.toSettings (env'.alloc (wholeBlock c₂ g₂ it)) (wholeBlock c₂ g₂ it) it comm).2 = .STORED →
      completeNreadConn cfg env' c₂ g₂ = some (c₃, g₃) →
      StoresData cfg asked key flags exptime value g held g₂ g₃

/-- The end of such a command: the item with the whole block is stored. -/
structure EndsWith (cfg : Config) (asked : NRead) (key : Bytes) (f : Int) (exptime : UInt32) (value : Bytes) (s : Store)
    (env : AllocEnv) (held : Ptr → Nat) (it : Ptr) (comm : NRead) : Prop where
  short : key.length ≤ KEY_MAX_LENGTH
  inv : ClientInv cfg.toSettings ⟨s, held⟩
  item : AwaitsData ⟨s, held⟩ it key f exptime (value.length + 2) (value ++ [CR, LF])
  guard : StoreGuard cfg.toSettings env s held it comm
  answer : (storeRelease cfg.toSettings env s it comm).2 = .STORED
  own : asked = .set → comm ≠ .append ∧ comm ≠ .prepend
  merge : asked = .append ∨ asked = .prepend → comm = asked

theorem StoresData.ends {asked : NRead} {v exptime : UInt32} {value : Bytes} {g₂ g₃ : Globals}
    (hs : StoresData cfg asked key v exptime value g held g₂ g₃) (h : ClientInv cfg.toSettings ⟨g.store, held⟩) :
    ∃ c env held₂ it comm, ClientInv cfg.toSettings ⟨g₂.store, held₂⟩ ∧
      EndsWith cfg asked key (asInt v.toNat) exptime value (wholeBlock c g₂ it) env held₂ it comm ∧
      g₃.store = (storeRelease cfg.toSettings env (wholeBlock c g₂ it) it comm).1 ∧
      ∀ k, lookup cfg.toSettings (wholeBlock c g₂ it) k = lookup cfg.toSettings g₂.store k := by
  obtain ⟨hguard, hstart, hitem, hcomm, hreceive, hstore, hanswer, hend⟩ := hs
  rename_i c c₁ c₂ c₃ g₁ held₂ env env' it comm
  obtain ⟨hkey, it', comm', hp, hinv, hawait⟩ := hstart.prepared h hguard
  obtain rfl : it' = it := Option.some.inj (hp.item.symm.trans hitem)
  obtain rfl : comm' = comm := Option.some.inj (hp.stores.symm.trans hcomm)
  have hritem : c₁.ritem = .item it' ([] : Bytes).length := hp.ritem
  obtain ⟨hinv₂, hawait₂, hitem₂, hprot₂, hsub₂, hcmd₂⟩ := hreceive.keeps hitem hritem hinv hawait
  have hprot : c₂.protocol = c.protocol := hprot₂.trans hp.protocol
  have hsent : sentBlock c₂ value = sentBlock c value := by rw [sentBlock, sentBlock, hprot]
  rw [List.nil_append, ← hsent] at hawait₂
  obtain ⟨hinv₃, hwhole⟩ := hawait₂.whole hinv₂
  refine ⟨c₂, _, held₂, it', comm', hinv₂, ⟨hkey, hinv₃, hwhole, hstore, hanswer, hp.own, hp.merge⟩, ?_, fun k => ?_⟩
  · refine completeNreadConn_store hend (hitem₂.trans hitem) (by rw [hcmd₂, hcomm]) (fun hb => ?_) fun hb => ?_
    · rw [hsub₂, hp.substate (hprot ▸ hb)]
    · have hdata := hwhole.item
      rw [wholeBlock, if_neg hb] at hdata
      have hlaid : LaidOut (g₂.store.mem it') key (asInt v.toNat) exptime (value ++ [CR, LF]).length (value ++ [CR, LF]) := by
        rw [List.length_append]
        exact hdata
      exact dataEnds_of_data hlaid.data
  · have hok := hinv₃.ok
    unfold wholeBlock at hok ⊢
    by_cases hb : c₂.protocol = .binary
    · rw [if_pos hb] at hok ⊢
      exact lookup_modify hinv₂.ok hok hawait₂.unlinked hawait₂.unlinked k
    · rw [if_neg hb]

theorem visible_wholeBlock (c : Conn) (g : Globals) (it : Ptr) (e : Entry) :
    visible (wholeBlock c g it) e = visible g.store e := by
  unfold wholeBlock
  split <;> rfl

/-- The item of a set is the one stored, and is found unless it is flushed or expired. -/
theorem EndsWith.stored {asked : NRead} {v exptime : UInt32} {value : Bytes} {c : Conn} {alloc : AllocEnv} {it : Ptr}
    {comm : NRead} {g₃ : Globals}
    (h : EndsWith cfg asked key (asInt v.toNat) exptime value (wholeBlock c g it) alloc held it comm) (hset : asked = .set)
    (hstore : g₃.store = (storeRelease cfg.toSettings alloc (wholeBlock c g it) it comm).1) :
    ClientInv cfg.toSettings ⟨g₃.store, dropRef held it⟩ ∧
      StoredAs g₃.store it key (asInt v.toNat) (value ++ [CR, LF]) ∧
      flushedOrExpired g₃.store (g₃.store.mem it) = !visible g.store ⟨v.toNat, exptime, value, 0⟩ := by
  have hlaid : LaidOut ((wholeBlock c g it).mem it) key (asInt v.toNat) exptime (value ++ [CR, LF]).length
      (value ++ [CR, LF]) := by
    rw [List.length_append]
    exact h.item.item
  obtain ⟨hstored, hdead⟩ := storeRelease_stores h.inv h.guard (h.own hset) hlaid h.answer
  have hinv := (storeRelease_ages h.inv h.guard).1
  rw [← hstore] at hstored hdead hinv
  have hvisible : visible (wholeBlock c g it) ⟨asInt v.toNat, exptime, value ++ [CR, LF], 0⟩ =
      visible g.store ⟨v.toNat, exptime, value, 0⟩ :=
    (visible_wholeBlock c g it _).trans (visible_congr rfl rfl rfl)
  exact ⟨hinv, hstored, hdead.trans (congrArg (!·) hvisible)⟩

theorem EndsWith.shows_iff {asked : NRead} {v exptime : UInt32} {value : Bytes} {c : Conn} {alloc : AllocEnv} {it : Ptr}
    {comm : NRead} {g₃ : Globals}
    (h : EndsWith cfg asked key (asInt v.toNat) exptime value (wholeBlock c g it) alloc held it comm) (hset : asked = .set)
    (hstore : g₃.store = (storeRelease cfg.toSettings alloc (wholeBlock c g it) it comm).1) :
    Shows cfg g₃ key (decimal v.toNat) v (value ++ [CR, LF]) ↔
      visible g.store ⟨v.toNat, exptime, value, 0⟩ = true ∧ (v.toNat < 2 ^ 31 ∨ ¬Nameable key) := by
  obtain ⟨hinv, hstored, hdead⟩ := h.stored hset hstore
  have hlen : 2 ≤ (value ++ [CR, LF]).length := by
    rw [List.length_append]
    exact Nat.le_add_left 2 value.length
  rw [hstored.shows_iff hinv.ok hinv.rebal hlen h.short, hdead, Bool.not_eq_false']

theorem EndsWith.keeps_flags {asked : NRead} {f : Int} {exptime : UInt32} {value : Bytes} {s : Store} {alloc : AllocEnv}
    {it : Ptr} {comm : NRead} (h : EndsWith cfg asked key f exptime value s alloc held it comm)
    (hm : asked = .append ∨ asked = .prepend) :
    ClientInv cfg.toSettings ⟨(storeRelease cfg.toSettings alloc s it comm).1, dropRef held it⟩ ∧
      FlagsKept cfg.toSettings s (storeRelease cfg.toSettings alloc s it comm).1 key := by
  have hkept := storeRelease_keeps_flags h.inv h.guard (by rwa [h.merge hm]) h.answer
  rw [show s.key it = key from h.item.item.key] at hkept
  exact ⟨(storeRelease_ages h.inv h.guard).1, hkept⟩

/-- The gets before and after show the same flags. -/
def KeepsShown (cfg : Config) (g g' : Globals) (key : Bytes) : Prop :=
  ∃ digits bits data data', Shows cfg g key digits bits data ∧ Shows cfg g' key digits bits data'

theorem shows_of_lookup {e : Entry} (h : ClientInv cfg.toSettings ⟨g.store, held⟩)
    (hl : lookup cfg.toSettings g.store key = some e) (hkey : key.length ≤ KEY_MAX_LENGTH) :
    ∃ data, Shows cfg g key (decimalInt e.flags) (UInt32.ofInt e.flags) data := by
  obtain ⟨p, hp, hk, hlive, he⟩ := (lookup_some h.ok).mp hl
  have hwf := h.items p (.inl hp)
  obtain ⟨f, hsuffix⟩ := hwf.suffix
  have hflags : f = e.flags := by
    rw [← he, itemEntry, itemFlags, hsuffix, strtol_headerSuffix]
  have hlen : (itemData (g.store.mem p)).length = (g.store.mem p).nbytes := length_slice
  have hstored : StoredAs g.store p key e.flags (itemData (g.store.mem p)) := by
    refine ⟨hp, hk, ?_, rfl⟩
    rw [hlen, ← hflags]
    exact hsuffix
  exact ⟨_, hstored.shows h.ok h.rebal hlive (by rw [hlen]; exact hwf.nbytes) hkey⟩

theorem FlagsKept.shown {s s' : Store} {held' : Ptr → Nat} (hf : FlagsKept cfg.toSettings s s' key)
    (h : ClientInv cfg.toSettings ⟨g.store, held⟩) (h' : ClientInv cfg.toSettings ⟨g'.store, held'⟩)
    (hs : lookup cfg.toSettings s key = lookup cfg.toSettings g.store key) (hs' : s' = g'.store)
    (hkey : key.length ≤ KEY_MAX_LENGTH) : KeepsShown cfg g g' key := by
  obtain ⟨e, e', he, he', hflags⟩ := hf
  rw [hs] at he
  rw [hs'] at he'
  obtain ⟨data, hshow⟩ := shows_of_lookup h he hkey
  obtain ⟨data', hshow'⟩ := shows_of_lookup h' he' hkey
  rw [hflags] at hshow'
  exact ⟨_, _, data, data', hshow, hshow'⟩

/-- A number is counted up or down by a command of either protocol. -/
inductive CountsNumber (cfg : Config) (key : Bytes) (g g' : Globals) : Prop where
  | line {env : Env} {c c' : Conn} {command leftCom : Bytes} {incr : Bool} {delta : UInt64} :
      handlerOf (tokenizeCommand command) = .arithmetic incr → (tokenizeCommand command).value 1 = key →
      key.length ≤ KEY_MAX_LENGTH → scanStrtoull ((tokenizeCommand command).value 2) = .ok delta →
      DeltaGuard cfg.toSettings (env.alloc g.store) g.store key incr delta →
      (doAddDelta cfg.toSettings (env.alloc g.store) g.store key incr delta 0 (cfg.hash key)).2.result = .OK →
      processCommand cfg env c g command leftCom = some (c', g', 0) → CountsNumber cfg key g g'
  | header {env : Env} {c c' : Conn} : c.substate = .readingIncrHeader → c.binKey = key →
      key.length ≤ KEY_MAX_LENGTH →
      DeltaGuard cfg.toSettings (env.alloc g.store) g.store key (c.cmd = CMD_INCREMENT) (UInt64.ofNat (c.bodyField 0 8)) →
      (doAddDelta cfg.toSettings (env.alloc g.store) g.store key (c.cmd = CMD_INCREMENT)
        (UInt64.ofNat (c.bodyField 0 8)) c.binaryHeader.cas (cfg.hash key)).2.result = .OK →
      completeNreadBinary cfg env c g = some (c', g') → CountsNumber cfg key g g'

theorem CountsNumber.store (hs : CountsNumber cfg key g g') : key.length ≤ KEY_MAX_LENGTH ∧
    ∃ env incr delta cas, DeltaGuard cfg.toSettings env g.store key incr delta ∧
      (doAddDelta cfg.toSettings env g.store key incr delta cas (cfg.hash key)).2.result = .OK ∧
      (doAddDelta cfg.toSettings env g.store key incr delta cas (cfg.hash key)).1 = g'.store := by
  cases hs with
  | @line env c c' command leftCom incr delta hhandler hname hkey hdelta hguard hres hproc =>
    refine ⟨hkey, _, incr, delta, 0, hguard, hres, ?_⟩
    unfold processCommand at hproc
    dsimp only at hproc
    rw [hhandler] at hproc
    dsimp only at hproc
    have hrun := returnZero_eq hproc
    unfold processArithmeticCommand addDelta at hrun
    dsimp only at hrun
    rw [hname, if_neg (Nat.not_lt.mpr hkey), hdelta] at hrun
    dsimp only at hrun
    rw [hres] at hrun
    exact congrArg (·.2.store) hrun
  | @header env c c' hsub hname hkey hguard hres hproc =>
    refine ⟨hkey, _, _, _, c.binaryHeader.cas, hguard, hres, ?_⟩
    unfold completeNreadBinary at hproc
    rw [hsub] at hproc
    have hrun := Option.some.inj hproc
    unfold completeIncrBin addDelta at hrun
    dsimp only at hrun
    rw [hname, hres] at hrun
    exact congrArg (·.2.store) hrun

/-- In every reachable store: after a set of either protocol a get of either protocol
returns the flags, the length and the bytes that were sent if and only if the item is not
flushed or expired at once and its flags are below `2 ^ 31`, or no line can ask for its
key. Append, prepend, incr and decr keep the flags that the gets return, whatever they
are. -/
theorem flags_come_back_iff {k : Nat} {ops : List ItemsOp}
    (hr : Run (Guarded Forward (ItemsStep cfg.toSettings)) (itemsInit k) ops ⟨g.store, held⟩)
    (hreb : g.store.slabRebal = none) :
    (∀ key v exptime value g₂ g₃, StoresData cfg .set key v exptime value g held g₂ g₃ →
      (Shows cfg g₃ key (decimal v.toNat) v (value ++ [CR, LF]) ↔
        visible g₂.store ⟨v.toNat, exptime, value, 0⟩ = true ∧ (v.toNat < 2 ^ 31 ∨ ¬Nameable key))) ∧
    (∀ asked key v exptime value g₂ g₃, asked = .append ∨ asked = .prepend →
      StoresData cfg asked key v exptime value g held g₂ g₃ → KeepsShown cfg g₂ g₃ key) ∧
    ∀ key g', CountsNumber cfg key g g' → KeepsShown cfg g g' key := by
  have hinv : ClientInv cfg.toSettings ⟨g.store, held⟩ := ⟨((flushInv_init cfg.toSettings k).run hr).1, hreb⟩
  refine ⟨fun key v exptime value g₂ g₃ hs => ?_, fun asked key v exptime value g₂ g₃ hm hs => ?_, fun key g' hs => ?_⟩
  · obtain ⟨c, env, held₂, it, comm, -, hend, hstore, -⟩ := hs.ends hinv
    exact hend.shows_iff rfl hstore
  · obtain ⟨c, env, held₂, it, comm, hinv₂, hend, hstore, hsame⟩ := hs.ends hinv
    obtain ⟨hinv₃, hkept⟩ := hend.keeps_flags hm
    rw [← hstore] at hinv₃
    exact hkept.shown hinv₂ hinv₃ (hsame key) hstore.symm hend.short
  · obtain ⟨hkey, env, incr, delta, cas, hguard, hres, hstore⟩ := hs.store
    have hinv' := (hinv.of_run (w := fun _ => True) (doAddDelta_run hinv.ok cas hguard fun _ => trivial)).1
    rw [hstore] at hinv'
    exact (doAddDelta_keeps_flags hinv hguard hres).shown hinv hinv' rfl hstore hkey

/-! ### A set of one byte -/

def roomyEnv : Env := { (default : Env) with alloc := fun _ => fourChunks }

/-- `set k <flags> 0 1` -/
def oneByteSet (digits : Bytes) : Bytes := ascii "set k " ++ digits ++ ascii " 0 1"

theorem oneByteSet_stores {digits : Bytes} {v : UInt32}
    (hl : StorageLine (tokenizeCommand (oneByteSet digits)) .set false v 0 1 0)
    (hkey : (tokenizeCommand (oneByteSet digits)).value 1 = [107])
    (hroom : (doItemAlloc oneClass fourChunks (storeInit 16) [107] (asInt v.toNat) 0 3 0).2.isSome = true) :
    ∃ g₂ g₃, StoresData smallServer .set [107] v 0 [118] (globalsInit 16) (fun _ => 0) g₂ g₃ ∧
      visible g₂.store ⟨v.toNat, 0, [118], 0⟩ = true := by
  have hexp : realtime smallServer.processStarted (globalsInit 16).store
      (if (0 : Int) < 0 then REALTIME_MAXDELTA + 1 else 0) = 0 := by decide +kernel
  have hguard : AllocGuard smallServer.toSettings (roomyEnv.alloc (globalsInit 16).store) (globalsInit 16).store [107]
      (asInt v.toNat) ([118].length + 2) 0 := ⟨by simp [FreshPage, roomyEnv, fourChunks, globalsInit, storeInit], rfl⟩
  have hinv : ClientInv smallServer.toSettings ⟨(globalsInit 16).store, fun _ => 0⟩ :=
    clientInv_init smallServer.toSettings 16
  -- the line
  obtain ⟨⟨c₁, g₁⟩, hrun⟩ : ∃ r, startUpdate smallServer roomyEnv
      (setNoreplyMaybe (connNew smallServer 4096 .read .tcp) (tokenizeCommand (oneByteSet digits)))
      { globalsInit 16 with erange := false } .set ((tokenizeCommand (oneByteSet digits)).value 1) (asInt v.toNat)
      (if (0 : Int) < 0 then REALTIME_MAXDELTA + 1 else 0) (1 + 2) 0 = r := ⟨_, rfl⟩
  have halloc : (doItemAlloc smallServer.toSettings (roomyEnv.alloc (globalsInit 16).store) (globalsInit 16).store
      ((tokenizeCommand (oneByteSet digits)).value 1) (asInt v.toNat) (realtime smallServer.processStarted
        (globalsInit 16).store (if (0 : Int) < 0 then REALTIME_MAXDELTA + 1 else 0)) ((1 : Int) + 2).toNat 0).2.isSome := by
    rw [hkey, hexp]
    exact hroom
  obtain ⟨it, hit⟩ := startUpdate_allocated (setNoreplyMaybe (connNew smallServer 4096 .read .tcp)
    (tokenizeCommand (oneByteSet digits))) .set 0 { globalsInit 16 with erange := false } (by decide) halloc
  rw [hrun] at hit
  have hc₁ : c₁ = _ := hit
  have hproc : processCommand smallServer roomyEnv (connNew smallServer 4096 .read .tcp) (globalsInit 16)
      (oneByteSet digits) [] = some (c₁, g₁, 0) := by
    rw [processCommand_storage hl, hrun]
    rfl
  have hstart : Starts smallServer roomyEnv .set [107] v 0 [118].length (connNew smallServer 4096 .read .tcp)
      (globalsInit 16) c₁ g₁ := .line (fun h => by cases h) hl hkey hexp hproc (by rw [hc₁])
  have hmark : g₁.store.oldestLive = 0 := by
    obtain ⟨q, ⟨s', cas, hal, hstore⟩, -⟩ := startUpdate_allots hrun (by rw [hc₁])
    rw [hkey, hexp] at hal
    have hgot : doItemAlloc smallServer.toSettings (roomyEnv.alloc (globalsInit 16).store) (globalsInit 16).store [107]
      (asInt v.toNat) 0 3 0 = (s', some q) := hal
    obtain ⟨m, p, id, i, hal', -, hk, -⟩ := (doItemAlloc_spec hinv.ok hguard.page [107] (asInt v.toNat) 0 3 0
      hguard.noRepair).resolve_left fun hnone => by cases hnone.symm.trans hgot
    obtain rfl : m = s' := congrArg Prod.fst (hal'.symm.trans hgot)
    rw [hstore]
    exact congrArg (·.2.1) hk.env
  obtain ⟨-, it', comm, hp, hinv₁, hawait⟩ := hstart.prepared hinv hguard
  obtain rfl : it' = it := by
    have hitem := hp.item
    rw [hc₁] at hitem
    exact (Option.some.inj hitem).symm
  obtain rfl : comm = .set := by
    have hcomm := hp.stores
    rw [hc₁, nreadOfCmd_num] at hcomm
    exact (Option.some.inj hcomm).symm
  -- the block, in one piece
  obtain ⟨⟨c₂, g₂⟩, hreceive⟩ : ∃ r, receive c₁ g₁ ([118] ++ [CR, LF]) = r := ⟨_, rfl⟩
  have hblock : Receives smallServer ([118] ++ [CR, LF] ++ []) c₁ g₁ (addRef (fun _ => 0) it') c₂ g₂
      (addRef (fun _ => 0) it') := by
    refine .piece ?_
    rw [hreceive]
    exact .done c₂ g₂ _
  have hsent : sentBlock (connNew smallServer 4096 .read .tcp) [118] = [118] ++ [CR, LF] := if_neg fun h => by cases h
  rw [List.append_nil, ← hsent] at hblock
  have hritem : c₁.ritem = .item it' ([] : Bytes).length := hp.ritem
  obtain ⟨hinv₂, hawait₂, hitem₂, hprot₂, hsub₂, hcmd₂⟩ := hblock.keeps hp.item hritem hinv₁ hawait
  have hascii : c₂.protocol ≠ .binary := by
    rw [hprot₂, hp.protocol]
    intro h
    cases h
  have hwhole : wholeBlock c₂ g₂ it' = g₂.store := if_neg hascii
  have hstore : StoreGuard smallServer.toSettings (roomyEnv.alloc (wholeBlock c₂ g₂ it')) (wholeBlock c₂ g₂ it')
      (addRef (fun _ => 0) it') it' .set := by
    rw [hwhole]
    refine ⟨hawait₂.held, hawait₂.unlinked, .inl rfl, fun _ _ _ => .inl rfl, fun s old _ hm => ?_⟩
    exact absurd hm.1 (by simp)
  have hanswer : (storeRelease smallServer.toSettings (roomyEnv.alloc (wholeBlock c₂ g₂ it')) (wholeBlock c₂ g₂ it') it'
      .set).2 = .STORED := by
    unfold storeRelease doStoreItem
    rcases doItemGet smallServer.toSettings (wholeBlock c₂ g₂ it') _ _ with ⟨m, _ | old⟩
    · rfl
    · rfl
  have hsome : (completeNreadAscii smallServer roomyEnv c₂ g₂).isSome := by
    refine completeNreadAscii_isSome rfl (hitem₂.trans hp.item) ?_
    rw [hcmd₂, hp.stores]
    rfl
  obtain ⟨⟨c₃, g₃⟩, hend⟩ := Option.isSome_iff_exists.mp hsome
  have hcomplete : completeNreadConn smallServer roomyEnv c₂ g₂ = some (c₃, g₃) := (if_neg hascii).trans hend
  refine ⟨g₂, g₃, .stored hguard hstart hp.item hp.stores hblock hstore hanswer hcomplete, ?_⟩
  have hmark₂ : g₂.store.oldestLive = 0 := by
    rw [show g₂ = _ from (congrArg Prod.snd hreceive).symm]
    unfold receive
    rw [hp.ritem]
    exact hmark
  simp [visible, hmark₂]

def setFlagsFive : Bytes := oneByteSet (ascii "5")

/-- `2 ^ 31` does not fit in an `int`. -/
def setFlagsLarge : Bytes := oneByteSet (ascii "2147483648")

theorem flags_come_back_iff_five : ∃ g₂ g₃,
    StoresData smallServer .set [107] 5 0 [118] (globalsInit 16) (fun _ => 0) g₂ g₃ ∧
      Shows smallServer g₃ [107] (decimal 5) 5 ([118] ++ [CR, LF]) := by
  have hl : StorageLine (tokenizeCommand setFlagsFive) .set false 5 0 1 0 := by
    constructor <;> decide +kernel
  have hfacts : (tokenizeCommand setFlagsFive).value 1 = [107] ∧
      (doItemAlloc oneClass fourChunks (storeInit 16) [107] (asInt (5 : UInt32).toNat) 0 3 0).2.isSome = true := by
    decide +kernel
  obtain ⟨g₂, g₃, hs, hvis⟩ := oneByteSet_stores hl hfacts.1 hfacts.2
  have hiff := (flags_come_back_iff (.nil _) rfl).1 [107] 5 0 [118] g₂ g₃ hs
  exact ⟨g₂, g₃, hs, hiff.mpr ⟨hvis, .inl (by decide)⟩⟩

/-- A text get shows flags from `2 ^ 31` on as a negative number. -/
theorem large_flags_come_back_negative : ∃ g₂ g₃,
    StoresData smallServer .set [107] 2147483648 0 [118] (globalsInit 16) (fun _ => 0) g₂ g₃ ∧
      Shows smallServer g₃ [107] (decimalInt (-2147483648)) 2147483648 ([118] ++ [CR, LF]) ∧
      ¬Shows smallServer g₃ [107] (decimal 2147483648) 2147483648 ([118] ++ [CR, LF]) := by
  have hl : StorageLine (tokenizeCommand setFlagsLarge) .set false 2147483648 0 1 0 := by
    constructor <;> decide +kernel
  have hfacts : (tokenizeCommand setFlagsLarge).value 1 = [107] ∧
      (doItemAlloc oneClass fourChunks (storeInit 16) [107] (asInt (2147483648 : UInt32).toNat) 0 3 0).2.isSome = true ∧
      (2147483648 : UInt32).toNat = 2147483648 ∧ asInt (2147483648 : Nat) = -2147483648 := by
    decide +kernel
  obtain ⟨hkey, hroom, hnat, hneg⟩ := hfacts
  obtain ⟨g₂, g₃, hs, hvis⟩ := oneByteSet_stores hl hkey hroom
  have hinv : ClientInv smallServer.toSettings ⟨(globalsInit 16).store, fun _ => 0⟩ :=
    clientInv_init smallServer.toSettings 16
  obtain ⟨c, alloc, held₂, it, comm, -, hend, hstore, -⟩ := hs.ends hinv
  obtain ⟨hinv₃, hstored, hdead⟩ := hend.stored rfl hstore
  rw [hvis] at hdead
  have hshow := hstored.shows hinv₃.ok hinv₃.rebal hdead (by decide) (by decide)
  rw [ofInt_flags, hnat, hneg] at hshow
  have hname : Nameable [107] := ⟨List.cons_ne_nil _ _, List.forall_mem_singleton.mpr (by decide)⟩
  refine ⟨g₂, g₃, hs, hshow, fun h => ?_⟩
  have hiff := hend.shows_iff rfl hstore
  rw [hnat] at hiff
  have hsmall := (hiff.mp h).2.resolve_right (not_not.mpr hname)
  exact absurd hsmall (by norm_num)

end RamCube
