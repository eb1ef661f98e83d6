import RamCube.Server.Ascii

/-! # The binary protocol (memcached.c)

`dispatchBinCommand` checks the header of a request and decides what is read next;
`completeNreadBinary` goes on when that has arrived. As in the source an `int` that is
given an unsigned difference may be negative. -/
namespace RamCube

variable (cfg : Config) (env : Env)

/-! ## Opcodes -/

def CMD_SET : Int := 0x01
def CMD_ADD : Int := 0x02
def CMD_REPLACE : Int := 0x03
def CMD_DELETE : Int := 0x04
def CMD_INCREMENT : Int := 0x05
def CMD_DECREMENT : Int := 0x06
def CMD_QUIT : Int := 0x07
def CMD_FLUSH : Int := 0x08
def CMD_GETQ : Int := 0x09
def CMD_NOOP : Int := 0x0a
def CMD_VERSION : Int := 0x0b
def CMD_GETKQ : Int := 0x0d
def CMD_APPEND : Int := 0x0e
def CMD_PREPEND : Int := 0x0f
def CMD_STAT : Int := 0x10
def CMD_TOUCH : Int := 0x1c
def CMD_GAT : Int := 0x1d
def CMD_GATQ : Int := 0x1e
def CMD_SASL_LIST_MECHS : Int := 0x20
def CMD_SASL_AUTH : Int := 0x21
def CMD_SASL_STEP : Int := 0x22
def CMD_GATK : Int := 0x23
def CMD_GATKQ : Int := 0x24

/-- The command a quiet opcode stands for, by the first switch of
`dispatch_bin_command`. -/
def quietOf (cmd : Int) : Option Int :=
  if cmd = 0x11 then some CMD_SET
  else if cmd = 0x12 then some CMD_ADD
  else if cmd = 0x13 then some CMD_REPLACE
  else if cmd = 0x14 then some CMD_DELETE
  else if cmd = 0x15 then some CMD_INCREMENT
  else if cmd = 0x16 then some CMD_DECREMENT
  else if cmd = 0x17 then some CMD_QUIT
  else if cmd = 0x18 then some CMD_FLUSH
  else if cmd = 0x19 then some CMD_APPEND
  else if cmd = 0x1a then some CMD_PREPEND
  else if cmd = CMD_GETQ then some CMD_GET
  else if cmd = CMD_GETKQ then some CMD_GETK
  else if cmd = CMD_GATQ then some CMD_GAT
  else if cmd = CMD_GATKQ then some CMD_GAT
  else none

/-! ## The request in the read buffer -/

namespace Conn

variable (c : Conn)

/-- What was read behind the header: extras and key. -/
def packet : Bytes :=
  match c.ritem with
  | .packet got => got
  | .item _ _ => []

/-- `binary_get_key` -/
def binKey : Bytes := c.packet.drop (c.packet.length - c.keylen)

/-- The big-endian field of the body of the request at this offset. -/
def bodyField (off len : Nat) : Nat := readBigEndian ((c.packet.drop off).take len)

end Conn

/-- `bin_read_key` -/
def binReadKey (c : Conn) (next : BinSubstate) (extra : Nat) : Conn :=
  { c with substate := next, rlbytes := c.keylen + extra, ritem := .packet [], state := .nread }

/-- `handle_binary_protocol_error` -/
def handleBinaryProtocolError (c : Conn) : Conn :=
  { writeBinError c .EINVAL 0 with writeAndGo := .closing }

/-! ## SASL -/

def MAX_SASL_MECH_LEN : Nat := 32

/-- `init_sasl_conn` -/
def initSaslConn (c : Conn) : Conn :=
  if cfg.sasl = false then c
  else match c.sasl with
    | some _ => c
    | none => if cfg.saslLib.serverNew then { c with sasl := some [] } else c

/-- `authenticated` -/
def authenticated (c : Conn) : Bool :=
  if c.cmd ∈ [CMD_SASL_LIST_MECHS, CMD_SASL_AUTH, CMD_SASL_STEP, CMD_VERSION] then true
  else match c.sasl with
    | some calls => cfg.saslLib.username calls
    | none => false

/-- `bin_list_sasl_mechs` -/
def binListSaslMechs (c : Conn) : Conn :=
  if cfg.sasl = false then
    writeBinError c .UNKNOWN_COMMAND
      (asInt (c.binaryHeader.bodylen.toNat - c.binaryHeader.keylen.toNat))
  else
    let c := initSaslConn cfg c
    match cfg.saslLib.listmech c.sasl with
    | none => writeBinError c .AUTH_ERROR 0
    | some mechs => writeBinResponse c mechs 0 0

/-- The `int vlen` of a request without extras. -/
def keyedVlen (h : BinaryHeader) : Int := asInt (h.bodylen.toNat - h.keylen.toNat)

/-- The `int vlen` of `process_bin_update`. -/
def updateVlen (h : BinaryHeader) : Int := asInt (h.bodylen.toNat - (h.keylen.toNat + h.extlen.toNat))

/-- The item in `it` is read next, `vlen` bytes of it. -/
def readValue (c : Conn) (it : Ptr) (vlen : Int) (next : BinSubstate) : Conn :=
  { c with item := some it, ritem := .item it 0, rlbytes := vlen, state := .nread, substate := next }

/-- `process_bin_sasl_auth` -/
def processBinSaslAuth (c : Conn) (g : Globals) : Option (Conn × Globals) :=
  let vlen := keyedVlen c.binaryHeader
  if cfg.sasl = false then some (writeBinError c .UNKNOWN_COMMAND vlen, g)
  else if MAX_SASL_MECH_LEN < c.keylen then
    some (binErrorSwallow c .EINVAL vlen, g)
  else do
    match ← itemAlloc cfg.toSettings (env.alloc g.store) g.store c.binKey 0 0 vlen with
    | (s, none) => some (binErrorSwallow c .ENOMEM vlen, { g with store := s })
    | (s, some it) => some (readValue c it vlen .readingSaslAuthData, { g with store := s })

/-- `process_bin_complete_sasl_auth`. The item stays in `c->item`. -/
def processBinCompleteSaslAuth (c : Conn) (g : Globals) : Option (Conn × Globals) := do
  let it ← c.item
  let c := initSaslConn cfg c
  let mech := cText (itemKey (g.store.mem it))
  let challenge := itemData (g.store.mem it)
  let call : SaslCall := if c.cmd = CMD_SASL_AUTH then .start mech challenge else .step challenge
  let answer := cfg.saslLib.answer c.sasl call
  let c := { c with sasl := c.sasl.map fun calls => calls ++ [call] }
  let g := { g with
    store := doItemUnlink cfg.toSettings g.store it (cfg.hash (g.store.key it)) }
  match answer with
  | .OK => some (writeBinResponse c (ascii "Authenticated") 0 0, g)
  | .CONTINUE out =>
    some ({ c with
      out := binHeader c .AUTH_CONTINUE 0 0 out.length ++ out
      state := .mwrite
      writeAndGo := .newCmd }, g)
  | .FAIL => some (writeBinError c .AUTH_ERROR 0, g)

/-! ## Storage -/

/-- The item of a storage request could not be allocated. -/
def updateFailed (c : Conn) (flags : Int) (vlen : Int) : Conn :=
  binErrorSwallow c
    (if itemSizeOk cfg.toSettings c.keylen flags (asInt (vlen + 2)) then .ENOMEM else .E2BIG) vlen

/-- The number `c->cmd` is given for the data block of SET, ADD and REPLACE. -/
def updateCmd (cmd : Int) (cas : UInt64) : Int :=
  if cas ≠ 0 then NRead.cas.num
  else if cmd = CMD_ADD then NRead.add.num
  else if cmd = CMD_SET then NRead.set.num
  else if cmd = CMD_REPLACE then NRead.replace.num
  else cmd

/-- `process_bin_update` -/
def processBinUpdate (c : Conn) (g : Globals) : Option (Conn × Globals) := do
  let vlen := updateVlen c.binaryHeader
  let flags := asInt (c.bodyField 0 4)
  let exptime := realtime cfg.processStarted g.store (c.bodyField 4 4)
  match ← itemAlloc cfg.toSettings (env.alloc g.store) g.store c.binKey flags exptime (asInt (vlen + 2)) with
  | (s, none) =>
    let s := if c.cmd = CMD_SET then (deleteItem cfg.toSettings s c.binKey 0).1 else s
    some (updateFailed cfg c flags vlen, { g with store := s })
  | (s, some it) =>
    let s := s.modify it fun i => itemSetCas i c.binaryHeader.cas
    let cmd := updateCmd c.cmd (itemGetCas (s.mem it))
    some (readValue { c with cmd := cmd } it vlen .readSetValue, { g with store := s })

/-- The number `c->cmd` is given for the data block of APPEND and PREPEND. -/
def appendCmd (cmd : Int) : Int :=
  if cmd = CMD_APPEND then NRead.append.num
  else if cmd = CMD_PREPEND then NRead.prepend.num
  else cmd

/-- `process_bin_append_prepend` -/
def processBinAppendPrepend (c : Conn) (g : Globals) : Option (Conn × Globals) := do
  let vlen := keyedVlen c.binaryHeader
  match ← itemAlloc cfg.toSettings (env.alloc g.store) g.store c.binKey 0 0 (asInt (vlen + 2)) with
  | (s, none) => some (updateFailed cfg c 0 vlen, { g with store := s })
  | (s, some it) =>
    let s := s.modify it fun i => itemSetCas i c.binaryHeader.cas
    some (readValue { c with cmd := appendCmd c.cmd } it vlen .readSetValue, { g with store := s })

/-- The error of a storage command that stored nothing. -/
def notStoredError (cmd : Int) : BinStatus :=
  if cmd = NRead.add.num then .KEY_EEXISTS
  else if cmd = NRead.replace.num then .KEY_ENOENT
  else .NOT_STORED

/-- `complete_update_bin`: the line end is not received but written here. -/
def completeUpdateBin (c : Conn) (g : Globals) : Option (Conn × Globals) := do
  let it ← c.item
  let comm ← nreadOfCmd c.cmd
  let g := { g with store := g.store.modify it fun i => writeData (i.nbytes - 2) [CR, LF] i }
  let (c, g, ret) := storeItem cfg env c g it comm
  let c := match ret with
    | .STORED => writeBinResponse c [] 0 0
    | .EXISTS => writeBinError c .KEY_EEXISTS 0
    | .NOT_FOUND => writeBinError c .KEY_ENOENT 0
    | .NOT_STORED => writeBinError c (notStoredError c.cmd) 0
  some ({ c with item := none }, { g with store := doItemRemove cfg.toSettings g.store it })

/-! ## The other requests -/

/-- The branch of `complete_incr_bin` for a key that is not stored: the initial value,
unless the request asks for none. -/
def incrInitial (c : Conn) (g : Globals) (initial expiration : Nat) : Conn × Globals :=
  if expiration = 0xffffffff then (writeBinError c .KEY_ENOENT 0, g)
  else match doItemAlloc cfg.toSettings (env.alloc g.store) g.store c.binKey 0
      (realtime cfg.processStarted g.store expiration) INCR_MAX_STORAGE_LEN 0 with
    | (s, none) => (writeBinError c .ENOMEM 0, { g with store := s })
    | (s, some it) =>
      let s := s.modify it (writeData 0 (decimal initial ++ [0]))
      let (c, g, ret) := storeItem cfg env c { g with store := s } it .add
      let c :=
        if ret = .NOT_STORED then writeBinError c .NOT_STORED 0
        else writeBinResponse { c with cas := itemGetCas (g.store.mem it) } (bigEndian 8 initial) 0 0
      (c, { g with store := doItemRemove cfg.toSettings g.store it })

/-- `complete_incr_bin` -/
def completeIncrBin (c : Conn) (g : Globals) : Conn × Globals :=
  let delta := UInt64.ofNat (c.bodyField 0 8)
  let (g, r) := addDelta cfg env g c.binKey (c.cmd = CMD_INCREMENT) delta c.binaryHeader.cas
  match r.result with
  | .OK =>
    let cas := (r.it.map fun it => itemGetCas (g.store.mem it)).getD 0
    let c := if cas ≠ 0 then { c with cas := cas } else c
    (writeBinResponse c (bigEndian 8 (readDigits 0 r.buf)) 0 0, g)
  | .NON_NUMERIC => (writeBinError c .DELTA_BADVAL 0, g)
  | .EOM => (writeBinError c .ENOMEM 0, g)
  | .DELTA_ITEM_NOT_FOUND => incrInitial cfg env c g (c.bodyField 8 8) (c.bodyField 16 4)
  | .DELTA_ITEM_CAS_MISMATCH => (writeBinError c .KEY_EEXISTS 0, g)

/-- The response of GET, GETK, GAT, GATK and TOUCH with an item, which then stays in
`c->item`. -/
def itemResponse (c : Conn) (it : Ptr) (i : Item) (key value : Bytes) : Conn :=
  let c' := { c with cas := itemGetCas i }
  let body := bigEndian 4 (UInt32.ofInt (itemFlags i)).toNat ++ key ++ value
  { c with
    out := binHeader c' .SUCCESS 4 key.length body.length ++ body
    state := .mwrite
    writeAndGo := .newCmd
    item := some it }

/-- The response of a retrieval that found nothing; with `withKey` it names the key. -/
def missResponse (c : Conn) (withKey : Bool) : Conn :=
  if c.noreply then { c with state := .newCmd }
  else if withKey then
    { c with
      out := binHeader c .KEY_ENOENT 0 c.binKey.length c.binKey.length ++ c.binKey
      state := .mwrite
      writeAndGo := .newCmd }
  else writeBinError c .KEY_ENOENT 0

/-- The data without its line end. -/
def itemValue (i : Item) : Bytes := (itemData i).take (i.nbytes - 2)

/-- `process_bin_touch` -/
def processBinTouch (c : Conn) (g : Globals) : Conn × Globals :=
  let exptime := realtime cfg.processStarted g.store (c.bodyField 0 4)
  match touchItem cfg.toSettings g.store c.binKey exptime with
  | (s, some it) =>
    let i := s.mem it
    let key := if c.cmd = CMD_GATK then itemKey i else []
    let value := if c.cmd = CMD_TOUCH then [] else itemValue i
    (itemResponse c it i key value, { g with store := s })
  | (s, none) => (missResponse c (c.cmd = CMD_GATK), { g with store := s })

/-- `process_bin_get` -/
def processBinGet (c : Conn) (g : Globals) : Conn × Globals :=
  match getItem cfg.toSettings g.store c.binKey with
  | (s, some it) =>
    let i := s.mem it
    let key := if c.cmd = CMD_GETK then itemKey i else []
    (itemResponse c it i key (itemValue i), { g with store := s })
  | (s, none) => (missResponse c (c.cmd = CMD_GETK), { g with store := s })

/-- `process_bin_delete` -/
def processBinDelete (c : Conn) (g : Globals) : Conn × Globals :=
  match deleteItem cfg.toSettings g.store c.binKey c.binaryHeader.cas with
  | (s, some true) => (writeBinResponse c [] 0 0, { g with store := s })
  | (s, some false) => (writeBinError c .KEY_EEXISTS 0, { g with store := s })
  | (s, none) => (writeBinError c .KEY_ENOENT 0, { g with store := s })

/-- `process_bin_flush` -/
def processBinFlush (c : Conn) (g : Globals) : Conn × Globals :=
  let exptime := if c.binaryHeader.extlen = 4 then c.bodyField 0 4 else 0
  (writeBinResponse c [] 0 0,
    { g with store := flushAll cfg.toSettings cfg.processStarted g.store exptime })

/-- `strncmp` of a prefix of the subcommand, which runs on into the bytes behind the key. -/
def statPrefix (c : Conn) (off : Nat) (word : Bytes) : Bool :=
  ((c.binKey ++ c.rbuf ++ env.beyond).drop off).take word.length == word

/-- `process_bin_stat` -/
def processBinStat (c : Conn) (g : Globals) : Conn × Globals :=
  if c.keylen = 0 ∨ statPrefix env c 0 (ascii "reset") ∨ statPrefix env c 0 (ascii "settings") then
    (writeAndFree c env.stats, g)
  else if statPrefix env c 0 (ascii "detail") then
    if statPrefix env c 6 (ascii " dump") then (writeAndFree c env.stats, g)
    else if statPrefix env c 6 (ascii " on") then
      (writeAndFree c env.stats, { g with detailEnabled := true })
    else if statPrefix env c 6 (ascii " off") then
      (writeAndFree c env.stats, { g with detailEnabled := false })
    else (writeBinError c .KEY_ENOENT 0, g)
  else if c.binKey ∈ statTypes then (writeAndFree c env.stats, g)
  else (writeBinError c .KEY_ENOENT 0, g)

/-! ## Requests -/

/-- The second switch of `dispatch_bin_command`; `none` is a protocol error. -/
def dispatchBinOpcode (c : Conn) : Option Conn :=
  let extlen := c.binaryHeader.extlen.toNat
  let keylen := c.binaryHeader.keylen.toNat
  let bodylen := c.binaryHeader.bodylen.toNat
  if c.cmd = CMD_VERSION then
    if extlen = 0 ∧ keylen = 0 ∧ bodylen = 0 then some (writeBinResponse c (ascii "1.4.15") 0 0) else none
  else if c.cmd = CMD_FLUSH then
    if keylen = 0 ∧ bodylen = extlen ∧ (extlen = 0 ∨ extlen = 4) then
      some (binReadKey c .readFlushExptime extlen)
    else none
  else if c.cmd = CMD_NOOP then
    if extlen = 0 ∧ keylen = 0 ∧ bodylen = 0 then some (writeBinResponse c [] 0 0) else none
  else if c.cmd ∈ [CMD_SET, CMD_ADD, CMD_REPLACE] then
    if extlen = 8 ∧ keylen ≠ 0 ∧ keylen + 8 ≤ bodylen then some (binReadKey c .readingSetHeader 8) else none
  else if c.cmd ∈ [CMD_GETQ, CMD_GET, CMD_GETKQ, CMD_GETK] then
    if extlen = 0 ∧ bodylen = keylen ∧ 0 < keylen then some (binReadKey c .readingGetKey 0) else none
  else if c.cmd = CMD_DELETE then
    if 0 < keylen ∧ extlen = 0 ∧ bodylen = keylen then some (binReadKey c .readingDelHeader extlen) else none
  else if c.cmd ∈ [CMD_INCREMENT, CMD_DECREMENT] then
    if 0 < keylen ∧ extlen = 20 ∧ bodylen = keylen + extlen then
      some (binReadKey c .readingIncrHeader 20)
    else none
  else if c.cmd ∈ [CMD_APPEND, CMD_PREPEND] then
    if 0 < keylen ∧ extlen = 0 then some (binReadKey c .readingSetHeader 0) else none
  else if c.cmd = CMD_STAT then
    if extlen = 0 then some (binReadKey c .readingStat 0) else none
  else if c.cmd = CMD_QUIT then
    if keylen = 0 ∧ extlen = 0 ∧ bodylen = 0 then
      let c := { writeBinResponse c [] 0 0 with writeAndGo := .closing }
      some (if c.noreply then { c with state := .closing } else c)
    else none
  else if c.cmd = CMD_SASL_LIST_MECHS then
    if extlen = 0 ∧ keylen = 0 ∧ bodylen = 0 then some (binListSaslMechs cfg c) else none
  else if c.cmd ∈ [CMD_SASL_AUTH, CMD_SASL_STEP] then
    if extlen = 0 ∧ keylen ≠ 0 then some (binReadKey c .readingSaslAuth 0) else none
  else if c.cmd ∈ [CMD_TOUCH, CMD_GAT, CMD_GATQ, CMD_GATK, CMD_GATKQ] then
    if extlen = 4 ∧ keylen ≠ 0 then some (binReadKey c .readingTouchKey 4) else none
  else some (writeBinError c .UNKNOWN_COMMAND (asInt bodylen))

/-- `dispatch_bin_command` -/
def dispatchBinCommand (c : Conn) : Conn :=
  if cfg.sasl ∧ authenticated cfg c = false then
    { writeBinError c .AUTH_ERROR 0 with writeAndGo := .closing }
  else if KEY_MAX_LENGTH < c.binaryHeader.keylen.toNat then
    handleBinaryProtocolError { c with noreply := true }
  else
    let c := match quietOf c.cmd with
      | some cmd => { c with noreply := true, cmd := cmd }
      | none => { c with noreply := false }
    (dispatchBinOpcode cfg c).getD (handleBinaryProtocolError c)

/-- `complete_nread_binary`; `none` where there is no item, no room for the value or no
such substate. -/
def completeNreadBinary (c : Conn) (g : Globals) : Option (Conn × Globals) :=
  match c.substate with
  | .readingSetHeader =>
    if c.cmd = CMD_APPEND ∨ c.cmd = CMD_PREPEND then processBinAppendPrepend cfg env c g
    else processBinUpdate cfg env c g
  | .readSetValue => completeUpdateBin cfg env c g
  | .readingGetKey => some (processBinGet cfg c g)
  | .readingTouchKey => some (processBinTouch cfg c g)
  | .readingStat => some (processBinStat env c g)
  | .readingDelHeader => some (processBinDelete cfg c g)
  | .readingIncrHeader => some (completeIncrBin cfg env c g)
  | .readFlushExptime => some (processBinFlush cfg c g)
  | .readingSaslAuth => processBinSaslAuth cfg env c g
  | .readingSaslAuthData => processBinCompleteSaslAuth cfg c g
  | .noState => none

end RamCube
