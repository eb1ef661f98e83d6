import RamCube.Server.Conn

/-! # The text protocol (memcached.c, ramcube.c)

`processCommand` runs a command line and `completeNreadAscii` a storage command whose
data block has been read. Both return `none` where the source runs over a buffer or
follows a null pointer. -/
namespace RamCube

variable (cfg : Config) (env : Env)

/-- `set_noreply_maybe` of a line with a word. -/
def setNoreplyMaybe (c : Conn) (t : Tokens) : Conn :=
  if t.value (t.tokens.length - 1) = ascii "noreply" then { c with noreply := true } else c

def badFormat : Bytes := ascii "CLIENT_ERROR bad command line format"

/-! ## Retrieval -/

/-- The words of a line: `process_get_command` goes on with the rest of it when it has
used up the array of tokens. -/
def lineTokens : Nat → Tokens → List Bytes
  | 0, t => t.tokens
  | fuel + 1, t => t.tokens ++ match t.rest with
    | none => []
    | some command => lineTokens fuel (tokenizeCommand command)

/-- What is written for an item: the line, its suffix or its `cas` unique, the data. -/
def valueResponse (returnCas : Bool) (it : Item) : Bytes :=
  ascii "VALUE " ++ itemKey it ++
    (if returnCas then
      (itemSuffix it).take (it.nsuffix - 2) ++ ascii " " ++ decimal (itemGetCas it).toNat ++ [CR, LF]
    else itemSuffix it) ++ itemData it

/-- The loop of `process_get_command`; `i` items are in `ilist` so far. -/
def processGetKeys (returnCas : Bool) : List Bytes → Nat → Bytes → Conn → Globals → Conn × Globals
  | [], i, out, c, g =>
    ({ c with icurr := 0, ileft := i, out := out ++ ascii "END" ++ [CR, LF], state := .mwrite }, g)
  | key :: keys, i, out, c, g =>
    -- the items found so far are not recorded for the output
    if KEY_MAX_LENGTH < key.length then (outString c badFormat, g)
    else match getItem cfg.toSettings g.store key with
      | (s, none) => processGetKeys returnCas keys i out c { g with store := s }
      | (s, some it) =>
        processGetKeys returnCas keys (i + 1) (out ++ valueResponse returnCas (s.mem it))
          { c with ilist := Function.update c.ilist i it } { g with store := s }

def processGetCommand (c : Conn) (g : Globals) (t : Tokens) (returnCas : Bool) : Conn × Globals :=
  let fuel := (t.rest.getD []).length
  processGetKeys cfg returnCas ((lineTokens fuel t).drop 1) 0 [] c g

/-! ## Storage -/

/-- The flags, the expiry time and the number of bytes of a storage command. -/
def updateArgs (t : Tokens) : Scanned ((UInt32 × Int) × Int) :=
  ((safeStrtoul (t.value 2)).and (safeStrtol (t.value 3))).and (safeStrtol (t.value 4))

/-- `process_update_command` with its arguments at hand; `vlen` counts the line end. -/
def startUpdate (c : Conn) (g : Globals) (comm : NRead) (key : Bytes) (flags exptime vlen : Int)
    (reqCas : UInt64) : Conn × Globals :=
  match processUpdate cfg.toSettings (env.alloc g.store) g.store comm key flags
      (realtime cfg.processStarted g.store exptime) vlen.toNat reqCas with
  | (s, none) =>
    let c := outString c (if itemSizeOk cfg.toSettings key.length flags vlen
      then ascii "SERVER_ERROR out of memory storing object"
      else ascii "SERVER_ERROR object too large for cache")
    ({ c with writeAndGo := .swallow, sbytes := vlen }, { g with store := s })
  | (s, some it) =>
    ({ c with
      item := some it
      ritem := .item it 0
      rlbytes := (s.mem it).nbytes
      cmd := comm.num
      state := .nread }, { g with store := s })

def processUpdateCommand (c : Conn) (g : Globals) (t : Tokens) (comm : NRead) (handleCas : Bool) :
    Conn × Globals :=
  let c := setNoreplyMaybe c t
  let key := t.value 1
  if KEY_MAX_LENGTH < key.length then (outString c badFormat, g)
  else
    let args := updateArgs t
    let g := { g with erange := args.erange }
    match args with
    | .ok ((flags, exptimeInt), n) =>
      let exptime := if exptimeInt < 0 then REALTIME_MAXDELTA + 1 else exptimeInt
      let reqCas := if handleCas then scanStrtoull (t.value 5) else .ok 0
      let g := if handleCas then { g with erange := reqCas.erange } else g
      match reqCas with
      | .ok reqCas =>
        let vlen := asInt (n + 2)
        if vlen < 0 ∨ asInt (vlen - 2) < 0 then (outString c badFormat, g)
        else startUpdate cfg env c g comm key (asInt flags.toNat) exptime vlen reqCas
      | _ => (outString c badFormat, g)
    | _ => (outString c badFormat, g)

/-! ## The other commands on items -/

def processTouchCommand (c : Conn) (g : Globals) (t : Tokens) : Conn × Globals :=
  let c := setNoreplyMaybe c t
  let key := t.value 1
  if KEY_MAX_LENGTH < key.length then (outString c badFormat, g)
  else
    let exptime := safeStrtol (t.value 2)
    let g := { g with erange := exptime.erange }
    match exptime with
    | .ok exptime =>
      match touchItem cfg.toSettings g.store key (realtime cfg.processStarted g.store exptime) with
      | (s, none) => (outString c (ascii "NOT_FOUND"), { g with store := s })
      | (s, some it) =>
        (outString c (ascii "TOUCHED"), { g with store := doItemRemove cfg.toSettings s it })
    | _ => (outString c (ascii "CLIENT_ERROR invalid exptime argument"), g)

/-- What `add_delta` leaves in `errno`, if it reads a number. -/
def deltaErange (cfg : Settings) (s : Store) (key : Bytes) (cas : UInt64) (erange : Bool) : Bool :=
  match doItemGet cfg s key (cfg.hash key) with
  | (_, none) => erange
  | (s, some it) =>
    if cas ≠ 0 ∧ itemGetCas (s.mem it) ≠ cas then erange
    else strtoulErange (dataString cfg (s.mem it))

/-- `add_delta` -/
def addDelta (g : Globals) (key : Bytes) (incr : Bool) (delta cas : UInt64) : Globals × DeltaResult :=
  let (s, r) := doAddDelta cfg.toSettings (env.alloc g.store) g.store key incr delta cas (cfg.hash key)
  ({ g with store := s, erange := deltaErange cfg.toSettings g.store key cas g.erange }, r)

def processArithmeticCommand (c : Conn) (g : Globals) (t : Tokens) (incr : Bool) : Conn × Globals :=
  let c := setNoreplyMaybe c t
  let key := t.value 1
  if KEY_MAX_LENGTH < key.length then (outString c badFormat, g)
  else
    let delta := scanStrtoull (t.value 2)
    let g := { g with erange := delta.erange }
    match delta with
    | .ok delta =>
      let (g, r) := addDelta cfg env g key incr delta 0
      match r.result with
      | .OK => (outString c r.buf, g)
      | .NON_NUMERIC =>
        (outString c (ascii "CLIENT_ERROR cannot increment or decrement non-numeric value"), g)
      | .EOM => (outString c (ascii "SERVER_ERROR out of memory"), g)
      | .DELTA_ITEM_NOT_FOUND => (outString c (ascii "NOT_FOUND"), g)
      | .DELTA_ITEM_CAS_MISMATCH => (c, g)
    | _ => (outString c (ascii "CLIENT_ERROR invalid numeric delta argument"), g)

def processDeleteCommand (c : Conn) (g : Globals) (t : Tokens) : Conn × Globals :=
  let holdIsZero := t.value 2 = ascii "0"
  let c := if 3 < t.ntokens then setNoreplyMaybe c t else c
  let setsNoreply := c.noreply = true
  if 3 < t.ntokens ∧ ¬(t.ntokens = 4 ∧ (holdIsZero ∨ setsNoreply) ∨
      t.ntokens = 5 ∧ holdIsZero ∧ setsNoreply) then
    (outString c (ascii "CLIENT_ERROR bad command line format.  Usage: delete <key> [noreply]"), g)
  else
    let key := t.value 1
    if KEY_MAX_LENGTH < key.length then (outString c badFormat, g)
    else match deleteItem cfg.toSettings g.store key 0 with
      | (s, none) => (outString c (ascii "NOT_FOUND"), { g with store := s })
      | (s, some _) => (outString c (ascii "DELETED"), { g with store := s })

/-! ## The commands on the server -/

def MAX_VERBOSITY_LEVEL : Nat := 2

def processVerbosityCommand (c : Conn) (g : Globals) (t : Tokens) : Conn × Globals :=
  let c := setNoreplyMaybe c t
  let level := (strtoul (t.value 1)).toUInt32.toNat
  (outString c (ascii "OK"), { g with
    erange := g.erange || strtoulErange (t.value 1)
    verbose := min level MAX_VERBOSITY_LEVEL })

def processSlabsAutomoveCommand (c : Conn) (g : Globals) (t : Tokens) : Conn × Globals :=
  let c := setNoreplyMaybe c t
  let level := (strtoul (t.value 2)).toUInt32.toNat
  let g := { g with erange := g.erange || strtoulErange (t.value 2) }
  if level ≤ 2 then (outString c (ascii "OK"), { g with slabAutomove := level })
  else (outString c (ascii "ERROR"), g)

def processSlabsReassign (c : Conn) (g : Globals) (t : Tokens) : Conn × Globals :=
  if cfg.slabReassign = false then (outString c (ascii "CLIENT_ERROR slab reassignment disabled"), g)
  else
    let src := asInt (strtolClamped (t.value 2))
    let dst := asInt (strtolClamped (t.value 3))
    let g := { g with
      erange := g.erange || strtolErange (t.value 2) || strtolErange (t.value 3) }
    if g.erange then (outString c badFormat, g)
    else match env.slabsReassign src dst with
      | .OK => (outString c (ascii "OK"), g)
      | .RUNNING => (outString c (ascii "BUSY currently processing reassign request"), g)
      | .BADCLASS => (outString c (ascii "BADCLASS invalid src or dst class id"), g)
      | .NOSPARE => (outString c (ascii "NOSPARE source class has no spare pages"), g)
      | .SRC_DST_SAME => (outString c (ascii "SAME src and dst class are identical"), g)

def processSlabsCommand (c : Conn) (g : Globals) (t : Tokens) : Conn × Globals :=
  if t.ntokens = 5 ∧ t.value 1 = ascii "reassign" then processSlabsReassign cfg env c g t
  else if t.ntokens = 4 ∧ t.value 1 = ascii "automove" then processSlabsAutomoveCommand c g t
  else (outString c (ascii "ERROR"), g)

/-- `process_stats_detail` -/
def processStatsDetail (c : Conn) (g : Globals) (command : Bytes) : Conn × Globals :=
  if command = ascii "on" then (outString c (ascii "OK"), { g with detailEnabled := true })
  else if command = ascii "off" then (outString c (ascii "OK"), { g with detailEnabled := false })
  else if command = ascii "dump" then (writeAndFree c env.stats, g)
  else (outString c (ascii "CLIENT_ERROR usage: stats detail on|off|dump"), g)

/-- `POWER_LARGEST` as a bound on the argument of a cache dump. -/
def processStatsCachedump (c : Conn) (g : Globals) (t : Tokens) : Conn × Globals :=
  if t.ntokens < 5 then (outString c (ascii "CLIENT_ERROR bad command line"), g)
  else
    let args := (safeStrtoul (t.value 2)).and (safeStrtoul (t.value 3))
    let g := { g with erange := args.erange }
    match args with
    | .ok (id, _) =>
      if LARGEST_ID ≤ id.toNat then (outString c (ascii "CLIENT_ERROR Illegal slab id"), g)
      else (writeAndFree c env.stats, g)
    | _ => (outString c badFormat, g)

/-- The statistics `get_stats` knows by name. -/
def statTypes : List Bytes := [ascii "items", ascii "slabs", ascii "sizes"]

instance (key : Bytes) : Decidable (key ∈ statTypes) := inferInstanceAs (Decidable (key ∈ [_, _, _]))

def processStat (c : Conn) (g : Globals) (t : Tokens) : Conn × Globals :=
  let subcommand := t.value 1
  if t.ntokens = 2 then (writeAndFree c env.stats, g)
  else if subcommand = ascii "reset" then (outString c (ascii "RESET"), g)
  else if subcommand = ascii "detail" then
    processStatsDetail env c g (if t.ntokens < 4 then [] else t.value 2)
  else if subcommand = ascii "settings" then (writeAndFree c env.stats, g)
  else if subcommand = ascii "cachedump" then processStatsCachedump env c g t
  else if subcommand ∈ statTypes then (writeAndFree c env.stats, g)
  else (outString c (ascii "ERROR"), g)

/-- The branch of `flush_all`. With a noreply flag left over from before, the line may
have no number where one is looked for. -/
def processFlushAll (c : Conn) (g : Globals) (t : Tokens) : Option (Conn × Globals) :=
  let c := setNoreplyMaybe c t
  if t.ntokens = (if c.noreply then 3 else 2) then
    some (outString c (ascii "OK"),
      { g with store := flushAll cfg.toSettings cfg.processStarted g.store 0 })
  else if t.ntokens = 2 then none
  else
    let exptime := strtolClamped (t.value 1)
    let g := { g with erange := g.erange || strtolErange (t.value 1) }
    if g.erange then some (outString c badFormat, g)
    else some (outString c (ascii "OK"),
      { g with store := flushAll cfg.toSettings cfg.processStarted g.store exptime })

/-! ## Commands between nodes -/

/-- What `process_command_TYPE` does to the role of the connection. -/
def typeOf (c : Conn) (subcomm : Bytes) : ProxyType :=
  if subcomm = ascii "DATA" then .DATA_SERVER
  else if subcomm = ascii "RECOVERY" then .RECOVERY_SERVER
  else if subcomm = ascii "BACKUP" then .BACKUP_SERVER
  else if subcomm = ascii "PING" then .PING_SERVER
  else if subcomm = ascii "COORDINATOR" then .COORDINATOR_SERVER
  else c.mType

/-- `ramcube_process_commands`: the connection, the backup and the number returned. What
HEARTBEAT, CRASH and CRASHED do to other connections is not part of this state. -/
def ramcubeProcessCommands (c : Conn) (g : Globals) (t : Tokens) (leftCom : Bytes) :
    Option (Conn × Globals × Int) :=
  let comm := t.value 0
  if t.ntokens = 4 ∧ comm = ascii "TYPE" ∧ c.mType = .DATA_SERVER then
    some ({ c with mType := typeOf c (t.value 1) }, g, 0)
  else if t.ntokens = 3 ∧ comm = ascii "BACKUP_REQUEST" ∧ c.mType = .BACKUP_SERVER then
    (backupRequest env.os g.backup (t.value 1) leftCom).map fun (b, text) =>
      (outString { c with dataConnPtr := strtol (t.value 1) } text, { g with backup := b }, 1)
  else if t.ntokens = 3 ∧ comm = ascii "RECOVERY_REQUEST" ∧ c.mType = .RECOVERY_SERVER then
    some (c, g, 2)
  else if t.ntokens = 2 ∧ comm ∈ [ascii "HEARTBEAT", ascii "CRASH", ascii "CRASHED"] then
    some (c, g, 1)
  else if t.ntokens = 3 ∧ comm = ascii "DATA_REQUEST" then
    some (outString c (ascii "DATA_REPLAY \r\n" ++ env.dataReplay), g, 1)
  else some (c, g, -1)

/-- The last branch of `process_command`. -/
def processOther (c : Conn) (g : Globals) (t : Tokens) (leftCom : Bytes) :
    Option (Conn × Globals × Int) :=
  if cfg.ramcubeMode then
    (ramcubeProcessCommands env c g t leftCom).map fun (c, g, rtn) =>
      if rtn = 0 then ({ c with state := .newCmd }, g, 0)
      else if rtn = 1 ∨ rtn = 2 then (c, g, rtn)
      else (outString c (ascii "ERROR"), g, 0)
  else some (outString c (ascii "ERROR"), g, 0)

/-! ## A command line -/

/-- The handler that the words of a line choose. -/
inductive Handler where
  | get (returnCas : Bool)
  | update (comm : NRead) (handleCas : Bool)
  | arithmetic (incr : Bool)
  | delete
  | touch
  | stats
  | flushAll
  | version
  | quit
  | slabs
  | verbosity
  | other
deriving DecidableEq

/-- The storage commands without a `cas` unique. -/
def updateComm (word : Bytes) : Option NRead :=
  if word = ascii "add" then some .add
  else if word = ascii "set" then some .set
  else if word = ascii "replace" then some .replace
  else if word = ascii "prepend" then some .prepend
  else if word = ascii "append" then some .append
  else none

/-- The conditions of `process_command`, in their order. -/
def handlerOf (t : Tokens) : Handler :=
  let n := t.ntokens
  let word := t.value 0
  if 3 ≤ n ∧ (word = ascii "get" ∨ word = ascii "bget") then .get false
  else match (if n = 6 ∨ n = 7 then updateComm word else none) with
  | some comm => .update comm false
  | none =>
    if (n = 7 ∨ n = 8) ∧ word = ascii "cas" then .update .cas true
    else if (n = 4 ∨ n = 5) ∧ word = ascii "incr" then .arithmetic true
    else if 3 ≤ n ∧ word = ascii "gets" then .get true
    else if (n = 4 ∨ n = 5) ∧ word = ascii "decr" then .arithmetic false
    else if 3 ≤ n ∧ n ≤ 5 ∧ word = ascii "delete" then .delete
    else if (n = 4 ∨ n = 5) ∧ word = ascii "touch" then .touch
    else if 2 ≤ n ∧ word = ascii "stats" then .stats
    else if 2 ≤ n ∧ n ≤ 4 ∧ word = ascii "flush_all" then .flushAll
    else if n = 2 ∧ word = ascii "version" then .version
    else if n = 2 ∧ word = ascii "quit" then .quit
    else if 1 < n ∧ word = ascii "slabs" then .slabs
    else if (n = 3 ∨ n = 4) ∧ word = ascii "verbosity" then .verbosity
    else .other

/-- A handler that returns 0. -/
def returnZero (r : Conn × Globals) : Option (Conn × Globals × Int) := some (r.1, r.2, 0)

/-- `process_command` of a C string, with the C string behind its line. -/
def processCommand (c : Conn) (g : Globals) (command leftCom : Bytes) :
    Option (Conn × Globals × Int) :=
  let t := tokenizeCommand command
  match handlerOf t with
  | .get returnCas => returnZero (processGetCommand cfg c g t returnCas)
  | .update comm handleCas => returnZero (processUpdateCommand cfg env c g t comm handleCas)
  | .arithmetic incr => returnZero (processArithmeticCommand cfg env c g t incr)
  | .delete => returnZero (processDeleteCommand cfg c g t)
  | .touch => returnZero (processTouchCommand cfg c g t)
  | .stats => returnZero (processStat env c g t)
  | .flushAll => (processFlushAll cfg c g t).bind returnZero
  | .version => returnZero (outString c (ascii "VERSION 1.4.15"), g)
  | .quit => returnZero ({ c with state := .closing }, g)
  | .slabs => returnZero (processSlabsCommand cfg env c g t)
  | .verbosity => returnZero (processVerbosityCommand c g t)
  | .other => processOther cfg env c g t leftCom

/-! ## A data block -/

/-- `ITEM_key` read as a C string: the key, and what follows it in the chunk up to the
first NUL. -/
def keyString (cfg : Settings) (it : Item) : Bytes :=
  (slice it.bytes 0 (chunkRoom cfg it)).takeWhile (· ≠ 0)

/-- `ramcube_post_set_data`: the record of the item in `c->item` goes to the backup of
its key, or a backup answers for the connection of the primary. -/
def ramcubePostSetData (rc : Ramcube) (c : Conn) (g : Globals) (it : Ptr) : Option (Globals × Int) :=
  match c.mType with
  | .DATA_SERVER | .RECOVERY_SERVER =>
    match getBackupProxyByKey rc.backups cfg.hash (g.store.key it) with
    | none => some (g, 0)
    | some i => do
      let i' := g.store.mem it
      let (dataConnPtr, leftCom) ← sendUnitToBackup rc.me (keyString cfg.toSettings i')
        (dataString cfg.toSettings i') i'.nbytes c.addr
      let text := ascii "BACKUP_REQUEST " ++ dataConnPtr ++ [CR, LF] ++ leftCom
      some ({ g with requests := g.requests ++ [(i.val, text)] }, 0)
  | .BACKUP_SERVER => some (g, c.dataConnPtr)
  | _ => some (g, -1)

/-- The reply to a storage command whose data block is in order. -/
def storeReply (c : Conn) (g : Globals) (it : Ptr) (ret : StoreItemType) : Option (Conn × Globals) :=
  match ret with
  | .STORED =>
    match cfg.ramcube with
    | none => some (outString c (ascii "STORED"), g)
    | some rc =>
      (ramcubePostSetData cfg rc c g it).map fun (g, rtn) =>
        if rtn = 0 then ({ c with state := .newCmd }, g)
        else (outString c (ascii "BACKUP_REPLY " ++ decimal (rtn % 2 ^ 64).toNat), g)
  | .EXISTS => some (outString c (ascii "EXISTS"), g)
  | .NOT_FOUND => some (outString c (ascii "NOT_FOUND"), g)
  | .NOT_STORED => some (outString c (ascii "NOT_STORED"), g)

/-- `store_item`, which leaves the `cas` unique of what it stored in the connection. -/
def storeItem (c : Conn) (g : Globals) (it : Ptr) (comm : NRead) : Conn × Globals × StoreItemType :=
  let (s, ret, stored) :=
    doStoreItem cfg.toSettings (env.alloc g.store) g.store it comm (cfg.hash (g.store.key it))
  ({ c with cas := if ret = .STORED then itemGetCas (s.mem stored) else c.cas },
    { g with store := s }, ret)

/-- The data block ends in CR LF. -/
def dataEnds (it : Item) : Bool :=
  slice it.bytes (itemDataOff it + it.nbytes - 2) 2 == [CR, LF]

/-- The item of a data block is stored, if the block is in order. -/
def storeBlock (c : Conn) (g : Globals) (it : Ptr) : Option (Conn × Globals) :=
  if dataEnds (g.store.mem it) then
    (nreadOfCmd c.cmd).bind fun comm =>
      let (c, g, ret) := storeItem cfg env c g it comm
      storeReply cfg c g it ret
  else some (outString c (ascii "CLIENT_ERROR bad data chunk"), g)

/-- `complete_nread_ascii` -/
def completeNreadAscii (c : Conn) (g : Globals) : Option (Conn × Globals) := do
  let it ← c.item
  let (c, g) ← storeBlock cfg env c g it
  some ({ c with item := none }, { g with store := doItemRemove cfg.toSettings g.store it })

end RamCube
