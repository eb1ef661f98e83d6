import RamCube.Server.Text
import RamCube.Backup.Protocol

/-! # A connection and what it writes (memcached.c)

`Conn` is the state of one connection and `Globals` what all of them share. A response
is the list of bytes still to be sent; it is copied out of the items when it is made.
The read buffer is the list of the unread bytes in it. The buffers grow as needed. -/
namespace RamCube

/-! ## State -/

/-- `enum conn_states` of a client connection; `closed` is a connection that `conn_close`
has given up. -/
inductive ConnState where
  | newCmd
  | waiting
  | read
  | parseCmd
  | write
  | nread
  | swallow
  | closing
  | mwrite
  | closed
deriving DecidableEq

inductive BinSubstate where
  | noState
  | readingSetHeader
  | readSetValue
  | readingGetKey
  | readingStat
  | readingDelHeader
  | readingIncrHeader
  | readFlushExptime
  | readingSaslAuth
  | readingSaslAuthData
  | readingTouchKey
deriving DecidableEq

inductive Protocol where
  | ascii
  | binary
  | negotiating
deriving DecidableEq

inductive Transport where
  | local
  | tcp
  | udp
deriving DecidableEq

/-- The roles a connection that was accepted can have in ramcube. -/
inductive ProxyType where
  | DATA_SERVER
  | PING_SERVER
  | BACKUP_SERVER
  | RECOVERY_SERVER
  | COORDINATOR_SERVER
deriving DecidableEq

/-- A request header in host order. -/
structure BinaryHeader where
  magic : UInt8
  opcode : UInt8
  keylen : UInt16
  extlen : UInt8
  bodylen : UInt32
  reqOpaque : UInt32
  cas : UInt64
deriving DecidableEq

/-- Where the bytes of `conn_nread` go: behind the header in the read buffer, or to an
offset in the data of an item. -/
inductive ReadItem where
  | packet (got : Bytes)
  | item (it : Ptr) (off : Nat)
deriving DecidableEq

/-- A call on a `sasl_conn_t`. -/
inductive SaslCall where
  | start (mech challenge : Bytes)
  | step (challenge : Bytes)
deriving DecidableEq

structure Conn where
  /-- The address of this structure. -/
  addr : Nat
  transport : Transport
  protocol : Protocol
  state : ConnState
  substate : BinSubstate
  writeAndGo : ConnState
  /-- The bytes from `rcurr` on, `rbytes` of them. -/
  rbuf : Bytes
  /-- The byte at the start of the read buffer, which may have been read already. -/
  rbuf0 : UInt8
  ritem : ReadItem
  rlbytes : Int
  item : Option Ptr
  sbytes : Int
  ilist : Nat → Ptr
  icurr : Nat
  ileft : Nat
  /-- What is left to send of the messages in `msglist`. -/
  out : Bytes
  noreply : Bool
  binaryHeader : BinaryHeader
  cas : UInt64
  cmd : Int
  keylen : Nat
  reqOpaque : UInt32
  /-- The calls made on `sasl_conn`, if there is one. -/
  sasl : Option (List SaslCall)
  mType : ProxyType
  dataConnPtr : Int

/-- What the workers share. -/
structure Globals where
  store : Store
  /-- `errno == ERANGE` -/
  erange : Bool
  verbose : Nat
  slabAutomove : Nat
  detailEnabled : Bool
  backup : Backup
  /-- What was written to the connections with the backups. -/
  requests : List (Nat × Bytes)

/-- The answers of the SASL library, which may depend on all calls made on the
`sasl_conn_t` before. -/
inductive SaslResult where
  | OK
  | CONTINUE (out : Bytes)
  | FAIL
deriving DecidableEq

structure SaslLib where
  /-- `sasl_server_new` succeeds -/
  serverNew : Bool
  listmech : Option (List SaslCall) → Option Bytes
  answer : Option (List SaslCall) → SaslCall → SaslResult
  /-- `sasl_getprop(.., SASL_USERNAME, ..)` gives a name -/
  username : List SaslCall → Bool

inductive ReassignResult where
  | OK
  | RUNNING
  | BADCLASS
  | NOSPARE
  | SRC_DST_SAME
deriving DecidableEq

/-- The ramcube side of the settings: the address of this node and the number of
connections to backups. -/
structure Ramcube where
  me : Address
  backups : Nat

structure Config extends Settings where
  processStarted : Int
  bindingProtocol : Protocol
  sasl : Bool
  saslLib : SaslLib
  slabReassign : Bool
  reqsPerEvent : Int
  /-- Set by the option `-z`. -/
  ramcube : Option Ramcube

/-- What else a command meets: the free memory, the texts of statistics, the state of
the slab mover, the bytes behind the request in the read buffer, the records a
DATA_REQUEST is answered with, and the clock and the file system of a backup. -/
structure Env where
  alloc : Store → AllocEnv
  stats : Bytes
  slabsReassign : Int → Int → ReassignResult
  beyond : Bytes
  dataReplay : Bytes
  os : Os

instance : Inhabited Env :=
  ⟨⟨fun _ => ⟨fun _ => true, none⟩, [], fun _ _ => .RUNNING, [], [], ⟨0, 0, fun _ _ => true⟩⟩⟩

def Config.ramcubeMode (cfg : Config) : Bool := cfg.ramcube.isSome

/-- `item_size_ok` -/
def itemSizeOk (cfg : Settings) (nkey : Nat) (flags : Int) (nbytes : Int) : Bool :=
  0 ≤ nbytes && slabsClsid cfg.slabclass (itemMakeHeader cfg (nkey + 1) flags nbytes.toNat) != 0

/-- `item_alloc`. A negative length makes the total wrap around. If it wraps around to a
size that a class has, the chunk is smaller than what is written to it, which is undefined
here. -/
def itemAlloc (cfg : Settings) (env : AllocEnv) (s : Store) (key : Bytes) (flags : Int)
    (exptime : UInt32) (nbytes : Int) : Option (Store × Option Ptr) :=
  if 0 ≤ nbytes then some (doItemAlloc cfg env s key flags exptime nbytes.toNat 0)
  else if requestClass cfg key flags nbytes = 0 then some (s, none)
  else none

/-- `item_remove` of `c->item`, when there is one. -/
def Conn.dropItem (cfg : Settings) (c : Conn) (g : Globals) : Conn × Globals :=
  match c.item with
  | none => (c, g)
  | some it => ({ c with item := none }, { g with store := doItemRemove cfg g.store it })

/-- `item_remove` of the items in `ilist[icurr .. icurr + ileft)`. -/
def releaseIlist (cfg : Settings) (ilist : Nat → Ptr) (icurr : Nat) : Nat → Store → Store
  | 0, s => s
  | ileft + 1, s => releaseIlist cfg ilist (icurr + 1) ileft (doItemRemove cfg s (ilist icurr))

def Conn.dropIlist (cfg : Settings) (c : Conn) (g : Globals) : Conn × Globals :=
  ({ c with icurr := c.icurr + c.ileft, ileft := 0 },
    { g with store := releaseIlist cfg c.ilist c.icurr c.ileft g.store })

/-- `conn_cleanup` -/
def connCleanup (cfg : Settings) (c : Conn) (g : Globals) : Conn × Globals :=
  let (c, g) := c.dropItem cfg g
  let (c, g) := c.dropIlist cfg g
  let c := { c with sasl := none }
  (if c.transport = .udp then { c with state := .read } else c, g)

/-- `conn_close` -/
def connClose (cfg : Settings) (c : Conn) (g : Globals) : Conn × Globals :=
  let (c, g) := connCleanup cfg c g
  ({ c with state := .closed }, g)

/-- `reset_cmd_handler` -/
def resetCmdHandler (cfg : Settings) (c : Conn) (g : Globals) : Conn × Globals :=
  let (c, g) := { c with cmd := -1, substate := .noState }.dropItem cfg g
  ({ c with state := if 0 < c.rbuf.length then .parseCmd else .waiting }, g)

/-! ## Text responses -/

/-- `wsize` -/
def DATA_BUFFER_SIZE : Nat := 2048

/-- A line of at most `wsize` bytes. -/
def outLine (str : Bytes) : Bytes :=
  (if DATA_BUFFER_SIZE < str.length + 2 then ascii "SERVER_ERROR output line too long" else str) ++
    [CR, LF]

/-- `out_string` -/
def outString (c : Conn) (str : Bytes) : Conn :=
  if c.noreply then { c with noreply := false, state := .newCmd }
  else { c with out := outLine str, state := .write, writeAndGo := .newCmd }

/-- `write_and_free` of a buffer. -/
def writeAndFree (c : Conn) (buf : Bytes) : Conn :=
  { c with out := buf, state := .write, writeAndGo := .newCmd }

/-! ## Binary responses -/

/-- `protocol_binary_response_status` -/
inductive BinStatus where
  | SUCCESS
  | KEY_ENOENT
  | KEY_EEXISTS
  | E2BIG
  | EINVAL
  | NOT_STORED
  | DELTA_BADVAL
  | AUTH_ERROR
  | AUTH_CONTINUE
  | UNKNOWN_COMMAND
  | ENOMEM
deriving DecidableEq

namespace BinStatus

def code : BinStatus → Nat
  | SUCCESS => 0x00
  | KEY_ENOENT => 0x01
  | KEY_EEXISTS => 0x02
  | E2BIG => 0x03
  | EINVAL => 0x04
  | NOT_STORED => 0x05
  | DELTA_BADVAL => 0x06
  | AUTH_ERROR => 0x20
  | AUTH_CONTINUE => 0x21
  | UNKNOWN_COMMAND => 0x81
  | ENOMEM => 0x82

/-- The texts of `write_bin_error`. -/
def errstr : BinStatus → Bytes
  | ENOMEM => ascii "Out of memory"
  | UNKNOWN_COMMAND => ascii "Unknown command"
  | KEY_ENOENT => ascii "Not found"
  | EINVAL => ascii "Invalid arguments"
  | KEY_EEXISTS => ascii "Data exists for key."
  | E2BIG => ascii "Too large."
  | DELTA_BADVAL => ascii "Non-numeric server-side value for incr or decr"
  | NOT_STORED => ascii "Not stored."
  | AUTH_ERROR => ascii "Auth failure."
  | SUCCESS | AUTH_CONTINUE => ascii "UNHANDLED ERROR"

end BinStatus

/-- The `n` low bytes of a number in network order. -/
def bigEndian : Nat → Nat → Bytes
  | 0, _ => []
  | n + 1, v => UInt8.ofNat (v / 256 ^ n) :: bigEndian n v

theorem length_bigEndian (n v : Nat) : (bigEndian n v).length = n := by
  induction n with
  | zero => rfl
  | succ n ih => exact congrArg Nat.succ ih

/-- The number that bytes in network order denote. -/
def readBigEndian (bs : Bytes) : Nat := bs.foldl (fun n b => n * 256 + b.toNat) 0

/-- The header of `add_bin_header`. -/
def binHeader (c : Conn) (err : BinStatus) (hdrLen keyLen bodyLen : Nat) : Bytes :=
  [0x81, c.binaryHeader.opcode] ++ bigEndian 2 keyLen ++ [UInt8.ofNat hdrLen, 0] ++
    bigEndian 2 err.code ++ bigEndian 4 bodyLen ++ bigEndian 4 c.reqOpaque.toNat ++
    bigEndian 8 c.cas.toNat

/-- `write_bin_error` -/
def writeBinError (c : Conn) (err : BinStatus) (swallow : Int) : Conn :=
  let c := { c with
    out := binHeader c err 0 0 err.errstr.length ++ err.errstr
    state := .mwrite }
  if 0 < swallow then { c with sbytes := swallow, writeAndGo := .swallow }
  else { c with writeAndGo := .newCmd }

/-- `write_bin_error`, after which the caller has the value swallowed in any case. -/
def binErrorSwallow (c : Conn) (err : BinStatus) (vlen : Int) : Conn :=
  { writeBinError c err vlen with writeAndGo := .swallow }

def CMD_GET : Int := 0x00

def CMD_GETK : Int := 0x0c

/-- `write_bin_response` of the bytes `d`. A quiet command has no response, unless it
is a GET or GETK. -/
def writeBinResponse (c : Conn) (d : Bytes) (hlen keylen : Nat) : Conn :=
  if c.noreply = false ∨ c.cmd = CMD_GET ∨ c.cmd = CMD_GETK then
    { c with
      out := binHeader c .SUCCESS hlen keylen d.length ++ d
      state := .mwrite
      writeAndGo := .newCmd }
  else { c with state := .newCmd }

/-- A connection apart from what an answer changes. -/
def Conn.core (c : Conn) : Conn :=
  { c with
    out := []
    state := .newCmd
    writeAndGo := .newCmd
    noreply := false
    cas := 0 }

/-- A field that no answer changes. -/
theorem core_field {β : Type} (f : Conn → β) (hf : ∀ c, f c.core = f c) {c c' : Conn} (h : c'.core = c.core) :
    f c' = f c := by
  rw [← hf c', ← hf c, h]

section

variable (c : Conn)

@[simp]
theorem core_outString (str : Bytes) : (outString c str).core = c.core := by
  unfold outString
  split <;> rfl

@[simp]
theorem core_writeAndFree (buf : Bytes) : (writeAndFree c buf).core = c.core := rfl

theorem core_writeBinError (err : BinStatus) : (writeBinError c err 0).core = c.core := rfl

@[simp]
theorem core_writeBinResponse (d : Bytes) (hlen keylen : Nat) :
    (writeBinResponse c d hlen keylen).core = c.core := by
  unfold writeBinResponse
  split <;> rfl

/-- A text answer is written, or nothing is. -/
theorem outString_next (str : Bytes) : (outString c str).state = .newCmd ∨
    (outString c str).state = .write ∧ (outString c str).writeAndGo = .newCmd := by
  unfold outString
  split
  · exact .inl rfl
  · exact .inr ⟨rfl, rfl⟩

theorem writeBinResponse_next (d : Bytes) (hlen keylen : Nat) :
    (writeBinResponse c d hlen keylen).state = .newCmd ∨
      (writeBinResponse c d hlen keylen).state = .mwrite ∧
        (writeBinResponse c d hlen keylen).writeAndGo = .newCmd := by
  unfold writeBinResponse
  split
  · exact .inr ⟨rfl, rfl⟩
  · exact .inl rfl

theorem writeBinError_state (err : BinStatus) (swallow : Int) :
    (writeBinError c err swallow).state = .mwrite := by
  unfold writeBinError
  dsimp only
  split <;> rfl

theorem writeBinError_same (err : BinStatus) (swallow : Int) :
    (writeBinError c err swallow).rbuf = c.rbuf ∧
      (writeBinError c err swallow).transport = c.transport ∧
      (writeBinError c err swallow).protocol = c.protocol := by
  unfold writeBinError
  dsimp only
  split <;> exact ⟨rfl, rfl, rfl⟩

theorem writeBinError_swallow (err : BinStatus) {swallow : Int} (h : 0 < swallow) :
    (writeBinError c err swallow).writeAndGo = .swallow ∧
      (writeBinError c err swallow).sbytes = swallow := by
  simp [writeBinError, h]

theorem writeBinError_zero (err : BinStatus) {swallow : Int} (h : swallow ≤ 0) :
    (writeBinError c err swallow).writeAndGo = .newCmd ∧
      (writeBinError c err swallow).sbytes = c.sbytes := by
  simp [writeBinError, Int.not_lt.mpr h]

end

/-! ## Numbers of commands -/

/-- The numbers `NREAD_ADD` .. `NREAD_CAS`. -/
def NRead.num : NRead → Int
  | .add => 1
  | .set => 2
  | .replace => 3
  | .append => 4
  | .prepend => 5
  | .cas => 6

/-- The storage command that `c->cmd` stands for once the data block is read. -/
def nreadOfCmd (cmd : Int) : Option NRead :=
  if cmd = 1 then some .add
  else if cmd = 2 then some .set
  else if cmd = 3 then some .replace
  else if cmd = 4 then some .append
  else if cmd = 5 then some .prepend
  else if cmd = 6 then some .cas
  else none

@[simp]
theorem nreadOfCmd_num (comm : NRead) : nreadOfCmd comm.num = some comm := by
  cases comm <;> rfl

end RamCube
