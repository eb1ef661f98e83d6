import RamCube.Lib.Run
import RamCube.Server.Binary

/-! # The state machine of a connection (memcached.c)

One turn of the loop of `drive_machine`, in the state the connection is in, with the
result of the system call it makes. `none` is what the source leaves undefined. A
session keeps what came in and went out and what was executed, for what is said about
runs; the code does not read these. -/
namespace RamCube

variable (cfg : Config) (env : Env)

/-! ## Reading commands -/

/-- The size of a request header. -/
def HEADER_SIZE : Nat := 24

def parseHeader (bs : Bytes) : BinaryHeader where
  magic := bs.getD 0 0
  opcode := bs.getD 1 0
  keylen := UInt16.ofNat (readBigEndian ((bs.drop 2).take 2))
  extlen := bs.getD 4 0
  bodylen := UInt32.ofNat (readBigEndian ((bs.drop 8).take 4))
  reqOpaque := UInt32.ofNat (readBigEndian ((bs.drop 12).take 4))
  cas := UInt64.ofNat (readBigEndian ((bs.drop 16).take 8))

/-- What a turn executed: a command line, a request, or the bytes it then waited for. -/
inductive Executed where
  | line (command : Bytes)
  | request (header : BinaryHeader)
  | block (data : Bytes)
deriving DecidableEq

/-- What `try_read_command` did: it needs more data, or it went on, with a command or
without. -/
structure Parsed where
  c : Conn
  g : Globals
  more : Bool
  executed : List Executed

/-- The request at the start of the read buffer, made the current one. -/
def startRequest (c : Conn) (h : BinaryHeader) : Conn :=
  { c with
    binaryHeader := h
    out := []
    cmd := h.opcode.toNat
    keylen := h.keylen.toNat
    reqOpaque := h.reqOpaque
    cas := 0 }

/-- The binary branch of `try_read_command`. -/
def tryReadBinary (c : Conn) (g : Globals) : Parsed :=
  if c.rbuf.length < HEADER_SIZE then ⟨c, g, true, []⟩
  else
    let h := parseHeader (c.rbuf.take HEADER_SIZE)
    if h.magic ≠ 0x80 then ⟨{ c with binaryHeader := h, state := .closing }, g, false, []⟩
    else
      let c := dispatchBinCommand cfg (startRequest c h)
      ⟨{ c with rbuf := c.rbuf.drop HEADER_SIZE }, g, false, [.request h]⟩

/-- A long text without a line end may go on if it is a retrieval. -/
def largeMultiget (rcurr : Bytes) : Bool :=
  let ptr := rcurr.dropWhile (· == space)
  rcurr.length - ptr.length ≤ 100 && (ptr.take 4 == ascii "get " || ptr.take 5 == ascii "gets ")

/-- The text branch of `try_read_command`. -/
def tryReadAscii (c : Conn) (g : Globals) : Option Parsed :=
  match c.rbuf.dropWhile (· != LF) with
  | [] =>
    if 1024 < c.rbuf.length ∧ largeMultiget c.rbuf = false then
      some ⟨{ c with state := .closing }, g, false, []⟩
    else some ⟨c, g, true, []⟩
  | _ :: cont =>
    let command := cText (chopLine (c.rbuf.takeWhile (· != LF)))
    (processCommand cfg env { c with out := [] } g command (cText cont)).map fun (c, g, rtn) =>
      ⟨{ c with rbuf := if rtn = 1 then [] else cont }, g, false, [.line command]⟩

/-- The protocol of a connection that has not settled on one, and of every packet. -/
def negotiate (c : Conn) : Conn :=
  if c.protocol = .negotiating ∨ c.transport = .udp then
    { c with protocol := if c.rbuf0 = 0x80 then .binary else .ascii }
  else c

/-- `try_read_command` -/
def tryReadCommand (c : Conn) (g : Globals) : Option Parsed :=
  let c := negotiate c
  if c.protocol = .binary then some (tryReadBinary cfg c g) else tryReadAscii cfg env c g

/-- `try_read_udp` of a datagram, and the state that follows. -/
def tryReadUdp (c : Conn) (datagram : Bytes) : Conn :=
  if 8 < datagram.length then
    if datagram.getD 4 0 ≠ 0 ∨ datagram.getD 5 0 ≠ 1 then
      { outString c (ascii "SERVER_ERROR multi-packet request not supported") with state := .waiting }
    else { c with rbuf := datagram.drop 8, rbuf0 := datagram.getD 8 0, state := .parseCmd }
  else { c with state := .waiting }

/-- `try_read_network` of some bytes. -/
def tryReadNetwork (c : Conn) (bs : Bytes) : Conn :=
  let rbuf := c.rbuf ++ bs
  { c with rbuf := rbuf, rbuf0 := rbuf.getD 0 0, state := .parseCmd }

/-- `try_read_network` that finds no room for more. -/
def readMemoryError (c : Conn) : Conn :=
  { outString { c with rbuf := [] } (ascii "SERVER_ERROR out of memory reading request") with
    writeAndGo := .closing }

/-- Bytes that arrive in `conn_nread`. -/
def receive (c : Conn) (g : Globals) (bs : Bytes) : Conn × Globals :=
  let c := { c with rlbytes := c.rlbytes - bs.length }
  match c.ritem with
  | .packet got => ({ c with ritem := .packet (got ++ bs) }, g)
  | .item it off =>
    ({ c with ritem := .item it (off + bs.length) },
      { g with store := g.store.modify it (writeData off bs) })

/-- What `complete_nread` finds in the place it read to. -/
def receivedBlock (c : Conn) (g : Globals) : Bytes :=
  match c.ritem with
  | .packet got => got
  | .item it off => (itemData (g.store.mem it)).take off

/-- `complete_nread` -/
def completeNreadConn (c : Conn) (g : Globals) : Option (Conn × Globals) :=
  if c.protocol = .binary then completeNreadBinary cfg env c g else completeNreadAscii cfg env c g

/-! ## Sessions -/

/-- `conn_new` of a structure that was not used before. -/
def connNew (cfg : Config) (addr : Nat) (initState : ConnState) (transport : Transport) : Conn where
  addr := addr
  transport := transport
  protocol := cfg.bindingProtocol
  state := initState
  substate := .noState
  writeAndGo := initState
  rbuf := []
  rbuf0 := 0
  ritem := .packet []
  rlbytes := 0
  item := none
  sbytes := 0
  ilist := fun _ => 0
  icurr := 0
  ileft := 0
  out := []
  noreply := false
  binaryHeader := parseHeader []
  cas := 0
  cmd := -1
  keylen := 0
  reqOpaque := 0
  sasl := none
  mType := .DATA_SERVER
  dataConnPtr := 0

/-- The shared state of a server that starts. -/
def globalsInit (hashpower : Nat) : Globals where
  store := storeInit hashpower
  erange := false
  verbose := 0
  slabAutomove := 0
  detailEnabled := false
  backup := initSegmentManager []
  requests := []

structure Session where
  c : Conn
  g : Globals
  nreqs : Int
  /-- `drive_machine` has returned. -/
  stop : Bool
  input : Bytes
  sent : Bytes
  executed : List Executed

/-- A connection that waits for its first event. -/
def connSession (c : Conn) (g : Globals) : Session := ⟨c, g, 0, true, [], [], []⟩

/-- What happens in a turn: libevent calls `drive_machine`, or a turn of it makes no
system call, or a call with this result: the bytes of `read` or `recvfrom`, none of
them at the end of the stream, and how many `sendmsg` took. -/
inductive Input where
  | event
  | go
  | data (bs : Bytes)
  | wrote (n : Nat)
  | again
  | error
  | noMemory
  | eventFailed
deriving DecidableEq

namespace Session

variable (s : Session)

def setState (state : ConnState) : Session := { s with c := { s.c with state := state } }

/-- A call that failed sets `errno`. -/
def clearErange : Session := { s with g := { s.g with erange := false } }

def newCmdTurn : Input → Option Session
  | .go =>
    let nreqs := s.nreqs - 1
    if 0 ≤ nreqs then
      let (c, g) := resetCmdHandler cfg.toSettings s.c s.g
      some { s with c := c, g := g, nreqs := nreqs }
    else some { s with nreqs := nreqs, stop := true }
  | .eventFailed => if s.nreqs - 1 < 0 ∧ s.c.rbuf ≠ [] then some { s.setState .closing with stop := true } else some s
  | _ => some s

def waitingTurn : Input → Option Session
  | .go => some { s.setState .read with stop := true }
  | .eventFailed => some (s.setState .closing)
  | _ => some s

/-- The turn of `conn_read`. What comes over TCP is what one call of `try_read_network` has read,
which reads on where `read` fills the buffer. -/
def readTurn : Input → Option Session
  | .data bs =>
    if s.c.transport = .udp then some { s with c := tryReadUdp s.c bs, input := s.input ++ bs }
    else if bs = [] then some (s.setState .closing)
    else some { s with c := tryReadNetwork s.c bs, input := s.input ++ bs }
  | .again => some (s.clearErange.setState .waiting)
  | .error => some (s.clearErange.setState (if s.c.transport = .udp then .waiting else .closing))
  | .noMemory => if s.c.transport = .udp then some s else some { s with c := readMemoryError s.c }
  | _ => some s

def parseTurn : Input → Option Session
  | .go => (tryReadCommand cfg env s.c s.g).map fun p =>
    { s with
      c := if p.more then { p.c with state := .waiting } else p.c
      g := p.g
      executed := s.executed ++ p.executed }
  | _ => some s

/-- The turn of `conn_nread`. A negative count is taken for a huge one. -/
def nreadTurn : Input → Option Session
  | .go =>
    if s.c.rlbytes = 0 then
      (completeNreadConn cfg env s.c s.g).map fun (c, g) =>
        { s with c := c, g := g, executed := s.executed ++ [.block (receivedBlock s.c s.g)] }
    else if s.c.rbuf = [] then some s
    else if s.c.rlbytes < 0 then none
    else
      let tocopy := s.c.rlbytes.toNat
      let (c, g) := receive s.c s.g (s.c.rbuf.take tocopy)
      some { s with c := { c with rbuf := s.c.rbuf.drop tocopy }, g := g }
  | .data bs =>
    if s.c.rlbytes = 0 ∨ s.c.rbuf ≠ [] then some s
    else if bs = [] then some (s.setState .closing)
    else if s.c.rlbytes < 0 then none
    else if s.c.rlbytes < bs.length then some s
    else
      let (c, g) := receive s.c s.g bs
      some { s with c := c, g := g, input := s.input ++ bs }
  | .again => if s.c.rlbytes = 0 ∨ s.c.rbuf ≠ [] then some s else some { s.clearErange with stop := true }
  | .error => if s.c.rlbytes = 0 ∨ s.c.rbuf ≠ [] then some s else some (s.clearErange.setState .closing)
  | .eventFailed => if s.c.rlbytes = 0 ∨ s.c.rbuf ≠ [] then some s else some (s.setState .closing)
  | _ => some s

/-- The turn of `conn_swallow`. -/
def swallowTurn : Input → Option Session
  | .go =>
    if s.c.sbytes = 0 then some (s.setState .newCmd)
    else if s.c.rbuf = [] then some s
    else if s.c.sbytes < 0 then none
    else
      let tocopy := s.c.sbytes.toNat
      let taken := (s.c.rbuf.take tocopy).length
      some { s with c := { s.c with sbytes := s.c.sbytes - taken, rbuf := s.c.rbuf.drop tocopy } }
  | .data bs =>
    if s.c.sbytes = 0 ∨ s.c.rbuf ≠ [] then some s
    else if bs = [] then some (s.setState .closing)
    else if s.c.sbytes < 0 then none
    else if s.c.sbytes < bs.length then some s
    else some { s with c := { s.c with sbytes := s.c.sbytes - bs.length }, input := s.input ++ bs }
  | .again => if s.c.sbytes = 0 ∨ s.c.rbuf ≠ [] then some s else some { s.clearErange with stop := true }
  | .error => if s.c.sbytes = 0 ∨ s.c.rbuf ≠ [] then some s else some (s.clearErange.setState .closing)
  | .eventFailed => if s.c.sbytes = 0 ∨ s.c.rbuf ≠ [] then some s else some (s.setState .closing)
  | _ => some s

/-- All of a response is sent. -/
def transmitComplete : Session :=
  if s.c.state = .mwrite then
    let (c, g) := s.c.dropIlist cfg.toSettings s.g
    { s with c := { c with state := if c.protocol = .binary then c.writeAndGo else .newCmd }, g := g }
  else s.setState s.c.writeAndGo

/-- The turn of `conn_write` and `conn_mwrite`. -/
def writeTurn : Input → Option Session
  | .go => if s.c.out = [] then some (s.transmitComplete cfg) else some s
  | .wrote n =>
    if s.c.out.length < n then some s
    else some { s with c := { s.c with out := s.c.out.drop n }, sent := s.sent ++ s.c.out.take n }
  | .again => if s.c.out = [] then some s else some { s.clearErange with stop := true }
  | .eventFailed => if s.c.out = [] then some s else some (s.setState .closing)
  | .error =>
    if s.c.out = [] then some s
    else some (s.clearErange.setState (if s.c.transport = .udp then .read else .closing))
  | _ => some s

def closingTurn : Input → Option Session
  | .go =>
    let (c, g) := if s.c.transport = .udp then connCleanup cfg.toSettings s.c s.g
      else connClose cfg.toSettings s.c s.g
    some { s with c := c, g := g, stop := true }
  | _ => some s

/-- The turns of `drive_machine`. What does not apply in a state changes nothing. -/
def turn (inp : Input) : Option Session :=
  if s.stop then
    match inp with
    | .event => some { s with stop := false, nreqs := cfg.reqsPerEvent }
    | _ => some s
  else match s.c.state with
    | .newCmd => s.newCmdTurn cfg inp
    | .waiting => s.waitingTurn inp
    | .read => s.readTurn inp
    | .parseCmd => s.parseTurn cfg env inp
    | .nread => s.nreadTurn cfg env inp
    | .swallow => s.swallowTurn inp
    | .write | .mwrite => s.writeTurn cfg inp
    | .closing => s.closingTurn cfg inp
    | .closed => some s

/-- How much of the stream is behind the connection. -/
def position : Int := s.input.length - s.c.rbuf.length

end Session

/-- A server with one slab class, for concrete runs. -/
def smallServer : Config :=
  { oneClass with
    processStarted := 0
    bindingProtocol := .negotiating
    sasl := false
    saslLib := ⟨true, fun _ => none, fun _ _ => .FAIL, fun _ => false⟩
    slabReassign := false
    reqsPerEvent := 20
    ramcube := none }

/-- A TCP connection of it that has read `bs`. -/
def hasRead (bs : Bytes) : Session :=
  { connSession (tryReadNetwork (connNew smallServer 4096 .read .tcp) bs) (globalsInit 16) with
    stop := false
    nreqs := 20
    input := bs }

end RamCube
