import RamCube.Server.NetworkReads
import RamCube.Server.Requests

/-! # The read buffer of a connection (memcached.c)

What a connection has read and not yet taken lies in `rbuf`, from `rcurr` on. It is moved to the
start of the buffer before more is read, where the extras and the key of a request do not fit
behind its header, and where a large buffer is given back. The extras and the key are read in
place, behind the header. An access outside of `rbuf` is `none`. -/
namespace RamCube

structure ReadBuffer where
  /-- `rbuf` -/
  mem : Nat → UInt8
  /-- `rsize` -/
  size : Nat
  /-- The offset of `rcurr` in `rbuf`. Where there is none, it points to an empty string. -/
  rcurr : Option Nat
  rbytes : Nat
  /-- The offset of `ritem`, where it points into `rbuf`. -/
  ritem : Option Nat

/-- `enum try_read_result`, with the bytes that came. -/
inductive TryRead where
  | READ_DATA_RECEIVED (bs : Bytes)
  | READ_NO_DATA_RECEIVED
  | READ_ERROR (eof : Bool)
  | READ_MEMORY_ERROR

/-- What `realloc` returns: the bytes that it leaves undefined, or a null pointer. -/
abbrev Realloc := Option (Nat → UInt8)

/-- The answers to the calls of `try_read_network`, by the number of times it may still grow the buffer. -/
structure NetworkCalls where
  realloc : Nat → Realloc
  read : Nat → ReadResult

namespace ReadBuffer

variable (b : ReadBuffer)

/-! ## Memory -/

def load (off len : Nat) : Option Bytes := if off + len ≤ b.size then some (slice b.mem off len) else none

def store (off : Nat) (bs : Bytes) : Option ReadBuffer :=
  if off + bs.length ≤ b.size then some { b with mem := blit b.mem off bs } else none

def memmove (dst src len : Nat) : Option ReadBuffer := do
  b.store dst (← b.load src len)

/-- The buffer that `realloc` returns. -/
def resize (n : Nat) (undefined : Nat → UInt8) : ReadBuffer :=
  { b with mem := fun i => if i < b.size then b.mem i else undefined i, size := n }

/-- What is left moves to the start of the buffer. -/
def pack : Option ReadBuffer :=
  match b.rcurr with
  | some 0 => some b
  | some r => do
    let b ← b.memmove 0 r b.rbytes
    some { b with rcurr := some 0 }
  | none => if b.rbytes = 0 then some { b with rcurr := some 0 } else none

/-- `rcurr += n; rbytes -= n` -/
def advance (n : Nat) : ReadBuffer := { b with rcurr := b.rcurr.map (· + n), rbytes := b.rbytes - n }

/-! ## Reading from the socket -/

section

variable (calls : NetworkCalls)

/-- A pass of the loop of `try_read_network` that finds room: what is free is zeroed and read to. A full buffer
goes on with `more`. -/
def readOnce (n : Nat) (got : Bytes) (more : ReadBuffer → Bytes → Option (ReadBuffer × TryRead)) :
    Option (ReadBuffer × TryRead) := do
  let avail := b.size - b.rbytes
  let b ← b.store b.rbytes (List.replicate avail 0)
  match calls.read n with
  | .data bs =>
    let bs := bs.take avail
    if bs = [] then some (b, .READ_ERROR true)
    else
      let b ← b.store b.rbytes bs
      let b := { b with rbytes := b.rbytes + bs.length }
      if bs.length = avail then more b (got ++ bs) else some (b, .READ_DATA_RECEIVED (got ++ bs))
  | .eof => some (b, .READ_ERROR true)
  | .again => some (b, if got = [] then .READ_NO_DATA_RECEIVED else .READ_DATA_RECEIVED got)
  | .error => some (b, .READ_ERROR false)

/-- The loop where the buffer is full: it grows four times at most. The new size is an `int`. -/
def readMore : Nat → ReadBuffer → Bytes → Option (ReadBuffer × TryRead)
  | 0, b, got => some (b, if got = [] then .READ_NO_DATA_RECEIVED else .READ_DATA_RECEIVED got)
  | n + 1, b, got =>
    if 2 ^ 31 ≤ b.size * 2 then none
    else match calls.realloc n with
      | none => some ({ b with rbytes := 0 }, .READ_MEMORY_ERROR)
      | some undefined => { b.resize (b.size * 2) undefined with rcurr := some 0 }.readOnce calls n got (readMore n)

/-- `try_read_network` -/
def tryReadNetwork : Option (ReadBuffer × TryRead) := do
  let b ← b.pack
  if b.size ≤ b.rbytes then readMore calls 4 b [] else b.readOnce calls 4 [] (readMore calls 4)

end

/-- `conn_shrink` of the read buffer. -/
def connShrink (realloc : Realloc) : Option ReadBuffer :=
  if READ_BUFFER_HIGHWAT < b.size ∧ b.rbytes < DATA_BUFFER_SIZE then do
    let b ← b.pack
    match realloc with
    | some _ => some { b with size := DATA_BUFFER_SIZE }
    | none => some b
  else some b

/-! ## Taking commands -/

/-- The size of a buffer doubled while it is too small. -/
def doubled (size : Nat) : Nat → Nat → Nat
  | 0, nsize => nsize
  | fuel + 1, nsize => if nsize < size then doubled size fuel (nsize * 2) else nsize

/-- `bin_read_key`, and whether the buffer is large enough. -/
def binReadKey (rlbytes : Nat) (realloc : Realloc) : Option (ReadBuffer × Bool) := do
  let r ← b.rcurr
  if b.size - (r + HEADER_SIZE) < rlbytes then
    let nsize := doubled (rlbytes + HEADER_SIZE) (rlbytes + HEADER_SIZE) b.size
    if nsize = b.size then
      let b ← b.pack
      some ({ b with ritem := some HEADER_SIZE }, true)
    else match realloc with
      | none => some (b, false)
      | some undefined =>
        let b ← (b.resize nsize undefined).pack
        some ({ b with ritem := some HEADER_SIZE }, true)
  else some ({ b with ritem := some (r + HEADER_SIZE) }, true)

/-- `while (*ptr == ' ')` from an offset on. -/
def skipBlanks (ptr : Nat) : Option Nat :=
  ((slice b.mem ptr (b.size - ptr)).findIdx? (· != space)).map (ptr + ·)

/-- The check of a long text without a line end. -/
def isMultiget (r : Nat) : Option Bool := do
  let ptr ← b.skipBlanks r
  if 100 < ptr - r then return false
  let get ← b.load ptr 4
  let gets ← b.load ptr 5
  return get == ascii "get " || gets == ascii "gets "

/-- Where the line of `len` bytes at `r` ends without its `\r`. -/
def lineEnd (r len : Nat) : Nat := if 1 < len ∧ b.mem (r + len - 1) = CR then r + len - 1 else r + len

/-- What `process_command` leaves: it says whether it has taken all there is. -/
def takeLine (r len : Nat) (rtn : Int) : ReadBuffer :=
  if rtn = 1 then { b with rbytes := 0, rcurr := none }
  else { b with rbytes := b.rbytes - (len + 1), rcurr := some (r + len + 1) }

/-- `ritem` after a handler: in an item, or left as it was. -/
def pointTo : ReadItem → ReadBuffer
  | .item _ _ => { b with ritem := none }
  | .packet _ => b

section

variable (cfg : Config) (env : Env) (c : Conn) (g : Globals)

/-- The binary branch of `try_read_command`. The state after `dispatch_bin_command` is `conn_nread` where it called
`bin_read_key`. -/
def tryReadBinary (realloc : Realloc) : Option ReadBuffer := do
  if b.rbytes < HEADER_SIZE then return b
  let r ← b.rcurr
  let h := parseHeader (← b.load r HEADER_SIZE)
  if h.magic ≠ 0x80 then return b
  let c := dispatchBinCommand cfg (startRequest c h)
  if c.state = .nread then
    match ← b.binReadKey c.rlbytes.toNat realloc with
    | (b, true) => return b.advance HEADER_SIZE
    | (_, false) => none
  else return b.advance HEADER_SIZE

/-- The text branch of `try_read_command`. -/
def tryReadAscii : Option ReadBuffer := do
  if b.rbytes = 0 then return b
  let r ← b.rcurr
  let text ← b.load r b.rbytes
  match text.dropWhile (· != LF) with
  | [] =>
    if 1024 < b.rbytes then
      let _ ← b.isMultiget r
      return b
    else return b
  | _ :: cont =>
    let len := (text.takeWhile (· != LF)).length
    let el := b.lineEnd r len
    let b ← b.store el [0]
    let command := cText (← b.load r (el - r))
    let (c, _, rtn) ← processCommand cfg env { c with out := [] } g command (cText cont)
    return (b.takeLine r len rtn).pointTo c.ritem

/-- The protocol by the first byte of the buffer. -/
def negotiate : Conn :=
  if c.protocol = .negotiating ∨ c.transport = .udp then
    { c with protocol := if b.mem 0 = 0x80 then .binary else .ascii }
  else c

/-- `try_read_command` -/
def tryReadCommand (realloc : Realloc) : Option ReadBuffer :=
  let c := b.negotiate c
  if c.protocol = .binary then b.tryReadBinary cfg c realloc else b.tryReadAscii cfg env c g

end

/-! ## Reading to a place -/

/-- What is in the buffer already goes to `ritem`, `tocopy` bytes of it. -/
def copyLeftovers (tocopy : Nat) : Option ReadBuffer := do
  let r ← b.rcurr
  match b.ritem with
  | none =>
    let _ ← b.load r tocopy
    return b.advance tocopy
  | some p =>
    let b ← if p = r then some b else b.memmove p r tocopy
    return { b.advance tocopy with ritem := some (p + tocopy) }

/-- `read` to `ritem`, of up to `rlbytes` bytes. -/
def readItem (rlbytes : Nat) (bs : Bytes) : Option ReadBuffer :=
  match b.ritem with
  | none => some b
  | some p =>
    if b.size < p + rlbytes then none
    else do
      let b ← b.store p bs
      return { b with
        rcurr := if b.rcurr = some p then some (p + bs.length) else b.rcurr
        ritem := some (p + bs.length) }

/-- The offset that `binary_get_request` returns, if the request lies in the buffer as it asserts. -/
def binaryGetRequest (h : BinaryHeader) : Option Nat := do
  let r ← b.rcurr
  let len := HEADER_SIZE + h.keylen.toNat + h.extlen.toNat
  if r < len then none else return r - len

/-- The bytes that `binary_get_key` points to. -/
def binaryGetKey (h : BinaryHeader) : Option Bytes := do
  let r ← b.rcurr
  if r < h.keylen.toNat then none else b.load (r - h.keylen.toNat) h.keylen.toNat

/-- The extras behind the header of the request. -/
def binaryGetExtras (h : BinaryHeader) : Option Bytes := do
  b.load ((← b.binaryGetRequest h) + HEADER_SIZE) h.extlen.toNat

end ReadBuffer
end RamCube
