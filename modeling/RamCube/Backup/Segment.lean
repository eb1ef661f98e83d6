import Mathlib.Data.List.DropRight
import RamCube.Lib.Bytes

/-! # The segments of a backup (Segment.c)

A backup keeps the records it receives as seglets of a segment for each primary,
and writes a segment to a file once its capacity is used up. The functions return
`none` where the source would run over a buffer or follow a pointer that is NULL
or freed. -/
namespace RamCube

def CR : UInt8 := 13
def LF : UInt8 := 10
def colon : UInt8 := 58

/-! ## Data -/

structure Object where
  avaliable : Bool
  timestamp : Nat
  /-- The C string in `command[2048]`. -/
  command : Bytes
deriving DecidableEq

structure Seglet where
  length : Nat
  objector : Object
deriving DecidableEq

structure Head where
  used : Bool
  /-- the total number of seglets -/
  segletnum : Nat
  capacity : Int
  sinAddr : Bytes
  sinPort : Int
deriving DecidableEq

/-- A segment. The seglets are chained in the order they came; `p` of the source is the
end of this list. -/
structure Segment where
  header : Head
  segleter : List Seglet
deriving DecidableEq

/-- What a `Segment *` leads to: nothing, memory given back to `free`, or a segment and
its `next`. -/
inductive SegmentPtr where
  | null
  | freed
  | seg (s : Segment) (next : SegmentPtr)
deriving DecidableEq

structure SegmentManager where
  used : Bool
  segment : SegmentPtr
deriving DecidableEq

abbrev Path := List Bytes

/-- A file that `persist` wrote: the segment and its seglets. -/
structure File where
  dir : Path
  name : Bytes
  head : Head
  seglets : List Seglet
deriving DecidableEq

/-- A call of `persist`: the file, whether it could be opened, and whether there was no
file of its name. Kept for what is said about the calls; the code does not read it. -/
structure PersistCall where
  file : File
  opened : Bool
  fresh : Bool
deriving DecidableEq

structure Backup where
  Manager : SegmentManager
  cwd : Path
  disk : List File
  persists : List PersistCall
deriving DecidableEq

/-- What the system answers during one message: the two calls of `time` and whether
`fopen` for writing succeeds. -/
structure Os where
  created : Nat
  now : Nat
  fopen : Path → Bytes → Bool

/-- `init_SegmentManager`, in directory `cwd`. -/
def initSegmentManager (cwd : Path) : Backup :=
  { Manager := { used := false, segment := .null }, cwd := cwd, disk := [], persists := [] }

def MAX_SEGMENT_CAPACITY : Int := 1024 * 1024

/-! ## C strings -/

/-- The C string at offset `off` of a buffer with `room` bytes left from there. -/
def cString (m : Nat → UInt8) (off : Nat) : Nat → Option Bytes
  | 0 => none
  | room + 1 => if m off = 0 then some [] else (cString m (off + 1) room).map (m off :: ·)

def setByte (m : Nat → UInt8) (off : Nat) (b : UInt8) : Nat → UInt8 := fun i =>
  if i = off then b else m i

/-- The text before the last line ends. -/
def stripEol (cont : Bytes) : Bytes := cont.rdropWhile fun b => b == CR || b == LF

/-- The last line of a message, as `strcpy` copies it where the copy does not overlap it.
`str` has 2048 bytes; without a line feed `strrchr` returns NULL. -/
def parseIpPort (cont : Bytes) : Option Bytes :=
  let str := stripEol cont
  if str.length < 2048 ∧ LF ∈ str then some (str.rtakeWhile (· != LF)) else none

/-- The text before the colon, into `rip[16]`. -/
def getIp (cont : Bytes) : Option Bytes :=
  let ip := cont.takeWhile (· != colon)
  if colon ∈ cont ∧ ip.length < 16 then some ip else none

/-- The number that the source makes of characters, taking each for a digit. -/
def charNumber (bs : Bytes) : Int := bs.foldl (fun n b => n * 10 + (b.toInt8.toInt - 48)) 0

/-- The number after the colon. -/
def getPort (cont : Bytes) : Int := charNumber ((cont.dropWhile (· != colon)).drop 1)

/-- The length of a message without its last line. -/
def getCommandLen (cont ipPort : Bytes) : Nat := (stripEol cont).length - ipPort.length

/-! ## Segments -/

/-- A new seglet with the C string in `command[2048]`. -/
def createSeglet (os : Os) (command : Nat → UInt8) : Option Seglet :=
  (cString command 0 2048).map fun str =>
    { length := str.length, objector := { avaliable := true, timestamp := os.created, command := str } }

def setHead (ip : Bytes) (port : Int) : Head :=
  { used := true, segletnum := 0, capacity := MAX_SEGMENT_CAPACITY, sinAddr := ip, sinPort := port }

def setCapacity (seg : Segment) (bits : Nat) : Segment :=
  { seg with header := { seg.header with capacity := seg.header.capacity - bits } }

def setSegletNum (seg : Segment) : Segment :=
  { seg with header := { seg.header with segletnum := seg.header.segletnum + 1 } }

/-- `createSegment` with the settings each creating branch makes: one seglet, whose
length is taken off the capacity. -/
def createSegment (ip : Bytes) (port : Int) (seglet : Seglet) : Segment :=
  setCapacity { header := setHead ip port, segleter := [seglet] } seglet.length

/-- A seglet chained behind `p`, which then points to it. -/
def chainSeglet (seglet : Seglet) (seg : Segment) : Segment :=
  setCapacity { seg with segleter := seg.segleter ++ [seglet] } seglet.length

/-- Whether a segment is the one of this address. -/
def Segment.isOf (seg : Segment) (ip : Bytes) (port : Int) : Bool :=
  seg.header.sinAddr == ip && seg.header.sinPort == port

/-- `getSegment`: the place in the list of the segment of this address, `none` inside
for NULL. -/
def getSegment (ip : Bytes) (port : Int) : SegmentPtr → Option (Option Nat)
  | .null => some none
  | .freed => none
  | .seg s next => if s.isOf ip port then some (some 0) else (getSegment ip port next).map (·.map (· + 1))

/-- `getLastSegment` walks until its iterator is NULL and returns the iterator. -/
def getLastSegment : SegmentPtr → Option (Option Nat)
  | .null => some none
  | .freed => none
  | .seg _ next => getLastSegment next

/-- A change of the segment at place `i` of the list. -/
def SegmentPtr.update (f : Segment → Segment) : SegmentPtr → Nat → Option SegmentPtr
  | .null, _ | .freed, _ => none
  | .seg s next, 0 => some (.seg (f s) next)
  | .seg s next, i + 1 => (update f next i).map (.seg s ·)

/-- `next` of the segment at place `i` set to a segment that ends the list. -/
def SegmentPtr.setNext (new : Segment) : SegmentPtr → Nat → Option SegmentPtr
  | .null, _ | .freed, _ => none
  | .seg s _, 0 => some (.seg s (.seg new .null))
  | .seg s next, i + 1 => (setNext new next i).map (.seg s ·)

/-- A seglet chained to the segment at place `i`. The number of seglets is counted up in
the first segment of the list. -/
def addSeglet (seglet : Seglet) (list : SegmentPtr) (i : Nat) : Option SegmentPtr := do
  let list ← list.update (chainSeglet seglet) i
  list.update setSegletNum 0

/-- `appendToSegment` on the first record of a message. -/
def storeFirst (ip : Bytes) (port : Int) (seglet : Seglet) (Manager : SegmentManager) :
    Option SegmentManager := do
  let new := createSegment ip port seglet
  if Manager.used = false then
    some { used := true, segment := .seg (setSegletNum new) .null }
  else
    match ← getSegment ip port Manager.segment with
    | none =>
      match ← getLastSegment Manager.segment with
      | some last =>
        let list ← Manager.segment.setNext new last
        let list ← list.update setSegletNum 0
        some { Manager with segment := list }
      | none => some { Manager with segment := .seg (setSegletNum new) .null }
    | some i =>
      let list ← addSeglet seglet Manager.segment i
      some { Manager with segment := list }

/-- `appendToSegment` on each further record of the same message. -/
def storeNext (ip : Bytes) (port : Int) (seglet : Seglet) (Manager : SegmentManager) :
    Option SegmentManager := do
  let currSeg ← getSegment ip port Manager.segment
  let list ← addSeglet seglet Manager.segment (← currSeg)
  some { Manager with segment := list }

/-! ## Files -/

def ipPortDir (ip : Bytes) (port : Int) : Bytes := ip ++ ascii "." ++ decimalInt port

def fileName (segletNum t : Nat) : Bytes := decimal segletNum ++ ascii "." ++ decimal t ++ ascii ".ram"

/-- The directory `mkStorage` makes and changes to. -/
def mkStorage (cwd : Path) (dirname : Bytes) : Path := cwd ++ [ascii "backup", dirname]

/-- The file that `persist` opens for a segment, and what it writes to it. -/
def segmentFile (os : Os) (b : Backup) (seg : Segment) : File :=
  { dir := mkStorage b.cwd (ipPortDir seg.header.sinAddr seg.header.sinPort)
    name := fileName seg.header.segletnum os.now
    head := seg.header
    seglets := seg.segleter }

def File.sameName (f g : File) : Bool := f.dir == g.dir && f.name == g.name

/-- `persist`: the segment written to a file, over any file of that name. If the file
cannot be opened the process stays in the directory of the files. -/
def persist (os : Os) (b : Backup) (seg : Segment) : Backup :=
  let file := segmentFile os b seg
  let opened := os.fopen file.dir file.name
  let others := b.disk.filter fun f => !f.sameName file
  let call : PersistCall := { file := file, opened := opened, fresh := others.length == b.disk.length }
  { b with
    cwd := if opened then b.cwd else file.dir
    disk := if opened then others ++ [file] else b.disk
    persists := b.persists ++ [call] }

/-- The loop that persists and frees the segments without capacity. Returns the list
from this place on and, if it was set, the new `Manager->segment`. The segment before a
freed one keeps its `next`. -/
def persistLoop (os : Os) (b : Backup) (flag3 : Bool) :
    SegmentPtr → Option (Backup × SegmentPtr × Option SegmentPtr)
  | .null => some (b, .null, none)
  | .freed => none
  | .seg s temp =>
    if s.header.capacity < 0 then do
      let (b, temp', first) ← persistLoop os (persist os b s) (flag3 && temp == .null) temp
      some (b, .freed, first.or (if flag3 then some temp' else none))
    else do
      let (b, temp', first) ← persistLoop os b flag3 temp
      some (b, .seg s temp', first)

def persistFull (os : Os) (b : Backup) : Option Backup := do
  let (b, list, first) ← persistLoop os b true b.Manager.segment
  some { b with Manager := { b.Manager with segment := first.getD list } }

/-! ## Messages -/

/-- The local variables of `appendToSegment` in its loop. -/
structure Scan where
  backup : Backup
  command : Nat → UInt8
  j : Nat
  flag1 : Nat
  flag2 : Nat
  isDone : Bool
  isFirst : Bool

/-- One turn of the loop of `appendToSegment`, at character `c`. A record ends with its
second line feed; it is stored at the character after it. -/
def scanChar (os : Os) (ip : Bytes) (port : Int) (st : Scan) (c : UInt8) : Option Scan :=
  if st.flag1 < 2 then
    if st.j < 2048 then
      some { st with
        command := setByte st.command st.j c
        flag1 := if c = LF then st.flag1 + 1 else st.flag1
        j := st.j + 1 }
    else none
  else if st.flag2 < 2 then do
    let backup ←
      if st.isDone then some st.backup
      else do
        let seglet ← createSeglet os st.command
        let store := if st.isFirst then storeFirst else storeNext
        let Manager ← store ip port seglet st.backup.Manager
        persistFull os { st.backup with Manager := Manager }
    some { st with
      backup := backup
      flag2 := if c = CR then st.flag2 + 1 else st.flag2
      isDone := true
      isFirst := false }
  else
    -- only the first half of `command` is cleared
    some { st with
      command := fun i => if i < 1024 then 0 else st.command i
      j := 0
      flag1 := 0
      flag2 := 0
      isDone := false }

/-- `appendToSegment(cont)`, `cont` without its closing NUL. -/
def appendToSegment (os : Os) (b : Backup) (cont : Bytes) : Option Backup := do
  let ipPort ← parseIpPort cont
  let rip ← getIp ipPort
  let rport := getPort ipPort
  let length := getCommandLen cont ipPort
  let st ← ((cont ++ [0]).take (length + 1)).foldlM (scanChar os rip rport)
    { backup := b, command := fun _ => 0, j := 0, flag1 := 0, flag2 := 0, isDone := false, isFirst := true }
  some st.backup

end RamCube
