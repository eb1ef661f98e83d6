import RamCube.Store.ItemsRun

/-! # Storing, counting and the other commands on items (memcached.c)

What the commands do to the store, under the item locks: `do_store_item`,
`do_add_delta` and the item side of the command handlers of both protocols.
Replies, statistics and the connection are left to the caller. -/
namespace RamCube

inductive NRead where
  | add
  | set
  | replace
  | append
  | prepend
  | cas
deriving DecidableEq

inductive StoreItemType where
  | NOT_STORED
  | STORED
  | EXISTS
  | NOT_FOUND
deriving DecidableEq

inductive DeltaResultType where
  | OK
  | NON_NUMERIC
  | EOM
  | DELTA_ITEM_NOT_FOUND
  | DELTA_ITEM_CAS_MISMATCH
deriving DecidableEq

/-- The flags of an item, read back from its suffix. -/
def itemFlags (it : Item) : Int := strtol (itemSuffix it)

/-- `memcpy(ITEM_data(it) + off, data, ..)` -/
def writeData (off : Nat) (data : Bytes) (it : Item) : Item :=
  { it with bytes := blit it.bytes (itemDataOff it + off) data }

/-- The data of `oldIt` and `it` copied into the new item one after the other, the
CRLF of the first overwritten by the second. -/
def mergeData (comm : NRead) (oldIt it newIt : Item) : Item :=
  if comm = .append then writeData (oldIt.nbytes - 2) (itemData it) (writeData 0 (itemData oldIt) newIt)
  else writeData (it.nbytes - 2) (itemData oldIt) (writeData 0 (itemData it) newIt)

/-- The common end of the storing branches: `it` takes the place of the old item. -/
def storeOver (cfg : Settings) (s : Store) (oldIt : Option Ptr) (it : Ptr) (hv : UInt32) : Store :=
  match oldIt with
  | some oldIt => doItemReplace cfg s oldIt it hv
  | none => doItemLink cfg s it hv

/-- `do_item_remove` of a pointer that may be null. -/
def removeMaybe (cfg : Settings) (s : Store) : Option Ptr → Store
  | none => s
  | some it => doItemRemove cfg s it

/-- The append and prepend branch of `do_store_item`, the old item at hand: the merged
copy, if it can be allocated, is stored in place of the old item. -/
def storeMerged (cfg : Settings) (env : AllocEnv) (s : Store) (oldIt it : Ptr) (comm : NRead)
    (hv : UInt32) : Store × StoreItemType × Ptr :=
  let i := s.mem it
  let o := s.mem oldIt
  match doItemAlloc cfg env s (itemKey i) (itemFlags o) o.exptime (i.nbytes + o.nbytes - 2) hv with
  | (s, none) => (doItemRemove cfg s oldIt, .NOT_STORED, it)
  | (s, some newIt) =>
    let s := s.modify newIt fun n => mergeData comm (s.mem oldIt) (s.mem it) n
    let s := doItemReplace cfg s oldIt newIt hv
    let s := doItemRemove cfg s oldIt
    (doItemRemove cfg s newIt, .STORED, newIt)

/-- `do_store_item`: the store, the result, and the item whose `cas` goes to `c->cas`
when the result is `STORED`. -/
def doStoreItem (cfg : Settings) (env : AllocEnv) (s : Store) (it : Ptr) (comm : NRead)
    (hv : UInt32) : Store × StoreItemType × Ptr :=
  match doItemGet cfg s (s.key it) hv with
  | (s, oldIt) =>
    match comm, oldIt with
    | .add, some old => (doItemRemove cfg (doItemUpdate s old) old, .NOT_STORED, it)
    | .replace, none | .append, none | .prepend, none => (s, .NOT_STORED, it)
    | .cas, none => (s, .NOT_FOUND, it)
    | .cas, some old =>
      if itemGetCas (s.mem it) = itemGetCas (s.mem old) then
        (doItemRemove cfg (doItemReplace cfg s old it hv) old, .STORED, it)
      else (doItemRemove cfg s old, .EXISTS, it)
    | .append, some old | .prepend, some old =>
      if itemGetCas (s.mem it) ≠ 0 ∧ itemGetCas (s.mem it) ≠ itemGetCas (s.mem old) then
        (doItemRemove cfg s old, .EXISTS, it)
      else storeMerged cfg env s old it comm hv
    | _, oldIt => (removeMaybe cfg (storeOver cfg s oldIt it hv) oldIt, .STORED, it)

/-! ## Counting -/

def INCR_MAX_STORAGE_LEN : Nat := 24

/-- The bytes of a chunk from `ITEM_key` on. -/
def chunkRoom (cfg : Settings) (it : Item) : Nat :=
  cfg.slabclass.sizes.getD (it.slabsClsid.val - 1) 0 - sizeofItem - if it.hasCas then 8 else 0

/-- `ITEM_data` read as a C string: what lies there up to the first NUL, or to the end
of the chunk. -/
def dataString (cfg : Settings) (it : Item) : Bytes :=
  (slice it.bytes (itemDataOff it) (chunkRoom cfg it - itemDataOff it)).takeWhile (· ≠ 0)

/-- The digits of a number after blanks and a sign. -/
def strtoullSplit (bs : Bytes) : Bool × Bytes :=
  match bs.dropWhile isSpace with
  | 45 :: ds => (true, ds)
  | 43 :: ds => (false, ds)
  | ds => (false, ds)

theorem strtoullSplit_decimal (n : Nat) (rest : Bytes) : strtoullSplit (decimal n ++ rest) = (false, decimal n ++ rest) := by
  obtain ⟨b, bs, hb⟩ := List.exists_cons_of_ne_nil (decimal_ne_nil n)
  have hdigit : isDigit b = true := mem_decimal (hb ▸ List.mem_cons_self)
  have hspace : isSpace b = false := by
    unfold isDigit isSpace at *
    grind
  have hsign : b ≠ 45 ∧ b ≠ 43 := by
    constructor <;> rintro rfl <;> simp [isDigit] at hdigit
  rw [hb, List.cons_append]
  unfold strtoullSplit
  rw [List.dropWhile_cons_of_neg (by simp [hspace])]
  split
  · rename_i h
    exact absurd (List.cons.inj h).1 hsign.1
  · rename_i h
    exact absurd (List.cons.inj h).1 hsign.2
  · rfl

/-- `safe_strtoull`: the number, unless it is missing, out of range, followed by
something else than a blank, or negative as a signed number next to a minus sign. -/
def safeStrtoull (bs : Bytes) : Option UInt64 :=
  let (neg, ds) := strtoullSplit bs
  let digits := ds.takeWhile isDigit
  let n := readDigits 0 digits
  if digits = [] ∨ 2 ^ 64 ≤ n then none
  else if !((ds.dropWhile isDigit).head?.all isSpace) then none
  else
    let ull := if neg then 0 - UInt64.ofNat n else UInt64.ofNat n
    if 2 ^ 63 ≤ ull.toNat ∧ 45 ∈ bs then none else some ull

structure DeltaResult where
  result : DeltaResultType
  /-- The new value, printed. -/
  buf : Bytes
  /-- The item whose `cas` the caller is told. -/
  it : Option Ptr

/-- The sum wraps around, the difference stops at 0. -/
def deltaValue (incr : Bool) (delta value : UInt64) : UInt64 :=
  if incr then value + delta else if value < delta then 0 else value - delta

/-- `do_add_delta`, where the data of an item reads as `text` does. A `cas` of 0 stands for
a caller that names none. -/
def doAddDeltaReading (text : Item → Bytes) (cfg : Settings) (env : AllocEnv) (s : Store) (key : Bytes)
    (incr : Bool) (delta : UInt64) (cas : UInt64) (hv : UInt32) : Store × DeltaResult :=
  match doItemGet cfg s key hv with
  | (s, none) => (s, ⟨.DELTA_ITEM_NOT_FOUND, [], none⟩)
  | (s, some it) =>
    if cas ≠ 0 ∧ itemGetCas (s.mem it) ≠ cas then
      (doItemRemove cfg s it, ⟨.DELTA_ITEM_CAS_MISMATCH, [], none⟩)
    else match safeStrtoull (text (s.mem it)) with
      | none => (doItemRemove cfg s it, ⟨.NON_NUMERIC, [], none⟩)
      | some value =>
        let buf := decimal (deltaValue incr delta value).toNat
        let i := s.mem it
        if i.nbytes < buf.length + 2 ∨ i.refcount ≠ 1 then
          match doItemAlloc cfg env s (itemKey i) (strtol ((itemSuffix i).drop 1)) i.exptime
              (buf.length + 2) hv with
          | (s, none) => (doItemRemove cfg s it, ⟨.EOM, buf, none⟩)
          | (s, some newIt) =>
            let s := s.modify newIt (writeData 0 (buf ++ [13, 10]))
            let s := doItemReplace cfg s it newIt hv
            let s := s.modify it fun i =>
              itemSetCas i (if cfg.useCas then itemGetCas (s.mem newIt) else 0)
            let s := doItemRemove cfg s newIt
            (doItemRemove cfg s it, ⟨.OK, buf, some it⟩)
        else
          let s := if cfg.useCas then getCasId s else s
          let s := s.modify it fun i => itemSetCas i (if cfg.useCas then s.casId else 0)
          let s := s.modify it (writeData 0 (buf ++ List.replicate (i.nbytes - buf.length - 2) 32))
          (doItemRemove cfg (doItemUpdate s it) it, ⟨.OK, buf, some it⟩)

/-- `do_add_delta`, where reading stops at the end of the chunk. -/
def doAddDelta (cfg : Settings) (env : AllocEnv) (s : Store) (key : Bytes) (incr : Bool)
    (delta : UInt64) (cas : UInt64) (hv : UInt32) : Store × DeltaResult :=
  doAddDeltaReading (dataString cfg) cfg env s key incr delta cas hv

/-! ## The item side of the command handlers -/

def REALTIME_MAXDELTA : Int := 60 * 60 * 24 * 30

/-- `realtime`; `processStarted` is the wall clock at start. -/
def realtime (processStarted : Int) (s : Store) (exptime : Int) : UInt32 :=
  if exptime = 0 then 0
  else if REALTIME_MAXDELTA < exptime then
    if exptime ≤ processStarted then 1 else UInt32.ofInt (exptime - processStarted)
  else UInt32.ofInt (exptime + s.currentTime.toNat)

/-- `item_get`, `item_unlink` and `item_remove` of a key: the item side of a deletion. A
`cas` other than 0 must be the item's own. -/
def deleteItem (cfg : Settings) (s : Store) (key : Bytes) (cas : UInt64) : Store × Option Bool :=
  match doItemGet cfg s key (cfg.hash key) with
  | (s, none) => (s, none)
  | (s, some it) =>
    if cas = 0 ∨ cas = itemGetCas (s.mem it) then
      (doItemRemove cfg (doItemUnlink cfg s it (cfg.hash (s.key it))) it, some true)
    else (doItemRemove cfg s it, some false)

/-- The start of a storage command: the item its data block is read into. A set that
finds no memory removes what is stored under its key. -/
def processUpdate (cfg : Settings) (env : AllocEnv) (s : Store) (comm : NRead) (key : Bytes)
    (flags : Int) (exptime : UInt32) (vlen : Nat) (reqCas : UInt64) : Store × Option Ptr :=
  match doItemAlloc cfg env s key flags exptime vlen 0 with
  | (s, none) => if comm = .set then ((deleteItem cfg s key 0).1, none) else (s, none)
  | (s, some it) => (s.modify it fun i => itemSetCas i reqCas, some it)

/-- The rest of a storage command that gets no item. -/
def failedUpdate (cfg : Settings) (s : Store) (comm : NRead) (key : Bytes) : Store :=
  if comm = .set then (deleteItem cfg s key 0).1 else s

/-- The end of a storage command: the data block has arrived. -/
def completeNread (cfg : Settings) (env : AllocEnv) (s : Store) (it : Ptr) (comm : NRead)
    (data : Bytes) : Store × StoreItemType × Ptr :=
  let s := s.modify it (writeData 0 data)
  let (s, ret, stored) := doStoreItem cfg env s it comm (cfg.hash (s.key it))
  (doItemRemove cfg s it, ret, stored)

/-- One key of a retrieval: the item, now referred to, moves up in its queue. -/
def getItem (cfg : Settings) (s : Store) (key : Bytes) : Store × Option Ptr :=
  match doItemGet cfg s key (cfg.hash key) with
  | (s, none) => (s, none)
  | (s, some it) => (doItemUpdate s it, some it)

/-- `touch`, and the touching half of `gat`. -/
def touchItem (cfg : Settings) (s : Store) (key : Bytes) (exptime : UInt32) : Store × Option Ptr :=
  match doItemTouch cfg s key exptime (cfg.hash key) with
  | (s, none) => (s, none)
  | (s, some it) => (doItemUpdate s it, some it)

/-- The flush mark of a `flush_all`, with a delay or without. -/
def flushMark (processStarted : Int) (s : Store) (exptime : Int) : UInt32 :=
  if 0 < exptime then realtime processStarted s exptime - 1 else s.currentTime - 1

def flushAll (cfg : Settings) (processStarted : Int) (s : Store) (exptime : Int) : Store :=
  doItemFlushExpired cfg { s with oldestLive := flushMark processStarted s exptime }

end RamCube
