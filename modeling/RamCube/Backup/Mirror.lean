import RamCube.Backup.Protocol
import RamCube.Backup.UnitRecord
import RamCube.Store.KeyValues

/-! # Replaying the records of a primary

`complete_nread_ascii` answers STORED with a record for the backup, made of the item that
the data block was read into. Append and prepend store a merged copy instead: their record
says the added piece alone. A set that gets no memory removes what was stored under its
key and sends nothing, and without a connected backup nothing is sent at all. As long as
none of this happens, and zero bytes stand behind key and data, the records replay to the
values that clients read (`records_replay_alike`). -/
namespace RamCube

variable {cfg cfg' : Settings} {processStarted processStarted' : Int} {s s' s1 : Store} {it : Ptr}
  {held : Ptr → Nat} {key value data text : Bytes} {given : Bytes → Option Bytes}

/-! ## The record and what is behind the chunk -/

/-- The offset of `ITEM_key` in a chunk. -/
def itemKeyOff (i : Item) : Nat := sizeofItem + if i.hasCas then 8 else 0

/-- The size of the chunk that `do_item_alloc` takes for an item: that of the smallest
class it fits. -/
def chunkSize (cfg : Settings) (i : Item) : Nat :=
  (cfg.slabclass.sizes.find? fun size => decide (itemNtotal i ≤ size)).getD (itemNtotal i)

def pointerByte (p : Option Ptr) (k : Nat) : UInt8 := UInt8.ofNat (p.getD 0 / 256 ^ k)

/-- An item with the bytes that lie in its page. The next chunk starts with its `next`
pointer; `rest` is what no item says. -/
def inPage (cfg : Settings) (s : Store) (rest : Nat → UInt8) (it : Ptr) : Item :=
  let i := s.mem it
  let room := chunkSize cfg i - itemKeyOff i
  let after := it + chunkSize cfg i
  { i with bytes := fun k =>
      if k < room then i.bytes k
      else if after ∈ s.carved ∧ k < room + 8 then pointerByte (s.mem after).next (k - room)
      else rest (k - room) }

/-- `ramcube_post_set_data` on a connection of a client with so many backups connected:
`none` where the record overruns its buffer. -/
def sentRecords (cfg : Settings) (backups : Nat) (rest : Nat → UInt8) (s : Store) (it : Ptr) : Option (List Bytes) :=
  match getBackupProxyByKey backups cfg.hash (s.key it) with
  | some _ => (unitRecord (inPage cfg s rest it)).map fun text => [text]
  | none => some []

/-- `complete_nread_ascii` on a connection of a client, with the records it sends. -/
def nreadAndSend (cfg : Settings) (env : AllocEnv) (backups : Nat) (rest : Nat → UInt8) (s : Store) (it : Ptr)
    (comm : NRead) (data : Bytes) : Option (Store × List Bytes) :=
  let s := s.modify it (writeData 0 data)
  if EndsInCrlf (s.mem it) then
    match doStoreItem cfg env s it comm (cfg.hash (s.key it)) with
    | (s, .STORED, _) => (sentRecords cfg backups rest s it).map fun texts => (doItemRemove cfg s it, texts)
    | (s, _, _) => some (doItemRemove cfg s it, [])
  else some (doItemRemove cfg s it, [])

structure MirroredStore where
  items : ItemsState
  /-- How many entries of `vpBackupOut` are set. -/
  backups : Nat
  /-- The records sent to the backups, in order. -/
  sent : List Bytes

def mirrorInit (hashpower : Nat) : MirroredStore := ⟨itemsInit hashpower, 0, []⟩

inductive MirrorOp where
  /-- a backup is connected -/
  | connect
  | plain (op : ClientOp)
  | nread (env : AllocEnv) (rest : Nat → UInt8) (it : Ptr) (comm : NRead) (data : Bytes)

inductive MirrorStep (cfg : Settings) (processStarted : Int) : MirroredStore → MirrorOp → MirroredStore → Prop where
  | connect {s : ItemsState} {backups : Nat} {sent : List Bytes} : backups < MAX_NEIGHBORS →
      MirrorStep cfg processStarted ⟨s, backups, sent⟩ .connect ⟨s, backups + 1, sent⟩
  | plain {s s' : ItemsState} {backups : Nat} {sent : List Bytes} {op : ClientOp} : ClientStep cfg processStarted s op s' →
      MirrorStep cfg processStarted ⟨s, backups, sent⟩ (.plain op) ⟨s', backups, sent⟩
  | nread {s s' : Store} {held : Ptr → Nat} {backups : Nat} {sent texts : List Bytes} {env : AllocEnv}
      {rest : Nat → UInt8} {it : Ptr} {comm : NRead} {data : Bytes} :
      0 < held it → (s.mem it).linked = false → data.length = (s.mem it).nbytes →
      nreadAndSend cfg env backups rest s it comm data = some (s', texts) →
      MirrorStep cfg processStarted ⟨⟨s, held⟩, backups, sent⟩ (.nread env rest it comm data)
        ⟨⟨s', dropRef held it⟩, backups, sent ++ texts⟩

/-! ## Conditions -/

/-- A storage command starts or gives its item back, and time passes: nothing is evicted,
and nothing expires. The command line is refused unless the data block has its CR LF. -/
def Undisturbed (cfg : Settings) (s : ItemsState) : ClientOp → Prop
  | .update env _ key flags exptime vlen _ => 2 ≤ vlen ∧ AllocGuard cfg env s.store key flags vlen.toNat 0 ∧
      RoomAt cfg s.store key ∧
      ∀ n, (doItemAlloc cfg env s.store key flags exptime vlen.toNat 0).2 = some n → (s.store.mem n).linked = false
  | .tick now => ∀ p, (s.store.mem p).linked = true →
      flushedOrExpired { s.store with currentTime := now } (s.store.mem p) = flushedOrExpired s.store (s.store.mem p)
  | .release _ | .expand _ | .migrate => True
  | _ => False

/-- A key as a command line names it, and a value without zero bytes that fits a record
with it. -/
structure Recordable (key value : Bytes) : Prop where
  nonempty : key ≠ []
  short : key.length ≤ KEY_MAX_LENGTH
  word : ∀ b ∈ key, b ≠ 0 ∧ b ≠ LF ∧ b ≠ space
  noZero : ∀ b ∈ value, b ≠ 0
  fits : (recordText key value).length ≤ 2047

/-- The data of a storage command stays below the limits, and nothing is evicted for it. -/
structure SendGuard (cfg : Settings) (env : AllocEnv) (s : ItemsState) (it : Ptr) (comm : NRead) (data : Bytes) : Prop where
  guard : StoreGuard cfg env (s.store.modify it (writeData 0 data)) s.held it comm
  spares : MergeSpares cfg env (s.store.modify it (writeData 0 data)) it comm
  visible : visible s.store (itemEntry (s.store.mem it)) = true
  recordable : Recordable (s.store.key it) (data.take (data.length - 2))

theorem SendGuard.unlinked {env : AllocEnv} {s : ItemsState} {comm : NRead} (hp : SendGuard cfg env s it comm data) :
    (s.store.mem it).linked = false := by
  have hu := hp.guard.unlinked
  rwa [modify_field (·.linked) rfl] at hu

def Permitted (cfg : Settings) (s : MirroredStore) : MirrorOp → Prop
  | .connect => True
  | .plain op => Undisturbed cfg s.items op
  | .nread env _ it comm data => SendGuard cfg env s.items it comm data

/-- The store when the record is made. -/
def dataStored (cfg : Settings) (env : AllocEnv) (s : Store) (it : Ptr) (comm : NRead) (data : Bytes) : Store :=
  let s := s.modify it (writeData 0 data)
  (doStoreItem cfg env s it comm (cfg.hash (s.key it))).1

/-- Zero bytes stand behind the key and behind the data block. -/
structure ClosedChunk (i : Item) : Prop where
  key : i.bytes i.nkey = 0
  data : i.bytes (itemDataOff i + i.nbytes) = 0

/-- What makes the records say what is stored: a set without memory names a key that is not
stored, and what is stored has a backup to go to, is closed by zero bytes where it lies and
is not added to another value. -/
def Mirrored (cfg : Settings) (s : MirroredStore) : MirrorOp → Prop
  | .connect => True
  | .plain (.update env comm key flags exptime vlen _) =>
    comm = .set → (doItemAlloc cfg env s.items.store key flags exptime vlen.toNat 0).2 = none →
      lookup cfg s.items.store key = none
  | .plain _ => True
  | .nread env rest it comm data =>
    let m := s.items.store.modify it (writeData 0 data)
    EndsInCrlf (m.mem it) → WillStore cfg env m it comm → s.backups ≠ 0 ∧
      ClosedChunk (inPage cfg (dataStored cfg env s.items.store it comm data) rest it) ∧
      (comm = .append ∨ comm = .prepend → valueOf cfg s.items.store (s.items.store.key it) = some [])

/-! ## The map of the records -/

def giveRecord (given : Bytes → Option Bytes) (text : Bytes) : Bytes → Option Bytes :=
  match readRecord text with
  | some (key, _, _, value) => Function.update given key (some value)
  | none => given

/-- The map that records make one after the other. -/
def recordValues (texts : List Bytes) : Bytes → Option Bytes := texts.foldl giveRecord fun _ => none

theorem giveRecord_recordText (hr : Recordable key value) :
    giveRecord given (recordText key value) = Function.update given key (some value) := by
  have hread : readRecord (recordText key value) = some (key, 0, 0, value) :=
    readRecord_recordText (fun b hb => (hr.word b hb).2) hr.nonempty hr.short
  unfold giveRecord
  rw [hread]

/-! ## The record of a command -/

theorem slabsClsid_size {c : SlabClasses} {size n : Nat} (h : slabsClsid c size ≠ 0) :
    c.sizes[(slabsClsid c size).val - 1]? = some ((c.sizes.find? fun chunk => decide (size ≤ chunk)).getD n) := by
  unfold slabsClsid at h ⊢
  dsimp only at h ⊢
  split at h
  · exact absurd rfl h
  · rename_i h0
    rw [if_neg h0]
    split at h
    · rename_i hi
      rw [dif_pos hi]
      rw [List.find?_eq_getElem?_findIdx, List.getElem?_eq_getElem hi]
      exact List.getElem?_eq_getElem hi
    · exact absurd rfl h

theorem itemNtotal_le_chunkSize (cfg : Settings) (i : Item) : itemNtotal i ≤ chunkSize cfg i := by
  unfold chunkSize
  rcases hfind : cfg.slabclass.sizes.find? fun size => decide (itemNtotal i ≤ size) with _ | size
  · exact Nat.le_refl _
  · simpa using List.find?_some hfind

/-- The chunks of the class that `do_item_alloc` takes have that size. -/
theorem chunkSize_alloc {env : AllocEnv} {flags : Int} {exptime : UInt32} {nbytes : Nat} {curHv : UInt32}
    (he : doItemAlloc cfg env s key flags exptime nbytes curHv = (s', some it)) :
    cfg.slabclass.sizes[(s'.mem it).slabsClsid.val - 1]? = some (chunkSize cfg (s'.mem it)) := by
  unfold doItemAlloc at he
  dsimp only at he
  split at he
  · cases he
  · rename_i h0
    split at he
    · cases he
    · rename_i t n _
      obtain ⟨rfl, rfl⟩ : t.modify n _ = s' ∧ n = it := by simpa using he
      rw [modify_mem_self, chunkSize, itemNtotal_itemInit]
      exact slabsClsid_size h0

theorem inPage_bytes {rest : Nat → UInt8} {k : Nat} (hk : k < itemDataOff (s.mem it) + (s.mem it).nbytes) :
    (inPage cfg s rest it).bytes k = (s.mem it).bytes k := by
  have hfits : k < chunkSize cfg (s.mem it) - itemKeyOff (s.mem it) := by
    have hsize := itemNtotal_le_chunkSize cfg (s.mem it)
    simp only [itemNtotal, itemDataOff, itemKeyOff] at hsize hk ⊢
    omega
  exact if_pos hfits

theorem itemKey_inPage {rest : Nat → UInt8} : itemKey (inPage cfg s rest it) = s.key it :=
  slice_congr fun k _ hk => inPage_bytes (by simp only [itemDataOff, inPage] at hk ⊢; omega)

theorem itemData_inPage {rest : Nat → UInt8} : itemData (inPage cfg s rest it) = itemData (s.mem it) :=
  slice_congr fun _ _ hk => inPage_bytes hk

/-- The record of an item that zero bytes close. -/
theorem unitRecord_closed {i : Item} (hdata : itemData i = value ++ [CR, LF]) (hc : ClosedChunk i)
    (hr : Recordable (itemKey i) value) : unitRecord i = some (recordText (itemKey i) value) := by
  have hlen : (itemKey i).length = i.nkey := length_slice
  have hn : (value ++ [CR, LF]).length = i.nbytes := by
    rw [← hdata]
    exact length_slice
  have hkey : cString i.bytes 0 2048 = some (itemKey i) := by
    refine cString_eq ?_ (fun b hb => (hr.word b hb).1) ?_ ?_
    · rw [hlen]
      rfl
    · rw [hlen, Nat.zero_add]
      exact hc.key
    · have hshort := hr.short
      unfold KEY_MAX_LENGTH at hshort
      omega
  have hblock : cString i.bytes (itemDataOff i) 2048 = some (value ++ [CR, LF]) := by
    refine cString_eq ?_ (fun b hb => ?_) ?_ ?_
    · rw [hn, ← hdata]
      rfl
    · obtain hb | hb := List.mem_append.mp hb
      · exact hr.noZero b hb
      · simp only [List.mem_cons, List.not_mem_nil, or_false] at hb
        obtain rfl | rfl := hb <;> decide
    · rw [hn]
      exact hc.data
    · have hfits := hr.fits
      simp only [recordText, List.length_append] at hfits ⊢
      omega
  have hbytes : (i.nbytes : Int) - 2 = value.length := by
    rw [← hn, List.length_append]
    simp
  unfold unitRecord
  rw [hkey, hblock, hbytes]
  exact setCommandServer_recordText hr.fits

/-- Records go out exactly with the answer STORED. -/
theorem nreadAndSend_eq {env : AllocEnv} {comm : NRead} {backups : Nat} {rest : Nat → UInt8} :
    nreadAndSend cfg env backups rest s it comm data =
      if (nreadAscii cfg env s it comm data).2 = .STORED then
        (sentRecords cfg backups rest (dataStored cfg env s it comm data) it).map
          fun texts => ((nreadAscii cfg env s it comm data).1, texts)
      else some ((nreadAscii cfg env s it comm data).1, []) := by
  unfold nreadAndSend nreadAscii storeRelease dataStored
  dsimp only
  split
  · rcases doStoreItem cfg env (s.modify it (writeData 0 data)) it comm
      (cfg.hash ((s.modify it (writeData 0 data)).key it)) with ⟨m, ret, p⟩
    cases ret with
    | STORED => rfl
    | NOT_STORED | EXISTS | NOT_FOUND => rfl
  · rfl

/-- Key and data are the same when the record is made. -/
theorem dataStored_item (h : StoreOk cfg (s.modify it (writeData 0 data)) held) {env : AllocEnv} {comm : NRead}
    (g : StoreGuard cfg env (s.modify it (writeData 0 data)) held it comm) (hlen : data.length = (s.mem it).nbytes) :
    (dataStored cfg env s it comm data).key it = s.key it ∧
      itemData ((dataStored cfg env s it comm data).mem it) = data := by
  have hkey := doStoreItem_field itemKey (fun _ => rfl) (fun _ _ => rfl) h g
  have hdata := doStoreItem_field itemData (fun _ => rfl) (fun _ _ => rfl) h g
  rw [modify_mem_self] at hkey hdata
  refine ⟨hkey.trans ?_, hdata.trans (itemData_writeData hlen)⟩
  exact slice_blit_of_disjoint (.inl (by simp only [itemDataOff, writeData]; omega))

/-- A chunk with room behind the data block stays closed. -/
theorem ClosedChunk.of_room (h : StoreOk cfg (s.modify it (writeData 0 data)) held) {env : AllocEnv} {comm : NRead}
    (g : StoreGuard cfg env (s.modify it (writeData 0 data)) held it comm) (hlen : data.length = (s.mem it).nbytes)
    (hroom : itemNtotal (s.mem it) < chunkSize cfg (s.mem it)) (hc : ClosedChunk (s.mem it)) {rest : Nat → UInt8} :
    ClosedChunk (inPage cfg (dataStored cfg env s it comm data) rest it) := by
  have hfields := doStoreItem_field (fun i => (i.nkey, i.nsuffix, i.nbytes, i.hasCas, i.bytes)) (fun _ => rfl) (fun _ _ => rfl) h g
  rw [modify_mem_self, show (doStoreItem cfg env (s.modify it (writeData 0 data)) it comm _).1 =
    dataStored cfg env s it comm data from rfl] at hfields
  generalize dataStored cfg env s it comm data = m at hfields ⊢
  obtain ⟨hkey, hsuffix, hbytes, hcas, hdata⟩ : (m.mem it).nkey = (s.mem it).nkey ∧ (m.mem it).nsuffix = (s.mem it).nsuffix ∧
      (m.mem it).nbytes = (s.mem it).nbytes ∧ (m.mem it).hasCas = (s.mem it).hasCas ∧
      (m.mem it).bytes = (writeData 0 data (s.mem it)).bytes := by
    simp only [Prod.mk.injEq] at hfields
    exact hfields
  have hoff : itemDataOff (m.mem it) = itemDataOff (s.mem it) := by rw [itemDataOff, itemDataOff, hkey, hsuffix]
  have htotal : itemNtotal (m.mem it) = itemNtotal (s.mem it) := by
    rw [itemNtotal, itemNtotal, hkey, hsuffix, hbytes, hcas]
  have hsize : itemNtotal (m.mem it) < chunkSize cfg (m.mem it) := by
    rwa [chunkSize, htotal]
  refine ⟨?_, ?_⟩
  · change (inPage cfg m rest it).bytes (m.mem it).nkey = 0
    rw [inPage_bytes (by simp only [itemDataOff]; omega), hdata, hkey, ← hc.key]
    exact blit_of_out (.inl (by simp only [itemDataOff]; omega))
  · have hbehind : itemDataOff (m.mem it) + (m.mem it).nbytes < chunkSize cfg (m.mem it) - itemKeyOff (m.mem it) := by
      simp only [itemNtotal, itemDataOff, itemKeyOff] at hsize ⊢
      omega
    change (inPage cfg m rest it).bytes (itemDataOff (m.mem it) + (m.mem it).nbytes) = 0
    refine (if_pos hbehind).trans ?_
    rw [hdata, hoff, hbytes, ← hc.data]
    exact blit_of_out (.inr (by omega))

/-- What is stored goes out with its key and its value. -/
theorem nreadAndSend_stored (h : ClientInv cfg ⟨s, held⟩) {env : AllocEnv} {comm : NRead} {backups : Nat}
    {rest : Nat → UInt8} (hlen : data.length = (s.mem it).nbytes) (hp : SendGuard cfg env ⟨s, held⟩ it comm data)
    (hn : backups ≠ 0) (hclosed : ClosedChunk (inPage cfg (dataStored cfg env s it comm data) rest it))
    (hres : (nreadAscii cfg env s it comm data).2 = .STORED) :
    nreadAndSend cfg env backups rest s it comm data =
      some ((nreadAscii cfg env s it comm data).1, [recordText (s.key it) (data.take (data.length - 2))]) := by
  have hinv : ClientInv cfg ⟨s.modify it (writeData 0 data), held⟩ := h.write hp.guard.held hp.unlinked
  have hnbytes : 2 ≤ (s.mem it).nbytes := (h.items it (.inr hp.guard.held)).nbytes
  have hends := (nreadAscii_stored hres).1
  rw [modify_mem_self] at hends
  have hdata : data = data.take (data.length - 2) ++ [CR, LF] := by
    have hholds := holdsValue_iff.mp (HoldsValue.of_data hlen hnbytes hends)
    rwa [itemData_writeData hlen] at hholds
  obtain ⟨hkey, hblock⟩ := dataStored_item hinv.ok hp.guard hlen
  have hpage : itemKey (inPage cfg (dataStored cfg env s it comm data) rest it) = s.key it := itemKey_inPage.trans hkey
  have hunit : unitRecord (inPage cfg (dataStored cfg env s it comm data) rest it) =
      some (recordText (s.key it) (data.take (data.length - 2))) := by
    rw [← hpage]
    exact unitRecord_closed ((itemData_inPage.trans hblock).trans hdata) hclosed (hpage.symm ▸ hp.recordable)
  have hsent : sentRecords cfg backups rest (dataStored cfg env s it comm data) it =
      some [recordText (s.key it) (data.take (data.length - 2))] := by
    unfold sentRecords getBackupProxyByKey
    rw [dif_pos (Nat.pos_of_ne_zero hn), hunit]
    rfl
  rw [nreadAndSend_eq, if_pos hres, hsent]
  rfl

/-- What the records of a command say is what it did to the values. -/
theorem nreadAndSend_values (h : ClientInv cfg ⟨s, held⟩) {env : AllocEnv} {comm : NRead} {backups : Nat}
    {rest : Nat → UInt8} {sent texts : List Bytes}
    (hlen : data.length = (s.mem it).nbytes) (hp : SendGuard cfg env ⟨s, held⟩ it comm data)
    (hm : Mirrored cfg ⟨⟨s, held⟩, backups, sent⟩ (.nread env rest it comm data))
    (he : nreadAndSend cfg env backups rest s it comm data = some (s', texts)) :
    s' = (nreadAscii cfg env s it comm data).1 ∧ valueOf cfg s' = texts.foldl giveRecord (valueOf cfg s) := by
  have hinv : ClientInv cfg ⟨s.modify it (writeData 0 data), held⟩ := h.write hp.guard.held hp.unlinked
  have hvalues : valueOf cfg (nreadAscii cfg env s it comm data).1 = giveValue (valueOf cfg s) (s.key it) comm
      (data.take (data.length - 2)) (nreadAscii cfg env s it comm data).2 :=
    funext fun k => nreadAscii_values h hlen hp.guard hp.spares hp.visible k
  by_cases hstored : (nreadAscii cfg env s it comm data).2 = .STORED
  · obtain ⟨hends, hres⟩ := nreadAscii_stored hstored
    obtain ⟨hn, hclosed, hempty⟩ := hm hends (doStoreItem_willStore hinv hp.guard hres)
    rw [nreadAndSend_stored h hlen hp hn hclosed hstored] at he
    obtain ⟨rfl, rfl⟩ : _ = s' ∧ _ = texts := by simpa using he
    refine ⟨rfl, ?_⟩
    rw [hvalues, hstored, giveValue, if_pos rfl, List.foldl_cons, List.foldl_nil, giveRecord_recordText hp.recordable]
    congr 2
    cases comm with
    | append | prepend =>
      have hold : valueOf cfg s (s.key it) = some [] := hempty (by simp)
      rw [hold]
      simp [newValue]
    | add | set | replace | cas => rfl
  · rw [nreadAndSend_eq, if_neg hstored] at he
    obtain ⟨rfl, rfl⟩ : _ = s' ∧ [] = texts := by simpa using he
    refine ⟨rfl, ?_⟩
    rw [hvalues, giveValue, if_neg hstored]
    rfl

/-! ## Runs of a primary -/

theorem processUpdate_alloc {env : AllocEnv} {comm : NRead} {flags : Int} {exptime : UInt32} {vlen : Nat} {reqCas : UInt64} :
    (processUpdate cfg env s comm key flags exptime vlen reqCas).2 =
      (doItemAlloc cfg env s key flags exptime vlen 0).2 := by
  unfold processUpdate
  rcases doItemAlloc cfg env s key flags exptime vlen 0 with ⟨m, _ | n⟩
  · dsimp only
    split <;> rfl
  · rfl

theorem Undisturbed.unhindered {s : ItemsState} {op : ClientOp} (hq : Undisturbed cfg s op) :
    Unhindered cfg processStarted s op := by
  cases op with
  | update env comm key flags exptime vlen reqCas => exact ⟨fun _ => hq.2.1, fun hlt => absurd hq.1 (by omega), hq.2.2.1⟩
  | tick | release | expand | migrate => trivial
  | get | touch | delete | delta | complete | flushAll => exact hq.elim

/-- Between the ends of the storage commands no value changes. -/
theorem ClientStep.keeps_values {s s' : ItemsState} {backups : Nat} {sent : List Bytes} {op : ClientOp}
    (h : ClientInv cfg s) (hq : Undisturbed cfg s op) (hm : Mirrored cfg ⟨s, backups, sent⟩ (.plain op)) (hs : ClientStep cfg processStarted s op s') :
    ClientInv cfg s' ∧ valueOf cfg s'.store = valueOf cfg s.store := by
  have hinv : ClientInv cfg s' := (hs.keeps_inv h hq.unhindered).1
  refine ⟨hinv, funext fun k => congrArg (Option.map Entry.value) ?_⟩
  cases hs with
  | update s held env comm key flags exptime vlen reqCas =>
    obtain ⟨-, ha, hr, hfree⟩ := hq
    exact processUpdate_lookup h ha hr (fun n hn => hfree n (processUpdate_alloc.symm.trans hn))
      (fun hset hnone => hm hset (processUpdate_alloc.symm.trans hnone)) k
  | shortNone | shortSome =>
    obtain ⟨hlen, -⟩ := hq
    omega
  | release s held it => exact lookup_remove h.ok hinv.ok k
  | tick s held now => exact lookup_congr h.ok hinv.ok (fun _ => rfl) (fun p hp => ⟨rfl, hq p hp⟩) k
  | expand | migrate => exact lookup_congr h.ok hinv.ok (fun _ => rfl) (fun _ _ => ⟨rfl, rfl⟩) k
  | get | touch | delete | delta | complete | flushAll => exact hq.elim

/-- What holds of a primary and the records it sent. -/
structure MirrorInv (cfg : Settings) (v : MirroredStore) : Prop where
  inv : ClientInv cfg v.items
  values : valueOf cfg v.items.store = recordValues v.sent

theorem valueOf_init (cfg : Settings) (n : Nat) : valueOf cfg (itemsInit n).store = fun _ => none := by
  funext key
  have hnone : lookup cfg (itemsInit n).store key = none := by
    by_contra hsome
    obtain ⟨e, he⟩ := Option.ne_none_iff_exists'.mp hsome
    obtain ⟨p, hp, -⟩ := (lookup_some (clientInv_init cfg n).ok).mp he
    simp [itemsInit, storeInit, emptyItem] at hp
  rw [valueOf, hnone]
  rfl

theorem mirrorInv_init (cfg : Settings) (n : Nat) : MirrorInv cfg (mirrorInit n) :=
  ⟨clientInv_init cfg n, valueOf_init cfg n⟩

theorem MirrorStep.keeps {v v' : MirroredStore} {op : MirrorOp} (h : MirrorInv cfg v)
    (hq : Permitted cfg v op ∧ Mirrored cfg v op) (hs : MirrorStep cfg processStarted v op v') : MirrorInv cfg v' := by
  obtain ⟨hp, hm⟩ := hq
  cases hs with
  | connect => exact ⟨h.inv, h.values⟩
  | plain hs =>
    obtain ⟨hinv, hsame⟩ := hs.keeps_values h.inv hp hm
    exact ⟨hinv, hsame.trans h.values⟩
  | @nread s s' held backups sent texts env rest it comm data hh hl hlen he =>
    obtain ⟨rfl, hvalues⟩ := nreadAndSend_values h.inv hlen hp hm he
    refine ⟨nreadAscii_inv h.inv hp.guard, ?_⟩
    rw [hvalues, recordValues, List.foldl_append]
    exact congrArg (List.foldl giveRecord · texts) h.values

/-! ## Replaying -/

/-- A record is replayed on a store: a set with its data block. -/
inductive ReplayStep (cfg : Settings) (processStarted : Int) : ItemsState → Bytes → ItemsState → Prop where
  | set {s s1 : Store} {held : Ptr → Nat} {text key value : Bytes} {flags exptime : Int} {env env' : AllocEnv} {it : Ptr} :
      readRecord text = some (key, flags, exptime, value) →
      Undisturbed cfg ⟨s, held⟩ (.update env .set key flags (realtime processStarted s exptime) (value.length + 2 : Nat) 0) →
      processUpdate cfg env s .set key flags (realtime processStarted s exptime) (value.length + 2) 0 = (s1, some it) →
      StoreGuard cfg env' (s1.modify it (writeData 0 (value ++ [CR, LF]))) (addRef held it) it .set →
      visible s1 (itemEntry (s1.mem it)) = true →
      ReplayStep cfg processStarted ⟨s, held⟩ text ⟨(nreadAscii cfg env' s1 it .set (value ++ [CR, LF])).1, held⟩
  | refused {s : ItemsState} {text : Bytes} : readRecord text = none → ReplayStep cfg processStarted s text s

theorem doStoreItem_set (cfg : Settings) (env : AllocEnv) (s : Store) (it : Ptr) (hv : UInt32) :
    (doStoreItem cfg env s it .set hv).2.1 = .STORED := by
  unfold doStoreItem
  rcases doItemGet cfg s (s.key it) hv with ⟨m, _ | old⟩ <;> rfl

theorem nreadAscii_set {env : AllocEnv} (hlen : (value ++ [CR, LF]).length = (s.mem it).nbytes) :
    (nreadAscii cfg env s it .set (value ++ [CR, LF])).2 = .STORED := by
  have hends : EndsInCrlf ((s.modify it (writeData 0 (value ++ [CR, LF]))).mem it) := by
    rw [modify_mem_self]
    exact (holdsValue_iff.mpr (itemData_writeData hlen)).ends
  unfold nreadAscii
  dsimp only
  rw [if_pos hends]
  have hset := doStoreItem_set cfg env (s.modify it (writeData 0 (value ++ [CR, LF]))) it
    (cfg.hash ((s.modify it (writeData 0 (value ++ [CR, LF]))).key it))
  exact hset

theorem processUpdate_item (h : StoreOk cfg s held) {env : AllocEnv} {comm : NRead} {flags : Int} {exptime : UInt32}
    {vlen : Nat} {reqCas : UInt64} (ha : AllocGuard cfg env s key flags vlen 0)
    (he : processUpdate cfg env s comm key flags exptime vlen reqCas = (s1, some it)) :
    (s1.mem it).nbytes = vlen ∧ s1.key it = key := by
  unfold processUpdate at he
  rcases doItemAlloc_spec h ha.page key flags exptime vlen 0 ha.noRepair with hnone | ⟨m, n, id, i, hsome, -, -, hmem⟩
  · rw [hnone] at he
    dsimp only at he
    split at he <;> cases he
  · rw [hsome] at he
    obtain ⟨rfl, rfl⟩ : m.modify n _ = s1 ∧ n = it := by simpa using he
    refine ⟨?_, ?_⟩
    · rw [modify_mem_self, itemSetCas_field (·.nbytes) (fun _ _ => rfl), hmem]
      rfl
    · unfold Store.key
      rw [modify_mem_self, itemSetCas_field itemKey (fun _ _ => rfl), hmem]
      exact itemInit_key cfg id key flags exptime vlen i

/-- Replaying a record gives its key the value it says. -/
theorem ReplayStep.keeps {s s' : ItemsState} (h : ClientInv cfg s) (hs : ReplayStep cfg processStarted s text s') :
    ClientInv cfg s' ∧ valueOf cfg s'.store = giveRecord (valueOf cfg s.store) text := by
  cases hs with
  | @set s s1 held text key value flags exptime env env' it hread hq he hguard hvisible =>
    have hstart : ClientStep cfg processStarted ⟨s, held⟩
        (.update env .set key flags (realtime processStarted s exptime) (value.length + 2 : Nat) 0) ⟨s1, addRef held it⟩ := by
      have hupdate : ClientStep cfg processStarted ⟨s, held⟩ (.update env .set key flags _ (value.length + 2 : Nat) 0) _ :=
        .update s held env .set key flags (realtime processStarted s exptime) (value.length + 2 : Nat) 0 (by omega)
      rwa [Int.toNat_natCast, he] at hupdate
    have halloc : (doItemAlloc cfg env s key flags (realtime processStarted s exptime) (value.length + 2) 0).2 = some it :=
      processUpdate_alloc.symm.trans (congrArg Prod.snd he)
    have hmirrored : Mirrored cfg ⟨⟨s, held⟩, 0, []⟩ (.plain (.update env .set key flags
        (realtime processStarted s exptime) (value.length + 2 : Nat) 0)) := fun _ hnone => by
      rw [Int.toNat_natCast, halloc] at hnone
      cases hnone
    obtain ⟨hinv, hsame⟩ := hstart.keeps_values h hq hmirrored
    obtain ⟨hbytes, hkey⟩ := processUpdate_item h.ok hq.2.1 he
    have hlen : (value ++ [CR, LF]).length = (s1.mem it).nbytes := by
      rw [hbytes, List.length_append]
      rfl
    refine ⟨?_, ?_⟩
    · have hend := nreadAscii_inv hinv hguard
      rwa [dropRef_addRef] at hend
    · funext k
      rw [nreadAscii_values hinv hlen hguard (fun _ _ _ _ _ hm => hm.1.elim nofun nofun) hvisible k,
        nreadAscii_set hlen, giveValue, if_pos rfl, hsame, hkey, giveRecord, hread]
      simp [newValue]
  | refused hread =>
    refine ⟨h, ?_⟩
    rw [giveRecord, hread]

theorem replay_values {s s' : ItemsState} {texts : List Bytes} (h : ClientInv cfg s)
    (hr : Run (ReplayStep cfg processStarted) s texts s') :
    valueOf cfg s'.store = texts.foldl giveRecord (valueOf cfg s.store) := by
  induction hr with
  | nil => rfl
  | cons hs _ ih =>
    obtain ⟨hinv, hstep⟩ := hs.keeps h
    rw [ih hinv, hstep, List.foldl_cons]

/-- In every run of a primary whose steps keep to the conditions, the records sent so far
say the value of every key, and a server that replays them on an empty store ends up with
the same values. -/
theorem records_replay_alike {n n' : Nat} {ops : List MirrorOp} {v : MirroredStore} {t : ItemsState}
    (hr : Run (Guarded (fun v op => Permitted cfg v op ∧ Mirrored cfg v op) (MirrorStep cfg processStarted))
      (mirrorInit n) ops v)
    (ht : Run (ReplayStep cfg' processStarted') (itemsInit n') v.sent t) (key : Bytes) :
    valueOf cfg' t.store key = valueOf cfg v.items.store key := by
  have hprimary : MirrorInv cfg v :=
    hr.invariant_of_guard (fun _ _ _ hi hq hs => hs.keeps hi hq) (mirrorInv_init cfg n)
  have hreplay := replay_values (clientInv_init cfg' n') ht
  rw [hreplay, valueOf_init, hprimary.values]
  rfl

/-! ## A set, and an append to it -/

/-- A set of `k` to the byte 97, up to its data block. -/
@[irreducible]
def byteStart (n : Nat) : ItemsState :=
  ⟨(processUpdate oneClass fourChunks (storeInit n) .set [107] 0 0 3 0).1, addRef (fun _ => 0) 7096⟩

@[irreducible]
def byteEnd (n : Nat) : ItemsState :=
  ⟨(nreadAscii oneClass noPage (byteStart n).store 7096 .set [97, CR, LF]).1, fun _ => 0⟩

/-- Then a command with the byte 98. -/
@[irreducible]
def nextStart (comm : NRead) : ItemsState :=
  ⟨(processUpdate oneClass noPage (byteEnd 16).store comm [107] 0 0 3 0).1, addRef (fun _ => 0) 6096⟩

@[irreducible]
def nextEnd (comm : NRead) : ItemsState :=
  ⟨(nreadAscii oneClass noPage (nextStart comm).store 6096 comm [98, CR, LF]).1, fun _ => 0⟩

theorem recordable_byte {b : UInt8} (hb : b ≠ 0) : Recordable [107] [b] where
  nonempty := nofun
  short := by decide
  word := List.forall_mem_singleton.mpr (by decide)
  noZero := List.forall_mem_singleton.mpr hb
  fits := by
    have hdigits : (decimal 1).length ≤ 1 := length_decimal_le (Nat.succ_pos 0) (by decide)
    simp only [recordText, List.length_append, ascii, List.length_map]
    simp
    omega

/-- The item at `it` waits for one byte of `k`, in a closed chunk with room behind it. -/
abbrev Awaiting (s : ItemsState) (it : Ptr) : Prop :=
  0 < s.held it ∧ (s.store.mem it).linked = false ∧ s.store.key it = [107] ∧ (s.store.mem it).nbytes = 3 ∧
    ((s.store.mem it).bytes (s.store.mem it).nkey = 0 ∧
      (s.store.mem it).bytes (itemDataOff (s.store.mem it) + (s.store.mem it).nbytes) = 0 ∧
      itemNtotal (s.store.mem it) < chunkSize oneClass (s.store.mem it)) ∧
    visible s.store (itemEntry (s.store.mem it)) = true

theorem sendGuard_set {s : ItemsState} {b : UInt8} (h : Awaiting s it) (hb : b ≠ 0) :
    SendGuard oneClass noPage s it .set [b, CR, LF] where
  guard :=
    { held := h.1
      unlinked := (modify_field (·.linked) rfl it).trans h.2.1
      room := .inl rfl
      roomAt := fun _ _ _ => .inl rfl
      alloc := fun _ _ _ hm => hm.1.elim nofun nofun }
  spares := fun _ _ _ _ _ hm => hm.1.elim nofun nofun
  visible := h.2.2.2.2.2
  recordable := by
    rw [h.2.2.1]
    exact recordable_byte hb

/-- A record of a byte is replayed. -/
theorem replay_byte {b : UInt8} (hb : b ≠ 0) {env : AllocEnv}
    (hq : Undisturbed oneClass ⟨s, held⟩ (.update env .set [107] 0 0 3 0))
    (he : processUpdate oneClass env s .set [107] 0 0 3 0 = (s1, some it)) (h : Awaiting ⟨s1, addRef held it⟩ it) :
    ReplayStep oneClass 0 ⟨s, held⟩ (recordText [107] [b])
      ⟨(nreadAscii oneClass noPage s1 it .set [b, CR, LF]).1, held⟩ := by
  have hrec : Recordable [107] [b] := recordable_byte hb
  have hread : readRecord (recordText [107] [b]) = some ([107], 0, 0, [b]) :=
    readRecord_recordText (fun b hb => (hrec.word b hb).2) hrec.nonempty hrec.short
  have hguard : SendGuard oneClass noPage ⟨s1, addRef held it⟩ it .set [b, CR, LF] := sendGuard_set h hb
  exact @ReplayStep.set oneClass 0 s s1 held (recordText [107] [b]) [107] [b] 0 0 env noPage it hread hq he hguard.guard
    hguard.visible

theorem closed_awaited {s : ItemsState} {comm : NRead} {b : UInt8} (hinv : ClientInv oneClass s) (h : Awaiting s it)
    (hp : SendGuard oneClass noPage s it comm [b, CR, LF]) (rest : Nat → UInt8) :
    ClosedChunk (inPage oneClass (dataStored oneClass noPage s.store it comm [b, CR, LF]) rest it) := by
  obtain ⟨hheld, hl, -, hbytes, ⟨hkey, hdata, hroom⟩, -⟩ := h
  exact .of_room (hinv.write hheld hl).ok hp.guard hbytes.symm hroom ⟨hkey, hdata⟩

/-- The end of a storage command that is stored. -/
theorem mirror_nread {s : ItemsState} {sent : List Bytes} {comm : NRead} {b : UInt8} (hinv : ClientInv oneClass s)
    (h : Awaiting s it) (hp : SendGuard oneClass noPage s it comm [b, CR, LF])
    (hres : (nreadAscii oneClass noPage s.store it comm [b, CR, LF]).2 = .STORED) :
    MirrorStep oneClass 0 ⟨s, 1, sent⟩ (.nread noPage (fun _ => 0) it comm [b, CR, LF])
      ⟨⟨(nreadAscii oneClass noPage s.store it comm [b, CR, LF]).1, dropRef s.held it⟩, 1,
        sent ++ [recordText [107] [b]]⟩ := by
  have hclosed := closed_awaited hinv h hp fun _ => 0
  obtain ⟨hheld, hl, hkey, hbytes, -⟩ := h
  have hlen : ([b, CR, LF] : Bytes).length = (s.store.mem it).nbytes := hbytes.symm
  refine .nread hheld hl hlen ?_
  rw [nreadAndSend_stored hinv hlen hp Nat.one_ne_zero hclosed hres, hkey]
  rfl

theorem byteStart_awaiting {n : Nat} (hn : n = 16 ∨ n = 17) :
    (processUpdate oneClass fourChunks (storeInit n) .set [107] 0 0 3 0).2 = some 7096 ∧ Awaiting (byteStart n) 7096 := by
  obtain rfl | rfl := hn <;> decide +kernel

theorem byteStart_eq {n : Nat} (hn : n = 16 ∨ n = 17) :
    processUpdate oneClass fourChunks (storeInit n) .set [107] 0 0 3 0 = ((byteStart n).store, some 7096) := by
  refine Prod.ext ?_ (byteStart_awaiting hn).1
  unfold byteStart
  rfl

theorem byteStart_undisturbed (n : Nat) : Undisturbed oneClass (itemsInit n) (.update fourChunks .set [107] 0 0 3 0) :=
  ⟨by decide, ⟨by simp [FreshPage, fourChunks, itemsInit, storeInit], rfl⟩, fun _ _ _ => .inl rfl, fun _ _ => rfl⟩

theorem byteStart_held (n : Nat) : (byteStart n).held = addRef (fun _ => 0) 7096 := by
  unfold byteStart
  rfl

/-- The record of the set is replayed. -/
theorem replay_byteEnd {n : Nat} (hn : n = 16 ∨ n = 17) :
    ReplayStep oneClass 0 (itemsInit n) (recordText [107] [97]) (byteEnd n) := by
  have hawaits : Awaiting ⟨(byteStart n).store, addRef (fun _ => 0) 7096⟩ 7096 := byteStart_held n ▸ (byteStart_awaiting hn).2
  have hstep := replay_byte (show (97 : UInt8) ≠ 0 by decide) (byteStart_undisturbed n) (byteStart_eq hn) hawaits
  unfold byteEnd
  exact hstep

/-- A primary that stored the set and sent its record. -/
theorem mirror_byteEnd : Run (Guarded (fun v op => Permitted oneClass v op ∧ Mirrored oneClass v op) (MirrorStep oneClass 0))
    (mirrorInit 16)
    [.connect, .plain (.update fourChunks .set [107] 0 0 3 0), .nread noPage (fun _ => 0) 7096 .set [97, CR, LF]]
    ⟨byteEnd 16, 1, [recordText [107] [97]]⟩ := by
  have hstart : ClientStep oneClass 0 (itemsInit 16) (.update fourChunks .set [107] 0 0 3 0) (byteStart 16) := by
    have hupdate : ClientStep oneClass 0 (itemsInit 16) (.update fourChunks .set [107] 0 0 3 0) _ :=
      .update (storeInit 16) (fun _ => 0) fourChunks .set [107] 0 0 3 0 (by decide)
    rw [show Int.toNat 3 = 3 from rfl, byteStart_eq (.inl rfl)] at hupdate
    unfold byteStart at hupdate ⊢
    exact hupdate
  have hmirrored : Mirrored oneClass ⟨itemsInit 16, 1, []⟩ (.plain (.update fourChunks .set [107] 0 0 3 0)) := by
    intro _ hnone
    have halloc : (doItemAlloc oneClass fourChunks (itemsInit 16).store [107] 0 0 3 0).2 = some 7096 :=
      processUpdate_alloc.symm.trans (byteStart_awaiting (.inl rfl)).1
    exact nomatch halloc.symm.trans hnone
  have hawaits : Awaiting (byteStart 16) 7096 := (byteStart_awaiting (.inl rfl)).2
  have hguard : SendGuard oneClass noPage (byteStart 16) 7096 .set [97, CR, LF] := sendGuard_set hawaits (by decide)
  have hinv : ClientInv oneClass (byteStart 16) :=
    (hstart.keeps_values (clientInv_init oneClass 16) (byteStart_undisturbed 16) hmirrored).1
  have hend : MirrorStep oneClass 0 ⟨byteStart 16, 1, []⟩ (.nread noPage (fun _ => 0) 7096 .set [97, CR, LF])
      ⟨byteEnd 16, 1, [recordText [107] [97]]⟩ := by
    have hlen : ([97] ++ [CR, LF] : Bytes).length = ((byteStart 16).store.mem 7096).nbytes := hawaits.2.2.2.1.symm
    have hstored : (nreadAscii oneClass noPage (byteStart 16).store 7096 .set ([97] ++ [CR, LF])).2 = .STORED := nreadAscii_set hlen
    have hstep : MirrorStep oneClass 0 ⟨byteStart 16, 1, []⟩ (.nread noPage (fun _ => 0) 7096 .set [97, CR, LF]) _ :=
      mirror_nread hinv hawaits hguard hstored
    rw [byteStart_held, dropRef_addRef] at hstep
    unfold byteEnd
    exact hstep
  exact .cons ⟨⟨trivial, trivial⟩, .connect (by decide)⟩ (.cons ⟨⟨byteStart_undisturbed 16, hmirrored⟩, .plain hstart⟩
    (.single ⟨⟨hguard, fun _ _ => ⟨Nat.one_ne_zero, closed_awaited hinv hawaits hguard _, nofun⟩⟩, hend⟩))

/-- A set, replayed on a larger table. -/
theorem records_replay_alike_set : valueOf oneClass (byteEnd 17).store [107] = valueOf oneClass (byteEnd 16).store [107] :=
  records_replay_alike mirror_byteEnd (.single (replay_byteEnd (.inr rfl))) [107]

theorem byteEnd_inv : ClientInv oneClass (byteEnd 16) :=
  ((replay_byteEnd (.inl rfl)).keeps (clientInv_init oneClass 16)).1

theorem byteEnd_held : (byteEnd 16).held = fun _ => 0 := by
  unfold byteEnd
  rfl

/-- The next command gets another chunk, without a repair. -/
theorem nextStart_awaiting {comm : NRead} (hc : comm = .append ∨ comm = .set) :
    (processUpdate oneClass noPage (byteEnd 16).store comm [107] 0 0 3 0).2 = some 6096 ∧
      ((byteEnd 16).store.mem 6096).linked = false ∧
      tailRepairFires oneClass noPage 0 (byteEnd 16).store 5 ((byteEnd 16).store.tails (allocClass oneClass [107] 0 3)) = false ∧
      Awaiting (nextStart comm) 6096 := by
  obtain rfl | rfl := hc <;> decide +kernel

theorem nextStart_eq {comm : NRead} (hc : comm = .append ∨ comm = .set) :
    processUpdate oneClass noPage (byteEnd 16).store comm [107] 0 0 3 0 = ((nextStart comm).store, some 6096) := by
  refine Prod.ext ?_ (nextStart_awaiting hc).1
  unfold nextStart
  rfl

theorem nextStart_undisturbed {comm : NRead} (hc : comm = .append ∨ comm = .set) :
    Undisturbed oneClass (byteEnd 16) (.update noPage comm [107] 0 0 3 0) := by
  obtain ⟨halloc, hfree, hrepair, -⟩ := nextStart_awaiting hc
  refine ⟨by decide, ⟨by simp [FreshPage, noPage], hrepair⟩, fun _ _ _ => .inl rfl, fun n hn => ?_⟩
  obtain rfl : 6096 = n := Option.some.inj (halloc.symm.trans (processUpdate_alloc.trans hn))
  exact hfree

theorem nextStart_held (comm : NRead) : (nextStart comm).held = addRef (fun _ => 0) 6096 := by
  unfold nextStart
  rfl

/-- The append with its data block, and the store after the lookup. -/
@[irreducible]
def appendWritten : Store := (nextStart .append).store.modify 6096 (writeData 0 [98, CR, LF])

@[irreducible]
def appendGot : Store := (doItemGet oneClass appendWritten [107] 0).1

/-- The old item is found, and its copy gets the third chunk. -/
theorem appendGot_facts : appendWritten.key 6096 = [107] ∧ (doItemGet oneClass appendWritten [107] 0).2 = some 7096 ∧
    tailRepairFires oneClass noPage 0 appendGot 5 (appendGot.tails (allocClass oneClass [107]
      (itemFlags (appendGot.mem 7096)) ((appendGot.mem 6096).nbytes + (appendGot.mem 7096).nbytes - 2))) = false ∧
    (doItemAlloc oneClass noPage appendGot [107] (itemFlags (appendGot.mem 7096)) (appendGot.mem 7096).exptime
      ((appendGot.mem 6096).nbytes + (appendGot.mem 7096).nbytes - 2) 0).2 = some 5096 ∧
    (appendGot.mem 5096).linked = false := by
  decide +kernel

theorem appendGot_eq {m : Store} {old : Ptr}
    (he : doItemGet oneClass appendWritten (appendWritten.key 6096) (oneClass.hash (appendWritten.key 6096)) = (m, some old)) :
    m = appendGot ∧ old = 7096 := by
  obtain ⟨hkey, hold, -⟩ := appendGot_facts
  have hget : doItemGet oneClass appendWritten [107] 0 = (m, some old) := by
    rw [hkey] at he
    exact he
  rw [hget] at hold
  refine ⟨?_, Option.some.inj hold⟩
  unfold appendGot
  rw [hget]

theorem appendEnd_guard : SendGuard oneClass noPage (nextStart .append) 6096 .append [98, CR, LF] := by
  have hwritten : (nextStart .append).store.modify 6096 (writeData 0 [98, CR, LF]) = appendWritten := by
    unfold appendWritten
    rfl
  have hawaits : Awaiting (nextStart .append) 6096 := (nextStart_awaiting (.inl rfl)).2.2.2
  obtain ⟨hset, -, hvisible, hrecordable⟩ := sendGuard_set hawaits (show (98 : UInt8) ≠ 0 by decide)
  obtain ⟨hkey, -, hrepair, hchunk, hfree⟩ := appendGot_facts
  refine ⟨⟨hset.held, hset.unlinked, hset.room, hset.roomAt, ?_⟩, ?_, hvisible, hrecordable⟩
  · rw [hwritten]
    intro m old he _
    obtain ⟨rfl, rfl⟩ := appendGot_eq he
    rw [hkey]
    exact ⟨by simp [FreshPage, noPage], hrepair⟩
  · rw [hwritten]
    intro m old m' n he _ halloc
    obtain ⟨rfl, rfl⟩ := appendGot_eq he
    rw [hkey, show oneClass.hash [107] = 0 from rfl] at halloc
    rw [halloc] at hchunk
    cases hchunk
    exact hfree

/-- Both answers are given, and the values differ. -/
theorem nextEnd_facts : (nreadAscii oneClass noPage (nextStart .append).store 6096 .append [98, CR, LF]).2 = .STORED ∧
    valueOf oneClass (nextEnd .set).store [107] = some [98] ∧
    valueOf oneClass (nextEnd .append).store [107] = some [97, 98] := by
  decide +kernel

/-- The append is stored, and its record sent. -/
theorem mirror_appendEnd : Run (Guarded (Permitted oneClass) (MirrorStep oneClass 0)) ⟨byteEnd 16, 1, [recordText [107] [97]]⟩
    [.plain (.update noPage .append [107] 0 0 3 0), .nread noPage (fun _ => 0) 6096 .append [98, CR, LF]]
    ⟨nextEnd .append, 1, [recordText [107] [97], recordText [107] [98]]⟩ := by
  have hstart : ClientStep oneClass 0 (byteEnd 16) (.update noPage .append [107] 0 0 3 0) (nextStart .append) := by
    have hupdate : ClientStep oneClass 0 ⟨(byteEnd 16).store, (byteEnd 16).held⟩ (.update noPage .append [107] 0 0 3 0) _ :=
      .update (byteEnd 16).store (byteEnd 16).held noPage .append [107] 0 0 3 0 (by decide)
    rw [show Int.toNat 3 = 3 from rfl, nextStart_eq (.inl rfl), byteEnd_held] at hupdate
    unfold nextStart at hupdate ⊢
    unfold byteEnd at hupdate ⊢
    exact hupdate
  have hinv : ClientInv oneClass (nextStart .append) :=
    (hstart.keeps_inv byteEnd_inv (nextStart_undisturbed (.inl rfl)).unhindered).1
  have hend : MirrorStep oneClass 0 ⟨nextStart .append, 1, [recordText [107] [97]]⟩
      (.nread noPage (fun _ => 0) 6096 .append [98, CR, LF])
      ⟨nextEnd .append, 1, [recordText [107] [97], recordText [107] [98]]⟩ := by
    have hstep : MirrorStep oneClass 0 ⟨nextStart .append, 1, [recordText [107] [97]]⟩
        (.nread noPage (fun _ => 0) 6096 .append [98, CR, LF]) _ :=
      mirror_nread hinv (nextStart_awaiting (.inl rfl)).2.2.2 appendEnd_guard nextEnd_facts.1
    rw [nextStart_held, dropRef_addRef] at hstep
    unfold nextEnd
    exact hstep
  exact .cons ⟨nextStart_undisturbed (.inl rfl), .plain hstart⟩ (.single ⟨appendEnd_guard, hend⟩)

/-- The record of the append is replayed as a set. -/
theorem replay_nextEnd : ReplayStep oneClass 0 (byteEnd 16) (recordText [107] [98]) (nextEnd .set) := by
  have hawaits : Awaiting ⟨(nextStart .set).store, addRef (fun _ => 0) 6096⟩ 6096 :=
    nextStart_held .set ▸ (nextStart_awaiting (.inr rfl)).2.2.2
  rw [← byteEnd_held] at hawaits
  have hstep := replay_byte (show (98 : UInt8) ≠ 0 by decide) (nextStart_undisturbed (.inr rfl)) (nextStart_eq (.inr rfl)) hawaits
  have hstate : nextEnd .set =
      ⟨(nreadAscii oneClass noPage (nextStart .set).store 6096 .set [98, CR, LF]).1, (byteEnd 16).held⟩ := by
    rw [byteEnd_held]
    unfold nextEnd
    rfl
  rw [hstate]
  exact hstep

/-- The record of an append says the piece that was added alone. -/
theorem append_record_differs : ∃ ops v t, Run (Guarded (Permitted oneClass) (MirrorStep oneClass 0)) (mirrorInit 16) ops v ∧
    Run (ReplayStep oneClass 0) (itemsInit 16) v.sent t ∧
    valueOf oneClass t.store [107] = some [98] ∧ valueOf oneClass v.items.store [107] = some [97, 98] := by
  have hset : Run (Guarded (Permitted oneClass) (MirrorStep oneClass 0)) (mirrorInit 16) _
      ⟨byteEnd 16, 1, [recordText [107] [97]]⟩ := mirror_byteEnd.mono fun _ _ _ hs => ⟨hs.1.1, hs.2⟩
  exact ⟨_, _, nextEnd .set, hset.append mirror_appendEnd, .cons (replay_byteEnd (.inl rfl)) (.single replay_nextEnd),
    nextEnd_facts.2⟩

end RamCube
