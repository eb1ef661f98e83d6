import RamCube.Store.CommandFrames

/-! # Data blocks

The data block of an item is the value and CR LF after it, and every reader relies on
that. Seven places write one: `complete_nread_ascii` checks the end of what it was sent,
`complete_update_bin` writes it, append and prepend keep that of the second part,
`do_add_delta` prints a new block, and `complete_incr_bin` prints one without an end when
it stores an initial value. As long as that is never stored, the block of every stored
item is the value its key was given last. -/
namespace RamCube

variable {cfg : Settings} {processStarted : Int} {s s' m : Store} {it n old p : Ptr}
  {held : Ptr → Nat} {key value data : Bytes} {given : Bytes → Option Bytes} {f : Item → Item}

/-- `strncmp(ITEM_data(it) + it->nbytes - 2, "\r\n", 2) == 0` -/
def EndsInCrlf (i : Item) : Prop := slice i.bytes (itemDataOff i + (i.nbytes - 2)) 2 = [13, 10]

instance (i : Item) : Decidable (EndsInCrlf i) :=
  inferInstanceAs (Decidable (slice i.bytes (itemDataOff i + (i.nbytes - 2)) 2 = [13, 10]))

/-- What the readers of an item rely on. -/
structure HoldsValue (i : Item) (value : Bytes) : Prop where
  nbytes : 2 ≤ i.nbytes
  ends : EndsInCrlf i
  value : (itemData i).take (i.nbytes - 2) = value

/-- An item holds a value if its data block is that value and CR LF. -/
theorem holdsValue_iff {i : Item} : HoldsValue i value ↔ itemData i = value ++ [13, 10] := by
  have hsplit : 2 ≤ i.nbytes → itemData i = (itemData i).take (i.nbytes - 2) ++
      slice i.bytes (itemDataOff i + (i.nbytes - 2)) 2 := by
    intro h
    unfold itemData
    rw [take_slice (Nat.sub_le _ _), ← slice_add, Nat.sub_add_cancel h]
  have hlen : (itemData i).length = i.nbytes := length_slice
  constructor
  · intro h
    rw [hsplit h.nbytes, h.value, h.ends]
  · intro h
    have hn : i.nbytes = value.length + 2 := by
      rw [← hlen, h]
      simp
    have hv : (itemData i).take (i.nbytes - 2) = value := by
      rw [h, hn, Nat.add_sub_cancel, List.take_left]
    refine ⟨by omega, ?_, hv⟩
    have hs := hsplit (by omega)
    rw [hv, h] at hs
    exact (List.append_cancel_left hs).symm

theorem HoldsValue.congr {i j : Item} (h : HoldsValue i value) (hs : j.stored = i.stored) :
    HoldsValue j value := by
  rw [holdsValue_iff] at h ⊢
  rw [stored_field itemData (fun _ => rfl) hs, h]

/-- The value an item holds is determined by its data block. -/
theorem HoldsValue.unique {i : Item} {v w : Bytes} (h : HoldsValue i v) (h' : HoldsValue i w) : v = w :=
  h.value.symm.trans h'.value

/-! ## The places that write a data block -/

/-- The end of the storing functions: the item is stored and given back. -/
def storeRelease (cfg : Settings) (env : AllocEnv) (s : Store) (it : Ptr) (comm : NRead) :
    Store × StoreItemType :=
  let (s, ret, _) := doStoreItem cfg env s it comm (cfg.hash (s.key it))
  (doItemRemove cfg s it, ret)

/-- `complete_nread_ascii`, after `data` was read into the item. -/
def nreadAscii (cfg : Settings) (env : AllocEnv) (s : Store) (it : Ptr) (comm : NRead)
    (data : Bytes) : Store × StoreItemType :=
  let s := s.modify it (writeData 0 data)
  if EndsInCrlf (s.mem it) then storeRelease cfg env s it comm
  else (doItemRemove cfg s it, .NOT_STORED)

/-- The item of a binary update: the value is received, the end is written. -/
def updateBlock (value : Bytes) (i : Item) : Item :=
  writeData (i.nbytes - 2) [13, 10] (writeData 0 value i)

/-- `complete_update_bin`, after `value` was read into the item. -/
def updateBin (cfg : Settings) (env : AllocEnv) (s : Store) (it : Ptr) (comm : NRead)
    (value : Bytes) : Store × StoreItemType :=
  storeRelease cfg env (s.modify it (updateBlock value)) it comm

/-- `snprintf(ITEM_data(it), INCR_MAX_STORAGE_LEN, "%llu", initial)` -/
def initialBlock (initial : UInt64) : Item → Item :=
  writeData 0 (decimal initial.toNat ++ [0])

/-- The end of `complete_incr_bin` for a key it did not find. -/
def incrInitialBin (cfg : Settings) (env : AllocEnv) (s : Store) (it : Ptr) (initial : UInt64) :
    Store × StoreItemType :=
  storeRelease cfg env (s.modify it (initialBlock initial)) it .add

/-! ## The block of an item just stored -/

/-- `n` is stored under `key` with `data` in its block. -/
structure StoredBlock (s : Store) (key : Bytes) (n : Ptr) (data : Bytes) : Prop where
  linked : (s.mem n).linked = true
  key : s.key n = key
  data : itemData (s.mem n) = data

theorem StoredBlock.remove (h : StoredBlock s key n data) (cfg : Settings) (q : Ptr) :
    StoredBlock (doItemRemove cfg s q) key n data := by
  obtain ⟨hb, hl, _⟩ := doItemRemove_mem cfg s q n
  refine ⟨hl.trans h.linked, (key_of_body hb).trans h.key, ?_⟩
  rw [stored_field itemData (fun _ => rfl) (stored_of_body hb), h.data]

theorem storedBlock_link (cfg : Settings) (s : Store) (it : Ptr) (hv : UInt32) :
    StoredBlock (doItemLink cfg s it hv) (s.key it) it (itemData (s.mem it)) := by
  obtain ⟨_, l2, l3, _⟩ := link_mem cfg s it hv
  exact ⟨l3, linked_stored l2 itemKey (fun _ => rfl) fun _ _ => rfl,
    linked_stored l2 itemData (fun _ => rfl) fun _ _ => rfl⟩

theorem storedBlock_replace (cfg : Settings) (s : Store) (hne : n ≠ old) (hv : UInt32) :
    StoredBlock (doItemReplace cfg s old n hv) (s.key n) n (itemData (s.mem n)) := by
  obtain ⟨_, l2, l3, _⟩ := replace_mem cfg s old n hv hne
  exact ⟨l3, linked_stored l2 itemKey (fun _ => rfl) fun _ _ => rfl,
    linked_stored l2 itemData (fun _ => rfl) fun _ _ => rfl⟩

/-- The merged copy holds both values, with the end of the second. -/
theorem HoldsValue.merge {o i c : Item} {v w : Bytes} (ho : HoldsValue o v) (hi : HoldsValue i w)
    (comm : NRead) (hn : c.nbytes = i.nbytes + o.nbytes - 2) :
    HoldsValue (mergeData comm o i c) (if comm = .append then v ++ w else w ++ v) := by
  have hlo : (itemData o).length = o.nbytes := length_slice
  have hli : (itemData i).length = i.nbytes := length_slice
  have h2o := ho.nbytes
  have h2i := hi.nbytes
  have hdo := holdsValue_iff.mp ho
  have hdi := holdsValue_iff.mp hi
  rw [holdsValue_iff]
  unfold mergeData
  split
  · rw [← hlo, data_writeTwo (by omega) (by omega), hlo, ho.value, hdi, List.append_assoc]
  · rw [← hli, data_writeTwo (by omega) (by omega), hli, hi.value, hdo, List.append_assoc]

/-- Append and prepend store the merged copy. -/
theorem storeMerged_block {v w : Bytes} (hg : Got cfg s held (s.key it) s' old)
    (h : StoreOk cfg s held) {env : AllocEnv} {comm : NRead} (g : StoreGuard cfg env s held it comm)
    (he : doItemGet cfg s (s.key it) (cfg.hash (s.key it)) = (s', some old))
    (hm : MergeWanted comm (s'.mem it) (s'.mem old)) (hold : HoldsValue (s.mem old) v)
    (hit : HoldsValue (s.mem it) w)
    (hres : (storeMerged cfg env s' old it comm (cfg.hash (s.key it))).2.1 = .STORED) :
    ∃ n, StoredBlock (storeMerged cfg env s' old it comm (cfg.hash (s.key it))).1 (s.key it) n
      ((if comm = .append then v ++ w else w ++ v) ++ [13, 10]) := by
  have hk : itemKey (s'.mem it) = s.key it := key_of_body (hg.body it)
  have ha := g.alloc s' old he hm
  unfold storeMerged at hres ⊢
  dsimp only at hres ⊢
  rw [hk] at hres ⊢
  rcases hc : doItemAlloc cfg env s' (s.key it) (itemFlags (s'.mem old)) (s'.mem old).exptime
    ((s'.mem it).nbytes + (s'.mem old).nbytes - 2) (cfg.hash (s.key it)) with ⟨s2, r⟩
  rw [hc] at hres
  cases r with
  | none => cases hres
  | some n =>
    obtain ⟨_, hfc⟩ := freshCopy (hg.ok h) ha hc
      (mergeData_bytes comm (s2.mem old) (s2.mem it) (s2.mem n))
    have hheld : 0 < addRef held old it := addRef_other g.held (hg.ne g.unlinked)
    have hno : old ≠ n := hfc.ne (addRef_self held old)
    have hni : it ≠ n := hfc.ne hheld
    -- the two items copied from are as they were before the allocation
    have hbo : (s2.mem old).body = (s.mem old).body := by
      have hb := (hfc.others old hno (.inl hg.stored)).1
      rw [modify_mem_of_ne hno] at hb
      exact hb.trans (hg.body old)
    have hbi : (s2.mem it).body = (s.mem it).body := by
      have hb := (hfc.others it hni (.inr hheld)).1
      rw [modify_mem_of_ne hni] at hb
      exact hb.trans (hg.body it)
    have hbytes : (s2.mem n).nbytes = (s2.mem it).nbytes + (s2.mem old).nbytes - 2 := by
      rcases doItemAlloc_spec (hg.ok h) ha.page (s.key it) _ (s'.mem old).exptime _ _ ha.noRepair with
        he' | ⟨_, _, _, _, he', _, _, hmem⟩
      · rw [hc] at he'
        cases he'
      · rw [hc] at he'
        cases he'
        rw [hmem, stored_field (·.nbytes) (fun _ => rfl) (stored_of_body hbo),
          stored_field (·.nbytes) (fun _ => rfl) (stored_of_body hbi),
          ← stored_field (·.nbytes) (fun _ => rfl) (stored_of_body (hg.body old)),
          ← stored_field (·.nbytes) (fun _ => rfl) (stored_of_body (hg.body it))]
        rfl
    have hmerged := (hold.congr (stored_of_body hbo)).merge (hit.congr (stored_of_body hbi)) comm hbytes
    have hblock := storedBlock_replace cfg
      (s2.modify n fun c => mergeData comm (s2.mem old) (s2.mem it) c) (Ne.symm hno) (cfg.hash (s.key it))
    rw [hfc.key, modify_mem_self, holdsValue_iff.mp hmerged] at hblock
    exact ⟨n, (hblock.remove cfg old).remove cfg n⟩

/-- The value a key has after a storage command. -/
def newValue (comm : NRead) (old : Option Bytes) (value : Bytes) : Bytes :=
  match comm with
  | .append => old.getD [] ++ value
  | .prepend => value ++ old.getD []
  | _ => value

/-- Every stored item holds the value its key was given. -/
def BlocksHold (s : Store) (given : Bytes → Option Bytes) : Prop :=
  ∀ p, (s.mem p).linked = true → ∃ v, given (s.key p) = some v ∧ HoldsValue (s.mem p) v

/-- A storage command that stores something stores the value it gives the key. -/
theorem doStoreItem_block (h : StoreOk cfg s held) {env : AllocEnv} {comm : NRead}
    (g : StoreGuard cfg env s held it comm) (hb : BlocksHold s given) (hit : HoldsValue (s.mem it) value)
    (hres : (doStoreItem cfg env s it comm (cfg.hash (s.key it))).2.1 = .STORED) :
    ∃ n, StoredBlock (doStoreItem cfg env s it comm (cfg.hash (s.key it))).1 (s.key it) n
      (newValue comm (given (s.key it)) value ++ [13, 10]) := by
  have hdata := holdsValue_iff.mp hit
  unfold doStoreItem at hres ⊢
  rcases doItemGet_outcome h g.roomAt with ⟨s', he, hg⟩ | ⟨s', old, he, hg⟩
  · rw [he] at hres ⊢
    have hlink := storedBlock_link cfg s' it (cfg.hash (s.key it))
    rw [show s'.key it = s.key it from key_of_body (hg.body it),
      stored_field itemData (fun _ => rfl) (stored_of_body (hg.body it)), hdata] at hlink
    cases comm with
    | add | set => exact ⟨it, hlink⟩
    | replace | append | prepend | cas => cases hres
  · rw [he] at hres ⊢
    have hreplace := (storedBlock_replace cfg s' (hg.ne g.unlinked) (cfg.hash (s.key it))).remove cfg old
    rw [show s'.key it = s.key it from key_of_body (hg.body it),
      stored_field itemData (fun _ => rfl) (stored_of_body (hg.body it)), hdata] at hreplace
    obtain ⟨v, hv, hold⟩ := hb old ((hg.linked old).symm.trans hg.stored)
    rw [show s.key old = s.key it from (key_of_body (hg.body old)).symm.trans hg.key] at hv
    cases comm with
    | set | replace => exact ⟨it, hreplace⟩
    | add => cases hres
    | append =>
      dsimp only at hres ⊢
      split at hres
      · cases hres
      · rename_i hc
        rw [if_neg hc, newValue, hv]
        exact storeMerged_block hg h g he ⟨.inl rfl, hc⟩ hold hit hres
    | prepend =>
      dsimp only at hres ⊢
      split at hres
      · cases hres
      · rename_i hc
        rw [if_neg hc, newValue, hv]
        exact storeMerged_block hg h g he ⟨.inr rfl, hc⟩ hold hit hres
    | cas =>
      dsimp only at hres ⊢
      split at hres
      · rename_i hc
        rw [if_pos hc]
        exact ⟨it, hreplace⟩
      · cases hres

/-- A number counted up or down is stored as it is printed. -/
theorem doAddDelta_block (h : StoreOk cfg s held) {env : AllocEnv} {incr : Bool} {delta cas : UInt64}
    (g : DeltaGuard cfg env s key incr delta)
    (hres : (doAddDelta cfg env s key incr delta cas (cfg.hash key)).2.result = .OK) :
    ∃ n, StoredBlock (doAddDelta cfg env s key incr delta cas (cfg.hash key)).1 key n
      ((doAddDelta cfg env s key incr delta cas (cfg.hash key)).2.buf ++ [13, 10]) := by
  unfold doAddDelta doAddDeltaReading at hres ⊢
  rcases doItemGet_outcome h g.roomAt with ⟨s', he, hg⟩ | ⟨s', old, he, hg⟩
  · rw [he] at hres
    cases hres
  · rw [he] at hres ⊢
    dsimp only at hres ⊢
    by_cases hm : cas ≠ 0 ∧ itemGetCas (s'.mem old) ≠ cas
    · rw [if_pos hm] at hres
      cases hres
    · rw [if_neg hm] at hres ⊢
      cases hv : safeStrtoull (dataString cfg (s'.mem old)) with
      | none =>
        rw [hv] at hres
        cases hres
      | some value =>
        rw [hv] at hres
        dsimp only at hres ⊢
        -- the lookup took a reference, so the item is never written in place
        rw [if_pos (.inr (hg.shared h))] at hres ⊢
        have ha := g.alloc s' old value he hv
        generalize decimal (deltaValue incr delta value).toNat = buf at ha hres ⊢
        rw [show itemKey (s'.mem old) = key from hg.key] at hres ⊢
        rcases hc : doItemAlloc cfg env s' key (strtol ((itemSuffix (s'.mem old)).drop 1))
          (s'.mem old).exptime (buf.length + 2) (cfg.hash key) with ⟨s2, r⟩
        rw [hc] at hres
        cases r with
        | none => cases hres
        | some n =>
          obtain ⟨_, hfc⟩ := freshCopy (hg.ok h) ha hc (writeData_bytes 0 (buf ++ [13, 10]) (s2.mem n))
          have hno : old ≠ n := hfc.ne (addRef_self held old)
          have hdata : itemData (writeData 0 (buf ++ [13, 10]) (s2.mem n)) = buf ++ [13, 10] := by
            rcases doItemAlloc_spec (hg.ok h) ha.page key _ (s'.mem old).exptime _ _ ha.noRepair with
              he' | ⟨_, _, _, _, he', _, _, hmem⟩
            · rw [hc] at he'
              cases he'
            · rw [hc] at he'
              cases he'
              have hn : (s2.mem n).nbytes = (buf ++ [13, 10]).length := by
                rw [hmem, List.length_append]
                rfl
              change slice (blit (s2.mem n).bytes (itemDataOff (s2.mem n)) (buf ++ [13, 10]))
                (itemDataOff (s2.mem n)) (s2.mem n).nbytes = _
              rw [hn, slice_blit_self]
          have hblock := storedBlock_replace cfg (s2.modify n (writeData 0 (buf ++ [13, 10])))
            (Ne.symm hno) (cfg.hash key)
          rw [hfc.key, modify_mem_self, hdata] at hblock
          dsimp only
          generalize doItemReplace cfg (s2.modify n (writeData 0 (buf ++ [13, 10]))) old n
            (cfg.hash key) = s3 at hblock ⊢
          have hcas : StoredBlock (s3.modify old fun i =>
              itemSetCas i (if cfg.useCas then itemGetCas (s3.mem n) else 0)) key n (buf ++ [13, 10]) := by
            obtain ⟨h1, h2, h3⟩ := hblock
            unfold Store.key at h2
            refine ⟨?_, ?_, ?_⟩
            · rwa [modify_mem_of_ne (Ne.symm hno)]
            · unfold Store.key
              rwa [modify_mem_of_ne (Ne.symm hno)]
            · rwa [modify_mem_of_ne (Ne.symm hno)]
          exact ⟨n, (hcas.remove cfg n).remove cfg old⟩

/-! ## The clients, and what they gave the keys -/

inductive ValueOp where
  | plain (op : ClientOp)
  | receive (it : Ptr) (off : Nat) (data : Bytes)
  | nreadAscii (env : AllocEnv) (it : Ptr) (comm : NRead) (data : Bytes)
  | updateBin (env : AllocEnv) (it : Ptr) (comm : NRead) (value : Bytes)
  | delta (env : AllocEnv) (key : Bytes) (incr : Bool) (delta cas : UInt64)
  | incrAlloc (env : AllocEnv) (key : Bytes) (exptime : UInt32)
  | incrInitial (env : AllocEnv) (it : Ptr) (initial : UInt64)

structure StoreValues where
  items : ItemsState
  /-- The value the commands gave each key last. -/
  given : Bytes → Option Bytes

def valuesInit (hashpower : Nat) : StoreValues := ⟨itemsInit hashpower, fun _ => none⟩

def giveValue (given : Bytes → Option Bytes) (key : Bytes) (comm : NRead) (value : Bytes)
    (ret : StoreItemType) : Bytes → Option Bytes :=
  if ret = .STORED then Function.update given key (some (newValue comm (given key) value)) else given

/-- The commands that write no data block. -/
def WritesNone : ClientOp → Prop
  | .complete _ _ _ _ | .delta _ _ _ _ _ => False
  | _ => True

inductive ValueStep (cfg : Settings) (processStarted : Int) :
    StoreValues → ValueOp → StoreValues → Prop where
  | plain {s s' : ItemsState} {given : Bytes → Option Bytes} {op : ClientOp} : WritesNone op →
      ClientStep cfg processStarted s op s' →
      ValueStep cfg processStarted ⟨s, given⟩ (.plain op) ⟨s', given⟩
  | receive (s : Store) (held : Ptr → Nat) (given : Bytes → Option Bytes) (it : Ptr) (off : Nat)
      (data : Bytes) : 0 < held it → (s.mem it).linked = false →
      off + data.length ≤ (s.mem it).nbytes →
      ValueStep cfg processStarted ⟨⟨s, held⟩, given⟩ (.receive it off data)
        ⟨⟨s.modify it (writeData off data), held⟩, given⟩
  | nreadAscii (s : Store) (held : Ptr → Nat) (given : Bytes → Option Bytes) (env : AllocEnv)
      (it : Ptr) (comm : NRead) (data : Bytes) : 0 < held it → (s.mem it).linked = false →
      data.length = (s.mem it).nbytes →
      ValueStep cfg processStarted ⟨⟨s, held⟩, given⟩ (.nreadAscii env it comm data)
        ⟨⟨(nreadAscii cfg env s it comm data).1, dropRef held it⟩,
          giveValue given (s.key it) comm (data.take (data.length - 2))
            (nreadAscii cfg env s it comm data).2⟩
  | updateBin (s : Store) (held : Ptr → Nat) (given : Bytes → Option Bytes) (env : AllocEnv)
      (it : Ptr) (comm : NRead) (value : Bytes) : 0 < held it → (s.mem it).linked = false →
      value.length + 2 = (s.mem it).nbytes →
      ValueStep cfg processStarted ⟨⟨s, held⟩, given⟩ (.updateBin env it comm value)
        ⟨⟨(updateBin cfg env s it comm value).1, dropRef held it⟩,
          giveValue given (s.key it) comm value (updateBin cfg env s it comm value).2⟩
  | delta (s : Store) (held : Ptr → Nat) (given : Bytes → Option Bytes) (env : AllocEnv)
      (key : Bytes) (incr : Bool) (delta cas : UInt64) :
      ValueStep cfg processStarted ⟨⟨s, held⟩, given⟩ (.delta env key incr delta cas)
        ⟨⟨(doAddDelta cfg env s key incr delta cas (cfg.hash key)).1, held⟩,
          if (doAddDelta cfg env s key incr delta cas (cfg.hash key)).2.result = .OK then
            Function.update given key
              (some (doAddDelta cfg env s key incr delta cas (cfg.hash key)).2.buf)
          else given⟩
  | incrAlloc (s : Store) (held : Ptr → Nat) (given : Bytes → Option Bytes) (env : AllocEnv)
      (key : Bytes) (exptime : UInt32) :
      ValueStep cfg processStarted ⟨⟨s, held⟩, given⟩ (.incrAlloc env key exptime)
        ⟨⟨(doItemAlloc cfg env s key 0 exptime INCR_MAX_STORAGE_LEN 0).1,
          giveRef held (doItemAlloc cfg env s key 0 exptime INCR_MAX_STORAGE_LEN 0).2⟩, given⟩
  | incrInitial (s : Store) (held : Ptr → Nat) (given : Bytes → Option Bytes) (env : AllocEnv)
      (it : Ptr) (initial : UInt64) : 0 < held it → (s.mem it).linked = false →
      (s.mem it).nbytes = INCR_MAX_STORAGE_LEN →
      ValueStep cfg processStarted ⟨⟨s, held⟩, given⟩ (.incrInitial env it initial)
        ⟨⟨(incrInitialBin cfg env s it initial).1, dropRef held it⟩,
          giveValue given (s.key it) .add (decimal initial.toNat)
            (incrInitialBin cfg env s it initial).2⟩

/-- The condition on a command: no count is full and no tail repair happens, and an
initial value of a binary increment comes too late, another client having stored the
key. -/
def KeepsBlocks (cfg : Settings) (processStarted : Int) (v : StoreValues) : ValueOp → Prop
  | .plain op => Unhindered cfg processStarted v.items op
  | .receive _ _ _ => True
  | .nreadAscii env it comm data =>
    StoreGuard cfg env (v.items.store.modify it (writeData 0 data)) v.items.held it comm
  | .updateBin env it comm value =>
    StoreGuard cfg env (v.items.store.modify it (updateBlock value)) v.items.held it comm
  | .delta env key incr delta _ => DeltaGuard cfg env v.items.store key incr delta
  | .incrAlloc env key _ => AllocGuard cfg env v.items.store key 0 INCR_MAX_STORAGE_LEN 0
  | .incrInitial env it initial =>
    StoreGuard cfg env (v.items.store.modify it (initialBlock initial)) v.items.held it .add ∧
      lookup cfg v.items.store (v.items.store.key it) ≠ none

/-! ## What a command does to the blocks -/

theorem ClientInv.of_run {w : Bytes → Prop} {s s' : ItemsState} (h : ClientInv cfg s)
    (hr : ∃ ops, Run (QuietStep cfg fun key _ => w key) s ops s') :
    ClientInv cfg s' ∧ Ages cfg w s s' := by
  have ha := Ages.of_run h.toFlushInv hr
  exact ⟨⟨ha.inv, (quiet_clock h.ok hr).2.2.trans h.rebal⟩, ha⟩

theorem BlocksHold.carried (hb : BlocksHold s given) (hl : (s.mem p).linked = true)
    (hs : (m.mem p).stored = (s.mem p).stored) : ∃ v, given (m.key p) = some v ∧ HoldsValue (m.mem p) v := by
  obtain ⟨v, hv, hp⟩ := hb p hl
  refine ⟨v, ?_, hp.congr hs⟩
  rw [← hv]
  exact congrArg given (stored_field itemKey (fun _ => rfl) hs)

/-- Nothing was stored. -/
theorem BlocksHold.none {w : Bytes → Prop} {s s' : ItemsState} (hb : BlocksHold s.store given)
    (ha : Ages cfg w s s') (hw : ∀ k, ¬w k) : BlocksHold s'.store given := by
  intro p hp
  have hc := (ha.items p hp).resolve_right (hw _)
  exact hb.carried hc.linked hc.stored

/-- Nothing but the item `n` was stored, with the value its key was given. -/
theorem BlocksHold.one {w : Bytes → Prop} {s s' : ItemsState} (hb : BlocksHold s.store given)
    (ha : Ages cfg w s s') (hw : ∀ k, w k → k = key)
    (hn : StoredBlock s'.store key n (value ++ [13, 10])) :
    BlocksHold s'.store (Function.update given key (some value)) := by
  intro p hp
  by_cases hk : s'.store.key p = key
  · obtain rfl : p = n := ha.inv.ok.key_inj hp hn.linked (hk.trans hn.key.symm)
    exact ⟨value, by rw [hk, Function.update_self], holdsValue_iff.mpr hn.data⟩
  · have hc := (ha.items p hp).resolve_right fun h => hk (hw _ h)
    rw [Function.update_of_ne hk]
    exact hb.carried hc.linked hc.stored

/-- A write to the block of an item that is not stored. -/
theorem write_keeps_blocks (h : ClientInv cfg ⟨s, held⟩) (hb : BlocksHold s given) (hh : 0 < held it)
    (hl : (s.mem it).linked = false)
    (hf : ∃ bytes, f (s.mem it) = { s.mem it with bytes := bytes } ∧
      ∀ k < itemDataOff (s.mem it), bytes k = (s.mem it).bytes k) :
    ClientInv cfg ⟨s.modify it f, held⟩ ∧ BlocksHold (s.modify it f) given ∧
      (s.modify it f).key it = s.key it := by
  obtain ⟨hinv, ha⟩ := h.of_run (w := fun _ => False) (run_step (write_step hh hl hf))
  refine ⟨hinv, hb.none ha fun _ => id, ?_⟩
  obtain ⟨bytes, he, hbytes⟩ := hf
  unfold Store.key
  rw [modify_mem_self, he, itemKey_write hbytes]

theorem storeRelease_ages (h : ClientInv cfg ⟨s, held⟩) {env : AllocEnv} {comm : NRead}
    (g : StoreGuard cfg env s held it comm) :
    ClientInv cfg ⟨(storeRelease cfg env s it comm).1, dropRef held it⟩ ∧
      Ages cfg (fun k => k = s.key it ∧ (storeRelease cfg env s it comm).2 = .STORED) ⟨s, held⟩
        ⟨(storeRelease cfg env s it comm).1, dropRef held it⟩ :=
  h.of_run (run_trans (doStoreItem_run h.ok h.items g fun hr => ⟨rfl, hr⟩) (run_step (remove_step g.held)))

theorem storeRelease_keeps_blocks (h : ClientInv cfg ⟨s, held⟩) {env : AllocEnv} {comm : NRead}
    (g : StoreGuard cfg env s held it comm) (hb : BlocksHold s given)
    (hit : HoldsValue (s.mem it) value) :
    ClientInv cfg ⟨(storeRelease cfg env s it comm).1, dropRef held it⟩ ∧
      BlocksHold (storeRelease cfg env s it comm).1
        (giveValue given (s.key it) comm value (storeRelease cfg env s it comm).2) := by
  obtain ⟨hinv, ha⟩ := storeRelease_ages h g
  refine ⟨hinv, ?_⟩
  unfold giveValue
  split
  · rename_i hres
    obtain ⟨n, hn⟩ := doStoreItem_block h.ok g hb hit hres
    exact BlocksHold.one (n := n) hb ha (fun _ hk => hk.1) (hn.remove cfg it)
  · rename_i hres
    exact hb.none ha fun _ hk => hres hk.2

theorem itemData_writeData {i : Item} (hn : data.length = i.nbytes) :
    itemData (writeData 0 data i) = data := by
  change slice (blit i.bytes (itemDataOff i) data) (itemDataOff i) i.nbytes = data
  rw [← hn, slice_blit_self]

theorem HoldsValue.of_data {i : Item} (hn : data.length = i.nbytes) (h2 : 2 ≤ i.nbytes)
    (he : EndsInCrlf (writeData 0 data i)) :
    HoldsValue (writeData 0 data i) (data.take (data.length - 2)) := by
  refine ⟨h2, he, ?_⟩
  rw [itemData_writeData hn, hn]
  rfl

theorem updateBlock_bytes (value : Bytes) (i : Item) :
    ∃ bytes, updateBlock value i = { i with bytes := bytes } ∧
      ∀ k < itemDataOff i, bytes k = i.bytes k :=
  ⟨_, rfl, fun k hk => by
    dsimp only [itemDataOff, writeData] at hk ⊢
    rw [blit_of_out (by omega), blit_of_out (by omega)]⟩

theorem HoldsValue.of_update {i : Item} (hn : value.length + 2 = i.nbytes) :
    HoldsValue (updateBlock value i) value := by
  rw [holdsValue_iff]
  change slice (blit (blit i.bytes (itemDataOff i) value) (itemDataOff i + (i.nbytes - 2)) [13, 10])
    (itemDataOff i) i.nbytes = _
  have hk : i.nbytes - 2 = value.length := by omega
  have hlen : i.nbytes = value.length + ([13, 10] : Bytes).length := by
    rw [← hn]
    rfl
  rw [hk, hlen, slice_blit_overlap (Nat.le_refl _), List.take_length]

/-- An initial value that comes too late is not stored. -/
theorem incrInitial_late (h : ClientInv cfg ⟨s, held⟩) {env : AllocEnv}
    (g : StoreGuard cfg env s held it .add) (hk : lookup cfg s (s.key it) ≠ none) :
    (storeRelease cfg env s it .add).2 = .NOT_STORED := by
  unfold storeRelease doStoreItem
  rcases doItemGet_outcome h.ok g.roomAt with ⟨s', he, hg⟩ | ⟨s', old, he, _⟩
  · exact absurd (hg.lookup_none h.ok h.rebal).1 hk
  · rw [he]

/-- The commands that write no block store nothing. -/
theorem plain_keeps_blocks {s s' : ItemsState} {op : ClientOp} (h : ClientInv cfg s)
    (hq : Unhindered cfg processStarted s op) (hw : WritesNone op) (hb : BlocksHold s.store given)
    (hs : ClientStep cfg processStarted s op s') : BlocksHold s'.store given := by
  have hages := fun hf => hs.ages h.toFlushInv (hq.keeps hf)
  cases hs with
  | flushAll s held exptime =>
    intro p hp
    have hmem := flush_mem cfg { s with oldestLive := flushMark processStarted s exptime } p
    exact hb.carried (hmem.2.1 hp) (stored_of_body hmem.1)
  | complete | delta => exact hw.elim
  | _ => exact hb.none (hages nofun) fun _ => id

/-- A key that is live stays so while data is read for another item. -/
theorem lookup_write (h : StoreOk cfg s held) (h' : StoreOk cfg (s.modify it f) held)
    (hl : (s.mem it).linked = false) (hk : lookup cfg s key ≠ none) :
    lookup cfg (s.modify it f) key ≠ none := by
  obtain ⟨e, he⟩ := Option.ne_none_iff_exists'.mp hk
  obtain ⟨q, hq, hqk, hlive, hqe⟩ := (lookup_some h).mp he
  have hne : q ≠ it := by
    rintro rfl
    rw [hl] at hq
    cases hq
  have hsome : lookup cfg (s.modify it f) key = some e := by
    refine (lookup_some h').mpr ⟨q, ?_, ?_, ?_, ?_⟩
    · rwa [modify_mem_of_ne hne]
    · unfold Store.key at hqk ⊢
      rwa [modify_mem_of_ne hne]
    · rwa [modify_mem_of_ne hne]
    · rwa [modify_mem_of_ne hne]
  rw [hsome]
  nofun

/-- Every command keeps the blocks in order. -/
theorem ValueStep.keeps {v v' : StoreValues} {op : ValueOp} (h : ClientInv cfg v.items)
    (hb : BlocksHold v.items.store v.given) (hq : KeepsBlocks cfg processStarted v op)
    (hs : ValueStep cfg processStarted v op v') :
    ClientInv cfg v'.items ∧ BlocksHold v'.items.store v'.given := by
  cases hs with
  | plain hw hs => exact ⟨(hs.keeps_inv h hq).1, plain_keeps_blocks h hq hw hb hs⟩
  | receive s held given it off data hh hl _ =>
    obtain ⟨hinv, hb', _⟩ := write_keeps_blocks h hb hh hl (writeData_bytes off data (s.mem it))
    exact ⟨hinv, hb'⟩
  | nreadAscii s held given env it comm data hh hl hn =>
    obtain ⟨hinv, hb', hkey⟩ := write_keeps_blocks h hb hh hl (writeData_bytes 0 data (s.mem it))
    dsimp only [RamCube.nreadAscii]
    by_cases he : EndsInCrlf ((s.modify it (writeData 0 data)).mem it)
    · rw [if_pos he]
      rw [modify_mem_self] at he
      have hit := HoldsValue.of_data hn (h.items it (.inr hh)).nbytes he
      rw [← hkey]
      exact storeRelease_keeps_blocks hinv hq hb' (by rwa [modify_mem_self])
    · rw [if_neg he]
      obtain ⟨hinv', ha⟩ := hinv.of_run (w := fun _ => False) (run_step (remove_step hh))
      exact ⟨hinv', hb'.none ha fun _ => id⟩
  | updateBin s held given env it comm value hh hl hn =>
    obtain ⟨hinv, hb', hkey⟩ := write_keeps_blocks h hb hh hl (updateBlock_bytes value (s.mem it))
    dsimp only [RamCube.updateBin]
    rw [← hkey]
    refine storeRelease_keeps_blocks hinv hq hb' ?_
    rw [modify_mem_self]
    exact .of_update hn
  | delta s held given env key incr delta cas =>
    obtain ⟨hinv, ha⟩ := h.of_run (doAddDelta_run (w := fun k _ => k = key ∧
      (doAddDelta cfg env s key incr delta cas (cfg.hash key)).2.result = .OK) h.ok cas hq
      fun hr => ⟨rfl, hr⟩)
    refine ⟨hinv, ?_⟩
    dsimp only
    split
    · rename_i hres
      obtain ⟨n, hn⟩ := doAddDelta_block h.ok hq hres
      exact BlocksHold.one (n := n) hb ha (fun _ hk => hk.1) hn
    · rename_i hres
      exact hb.none ha fun _ hk => hres hk.2
  | incrAlloc s held given env key exptime =>
    obtain ⟨hinv, ha⟩ := h.of_run (w := fun _ => False) (run_step (alloc_step exptime (by decide) hq))
    exact ⟨hinv, hb.none ha fun _ => id⟩
  | incrInitial s held given env it initial hh hl hn =>
    obtain ⟨hinv, hb', hkey⟩ := write_keeps_blocks h hb hh hl
      (writeData_bytes 0 (decimal initial.toNat ++ [0]) (s.mem it))
    have hlive := lookup_write h.ok hinv.ok hl hq.2
    rw [← hkey] at hlive
    have hlate := incrInitial_late hinv hq.1 hlive
    obtain ⟨hinv', ha⟩ := storeRelease_ages hinv hq.1
    dsimp only [incrInitialBin, initialBlock, giveValue]
    rw [hlate, if_neg nofun]
    refine ⟨hinv', hb'.none ha fun _ hk => ?_⟩
    rw [hlate] at hk
    cases hk.2

/-- In every run in which no binary increment stores an initial value, every stored item
holds the value the commands gave its key, and CR LF after it. -/
theorem stored_blocks_hold {k : Nat} {ops : List ValueOp} {v : StoreValues}
    (hr : Run (Guarded (KeepsBlocks cfg processStarted) (ValueStep cfg processStarted)) (valuesInit k)
      ops v) :
    ∀ p, (v.items.store.mem p).linked = true →
      ∃ value, v.given (v.items.store.key p) = some value ∧ HoldsValue (v.items.store.mem p) value := by
  have hempty : BlocksHold (valuesInit k).items.store (valuesInit k).given := by
    intro p hp
    simp [valuesInit, itemsInit, storeInit, emptyItem] at hp
  exact (hr.invariant_of_guard (I := fun v => ClientInv cfg v.items ∧ BlocksHold v.items.store v.given)
    (fun _ _ _ hi hq hs => hs.keeps hi.1 hi.2 hq) ⟨clientInv_init cfg k, hempty⟩).2

/-! ## A set, and an increment of a missing key -/

/-- The upload of a value of 22 bytes, or the item of an initial value. -/
@[irreducible]
def blockAlloc (k : Bytes) : ItemsState :=
  let r := doItemAlloc oneClass fourChunks (storeInit 16) k 0 0 INCR_MAX_STORAGE_LEN 0
  ⟨r.1, giveRef (fun _ => 0) r.2⟩

@[irreducible]
def blockSet : StoreValues :=
  let data := List.replicate 22 118 ++ [13, 10]
  ⟨⟨(nreadAscii oneClass noPage (blockAlloc [107]).store 7096 .set data).1,
    dropRef (blockAlloc [107]).held 7096⟩,
    giveValue (fun _ => none) ((blockAlloc [107]).store.key 7096) .set (data.take (data.length - 2))
      (nreadAscii oneClass noPage (blockAlloc [107]).store 7096 .set data).2⟩

@[irreducible]
def blockInitial : StoreValues :=
  ⟨⟨(incrInitialBin oneClass noPage (blockAlloc [107]).store 7096 5).1,
    dropRef (blockAlloc [107]).held 7096⟩,
    giveValue (fun _ => none) ((blockAlloc [107]).store.key 7096) .add (decimal (5 : UInt64).toNat)
      (incrInitialBin oneClass noPage (blockAlloc [107]).store 7096 5).2⟩

theorem blockAlloc_step (k : Bytes) : ValueStep oneClass 0 (valuesInit 16) (.incrAlloc fourChunks k 0)
    ⟨blockAlloc k, fun _ => none⟩ := by
  unfold blockAlloc
  exact .incrAlloc (storeInit 16) (fun _ => 0) (fun _ => none) fourChunks k 0

/-- A value of 22 bytes, set by a client of the text protocol. -/
theorem stored_blocks_hold_set : (blockSet.items.store.mem 7096).linked = true ∧
    ∃ value, blockSet.given (blockSet.items.store.key 7096) = some value ∧
      HoldsValue (blockSet.items.store.mem 7096) value := by
  have hlinked : (blockSet.items.store.mem 7096).linked = true := by decide +kernel
  have hset : ValueStep oneClass 0 ⟨blockAlloc [107], fun _ => none⟩
      (.nreadAscii noPage 7096 .set (List.replicate 22 118 ++ [13, 10])) blockSet := by
    unfold blockSet
    exact .nreadAscii (blockAlloc [107]).store (blockAlloc [107]).held (fun _ => none) noPage 7096 .set _
      (by decide +kernel) (by decide +kernel) (by decide +kernel)
  have q1 : KeepsBlocks oneClass 0 (valuesInit 16) (.incrAlloc fourChunks [107] 0) :=
    ⟨by simp [FreshPage, fourChunks, valuesInit, itemsInit, storeInit], rfl⟩
  have q2 : KeepsBlocks oneClass 0 ⟨blockAlloc [107], fun _ => none⟩
      (.nreadAscii noPage 7096 .set (List.replicate 22 118 ++ [13, 10])) :=
    ⟨by decide +kernel, by decide +kernel, .inl rfl, fun _ _ _ => .inl rfl,
      fun _ _ _ hm => hm.1.elim (by simp) (by simp)⟩
  exact ⟨hlinked, stored_blocks_hold (.cons ⟨q1, blockAlloc_step [107]⟩ (.single ⟨q2, hset⟩)) 7096 hlinked⟩

/-- A binary increment of a missing key stores the initial value without CR LF. -/
theorem initial_block_open :
    (∃ ops, Run (ValueStep oneClass 0) (valuesInit 16) ops blockInitial) ∧
      (blockInitial.items.store.mem 7096).linked = true ∧
      blockInitial.given (blockInitial.items.store.key 7096) = some [53] ∧
      ¬EndsInCrlf (blockInitial.items.store.mem 7096) ∧
      ¬HoldsValue (blockInitial.items.store.mem 7096) [53] := by
  have hmiss : ValueStep oneClass 0 (valuesInit 16) (.delta noPage [107] true 1 0) (valuesInit 16) :=
    .delta (storeInit 16) (fun _ => 0) (fun _ => none) noPage [107] true 1 0
  have hstore : ValueStep oneClass 0 ⟨blockAlloc [107], fun _ => none⟩ (.incrInitial noPage 7096 5)
      blockInitial := by
    unfold blockInitial
    exact .incrInitial (blockAlloc [107]).store (blockAlloc [107]).held (fun _ => none) noPage 7096 5
      (by decide +kernel) (by decide +kernel) (by decide +kernel)
  have hopen : ¬EndsInCrlf (blockInitial.items.store.mem 7096) := by decide +kernel
  exact ⟨⟨_, .cons hmiss (.cons (blockAlloc_step [107]) (.single hstore))⟩, by decide +kernel,
    by decide +kernel, hopen, fun h => hopen h.ends⟩

end RamCube
