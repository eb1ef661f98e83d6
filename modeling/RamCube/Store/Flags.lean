import RamCube.Store.Deltas
import RamCube.Store.Expiry

/-! # The flags of an item

The flags are kept as the text between key and data only. Each command that replaces an
item reads them back from there. -/
namespace RamCube

variable {cfg : Settings} {processStarted : Int} {s s' : Store} {it p old : Ptr} {held held' : Ptr → Nat}
  {key got value : Bytes} {flags : Int} {exptime : UInt32} {n : Nat} {i j : Item} {env : AllocEnv} {comm : NRead}

/-! ## An item that waits for its data -/

/-- An item made for `n` bytes of data, `got` of which have arrived. -/
structure LaidOut (i : Item) (key : Bytes) (flags : Int) (exptime : UInt32) (n : Nat) (got : Bytes) : Prop where
  key : itemKey i = key
  exptime : i.exptime = exptime
  nbytes : i.nbytes = n
  suffix : itemSuffix i = headerSuffix flags n
  got : slice i.bytes (itemDataOff i) got.length = got

theorem laidOut_init (cfg : Settings) (id : SlabId) (key : Bytes) (flags : Int) (exptime : UInt32) (n : Nat) (i : Item) :
    LaidOut (itemInit cfg id key flags exptime n i) key flags exptime n [] :=
  ⟨itemInit_key cfg id key flags exptime n i, rfl, rfl, slice_blit_self, rfl⟩

theorem LaidOut.congr (h : LaidOut i key flags exptime n got) (hb : j.body = i.body) :
    LaidOut j key flags exptime n got := by
  have hs := stored_of_body hb
  refine ⟨?_, (exptime_of_body hb).trans h.exptime, ?_, ?_, ?_⟩
  · exact (stored_field itemKey (fun _ => rfl) hs).trans h.key
  · exact (stored_field (·.nbytes) (fun _ => rfl) hs).trans h.nbytes
  · exact (stored_field itemSuffix (fun _ => rfl) hs).trans h.suffix
  · exact (stored_field (fun i => slice i.bytes (itemDataOff i) got.length) (fun _ => rfl) hs).trans h.got

theorem LaidOut.setCas (h : LaidOut i key flags exptime n got) (cas : UInt64) :
    LaidOut (itemSetCas i cas) key flags exptime n got := by
  have hf : ∀ {β : Type} (g : Item → β), (∀ i c, g { i with cas := c } = g i) → g (itemSetCas i cas) = g i :=
    fun g hg => itemSetCas_field g hg i cas
  refine ⟨(hf itemKey fun _ _ => rfl).trans h.key, (hf (·.exptime) fun _ _ => rfl).trans h.exptime,
    (hf (·.nbytes) fun _ _ => rfl).trans h.nbytes, (hf itemSuffix fun _ _ => rfl).trans h.suffix, ?_⟩
  exact (hf (fun i => slice i.bytes (itemDataOff i) got.length) fun _ _ => rfl).trans h.got

/-- The next bytes arrive. -/
theorem LaidOut.write (h : LaidOut i key flags exptime n got) (bs : Bytes) :
    LaidOut (writeData got.length bs i) key flags exptime n (got ++ bs) := by
  obtain ⟨bytes, he, hb⟩ := writeData_bytes got.length bs i
  have hsuffix : itemSuffix (writeData got.length bs i) = itemSuffix i := by
    rw [he]
    exact slice_congr fun k _ hk => hb k (by simpa [itemDataOff] using hk)
  have hkey : itemKey (writeData got.length bs i) = itemKey i := by
    rw [he]
    exact itemKey_write hb
  refine ⟨hkey.trans h.key, h.exptime, h.nbytes, hsuffix.trans h.suffix, ?_⟩
  change slice (blit i.bytes (itemDataOff i + got.length) bs) (itemDataOff i) (got ++ bs).length = _
  rw [List.length_append, slice_add, slice_blit_self, slice_blit_of_disjoint (.inl (Nat.le_refl _)), h.got]

theorem LaidOut.data (h : LaidOut i key flags exptime got.length got) : itemData i = got := by
  have hgot := h.got
  rwa [← h.nbytes] at hgot

/-- The item of a storage command, referred to by its connection only. -/
structure AwaitsData (s : ItemsState) (it : Ptr) (key : Bytes) (flags : Int) (exptime : UInt32) (n : Nat) (got : Bytes) :
    Prop where
  held : 0 < s.held it
  unlinked : (s.store.mem it).linked = false
  item : LaidOut (s.store.mem it) key flags exptime n got

theorem AwaitsData.step {s s' : ItemsState} {op : ClientOp} (h : AwaitsData s it key flags exptime n got)
    (hinv : ClientInv cfg s)
    (hs : Guarded (Unhindered cfg processStarted) (ClientStep cfg processStarted) s op s') (he : ¬Ends it op) :
    AwaitsData s' it key flags exptime n got := by
  obtain ⟨hheld, hu⟩ := hs.2.spares_held hinv hs.1 h.held h.unlinked he
  exact ⟨hheld, hu.linked.trans h.unlinked, h.item.congr hu.body⟩

theorem AwaitsData.write {s : Store} (h : AwaitsData ⟨s, held⟩ it key flags exptime n got) (bs : Bytes) :
    AwaitsData ⟨s.modify it (writeData got.length bs), held⟩ it key flags exptime n (got ++ bs) := by
  refine ⟨h.held, ?_, ?_⟩
  · exact (modify_field (·.linked) rfl it).trans h.unlinked
  · dsimp only
    rw [modify_mem_self]
    exact h.item.write bs

/-- The chunk a storage command gets. -/
theorem doItemAlloc_awaits (h : ClientInv cfg ⟨s, held⟩) (hn : 2 ≤ n) (ha : AllocGuard cfg env s key flags n 0) (cas : UInt64)
    (hal : doItemAlloc cfg env s key flags exptime n 0 = (s', some it)) :
    ClientInv cfg ⟨s'.modify it fun i => itemSetCas i cas, addRef held it⟩ ∧
      AwaitsData ⟨s'.modify it fun i => itemSetCas i cas, addRef held it⟩ it key flags exptime n [] := by
  obtain ⟨m, q, id, i, hal', -, -, hmem⟩ := (doItemAlloc_spec h.ok ha.page key flags exptime n 0 ha.noRepair).resolve_left
    (by rw [hal]; exact fun hx => nomatch hx)
  rw [hal] at hal'
  cases hal'
  have hl : (s'.mem it).linked = false := by
    rw [hmem]
    rfl
  have hitem : LaidOut (s'.mem it) key flags exptime n [] := by
    rw [hmem]
    exact laidOut_init cfg id key flags exptime n i
  have hstep : ∃ op, QuietStep cfg (fun _ _ => True) ⟨s, held⟩ op _ := alloc_step exptime hn ha
  rw [hal] at hstep
  refine ⟨(h.of_run (w := fun _ => True) (run_trans (run_step hstep)
    (run_step (writeCas_step (addRef_self held it) hl cas)))).1, addRef_self held it, ?_, ?_⟩
  · dsimp only
    rw [modify_mem_self, itemSetCas_field (·.linked) (fun _ _ => rfl), hl]
  · dsimp only
    rw [modify_mem_self]
    exact hitem.setCas cas

/-! ## Storing it -/

/-- The item is stored with these flags and this data. -/
structure StoredAs (s : Store) (it : Ptr) (key : Bytes) (flags : Int) (data : Bytes) : Prop where
  linked : (s.mem it).linked = true
  key : s.key it = key
  suffix : itemSuffix (s.mem it) = headerSuffix flags data.length
  data : itemData (s.mem it) = data

theorem storeRelease_clock (h : ClientInv cfg ⟨s, held⟩) (g : StoreGuard cfg env s held it comm) :
    (storeRelease cfg env s it comm).1.currentTime = s.currentTime ∧
      (storeRelease cfg env s it comm).1.oldestLive = s.oldestLive := by
  have hrun := run_trans (doStoreItem_run (w := fun _ _ => True) h.ok h.items g fun _ => trivial)
    (run_step (remove_step g.held))
  obtain ⟨hnow, hmark, -⟩ := quiet_clock h.ok hrun
  exact ⟨hnow, hmark⟩

theorem visible_congr (hnow : s'.currentTime = s.currentTime) (hmark : s'.oldestLive = s.oldestLive) {e e' : Entry}
    (he : e'.exptime = e.exptime) : visible s' e' = visible s e := by
  unfold visible
  rw [hnow, hmark, he]

/-- A retrieval of an item that is neither flushed nor expired. -/
theorem getItem_found (h : StoreOk cfg s held) (hreb : s.slabRebal = none) (hl : (s.mem p).linked = true)
    (hk : s.key p = key) (hlive : flushedOrExpired s (s.mem p) = false) :
    ∃ s', getItem cfg s key = (s', some p) ∧ (s'.mem p).stored = (s.mem p).stored := by
  have hsome := (getItem_returns h hreb hl hk).mpr hlive
  unfold getItem at hsome ⊢
  rcases doItemGet_cases h key with ⟨he, _⟩ | ⟨q, s', he, _⟩ | ⟨q, s', he, _, _, _, _, _, _, _, hm⟩
  · rw [he] at hsome
    cases hsome
  · rw [he] at hsome
    cases hsome
  · rw [he] at hsome ⊢
    cases hsome
    refine ⟨_, rfl, ?_⟩
    obtain ⟨t, hb, -⟩ := update_mem s' p p
    have hstored : ((doItemUpdate s' p).mem p).stored = (s'.mem p).stored := by
      unfold Item.stored
      rw [hb]
    exact hstored.trans (stored_of_body (hm p).1)

theorem getItem_hidden (h : StoreOk cfg s held) (hl : (s.mem p).linked = true) (hk : s.key p = key)
    (hdead : flushedOrExpired s (s.mem p) = true) : (getItem cfg s key).2 = none := by
  unfold getItem
  rcases doItemGet_cases h key with ⟨he, _⟩ | ⟨q, s', he, _⟩ | ⟨q, s', _, hlq, hkq, _, hlive, _⟩
  · rw [he]
  · rw [he]
  · obtain rfl := h.key_inj hlq hl (hkq.trans hk.symm)
    rw [hdead] at hlive
    cases hlive

/-- A command other than append and prepend stores its own item, which is found unless it
is flushed or expired at once. -/
theorem storeRelease_stores {data : Bytes} (h : ClientInv cfg ⟨s, held⟩) (g : StoreGuard cfg env s held it comm)
    (hcomm : comm ≠ .append ∧ comm ≠ .prepend) (hi : LaidOut (s.mem it) key flags exptime data.length data)
    (hres : (storeRelease cfg env s it comm).2 = .STORED) :
    StoredAs (storeRelease cfg env s it comm).1 it key flags data ∧
      flushedOrExpired (storeRelease cfg env s it comm).1 ((storeRelease cfg env s it comm).1.mem it) =
        !visible s ⟨flags, exptime, data, 0⟩ := by
  obtain ⟨entry, hb, hexp⟩ := doStoreItem_binds h.ok h.items g hcomm hres
  have hb' : Bound (storeRelease cfg env s it comm).1 (s.key it) it entry := hb.remove cfg it
  have hfield : ∀ {β : Type} (f : Item → β), (∀ i, f i.stored = f i) → (∀ i c, f { i with cas := c } = f i) →
      f ((storeRelease cfg env s it comm).1.mem it) = f (s.mem it) := by
    intro β f hstored hcas
    have hremove := (doItemRemove_mem cfg (doStoreItem cfg env s it comm (cfg.hash (s.key it))).1 it it).1
    exact (stored_field f hstored (stored_of_body hremove)).trans (doStoreItem_field f hstored hcas h.ok g)
  obtain ⟨hnow, hmark⟩ := storeRelease_clock h g
  have hvis : visible (storeRelease cfg env s it comm).1 entry = visible s ⟨flags, exptime, data, 0⟩ :=
    visible_congr hnow hmark (hexp.trans hi.exptime)
  refine ⟨⟨hb'.linked, hb'.key.trans hi.key, ?_, ?_⟩, ?_⟩
  · exact (hfield itemSuffix (fun _ => rfl) fun _ _ => rfl).trans hi.suffix
  · exact (hfield itemData (fun _ => rfl) fun _ _ => rfl).trans hi.data
  · rw [← hvis, hb'.visible_eq, Bool.not_not]

/-! ## Commands that replace an item -/

/-- The key had a value, and has another with the same flags. -/
def FlagsKept (cfg : Settings) (s s' : Store) (key : Bytes) : Prop :=
  ∃ e e', lookup cfg s key = some e ∧ lookup cfg s' key = some e' ∧ e'.flags = e.flags

/-- Append and prepend give the merged item the flags of the old one. -/
theorem storeRelease_keeps_flags (h : ClientInv cfg ⟨s, held⟩) (g : StoreGuard cfg env s held it comm)
    (hcomm : comm = .append ∨ comm = .prepend) (hres : (storeRelease cfg env s it comm).2 = .STORED) :
    FlagsKept cfg s (storeRelease cfg env s it comm).1 (s.key it) := by
  have hinv := (storeRelease_ages h g).1
  obtain ⟨hnow, hmark⟩ := storeRelease_clock h g
  obtain ⟨s', old, s2, n, he, hm, hal⟩ := (doStoreItem_willStore h g hres).2 hcomm
  obtain ⟨s1, o, he', hg⟩ := (doItemGet_outcome h.ok g.roomAt).resolve_left fun ⟨s1, he', _⟩ => by
    rw [he] at he'
    cases he'
  rw [he] at he'
  cases he'
  have hl : (s.mem old).linked = true := (hg.linked old).symm.trans hg.stored
  obtain ⟨-, hb, -⟩ := storeMerged_bound hg h.ok h.items g he hm hal
  have hstore : doStoreItem cfg env s it comm (cfg.hash (s.key it)) = storeMerged cfg env s' old it comm
      (cfg.hash (s.key it)) := by
    unfold doStoreItem
    rw [he]
    obtain ⟨rfl | rfl, hcas⟩ := hm
    · exact if_neg hcas
    · exact if_neg hcas
  rw [← hstore] at hb
  have hb' : Bound (storeRelease cfg env s it comm).1 (s.key it) n _ := hb.remove cfg it
  have hexp : (mergedEntry comm (itemEntry (s'.mem old)) (itemEntry (s.mem it)) (linkCas cfg s)).exptime =
      (s.mem old).exptime := exptime_of_body (hg.body old)
  refine ⟨_, mergedEntry comm (itemEntry (s'.mem old)) (itemEntry (s.mem it)) (linkCas cfg s), hg.lookup_old h.ok, ?_, rfl⟩
  rw [hb'.lookup hinv.ok, if_pos]
  exact (visible_congr hnow hmark rfl).trans (visible_of_live h.order hl hg.live hexp)

/-- So do incr and decr. -/
theorem doAddDelta_keeps_flags {incr : Bool} {delta cas : UInt64} (h : ClientInv cfg ⟨s, held⟩)
    (g : DeltaGuard cfg env s key incr delta)
    (hres : (doAddDelta cfg env s key incr delta cas (cfg.hash key)).2.result = .OK) :
    FlagsKept cfg s (doAddDelta cfg env s key incr delta cas (cfg.hash key)).1 key := by
  have hrun := doAddDelta_run (w := fun _ _ => True) h.ok cas g fun _ => trivial
  have hok := run_keeps h.ok hrun
  obtain ⟨hnow, hmark, -⟩ := quiet_clock h.ok hrun
  dsimp only at hok hnow hmark
  rcases doItemGet_outcome h.ok g.roomAt with ⟨s', he, hg⟩ | ⟨s', old, he, hg⟩
  · unfold doAddDelta doAddDeltaReading at hres
    rw [he] at hres
    cases hres
  have hl : (s.mem old).linked = true := (hg.linked old).symm.trans hg.stored
  obtain ⟨hcas, v, hv, s2, n, hal⟩ : (cas = 0 ∨ itemGetCas (s'.mem old) = cas) ∧
      ∃ v, safeStrtoull (dataString cfg (s'.mem old)) = some v ∧ ∃ s2 n, doItemAlloc cfg env s' key
        (strtol ((itemSuffix (s'.mem old)).drop 1)) (s'.mem old).exptime
        ((decimal (deltaValue incr delta v).toNat).length + 2) (cfg.hash key) = (s2, some n) := by
    unfold doAddDelta doAddDeltaReading at hres
    rw [he] at hres
    dsimp only at hres
    by_cases hm : cas ≠ 0 ∧ itemGetCas (s'.mem old) ≠ cas
    · rw [if_pos hm] at hres
      cases hres
    rw [if_neg hm] at hres
    refine ⟨by_contra fun hc => hm (not_or.mp hc), ?_⟩
    cases hv : safeStrtoull (dataString cfg (s'.mem old)) with
    | none =>
      rw [hv] at hres
      cases hres
    | some v =>
      rw [hv] at hres
      dsimp only at hres
      rw [if_pos (.inr (hg.shared h.ok)), show itemKey (s'.mem old) = key from hg.key] at hres
      refine ⟨v, rfl, ?_⟩
      cases hal : doItemAlloc cfg env s' key (strtol ((itemSuffix (s'.mem old)).drop 1)) (s'.mem old).exptime
          ((decimal (deltaValue incr delta v).toNat).length + 2) (cfg.hash key) with
      | mk s2 r =>
        rw [hal] at hres
        cases r with
        | none => cases hres
        | some n => exact ⟨s2, n, rfl⟩
  obtain ⟨-, hb, -⟩ := doAddDeltaReading_bound hg h.ok h.items ⟨g.roomAt, g.alloc⟩ he hcas hv hal
  have hb' : Bound (doAddDelta cfg env s key incr delta cas (cfg.hash key)).1 key n _ := hb
  have hexp : (s'.mem old).exptime = (s.mem old).exptime := exptime_of_body (hg.body old)
  refine ⟨_, { itemEntry (s'.mem old) with
    value := decimal (deltaValue incr delta v).toNat, cas := linkCas cfg s }, hg.lookup_old h.ok, ?_, rfl⟩
  rw [hb'.lookup hok, if_pos]
  exact (visible_congr hnow hmark rfl).trans (visible_of_live h.order hl hg.live hexp)

end RamCube
