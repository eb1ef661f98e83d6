import RamCube.Store.CommandRuns
import RamCube.Store.ItemsOrder

/-! # The store as a map

What the store means to its clients: a map from keys to entries, in which an
entry that is flushed or has expired counts as absent. `do_store_item` does to
this map what `storeSpec` says. -/
namespace RamCube

variable {cfg : Settings} {s s' m : Store} {it n p : Ptr} {held held' : Ptr → Nat} {key k : Bytes}

structure Entry where
  flags : Int
  exptime : UInt32
  value : Bytes
  cas : UInt64
deriving DecidableEq

/-- The entry an item stands for; its value is its data without the CRLF. -/
def itemEntry (i : Item) : Entry where
  flags := itemFlags i
  exptime := i.exptime
  value := (itemData i).take (i.nbytes - 2)
  cas := itemGetCas i

/-- The entry bound to a key, dead or alive. -/
def binding (cfg : Settings) (s : Store) (key : Bytes) : Option Entry :=
  (assocFind s.key s.assoc key (cfg.hash key)).map fun it => itemEntry (s.mem it)

/-- The entry a client finds under a key. -/
def lookup (cfg : Settings) (s : Store) (key : Bytes) : Option Entry :=
  match assocFind s.key s.assoc key (cfg.hash key) with
  | none => none
  | some it => if flushedOrExpired s (s.mem it) then none else some (itemEntry (s.mem it))

/-- Is an entry stored at this moment found by the next lookup? -/
def visible (s : Store) (e : Entry) : Bool :=
  !(s.oldestLive != 0 && s.oldestLive == s.currentTime) &&
    !(e.exptime != 0 && e.exptime ≤ s.currentTime)

theorem binding_eq (h : StoreOk cfg s held) (hl : (s.mem p).linked = true) (hk : s.key p = key) :
    binding cfg s key = some (itemEntry (s.mem p)) := by
  unfold binding
  rw [h.find_iff.mpr ⟨hl, hk⟩]
  rfl

theorem lookup_eq (h : StoreOk cfg s held) (hl : (s.mem p).linked = true) (hk : s.key p = key) :
    lookup cfg s key =
      if flushedOrExpired s (s.mem p) then none else some (itemEntry (s.mem p)) := by
  unfold lookup
  rw [h.find_iff.mpr ⟨hl, hk⟩]

theorem lookup_absent (h : StoreOk cfg s held)
    (hn : ∀ p, (s.mem p).linked = true → s.key p = key → flushedOrExpired s (s.mem p) = true) :
    lookup cfg s key = none := by
  unfold lookup
  cases hf : assocFind s.key s.assoc key (cfg.hash key) with
  | none => rfl
  | some it =>
    obtain ⟨hl, hk⟩ := h.find_iff.mp hf
    dsimp only
    rw [if_pos (hn it hl hk)]

theorem lookup_some (h : StoreOk cfg s held) {e : Entry} : lookup cfg s key = some e ↔
    ∃ p, (s.mem p).linked = true ∧ s.key p = key ∧ flushedOrExpired s (s.mem p) = false ∧
      itemEntry (s.mem p) = e := by
  constructor
  · intro hs
    unfold lookup at hs
    cases hf : assocFind s.key s.assoc key (cfg.hash key) with
    | none =>
      rw [hf] at hs
      cases hs
    | some it =>
      obtain ⟨hl, hk⟩ := h.find_iff.mp hf
      rw [hf] at hs
      dsimp only at hs
      by_cases hd : flushedOrExpired s (s.mem it) = true
      · rw [if_pos hd] at hs
        cases hs
      · rw [if_neg hd, Option.some.injEq] at hs
        exact ⟨it, hl, hk, Bool.not_eq_true _ ▸ hd, hs⟩
  · intro ⟨p, hl, hk, hd, he⟩
    rw [lookup_eq h hl hk, hd, he]
    rfl

theorem itemEntry_of_body {i j : Item} (h : i.body = j.body) : itemEntry i = itemEntry j := by
  change itemEntry i.body = itemEntry j.body
  rw [h]

/-! ## The other keys -/

/-- From `s` to `m` the live bindings of the keys other than `key` stay as they are. -/
structure OthersKept (s m : Store) (key : Bytes) : Prop where
  now : m.currentTime = s.currentTime
  mark : m.oldestLive = s.oldestLive
  back : ∀ p, (m.mem p).linked = true → m.key p ≠ key →
    (s.mem p).linked = true ∧ (m.mem p).body = (s.mem p).body
  kept : ∀ p, (s.mem p).linked = true → s.key p ≠ key → flushedOrExpired s (s.mem p) = false →
    (m.mem p).linked = true ∧ (m.mem p).body = (s.mem p).body

theorem dead_congr {i j : Item} (hnow : m.currentTime = s.currentTime)
    (hmark : m.oldestLive = s.oldestLive) (hb : j.body = i.body) :
    flushedOrExpired m j = flushedOrExpired s i := by
  unfold flushedOrExpired
  rw [hnow, hmark, time_of_body hb, exptime_of_body hb]

theorem OthersKept.trans {m' : Store} (h : OthersKept s m key) (h' : OthersKept m m' key) :
    OthersKept s m' key := by
  refine ⟨h'.now.trans h.now, h'.mark.trans h.mark, fun p hl hk => ?_, fun p hl hk hd => ?_⟩
  · obtain ⟨hl', hb'⟩ := h'.back p hl hk
    obtain ⟨hl'', hb''⟩ := h.back p hl' (fun he => hk ((key_of_body hb').trans he))
    exact ⟨hl'', hb'.trans hb''⟩
  · obtain ⟨hl', hb'⟩ := h.kept p hl hk hd
    obtain ⟨hl'', hb''⟩ := h'.kept p hl' (fun he => hk ((key_of_body hb').symm.trans he))
      ((dead_congr h.now h.mark hb').trans hd)
    exact ⟨hl'', hb''.trans hb'⟩

theorem OthersKept.lookup (h : StoreOk cfg s held) (h' : StoreOk cfg m held')
    (ho : OthersKept s m key) (hk : k ≠ key) : lookup cfg m k = lookup cfg s k := by
  cases hs : RamCube.lookup cfg s k with
  | some e =>
    obtain ⟨p, hl, hpk, hd, he⟩ := (lookup_some h).mp hs
    obtain ⟨hl', hb⟩ := ho.kept p hl (fun hc => hk (hpk.symm.trans hc)) hd
    refine (lookup_some h').mpr ⟨p, hl', (key_of_body hb).trans hpk, ?_, ?_⟩
    · exact (dead_congr ho.now ho.mark hb).trans hd
    · exact (itemEntry_of_body hb).trans he
  | none =>
    refine lookup_absent h' fun p hl hpk => ?_
    obtain ⟨hl', hb⟩ := ho.back p hl (fun hc => hk (hpk.symm.trans hc))
    rw [dead_congr ho.now ho.mark hb]
    by_contra hd
    rw [lookup_eq h hl' ((key_of_body hb).symm.trans hpk), if_neg hd] at hs
    cases hs

/-- A change that leaves marks and contents alone but for items stored under `key`. -/
theorem OthersKept.of_mem (hv : m.currentTime = s.currentTime ∧ m.oldestLive = s.oldestLive)
    (hm : ∀ p, s.key p ≠ key ∨ m.key p ≠ key →
      (m.mem p).linked = (s.mem p).linked ∧ (m.mem p).body = (s.mem p).body) :
    OthersKept s m key where
  now := hv.1
  mark := hv.2
  back := fun p hl hk => by
    obtain ⟨h1, h2⟩ := hm p (.inr hk)
    exact ⟨h1 ▸ hl, h2⟩
  kept := fun p hl hk _ => by
    obtain ⟨h1, h2⟩ := hm p (.inl hk)
    exact ⟨h1 ▸ hl, h2⟩

theorem othersKept_remove (cfg : Settings) (s : Store) (it : Ptr) (key : Bytes) :
    OthersKept s (doItemRemove cfg s it) key := by
  have hv := (env_doItemRemove cfg s it).1
  exact .of_mem ⟨congrArg (·.1) hv, congrArg (·.2.1) hv⟩ fun p _ =>
    ⟨(doItemRemove_mem cfg s it p).2.1, (doItemRemove_mem cfg s it p).1⟩

theorem othersKept_update (s : Store) (it : Ptr) : OthersKept s (doItemUpdate s it) (s.key it) := by
  have hv := (env_update s it).1
  have hkey : ∀ p, (doItemUpdate s it).key p = s.key p := fun p => by
    obtain ⟨t, hb, _⟩ := update_mem s it p
    change itemKey ((doItemUpdate s it).mem p).body = _
    rw [hb]
    rfl
  refine .of_mem ⟨congrArg (·.1) hv, congrArg (·.2.1) hv⟩ fun p hp => ?_
  have hne : p ≠ it := fun he => hp.elim (fun h => h (by rw [he])) fun h => h (by rw [he, hkey])
  obtain ⟨t, hb, hl, _, ht⟩ := update_mem s it p
  rw [ht.resolve_right fun ht => hne ht.1] at hb
  exact ⟨hl, hb⟩

theorem othersKept_link (cfg : Settings) (s : Store) (it : Ptr) :
    OthersKept s (doItemLink cfg s it (cfg.hash (s.key it))) (s.key it) := by
  obtain ⟨l1, l2, _⟩ := link_mem cfg s it (cfg.hash (s.key it))
  have hv := (env_link cfg s it (cfg.hash (s.key it))).1
  have hkey : (doItemLink cfg s it (cfg.hash (s.key it))).key it = s.key it :=
    linked_stored l2 itemKey (fun _ => rfl) fun _ _ => rfl
  refine .of_mem ⟨congrArg (·.1) hv, congrArg (·.2.1) hv⟩ fun p hp => ?_
  have hne : p ≠ it := fun he => hp.elim (fun h => h (by rw [he])) fun h => h (by rw [he, hkey])
  exact ⟨(l1 p hne).2.1, (l1 p hne).1⟩

theorem othersKept_replace (cfg : Settings) (hne : n ≠ p) (hp : s.key p = key) (hn : s.key n = key)
    (hv : UInt32) :
    OthersKept s (doItemReplace cfg s p n hv) key := by
  obtain ⟨l1, l2, _, _, l5, _⟩ := replace_mem cfg s p n hv hne
  have hkey : (doItemReplace cfg s p n hv).key n = s.key n :=
    linked_stored l2 itemKey (fun _ => rfl) fun _ _ => rfl
  refine .of_mem ⟨congrArg (·.1) l5, congrArg (·.2.1) l5⟩ fun q hq => ?_
  have hqn : q ≠ n := fun he => hq.elim (fun h => h (by rw [he, hn])) fun h => h (by rw [he, hkey, hn])
  obtain ⟨hb, hlk, _⟩ := l1 q hqn
  have hqp : q ≠ p := fun he => hq.elim (fun h => h (by rw [he, hp])) fun h => h (by
    rw [he] at hb ⊢
    exact (key_of_body hb).trans hp)
  exact ⟨by rw [hlk]; simp [hqp], hb⟩

theorem Missed.others (hg : Missed cfg s held key s') : OthersKept s s' key := by
  have hkey : ∀ p, s'.key p = s.key p := fun p => key_of_body (hg.body p)
  refine .of_mem ⟨congrArg (·.1) hg.env, congrArg (·.2.1) hg.env⟩ fun p hp => ?_
  have hpk : s.key p ≠ key := hp.elim id fun h => hkey p ▸ h
  exact ⟨by rw [hg.linked]; simp [hpk], hg.body p⟩

theorem Got.others {old : Ptr} (hg : Got cfg s held key s' old) : OthersKept s s' key :=
  .of_mem ⟨congrArg (·.1) hg.env, congrArg (·.2.1) hg.env⟩ fun p _ => ⟨hg.linked p, hg.body p⟩

/-- A copy made in a chunk that held nothing alive. -/
theorem FreshCopy.otherKeys (hf : FreshCopy cfg s m held n key)
    (hlive : (s.mem n).linked = true → flushedOrExpired s (s.mem n) = true) : OthersKept s m key where
  now := congrArg (·.1) hf.env
  mark := congrArg (·.2.1) hf.env
  back := fun p hl _ => by
    obtain ⟨hl', hne⟩ := hf.back p hl
    exact ⟨hl', (hf.others p hne (.inl hl')).1⟩
  kept := fun p hl _ hd => by
    have hne : p ≠ n := fun he => by
      rw [he] at hl hd
      rw [hlive hl] at hd
      cases hd
    obtain ⟨hb, hl'⟩ := hf.others p hne (.inl hl)
    exact ⟨hl'.trans hl, hb⟩

/-! ## The key just stored -/

/-- `n` was stored under `key` a moment ago, as the entry `e`. -/
structure Bound (s : Store) (key : Bytes) (n : Ptr) (e : Entry) : Prop where
  linked : (s.mem n).linked = true
  key : s.key n = key
  entry : itemEntry (s.mem n) = e
  time : (s.mem n).time = s.currentTime

theorem Bound.binding {e : Entry} (hb : Bound s key n e) (h : StoreOk cfg s held) :
    binding cfg s key = some e := by
  rw [binding_eq h hb.linked hb.key, hb.entry]

theorem Bound.visible_eq {e : Entry} (hb : Bound s key n e) : visible s e = !flushedOrExpired s (s.mem n) := by
  have hexp : (s.mem n).exptime = e.exptime := by rw [← hb.entry]; rfl
  unfold visible flushedOrExpired
  rw [hb.time, hexp, Bool.not_or, Bool.and_assoc]
  congr 3
  rw [Bool.eq_iff_iff]
  simp only [beq_iff_eq, Bool.and_eq_true, decide_eq_true_eq]
  exact ⟨fun he => he ▸ ⟨UInt32.le_refl _, UInt32.le_refl _⟩, fun hle =>
    UInt32.le_antisymm hle.1 hle.2⟩

theorem Bound.lookup {e : Entry} (hb : Bound s key n e) (h : StoreOk cfg s held) :
    lookup cfg s key = if visible s e then some e else none := by
  rw [lookup_eq h hb.linked hb.key, hb.entry, hb.visible_eq]
  cases flushedOrExpired s (s.mem n) <;> rfl

theorem Bound.remove {e : Entry} (hb : Bound s key n e) (cfg : Settings) (q : Ptr) :
    Bound (doItemRemove cfg s q) key n e := by
  obtain ⟨h1, h2, _⟩ := doItemRemove_mem cfg s q n
  refine ⟨h2.trans hb.linked, (key_of_body h1).trans hb.key, (itemEntry_of_body h1).trans hb.entry, ?_⟩
  rw [time_of_body h1, hb.time]
  exact (congrArg (·.1) (env_doItemRemove cfg s q).1).symm

/-- The entry of an item, linked under the next `cas` unique. -/
theorem linked_entry {i j : Item} {t : UInt32} (hw : ItemWf cfg i)
    (h : j.body = itemSetCas { i.body with time := t } (linkCas cfg s)) :
    itemEntry j = { itemEntry i with cas := linkCas cfg s } := by
  have hf : itemFlags j = itemFlags i := linked_stored h itemFlags (fun _ => rfl) fun _ _ => rfl
  have hv : (itemData j).take (j.nbytes - 2) = (itemData i).take (i.nbytes - 2) :=
    linked_stored h (fun i => (itemData i).take (i.nbytes - 2)) (fun _ => rfl) fun _ _ => rfl
  have he : j.exptime = i.exptime := by
    change j.body.exptime = i.exptime
    rw [h, itemSetCas_field (·.exptime) (fun _ _ => rfl)]
    rfl
  unfold itemEntry
  rw [hf, hv, he, linked_cas hw.hasCas h]

theorem bound_link (hw : ItemWf cfg (s.mem it)) :
    Bound (doItemLink cfg s it (cfg.hash (s.key it))) (s.key it) it
      { itemEntry (s.mem it) with cas := linkCas cfg s } := by
  obtain ⟨_, l2, l3, _⟩ := link_mem cfg s it (cfg.hash (s.key it))
  refine ⟨l3, linked_stored l2 itemKey (fun _ => rfl) fun _ _ => rfl, linked_entry hw l2, ?_⟩
  rw [linked_time l2]
  exact (congrArg (·.1) (env_link cfg s it _).1).symm

theorem bound_replace (hw : ItemWf cfg (s.mem n)) (hne : n ≠ p) (hv : UInt32) :
    Bound (doItemReplace cfg s p n hv) (s.key n) n
      { itemEntry (s.mem n) with cas := linkCas cfg s } := by
  obtain ⟨_, l2, l3, _, l5, _⟩ := replace_mem cfg s p n hv hne
  refine ⟨l3, linked_stored l2 itemKey (fun _ => rfl) fun _ _ => rfl, linked_entry hw l2, ?_⟩
  rw [linked_time l2]
  exact (congrArg (·.1) l5).symm

/-! ## The merged copy -/

/-- The flags printed into a header are read back. -/
theorem strtol_headerSuffix (flags : Int) (nbytes : Nat) :
    strtol (headerSuffix flags nbytes) = flags := by
  unfold headerSuffix
  rw [List.append_assoc, List.cons_append, strtol_space]
  exact strtol_decimalInt flags _ (by simp [isDigit])

/-- Two data blocks written one after the other, the CRLF of the first overwritten. -/
theorem data_writeTwo {i : Item} {as bs : Bytes} (ha : 2 ≤ as.length)
    (hn : i.nbytes = as.length + bs.length - 2) :
    itemData (writeData (as.length - 2) bs (writeData 0 as i)) = as.take (as.length - 2) ++ bs := by
  have hlen : i.nbytes = as.length - 2 + bs.length := by omega
  change slice (blit (blit i.bytes (itemDataOff i) as) (itemDataOff i + (as.length - 2)) bs)
    (itemDataOff i) i.nbytes = _
  rw [hlen, slice_blit_overlap (Nat.sub_le _ _)]

theorem value_writeTwo {i : Item} {as bs : Bytes} (ha : 2 ≤ as.length) (hb : 2 ≤ bs.length)
    (hn : i.nbytes = as.length + bs.length - 2) :
    (itemEntry (writeData (as.length - 2) bs (writeData 0 as i))).value =
      as.take (as.length - 2) ++ bs.take (bs.length - 2) := by
  have htake : i.nbytes - 2 = (as.take (as.length - 2)).length + (bs.length - 2) := by
    rw [List.length_take]
    omega
  change (itemData _).take (i.nbytes - 2) = _
  rw [data_writeTwo ha hn, htake, List.take_length_add_append]

/-- The entry that append and prepend make of the old one. -/
def mergedEntry (comm : NRead) (old new : Entry) (cas : UInt64) : Entry :=
  { old with
    value := if comm = .append then old.value ++ new.value else new.value ++ old.value
    cas := cas }

theorem mergeData_entry (comm : NRead) {o i : Item} (ho : ItemWf cfg o) (hi : ItemWf cfg i)
    (id : SlabId) (key : Bytes) (c : Item) (cas : UInt64) :
    { itemEntry (mergeData comm o i (itemInit cfg id key (itemFlags o) o.exptime
      (i.nbytes + o.nbytes - 2) c)) with cas := cas } =
      mergedEntry comm (itemEntry o) (itemEntry i) cas := by
  generalize hn : itemInit cfg id key (itemFlags o) o.exptime (i.nbytes + o.nbytes - 2) c = n
  have hbytes : n.nbytes = i.nbytes + o.nbytes - 2 := by rw [← hn]; rfl
  have hexp : n.exptime = o.exptime := by rw [← hn]; rfl
  have hflags : itemFlags n = itemFlags o := by
    rw [← hn]
    unfold itemFlags
    rw [show itemSuffix (itemInit cfg id key (strtol (itemSuffix o)) o.exptime
      (i.nbytes + o.nbytes - 2) c) = headerSuffix (strtol (itemSuffix o)) (i.nbytes + o.nbytes - 2)
      from slice_blit_self, strtol_headerSuffix]
  obtain ⟨bytes, he, hb⟩ := mergeData_bytes comm o i n
  have hsuffix : itemFlags (mergeData comm o i n) = itemFlags o := by
    rw [he, ← hflags]
    unfold itemFlags
    congr 1
    refine slice_congr fun k _ hk => hb k ?_
    simpa [itemDataOff] using hk
  have hexpiry : (mergeData comm o i n).exptime = o.exptime := by rw [he, ← hexp]
  have hvalue : (itemEntry (mergeData comm o i n)).value =
      (mergedEntry comm (itemEntry o) (itemEntry i) cas).value := by
    have hlo : (itemData o).length = o.nbytes := length_slice
    have hli : (itemData i).length = i.nbytes := length_slice
    have h2o := ho.nbytes
    have h2i := hi.nbytes
    unfold mergeData mergedEntry
    dsimp only
    split
    · rw [← hlo, value_writeTwo (by omega) (by omega) (by omega), hlo, hli]
      rfl
    · rw [← hli, value_writeTwo (by omega) (by omega) (by omega), hlo, hli]
      rfl
  have hentry : itemEntry (mergeData comm o i n) = ⟨itemFlags o, o.exptime,
      (mergedEntry comm (itemEntry o) (itemEntry i) cas).value,
      itemGetCas (mergeData comm o i n)⟩ := by
    rw [← hvalue, ← hsuffix, ← hexpiry]
    rfl
  rw [hentry]
  rfl

end RamCube
