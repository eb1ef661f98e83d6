import RamCube.Store.StoreCalls

/-! # The holders of references

The references that clients have recorded are a list, with an item once for each of them. An
item that a client writes its data to, a draft, is referred to by this client alone and is not
stored, so that no command of another client finds it. -/
namespace RamCube

variable {cfg : Settings} {processStarted : Int} {s s' : Store} {refs refs' drafts : List Ptr} {it p : Ptr} {key : Bytes}
  {env : AllocEnv}

/-! ## References as a list -/

/-- How often each item is referred to. -/
def counts (refs : List Ptr) (p : Ptr) : Nat := refs.count p

theorem counts_perm (h : refs.Perm refs') : counts refs = counts refs' := funext fun p => h.count_eq p

theorem counts_cons (it : Ptr) (refs : List Ptr) : counts (it :: refs) = addRef (counts refs) it := by
  funext p
  rw [counts, addRef, List.count_cons]
  by_cases hp : p = it
  · rw [hp, Function.update_self, beq_self_eq_true, if_pos rfl, counts]
  · rw [Function.update_of_ne hp, if_neg (by simpa using Ne.symm hp), counts, Nat.add_zero]

theorem counts_give (r : Option Ptr) (refs : List Ptr) : counts (r.toList ++ refs) = giveRef (counts refs) r := by
  cases r with
  | none => rfl
  | some it => exact counts_cons it refs

theorem dropRef_counts (it : Ptr) (refs : List Ptr) : dropRef (counts (it :: refs)) it = counts refs := by
  rw [counts_cons, dropRef_addRef]

theorem counts_pos : ∀ p ∈ refs, 0 < counts refs p := fun _ hp => List.count_pos_iff.mpr hp

/-- The references `refs` are all there are, and the `drafts` are written by one client each. -/
structure HeldBy (cfg : Settings) (s : Store) (refs drafts : List Ptr) : Prop where
  ok : StoreOk cfg s (counts refs)
  draft : ∀ p ∈ drafts, refs.count p = 1 ∧ (s.mem p).linked = false

theorem HeldBy.perm (h : HeldBy cfg s refs drafts) (hp : refs.Perm refs') : HeldBy cfg s refs' drafts := by
  refine ⟨counts_perm hp ▸ h.ok, fun p hd => ?_⟩
  rw [← hp.count_eq]
  exact h.draft p hd

theorem HeldBy.mono {drafts' : List Ptr} (h : HeldBy cfg s refs drafts) (hd : drafts' ⊆ drafts) : HeldBy cfg s refs drafts' :=
  ⟨h.ok, fun p hp => h.draft p (hd hp)⟩

theorem HeldBy.held (h : HeldBy cfg s refs drafts) (hd : p ∈ drafts) : 0 < counts refs p := by
  have hone : counts refs p = 1 := (h.draft p hd).1
  omega

theorem HeldBy.aside (h : HeldBy cfg s refs drafts) (hd : p ∈ drafts) (key : Bytes) : Aside s key p := by
  intro hl
  rw [(h.draft p hd).2] at hl
  cases hl

/-- A draft stays what it is where a command leaves it alone and hands out stored items. -/
theorem HeldBy.step (h : HeldBy cfg s refs drafts) {r : Option Ptr} (hok : StoreOk cfg s' (giveRef (counts refs) r))
    (hl : ∀ it ∈ r, (s'.mem it).linked = true) (hu : ∀ p ∈ drafts, (s'.mem p).linked = (s.mem p).linked) :
    HeldBy cfg s' (r.toList ++ refs) drafts := by
  refine ⟨counts_give r refs ▸ hok, fun p hd => ?_⟩
  obtain ⟨hone, hlp⟩ := h.draft p hd
  have hlp' := (hu p hd).trans hlp
  refine ⟨?_, hlp'⟩
  cases r with
  | none => exact hone
  | some it =>
    have hne : it ≠ p := by
      rintro rfl
      rw [hl it rfl] at hlp'
      cases hlp'
    rw [Option.toList_some, List.singleton_append, List.count_cons_of_ne hne, hone]

theorem HeldBy.of_store (h : HeldBy cfg s refs drafts) (hok : StoreOk cfg s' (counts refs))
    (hu : ∀ p ∈ drafts, (s'.mem p).linked = (s.mem p).linked) : HeldBy cfg s' refs drafts :=
  h.step (r := none) hok nofun hu

/-- What a command does to an item that is referred to. -/
theorem Apart.linked_eq {held : Ptr → Nat} (ha : Apart cfg s s' held key p) (hh : 0 < held p) :
    (s'.mem p).linked = (s.mem p).linked := by
  obtain hu | ht := ha
  · exact hu.linked
  · rw [ht.unheld] at hh
    cases hh

/-! ## Lookups -/

theorem getItem_linked {held : Ptr → Nat} (h : StoreOk cfg s held) (hr : RoomAt cfg s key) (hg : (getItem cfg s key).2 = some it) :
    ((getItem cfg s key).1.mem it).linked = true := by
  unfold getItem at hg ⊢
  rcases doItemGet_outcome h hr with ⟨s', he, -⟩ | ⟨s', old, he, hgot⟩
  · rw [he] at hg
    cases hg
  · rw [he] at hg ⊢
    cases hg
    obtain ⟨-, -, hl, -⟩ := update_mem s' it it
    exact hl.trans hgot.stored

theorem touchItem_linked {held : Ptr → Nat} (h : StoreOk cfg s held) {exptime : UInt32} (hr : RoomAt cfg s key)
    (hg : (touchItem cfg s key exptime).2 = some it) : ((touchItem cfg s key exptime).1.mem it).linked = true := by
  unfold touchItem doItemTouch at hg ⊢
  rcases doItemGet_outcome h hr with ⟨s', he, -⟩ | ⟨s', old, he, hgot⟩
  · rw [he] at hg
    cases hg
  · rw [he] at hg ⊢
    cases hg
    obtain ⟨-, -, hl, -⟩ := update_mem (s'.modify it fun i => { i with exptime := exptime }) it it
    refine hl.trans ?_
    rw [modify_mem_self]
    exact hgot.stored

theorem HeldBy.get (h : HeldBy cfg s refs drafts) (hr : RoomAt cfg s key) :
    HeldBy cfg (getItem cfg s key).1 ((getItem cfg s key).2.toList ++ refs) drafts :=
  h.step (run_keeps h.ok (getItem_run h.ok hr)) (fun _ hit => getItem_linked h.ok hr hit) fun _ hd =>
    (getItem_untouched h.ok hr (h.aside hd key)).linked

theorem HeldBy.touch (h : HeldBy cfg s refs drafts) (exptime : UInt32) (hr : RoomAt cfg s key) :
    HeldBy cfg (touchItem cfg s key exptime).1 ((touchItem cfg s key exptime).2.toList ++ refs) drafts :=
  h.step (run_keeps h.ok (touchItem_run h.ok exptime hr)) (fun _ hit => touchItem_linked h.ok hr hit) fun _ hd =>
    (touchItem_untouched h.ok exptime hr (h.aside hd key)).linked

theorem HeldBy.delete (h : HeldBy cfg s refs drafts) (cas : UInt64) (hr : RoomAt cfg s key) :
    HeldBy cfg (deleteItem cfg s key cas).1 refs drafts :=
  h.of_store (run_keeps h.ok (deleteItem_run h.ok cas hr)) fun _ hd => (deleteItem_untouched h.ok cas hr (h.aside hd key)).linked

/-- A `cas` that is not the item's own stops a count as it stops a deletion. -/
theorem doAddDelta_mismatch {incr : Bool} {delta cas : UInt64} {old : Ptr} (he : doItemGet cfg s key (cfg.hash key) = (s', some old))
    (hc : cas ≠ 0 ∧ itemGetCas (s'.mem old) ≠ cas) :
    (doAddDelta cfg env s key incr delta cas (cfg.hash key)).1 = (deleteItem cfg s key cas).1 := by
  unfold doAddDelta doAddDeltaReading deleteItem
  rw [he]
  dsimp only
  rw [if_pos hc, if_neg (not_or.mpr ⟨hc.1, Ne.symm hc.2⟩)]

theorem HeldBy.delta (h : HeldBy cfg s refs drafts) {incr : Bool} {delta cas : UInt64}
    (hn : CallsNeed cfg (deltaCalls cfg env s key incr delta cas)) :
    HeldBy cfg (doAddDelta cfg env s key incr delta cas (cfg.hash key)).1 refs drafts := by
  by_cases hc : ∃ s' old, doItemGet cfg s key (cfg.hash key) = (s', some old) ∧ cas ≠ 0 ∧ itemGetCas (s'.mem old) ≠ cas
  · obtain ⟨s', old, he, hc⟩ := hc
    rw [doAddDelta_mismatch he hc]
    exact h.delete cas (hn.head.roomAt h.ok)
  · have g : DeltaGuard cfg env s key incr delta := deltaCalls_guard h.ok hn fun s' old he hm => hc ⟨s', old, he, hm⟩
    exact h.of_store (run_keeps h.ok (doAddDelta_run h.ok cas g fun _ => trivial)) fun _ hd =>
      (doAddDelta_apart h.ok cas g (.inr (h.held hd)) (h.aside hd key)).linked_eq (h.held hd)

theorem HeldBy.flush (h : HeldBy cfg s refs drafts) (exptime : Int) :
    HeldBy cfg (flushAll cfg processStarted s exptime) refs drafts := by
  refine h.of_store (h.ok.clock s.currentTime (flushMark processStarted s exptime) s.slabRebal).flush fun p hd => ?_
  have hback := (flush_mem cfg { s with oldestLive := flushMark processStarted s exptime } p).2.1
  have hl := (h.draft p hd).2
  rw [hl]
  by_contra hl'
  rw [Bool.not_eq_false] at hl'
  exact absurd ((hback hl').symm.trans hl) (by decide)

/-! ## Drafts -/

/-- A chunk that is handed out becomes a draft. -/
theorem HeldBy.alloc (h : HeldBy cfg s refs drafts) {flags : Int} {exptime : UInt32} {nbytes : Nat} {curHv : UInt32}
    (ha : AllocGuard cfg env s key flags nbytes curHv) (he : doItemAlloc cfg env s key flags exptime nbytes curHv = (s', some it)) :
    HeldBy cfg s' (it :: refs) (it :: drafts) := by
  obtain ⟨_, _, _, _, he', hok, hk, hmem⟩ := (doItemAlloc_spec h.ok ha.page key flags exptime nbytes curHv
    ha.noRepair).resolve_left fun hnone => by cases hnone.symm.trans he
  rw [he] at he'
  cases he'
  have hfree : counts refs it = 0 := by
    have hrefs := h.ok.refcount_eq it
    rw [hk.count] at hrefs
    omega
  have hnew : (s'.mem it).linked = false := by
    rw [hmem]
    rfl
  have hself : (it :: refs).count it = 1 := by
    rw [List.count_cons_self]
    exact congrArg (· + 1) hfree
  refine ⟨counts_cons it refs ▸ hok, fun p hd => ?_⟩
  by_cases hp : p = it
  · rw [hp]
    exact ⟨hself, hnew⟩
  · obtain ⟨hone, hl⟩ := h.draft p ((List.mem_cons.mp hd).resolve_left hp)
    refine ⟨by rw [List.count_cons_of_ne (Ne.symm hp), hone], ?_⟩
    rw [hk.linked, hl, Bool.false_and]

theorem doItemAlloc_none (h : StoreOk cfg s (counts refs)) {flags : Int} {exptime : UInt32} {nbytes : Nat} {curHv : UInt32}
    (ha : AllocGuard cfg env s key flags nbytes curHv) (he : doItemAlloc cfg env s key flags exptime nbytes curHv = (s', none)) :
    s' = s := by
  obtain he' | ⟨_, _, _, _, he', _⟩ := doItemAlloc_spec h ha.page key flags exptime nbytes curHv ha.noRepair
  · exact congrArg Prod.fst (he.symm.trans he')
  · cases he.symm.trans he'

/-- A write to a draft. -/
theorem HeldBy.writeTo (h : HeldBy cfg s refs drafts) {f : Item → Item}
    (hs : ∃ op, QuietStep cfg (fun _ _ => True) ⟨s, counts refs⟩ op ⟨s.modify it f, counts refs⟩)
    (hf : (f (s.mem it)).linked = (s.mem it).linked) : HeldBy cfg (s.modify it f) refs drafts :=
  h.of_store (step_keeps h.ok hs) fun p _ => modify_field (·.linked) hf p

theorem HeldBy.write (h : HeldBy cfg s refs drafts) (hd : it ∈ drafts) (off : Nat) (bs : Bytes) :
    HeldBy cfg (s.modify it (writeData off bs)) refs drafts :=
  h.writeTo (write_step (h.held hd) (h.draft it hd).2 (writeData_bytes off bs (s.mem it))) rfl

theorem HeldBy.setCas (h : HeldBy cfg s refs drafts) (hd : it ∈ drafts) (cas : UInt64) :
    HeldBy cfg (s.modify it fun i => itemSetCas i cas) refs drafts :=
  h.writeTo (writeCas_step (h.held hd) (h.draft it hd).2 cas) (itemSetCas_field (·.linked) (fun _ _ => rfl) (s.mem it) cas)

/-- A reference is given back. -/
theorem HeldBy.remove (h : HeldBy cfg s (it :: refs) drafts) (hd : it ∉ drafts) : HeldBy cfg (doItemRemove cfg s it) refs drafts := by
  have hheld : 0 < counts (it :: refs) it := by
    rw [counts, List.count_cons_self]
    exact Nat.succ_pos _
  refine ⟨dropRef_counts it refs ▸ h.ok.remove hheld, fun p hp => ?_⟩
  obtain ⟨hone, hl⟩ := h.draft p hp
  have hne : it ≠ p := fun he => hd (he ▸ hp)
  rw [List.count_cons_of_ne hne] at hone
  exact ⟨hone, ((untouched_remove cfg s it p).linked).trans hl⟩

/-- An item that is not stored is not unlinked either. -/
theorem unlink_draft (hl : (s.mem it).linked = false) (hv : UInt32) : doItemUnlink cfg s it hv = s := by
  unfold doItemUnlink doItemUnlinkNolock
  rw [if_neg (by simp [hl])]

/-! ## Storing a draft -/

/-- The one reference to a draft leaves room for that of the table. -/
theorem HeldBy.storeGuard (h : HeldBy cfg s refs drafts) (hd : it ∈ drafts) {comm : NRead}
    (hn : CallsNeed cfg (storeCalls cfg env s it comm)) : StoreGuard cfg env s (counts refs) it comm := by
  obtain ⟨hone, hl⟩ := h.draft it hd
  refine storeCalls_guard h.ok hn (h.held hd) hl (refMod_room cfg ?_)
  have hrefs := h.ok.refcount_eq it
  rw [hl, if_neg Bool.false_ne_true, show counts refs it = 1 from hone] at hrefs
  rw [hrefs]
  decide

theorem storeMerged_ok {held : Ptr → Nat} {old : Ptr} {comm : NRead} (hg : Got cfg s held (s.key it) s' old) (h : StoreOk cfg s held)
    (g : StoreGuard cfg env s held it comm) (he : doItemGet cfg s (s.key it) (cfg.hash (s.key it)) = (s', some old))
    (hm : MergeWanted comm (s'.mem it) (s'.mem old)) :
    StoreOk cfg (storeMerged cfg env s' old it comm (cfg.hash (s.key it))).1 held := by
  have hk : s'.key it = s.key it := key_of_body (hg.body it)
  have ha := g.alloc s' old he hm
  rw [← hk] at ha ⊢
  unfold storeMerged
  rcases hal : doItemAlloc cfg env s' (s'.key it) (itemFlags (s'.mem old)) (s'.mem old).exptime
    ((s'.mem it).nbytes + (s'.mem old).nbytes - 2) (cfg.hash (s'.key it)) with ⟨s2, _ | n⟩
  · have hback : StoreOk cfg (doItemRemove cfg s' old) held := run_keeps (hg.ok h) (giveBack_run s' held old)
    obtain hnone | ⟨_, _, _, _, hsome, _⟩ := doItemAlloc_spec (hg.ok h) ha.page (s'.key it) (itemFlags (s'.mem old))
      (s'.mem old).exptime _ _ ha.noRepair
    · obtain rfl : s2 = s' := congrArg Prod.fst (hal.symm.trans hnone)
      simp only [show itemKey (s2.mem it) = s2.key it from rfl, hal]
      exact hback
    · cases hal.symm.trans hsome
  · obtain hnone | ⟨_, _, _, _, hsome, hok, _⟩ := doItemAlloc_spec (hg.ok h) ha.page (s'.key it) (itemFlags (s'.mem old))
      (s'.mem old).exptime _ _ ha.noRepair
    · cases hal.symm.trans hnone
    · have hcopy := storeCopy_run (w := fun _ _ => True) (hg.ok h) comm hg.stored (addRef_self held old) (hg.key.trans hk.symm) ha hal
        trivial
      cases hal.symm.trans hsome
      rw [dropRef_addRef] at hcopy
      simp only [show itemKey (s'.mem it) = s'.key it from rfl, hal]
      exact run_keeps hok hcopy

/-- `do_store_item` keeps the store in order, whatever the lengths of the items are. -/
theorem doStoreItem_ok {held : Ptr → Nat} {comm : NRead} (h : StoreOk cfg s held) (g : StoreGuard cfg env s held it comm) :
    StoreOk cfg (doStoreItem cfg env s it comm (cfg.hash (s.key it))).1 held := by
  unfold doStoreItem
  rcases doItemGet_outcome h g.roomAt with ⟨s', he, hg⟩ | ⟨s', old, he, hg⟩
  · rw [he]
    have hlink := run_keeps (hg.ok h) (storeOver_missed hg h g trivial)
    cases comm with
    | add | set => exact hlink
    | replace | append | prepend | cas => exact hg.ok h
  · rw [he]
    have hgive : StoreOk cfg (doItemRemove cfg s' old) held := run_keeps (hg.ok h) (giveBack_run s' held old)
    have hover := run_keeps (hg.ok h) (storeOver_got hg g trivial)
    have hmerge : comm = .append ∨ comm = .prepend → StoreOk cfg (if itemGetCas (s'.mem it) ≠ 0 ∧
        itemGetCas (s'.mem it) ≠ itemGetCas (s'.mem old) then (doItemRemove cfg s' old, StoreItemType.EXISTS, it)
        else storeMerged cfg env s' old it comm (cfg.hash (s.key it))).1 held := by
      intro hcomm
      split
      · exact hgive
      · rename_i hm
        exact storeMerged_ok hg h g he ⟨hcomm, hm⟩
    cases comm with
    | add => exact run_keeps (hg.ok h) (run_trans (run_step (update_step hg.unflushed)) (giveBack_run _ held old))
    | set | replace => exact hover
    | append => exact hmerge (.inl rfl)
    | prepend => exact hmerge (.inr rfl)
    | cas =>
      dsimp only
      split
      · exact hover
      · exact hgive

/-- The draft may be stored from then on, the others are what they were. -/
theorem HeldBy.store (h : HeldBy cfg s refs (it :: drafts)) (hd : it ∉ drafts) {comm : NRead}
    (hn : CallsNeed cfg (storeCalls cfg env s it comm)) :
    HeldBy cfg (doStoreItem cfg env s it comm (cfg.hash (s.key it))).1 refs drafts := by
  have hguard := h.storeGuard List.mem_cons_self hn
  refine (h.mono (List.subset_cons_self it drafts)).of_store (doStoreItem_ok h.ok hguard) fun p hp => ?_
  have hheld := h.held (List.mem_cons_of_mem it hp)
  have hne : p ≠ it := fun he => hd (he ▸ hp)
  exact (doStoreItem_apart h.ok hguard (.inr hheld) (h.aside (List.mem_cons_of_mem it hp) _) hne).linked_eq hheld

end RamCube
