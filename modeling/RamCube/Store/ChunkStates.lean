import RamCube.Store.Requested

/-! # No chunk is lost

A chunk of a page is in use, on the free list of its class, or cleared by the move of its page.
`slab_rebalance_move` tells a free chunk from one that is being filled by `ITEM_SLABBED`, so it
matters that just the free chunks have that mark. -/
namespace RamCube

variable {cfg : Settings} {s s' : Store} {held : Ptr → Nat} {m m' : ItemMemory} {r r' : Rebalance} {c : SlabId} {it p : Ptr}

/-! ## The mark of the free chunks -/

/-- The chunks of the free lists have the mark. -/
def Marked (s : Store) : Prop := ∀ c, ∀ p ∈ s.slots c, (s.mem p).slabbed = true

namespace Marked

theorem of_same (h : Marked s) (hslots : s'.slots = s.slots) (hmem : ∀ p, (s'.mem p).slabbed = (s.mem p).slabbed) :
    Marked s' := by
  intro c p hp
  rw [hslots] at hp
  rw [hmem]
  exact h c p hp

theorem modify (h : Marked s) {f : Item → Item} (hf : (f (s.mem it)).slabbed = (s.mem it).slabbed) : Marked (s.modify it f) :=
  h.of_same rfl (modify_field (·.slabbed) hf)

theorem of_relinked (h : Marked s) (hslots : s'.slots = s.slots) (hr : Relinked s s') : Marked s' := by
  refine h.of_same hslots fun p => ?_
  obtain ⟨n, q, he⟩ := hr p
  rw [he]

theorem incr (h : Marked s) (cfg : Settings) (it : Ptr) : Marked (refcountIncr cfg s it) := h.modify rfl

theorem decr (h : Marked s) (cfg : Settings) (it : Ptr) : Marked (refcountDecr cfg s it) := h.modify rfl

theorem unlinkQ (h : Marked s) (it : Ptr) : Marked (itemUnlinkQ s it) :=
  h.of_relinked (SameCharges.unlinkQ s it).slots (relinked_itemUnlinkQ s it)

theorem linkQ (h : Marked s) (it : Ptr) : Marked (itemLinkQ s it) :=
  h.of_relinked (SameCharges.linkQ s it).slots (relinked_itemLinkQ s it)

/-- A chunk gets its mark where it is put on the list. -/
theorem slabsFree (h : Marked s) (cfg : Settings) (it : Ptr) (id : SlabId) : Marked (slabsFree cfg s it id) := by
  unfold RamCube.slabsFree
  split
  · exact h
  · intro c p hp
    dsimp only at hp ⊢
    by_cases he : p = it
    · rw [he, modify_mem_self]
    · rw [modify_mem_of_ne he]
      exact h c p ((mem_pushed.mp hp).resolve_right fun hx => he hx.1)

theorem itemFree (h : Marked s) (cfg : Settings) (it : Ptr) : Marked (itemFree cfg s it) := by
  unfold RamCube.itemFree
  exact (h.modify rfl).slabsFree cfg it _

theorem remove (h : Marked s) (cfg : Settings) (it : Ptr) : Marked (doItemRemove cfg s it) := by
  unfold doItemRemove
  dsimp only
  split
  · exact (h.decr cfg it).itemFree cfg it
  · exact h.decr cfg it

theorem unlinkItem (h : Marked s) (it : Ptr) (hv : UInt32) : Marked (unlinkItem s it hv) := by
  refine h.of_same (SameCharges.unlinkItem s it hv).slots fun p => ?_
  obtain ⟨n, q, l, he⟩ := unlinkItem_links s it p hv
  rw [he]

theorem unlink (h : Marked s) (cfg : Settings) (it : Ptr) (hv : UInt32) : Marked (doItemUnlinkNolock cfg s it hv) := by
  rw [doItemUnlinkNolock_eq]
  split
  · exact (h.unlinkItem it hv).remove cfg it
  · exact h

theorem link (h : Marked s) (cfg : Settings) (it : Ptr) (hv : UInt32) : Marked (doItemLink cfg s it hv) := by
  rw [doItemLink_eq, linkItem_eq]
  have hprepared : Marked (linkPrepare cfg s it hv) :=
    h.of_same rfl (linkPrepare_field (·.slabbed) (fun _ _ => rfl) (fun _ _ => rfl) cfg s it hv)
  exact (hprepared.linkQ it).incr cfg it

theorem update (h : Marked s) (it : Ptr) : Marked (doItemUpdate s it) := by
  unfold doItemUpdate
  split
  · split
    · exact Marked.linkQ (Marked.modify (h.unlinkQ it) rfl) it
    · exact h
  · exact h

theorem get (h : Marked s) (cfg : Settings) (key : Bytes) (hv : UInt32) : Marked (doItemGet cfg s key hv).1 := by
  unfold doItemGet
  cases assocFind s.key s.assoc key hv with
  | none => exact h
  | some it =>
    dsimp only
    split
    · exact ((h.incr cfg it).unlink cfg it hv).remove cfg it
    · split
      · exact ((h.incr cfg it).unlink cfg it hv).remove cfg it
      · exact Marked.modify (f := fun i => { i with fetched := true }) (h.incr cfg it) rfl

theorem touch (h : Marked s) (cfg : Settings) (key : Bytes) (exptime hv : UInt32) :
    Marked (doItemTouch cfg s key exptime hv).1 := by
  have hget := h.get cfg key hv
  unfold doItemTouch
  generalize doItemGet cfg s key hv = found at *
  obtain ⟨s₁, it⟩ := found
  cases it with
  | none => exact hget
  | some it => exact Marked.modify (f := fun i => { i with exptime := exptime }) hget rfl

theorem flushClass (h : Marked s) (cfg : Settings) (fuel : Nat) (iter : Option Ptr) : Marked (flushClass cfg fuel iter s) := by
  induction fuel generalizing s iter with
  | zero => exact h
  | succ fuel ih =>
    cases iter with
    | none => exact h
    | some iter =>
      simp only [RamCube.flushClass]
      split
      · split
        · exact ih h _
        · exact ih (h.unlink cfg iter _) _
      · exact h

theorem flush (h : Marked s) (cfg : Settings) : Marked (doItemFlushExpired cfg s) := by
  unfold doItemFlushExpired
  split
  · exact h
  · rename_i h0
    clear h0
    generalize List.finRange LARGEST_ID = classes
    induction classes generalizing s with
    | nil => exact h
    | cons c cs ih =>
      rw [List.foldl_cons]
      exact ih (h.flushClass cfg _ _)

/-- The chunks of a new page are freed one by one. -/
theorem newslab (h : Marked s) (id : SlabId) (page : List Ptr) : Marked (slabsNewslab s id page) := by
  intro c p hp
  change (if p ∈ page then emptyItem else s.mem p).slabbed = true
  split
  · rfl
  · rename_i hout
    by_cases hc : c = id
    · subst hc
      change p ∈ Function.update s.slots c (page.reverse ++ s.slots c) c at hp
      rw [Function.update_self, List.mem_append, List.mem_reverse] at hp
      exact h c p (hp.resolve_left hout)
    · change p ∈ Function.update s.slots id (page.reverse ++ s.slots id) c at hp
      rw [Function.update_of_ne hc] at hp
      exact h c p hp

theorem pop (h : Marked s) {id : SlabId} {rest : List Ptr} (hs : s.slots id = it :: rest) :
    Marked { s with slots := Function.update s.slots id rest } :=
  fun c p hp => h c p (mem_popped hs hp)

theorem slabsAlloc (h : Marked s) (id : SlabId) (newslab : Option (List Ptr)) : Marked (slabsAlloc s id newslab).1 := by
  cases hs : s.slots id with
  | cons it rest =>
    simp only [RamCube.slabsAlloc, hs]
    exact h.pop hs
  | nil =>
    cases newslab with
    | none =>
      simp only [RamCube.slabsAlloc, hs]
      exact h
    | some page =>
      have hnew := h.newslab id page
      simp only [RamCube.slabsAlloc, hs]
      split
      · exact hnew
      · rename_i hlist
        exact hnew.pop hlist

end Marked

/-! ## The mark in the memory -/

theorem marked_takeChunk (h : Marked m.store) (ntotal : Nat) (hv : UInt32) : Marked (m.takeChunk cfg it ntotal hv).store := by
  rw [ItemMemory.store_takeChunk]
  exact Marked.modify (h.unlink cfg it hv) rfl

theorem marked_stopAt (h : Marked m.store) (ntotal : Nat) (id : SlabId) (newslab : Option (List Ptr)) (search : Ptr) (hv :
    UInt32) :
    Marked (m.stopAt cfg ntotal id newslab search hv).1.store := by
  have hincr : Marked (m.onStore fun s => refcountIncr cfg s search).store := h.incr cfg search
  obtain ⟨hstore, _⟩ := (m.onStore fun s => refcountIncr cfg s search).store_slabsAlloc ntotal id newslab
  have halloc := hincr.slabsAlloc id newslab
  rw [← hstore] at halloc
  unfold ItemMemory.stopAt
  dsimp only
  split
  · exact Marked.decr (marked_takeChunk hincr ntotal hv) cfg search
  · generalize (m.onStore fun s => refcountIncr cfg s search).slabsAlloc ntotal id newslab = found at *
    obtain ⟨m₁, it⟩ := found
    cases it with
    | some it => exact halloc.decr cfg search
    | none =>
      dsimp only
      split
      · exact Marked.decr (marked_takeChunk halloc ntotal hv) cfg search
      · exact halloc.decr cfg search

section

variable {env : LockEnv} {ntotal : Nat} {id : SlabId} {search : Ptr} {hv curHv : UInt32} {a : Allocating}

theorem marked_look (h : Marked a.memory.store) :
    Marked (Allocating.look cfg env ntotal id search hv a).1.memory.store := by
  unfold Allocating.look
  dsimp only
  split
  · have hpassed : Marked (a.memory.onStore fun s => refcountDecr cfg (refcountIncr cfg s search) search).store :=
      (h.incr cfg search).decr cfg search
    split
    · dsimp only
      rw [ItemMemory.store_tailRepair]
      exact Marked.unlink (Marked.modify hpassed rfl) cfg search hv
    · exact hpassed
  · exact marked_stopAt h ntotal id env.newslab search hv

theorem marked_walk (tries : Nat) (search : Option Ptr) (h : Marked a.memory.store) :
    Marked (Allocating.walk cfg env ntotal id curHv tries search a).1.memory.store := by
  induction tries generalizing search a with
  | zero => exact h
  | succ tries ih =>
    cases search with
    | none => exact h
    | some search =>
      rw [Allocating.walk_succ]
      dsimp only
      generalize (if cfg.hash (a.memory.store.key search) ≠ curHv then
        a.locks.itemTrylock env a.memory.store (tries + 1) (cfg.hash (a.memory.store.key search)) else a.locks) = locks
      split
      · exact ih _ h
      · have hlook := @marked_look cfg env ntotal id search (cfg.hash (a.memory.store.key search)) { a with locks := locks } h
        generalize Allocating.look cfg env ntotal id search (cfg.hash (a.memory.store.key search)) _ = found at *
        obtain ⟨a₁, r⟩ := found
        cases r with
        | none => exact ih _ hlook
        | some r => exact hlook

theorem marked_chunk (h : Marked a.memory.store) : Marked (Allocating.chunk cfg env ntotal id curHv a).1.memory.store := by
  have hwalk := @marked_walk cfg env ntotal id curHv a 5 (a.memory.store.tails id) h
  unfold Allocating.chunk
  generalize Allocating.walk cfg env ntotal id curHv 5 (a.memory.store.tails id) a = found at *
  obtain ⟨a₁, r⟩ := found
  cases r with
  | taken it => exact hwalk
  | outOfMemory => exact hwalk
  | exhausted =>
    dsimp only
    rw [(a₁.memory.store_slabsAlloc ntotal id env.newslab).1]
    exact hwalk.slabsAlloc id env.newslab

/-- The chunk that is handed out loses its mark when it is on no list any more. -/
theorem marked_doItemAlloc {entry : List Nat} {key : Bytes} {flags nbytes : Int} {exptime : UInt32} (h : Marked m.store)
    (hoff : ∀ it ∈ (m.doItemAlloc cfg env entry key flags exptime nbytes curHv).2, ∀ c,
      it ∉ (m.doItemAlloc cfg env entry key flags exptime nbytes curHv).1.memory.store.slots c) :
    Marked (m.doItemAlloc cfg env entry key flags exptime nbytes curHv).1.memory.store := by
  unfold ItemMemory.doItemAlloc at hoff ⊢
  dsimp only at hoff ⊢
  split
  · exact h
  · rename_i h0
    rw [if_neg h0] at hoff
    have hchunk := @marked_chunk cfg env (requestSize cfg key.length flags nbytes)
      (slabsClsid cfg.slabclass (requestSize cfg key.length flags nbytes)) curHv ⟨m, ⟨none, entry, []⟩, []⟩ h
    generalize Allocating.chunk cfg env _ _ curHv ⟨m, ⟨none, entry, []⟩, []⟩ = found at *
    obtain ⟨a, it⟩ := found
    cases it with
    | none => exact hchunk
    | some it =>
      intro c p hp
      have hne : p ≠ it := fun he => hoff it rfl c (he ▸ hp)
      change ((a.memory.store.modify it _).mem p).slabbed = true
      rw [modify_mem_of_ne hne]
      exact hchunk c p hp

end

/-- An allocation hands out a chunk that is on no free list. -/
theorem allocated_off {env : LockEnv} {entry : List Nat} {key : Bytes} {flags nbytes : Int} {exptime curHv : UInt32}
    (h : StoreOk cfg m.store held) (hpl : Placed cfg m) (hreq : RequestOk key flags nbytes) (hf : FreshPage m.store env.newslab) :
    ∀ it ∈ (m.doItemAlloc cfg env entry key flags exptime nbytes curHv).2, ∀ c,
      it ∉ (m.doItemAlloc cfg env entry key flags exptime nbytes curHv).1.memory.store.slots c := by
  obtain ⟨live, lru, hok⟩ := h
  obtain ⟨a, it, m₁, held₁, he, hrep, hend, _⟩ :=
    @doItemAlloc_end cfg env entry curHv held live lru m hok hpl hf key flags exptime nbytes
  rw [he]
  intro q hq
  cases hq
  obtain ⟨h0, m₂, haside, hmem⟩ := hend
  have hh := haside.filled (hrep.gives.placed hpl) (slabsClsid_range h0) hreq rfl exptime
  rw [hmem]
  exact hh.off

theorem mem_erased {f : SlabId → List Ptr} {c' : SlabId} (hp : p ∈ Function.update f c ((f c).erase it) c') : p ∈ f c' := by
  by_cases hc : c' = c
  · subst hc
    rw [Function.update_self] at hp
    exact List.mem_of_mem_erase hp
  · rwa [Function.update_of_ne hc] at hp

theorem marked_moveChunk (h : Marked m.store) (free : Bool) : Marked (m.moveChunk cfg r it free).1.store := by
  have hincr : Marked (m.onStore fun s => refcountIncr cfg s it).store := h.incr cfg it
  unfold ItemMemory.moveChunk
  split
  · exact h
  split
  · exact h
  dsimp only
  split
  · split
    · exact fun c p hp => hincr c p (mem_erased hp)
    · exact hincr
  split
  · split
    · rw [ItemMemory.store_unlink]
      exact hincr.unlink cfg it _
    · exact hincr
  · exact hincr

/-- A chunk that is cleared loses its mark when it is on no list any more. -/
theorem marked_moveTurn (h : Marked m.store) {free : Bool}
    (hspent : ∀ p ∈ (m.moveTurn cfg r it free).2.marked, Spent (m.moveTurn cfg r it free).1 p) :
    Marked (m.moveTurn cfg r it free).1.store := by
  have hchunk := @marked_moveChunk cfg m r it h free
  unfold ItemMemory.moveTurn at hspent ⊢
  generalize m.moveChunk cfg r it free = found at *
  obtain ⟨m₁, status⟩ := found
  cases status with
  | pass => exact hchunk
  | locked => exact hchunk
  | busy => exact hchunk.decr cfg it
  | done =>
    intro c p hp
    have hne : p ≠ it := fun he => (hspent it List.mem_cons_self).off c (he ▸ hp)
    change ((m₁.store.modify it _).mem p).slabbed = true
    rw [modify_mem_of_ne hne]
    exact hchunk c p hp

theorem marked_moveLoop (frees : List Bool) (hm : Moving cfg held m r) (hdone : r.done = false) (h : Marked m.store) :
    Marked (ItemMemory.moveLoop cfg frees (m, r)).1.store := by
  induction frees generalizing m r with
  | nil => exact h
  | cons free frees ih =>
    simp only [ItemMemory.moveLoop]
    cases hit : r.page[r.pos]? with
    | none => exact h
    | some it =>
      have hturn := moveTurn_turn hm.store hm.placed hm.rebal (List.mem_of_getElem? hit) free
      obtain ⟨hm', hdone', _⟩ := hturn.keeps hm hdone hit
      exact ih hm' hdone' (marked_moveTurn h hm'.rebal.spent)

theorem fst_slabRebalanceMove (cfg : Settings) (m : ItemMemory) (r : Rebalance) (frees : List Bool) :
    (m.slabRebalanceMove cfg r frees).1 = (ItemMemory.moveLoop cfg frees (m, r)).1 := by
  unfold ItemMemory.slabRebalanceMove
  dsimp only
  split
  · split <;> rfl
  · rfl

theorem marked_items {u u' : ItemsState} {op : ItemsOp} (h : Marked u.store) (hs : ItemsStep cfg u op u')
    (hop : op.OnItems u.store) : Marked u'.store := by
  cases hs with
  | alloc => exact hop.elim
  | link s held it => exact h.link cfg it _
  | unlink s held it => exact h.unlink cfg it _
  | remove s held it => exact h.remove cfg it
  | replace s held it newIt => exact Marked.link (h.unlink cfg it _) cfg newIt _
  | update s held it => exact h.update it
  | get s held key => exact h.get cfg key _
  | touch s held key exptime => exact h.touch cfg key exptime _
  | flushExpired => exact h.flush cfg
  | write s held it bytes cas =>
    exact Marked.modify (f := fun i => itemSetCas { i with bytes := bytes } cas) h
      (itemSetCas_field (·.slabbed) (fun _ _ => rfl) { s.mem it with bytes := bytes } cas)
  | clock => exact h
  | expand => exact h
  | migrate => exact h

theorem Marked.step {u v : MemoryState} {op : MemoryOp} (h : Marked u.memory.store) (hp : PagedOk cfg u)
    (hs : MemoryStep cfg u op v) : Marked v.memory.store := by
  cases hs with
  | item m held rebal hstep hop =>
    rw [(gives_perform hp.store hp.placed hstep hop).2]
    exact marked_items (u := ⟨m.store, held⟩) h hstep hop
  | allocate m held rebal env entry key flags exptime nbytes curHv hreq hf =>
    exact marked_doItemAlloc h (allocated_off hp.store hp.placed hreq hf)
  | startMove m held src dst grown hstart =>
    unfold ItemMemory.slabRebalanceStart at hstart
    split at hstart
    · cases hstart
    · cases hstart
      exact h
  | refuseMove => exact h
  | move m held r frees hdone =>
    dsimp only
    rw [fst_slabRebalanceMove]
    exact marked_moveLoop frees ⟨hp.store, hp.placed, hp.rebal r rfl⟩ hdone h
  | finishMove m held r chunks =>
    rw [slabRebalanceFinish_eq]
    exact Marked.newslab (s := (dropPage m r).store) h r.dst chunks

/-! ## Where the chunks are -/

/-- Every chunk of a page is in use, free, or one of those that were cleared. -/
def Traced (m : ItemMemory) (cleared : Ptr → Prop) : Prop :=
  ∀ c, ∀ p ∈ m.chunks c, charge (m.store.mem p) ≠ none ∨ p ∈ m.store.slots c ∨ cleared p

section

variable {cleared : Ptr → Prop}

theorem Traced.mono {cleared' : Ptr → Prop} (h : Traced m cleared) (hc : ∀ p, cleared p → cleared' p) : Traced m cleared' :=
  fun c p hp => (h c p hp).imp_right (Or.imp_right (hc p))

theorem Traced.same {s' : Store} (h : Traced m cleared) (hs : SameCharges m.store s') :
    Traced { m with store := s' } cleared := by
  intro c p hp
  dsimp only
  rw [hs.charge, hs.slots]
  exact h c p hp

theorem Traced.free {n : Nat} (h : Traced m cleared) (hpl : Placed cfg m) (hf : Frees m m' it c n) : Traced m' cleared := by
  intro c' p hp
  rw [ItemMemory.chunks, hf.slabList] at hp
  rw [hf.slots, mem_pushed]
  by_cases he : p = it
  · subst he
    exact .inr (.inl (.inr ⟨rfl, hpl.apart c' c p hp (hpl.used p c n hf.charged)⟩))
  · rw [hf.others p he]
    exact (h c' p hp).imp_right (Or.imp_left .inl)

theorem Traced.gives (h : Traced m cleared) (hpl : Placed cfg m) (hg : Gives m m') : Traced m' cleared := by
  induction hg with
  | refl => exact h
  | same hs _ ih => exact ih (h.same hs) (hpl.same hs)
  | free hf _ ih => exact ih (h.free hpl hf) (hpl.free hf)

theorem Traced.newslab (h : Traced m cleared) (hpl : Placed cfg m) (id : SlabId) {page : List Ptr}
    (hnew : ∀ p ∈ page, p ∉ m.store.carved) : Traced (m.slabsNewslab id page) cleared := by
  intro c p hp
  have hslots : (m.slabsNewslab id page).store.slots = Function.update m.store.slots id (page.reverse ++ m.store.slots id) := rfl
  rw [hslots]
  by_cases hpage : p ∈ page ∧ c = id
  · obtain ⟨hpage, rfl⟩ := hpage
    refine .inr (.inl ?_)
    rw [Function.update_self]
    exact List.mem_append_left _ (List.mem_reverse.mpr hpage)
  · have hold : p ∈ m.chunks c := by
      by_cases hc : c = id
      · subst hc
        have hp : p ∈ m.chunks c ∨ p ∈ page := by simpa [ItemMemory.chunks, ItemMemory.slabsNewslab] using hp
        exact hp.resolve_right fun hx => hpage ⟨hx, rfl⟩
      · simpa [ItemMemory.chunks, ItemMemory.slabsNewslab, hc] using hp
    have hin : p ∉ page := fun hin => hnew p hin ((hpl.carved p).mpr ⟨c, hold⟩)
    have hmem : (m.slabsNewslab id page).store.mem p = m.store.mem p := if_neg hin
    rw [hmem]
    refine (h c p hold).imp_right (Or.imp_left fun hs => ?_)
    by_cases hc : c = id
    · subst hc
      rw [Function.update_self]
      exact List.mem_append_right _ hs
    · rwa [Function.update_of_ne hc]

/-- An allocation takes one chunk out. -/
theorem Traced.reserves {id : SlabId} {ntotal : Nat} (h : Traced m cleared) (hpl : Placed cfg m)
    (hid : 1 ≤ id.val ∧ id.val ≤ cfg.slabclass.sizes.length) (hr : Reserves id ntotal it m m') :
    Traced m' fun p => cleared p ∨ p = it := by
  induction hr with
  | same hs _ ih => exact ih (h.same hs) (hpl.same hs)
  | grow hnd hnew _ ih => exact ih (h.newslab hpl id hnew) (hpl.newslab hid hnd hnew)
  | @pop m rest s' hslots hs =>
    intro c p hp
    dsimp only
    rw [hs.charge, hs.slots]
    rcases h c p hp with hcharge | hfree | hclear
    · exact .inl hcharge
    · by_cases he : p = it
      · exact .inr (.inr (.inr he))
      · refine .inr (.inl ?_)
        by_cases hc : c = id
        · subst hc
          rw [hslots] at hfree
          dsimp only
          rw [Function.update_self]
          exact (List.mem_cons.mp hfree).resolve_left he
        · dsimp only
          rwa [Function.update_of_ne hc]
    · exact .inr (.inr (.inl hclear))
  | reuse hr =>
    intro c p hp
    rw [ItemMemory.chunks, hr.slabList] at hp
    by_cases he : p = it
    · exact .inr (.inr (.inr he))
    · rw [hr.others p he, hr.slots]
      exact (h c p hp).imp_right (Or.imp_right .inl)

/-- The chunk that was taken out is put to use. -/
theorem Traced.use {f : Item → Item} (h : Traced m fun p => cleared p ∨ p = it) (hf : charge (f (m.store.mem it)) ≠ none) :
    Traced (m.onStore fun s => s.modify it f) cleared := by
  intro c p hp
  change charge ((m.store.modify it f).mem p) ≠ none ∨ _
  by_cases he : p = it
  · rw [he, modify_mem_self]
    exact .inl hf
  · rw [modify_mem_of_ne he]
    rcases h c p hp with hcharge | hfree | hclear
    · exact .inl hcharge
    · exact .inr (.inl hfree)
    · exact .inr (.inr (hclear.resolve_right he))

theorem Traced.clears {marked : List Ptr} (h : Traced m (· ∈ marked)) (hc : Clears cfg held m m' it) :
    Traced m' (· ∈ it :: marked) := by
  intro c p hp
  rw [ItemMemory.chunks, hc.slabList] at hp
  by_cases he : p = it
  · exact .inr (.inr (he ▸ List.mem_cons_self))
  · rw [(hc.others p he).1, hc.slots]
    rcases h c p hp with hcharge | hfree | hclear
    · exact .inl hcharge
    · exact .inr (.inl ((List.mem_erase_of_ne he).mpr hfree))
    · exact .inr (.inr (List.mem_cons_of_mem it hclear))

theorem traced_moveTurn {free : Bool} (h : Traced m (· ∈ r.marked)) (ht : Turn cfg held m r it free m' r') :
    Traced m' (· ∈ r'.marked) := by
  cases ht with
  | passed => exact h
  | busy => exact h
  | cleared _ hc => exact h.clears hc

theorem traced_moveLoop (frees : List Bool) (hm : Moving cfg held m r) (hdone : r.done = false) (h : Traced m (· ∈ r.marked)) :
    Traced (ItemMemory.moveLoop cfg frees (m, r)).1 (· ∈ (ItemMemory.moveLoop cfg frees (m, r)).2.marked) := by
  induction frees generalizing m r with
  | nil => exact h
  | cons free frees ih =>
    simp only [ItemMemory.moveLoop]
    cases hit : r.page[r.pos]? with
    | none => exact h
    | some it =>
      have hturn := moveTurn_turn hm.store hm.placed hm.rebal (List.mem_of_getElem? hit) free
      obtain ⟨hm', hdone', _⟩ := hturn.keeps hm hdone hit
      exact ih hm' hdone' (traced_moveTurn h hturn)

theorem marked_slabRebalanceMove (cfg : Settings) (m : ItemMemory) (r : Rebalance) (frees : List Bool) :
    (m.slabRebalanceMove cfg r frees).2.marked = (ItemMemory.moveLoop cfg frees (m, r)).2.marked := by
  unfold ItemMemory.slabRebalanceMove
  dsimp only
  split
  · split <;> rfl
  · rfl

/-- The page goes with the chunks that were cleared. -/
theorem Traced.dropPage (h : Traced m (· ∈ r.marked)) (hm : Moving cfg held m r) : Traced (dropPage m r) fun _ => False := by
  intro c p hp
  obtain ⟨hp, hout⟩ := (hm.mem_dropPage c p).mp hp
  rcases h c p hp with hcharge | hfree | hclear
  · exact .inl hcharge
  · exact .inr (.inl hfree)
  · exact absurd (hm.rebal.inPage p hclear) hout

end

/-- A chunk that the move of its page has cleared. -/
def MemoryState.Cleared (u : MemoryState) (p : Ptr) : Prop := ∃ r ∈ u.rebal, p ∈ r.marked

theorem Traced.step {u v : MemoryState} {op : MemoryOp} (h : Traced u.memory u.Cleared) (hp : PagedOk cfg u)
    (hs : MemoryStep cfg u op v) : Traced v.memory v.Cleared := by
  cases hs with
  | item m held rebal hstep hop => exact h.gives hp.placed (gives_perform hp.store hp.placed hstep hop).1
  | allocate m held rebal env entry key flags exptime nbytes curHv hreq hf hfires =>
    obtain ⟨live, lru, hok⟩ := hp.store
    obtain ⟨a, it, m₁, held₁, he, hrep, hend, hno⟩ :=
      @doItemAlloc_end cfg env entry curHv held live lru m hok hp.placed hf key flags exptime nbytes
    obtain ⟨rfl, rfl⟩ := hrep.start (hno hfires)
    rw [he]
    cases it with
    | none =>
      have hmem : a.memory = m₁ := hend
      rw [hmem]
      exact h
    | some it =>
      obtain ⟨h0, m₂, haside, hmem⟩ := hend
      have hid := slabsClsid_range h0
      have hh := haside.filled hp.placed hid hreq rfl exptime
      have hcharged := hh.charged
      rw [ItemMemory.store_onStore, modify_mem_self] at hcharged
      rw [hmem]
      exact Traced.use (h.reserves hp.placed hid haside.reserves) (by rw [hcharged]; simp)
  | startMove m held src dst grown hstart =>
    unfold ItemMemory.slabRebalanceStart at hstart
    split at hstart
    · cases hstart
    · cases hstart
      refine h.mono fun p hc => ?_
      obtain ⟨r, hr, _⟩ := hc
      cases hr
  | refuseMove => exact h
  | move m held r frees hdone =>
    have hmoving : Moving cfg held m r := ⟨hp.store, hp.placed, hp.rebal r rfl⟩
    have hbefore : Traced m (· ∈ r.marked) := h.mono fun p hc => by
      obtain ⟨r', hr', hp'⟩ := hc
      cases hr'
      exact hp'
    have hafter := traced_moveLoop frees hmoving hdone hbefore
    rw [← marked_slabRebalanceMove, ← fst_slabRebalanceMove] at hafter
    exact hafter.mono fun p hc => ⟨_, rfl, hc⟩
  | finishMove m held r chunks hdone hnd hnew =>
    have hmoving : Moving cfg held m r := ⟨hp.store, hp.placed, hp.rebal r rfl⟩
    have hbefore : Traced m (· ∈ r.marked) := h.mono fun p hc => by
      obtain ⟨r', hr', hp'⟩ := hc
      cases hr'
      exact hp'
    have hout : ∀ p ∈ chunks, p ∉ (RamCube.dropPage m r).store.carved := by
      intro p hp' hm
      have hm : p ∈ m.store.carved ∧ p ∉ r.page := by simpa [RamCube.dropPage] using hm
      exact hm.2 (hnew p hp' hm.1)
    rw [slabRebalanceFinish_eq]
    have hafter := (hbefore.dropPage hmoving).newslab (hmoving.dropPage hdone).2 r.dst hout
    exact hafter.mono fun p hc => hc.elim

/-! ## Runs -/

/-- Just one of the three holds. -/
def OneOf (a b c : Prop) : Prop := (a ∧ ¬b ∧ ¬c) ∨ (¬a ∧ b ∧ ¬c) ∨ (¬a ∧ ¬b ∧ c)

namespace MemoryState

variable (u : MemoryState)

/-- A chunk that an item is in. -/
def InUse (c : SlabId) (p : Ptr) : Prop := 0 < (u.memory.store.mem p).refcount ∧ (u.memory.store.mem p).slabsClsid = c

def Free (c : SlabId) (p : Ptr) : Prop :=
  p ∈ u.memory.store.slots c ∧ (u.memory.store.mem p).slabbed = true ∧ (u.memory.store.mem p).refcount = 0

end MemoryState

structure ChunkStatesOk (cfg : Settings) (u : MemoryState) : Prop where
  paged : PagedOk cfg u
  marked : Marked u.memory.store
  traced : Traced u.memory u.Cleared

theorem chunkStatesOk_init (cfg : Settings) (n : Nat) : ChunkStatesOk cfg (memoryInit n) where
  paged := pagedOk_init cfg n
  marked := by simp [Marked, memoryInit, storeInit]
  traced := by simp [Traced, memoryInit, ItemMemory.chunks]

theorem ChunkStatesOk.step {u v : MemoryState} {op : MemoryOp} (h : ChunkStatesOk cfg u) (hs : MemoryStep cfg u op v) :
    ChunkStatesOk cfg v :=
  ⟨hs.keeps h.paged, h.marked.step h.paged hs, h.traced.step h.paged hs⟩

theorem ChunkStatesOk.oneOf {u : MemoryState} (h : ChunkStatesOk cfg u) (hp : p ∈ u.memory.chunks c) :
    OneOf (u.InUse c p) (u.Free c p) (u.Cleared p) := by
  obtain ⟨live, lru, hok⟩ := h.paged.store
  have hclear : u.Cleared p → (u.memory.store.mem p).refcount = 0 ∧ p ∉ u.memory.store.slots c := by
    intro hc
    obtain ⟨r, hr, hm⟩ := hc
    have hspent := (h.paged.rebal r hr).spent p hm
    exact ⟨charge_eq_none.mp hspent.idle, hspent.off c⟩
  by_cases hc : u.Cleared p
  · obtain ⟨h0, hoff⟩ := hclear hc
    exact .inr (.inr ⟨fun hu => by have := hu.1; omega, fun hf => hoff hf.1, hc⟩)
  · rcases h.traced c p hp with hcharge | hfree | hclear
    · have hpos : 0 < (u.memory.store.mem p).refcount := by
        by_contra h0
        exact hcharge (charge_eq_none.mpr (by omega))
      have hclass := h.paged.placed.used p _ _ (charge_eq_some.mpr ⟨hpos, rfl, rfl⟩)
      refine .inl ⟨⟨hpos, h.paged.placed.apart _ c p hclass hp⟩, fun hf => ?_, hc⟩
      have h0 := hf.2.2
      omega
    · have h0 := hok.chunks.free c p hfree
      exact .inr (.inl ⟨fun hu => by have := hu.1; omega, ⟨hfree, h.marked c p hfree, h0⟩, hc⟩)
    · exact absurd hclear hc

theorem chunkStatesOk_of_run {n : Nat} {ops : List MemoryOp} {u : MemoryState}
    (hr : Run (MemoryStep cfg) (memoryInit n) ops u) : ChunkStatesOk cfg u :=
  hr.invariant (I := ChunkStatesOk cfg) (fun _ _ _ hi hs => hi.step hs) (chunkStatesOk_init cfg n)

/-- In every run of commands, allocations and page moves, every chunk of every page is in use by
an item of its class, free with the mark, or cleared by the move of its page, and just one of
these. -/
theorem no_chunk_lost {n : Nat} {ops : List MemoryOp} {u : MemoryState} (hr : Run (MemoryStep cfg) (memoryInit n) ops u) :
    ∀ c, ∀ p ∈ u.memory.chunks c, OneOf (u.InUse c p) (u.Free c p) (u.Cleared p) :=
  fun _ _ hp => (chunkStatesOk_of_run hr).oneOf hp

/-- The move of the page at 4096 starts, and takes the item stored there. -/
theorem clearing_run : ∃ ops u v, Run (MemoryStep twoClasses) (memoryInit 16) ops u ∧
    (∃ r, u.rebal = some r ∧ r.page = [4096]) ∧ u.held 4096 = 0 ∧ MemoryStep twoClasses u (.move [true]) v ∧
    v.Cleared 4096 ∧ 4096 ∈ v.memory.chunks 1 := by
  have h : MemoryStep twoClasses secondState (.startMove 1 2 true) _ :=
    .startMove secondState.memory secondState.held 1 2 true (if_neg (by decide +kernel))
  refine ⟨_, _, _, secondState_run.append (.single h), ⟨_, rfl, ?_⟩, ?_, .move _ _ _ [true] rfl, ⟨_, rfl, ?_⟩, ?_⟩
  · decide +kernel
  · decide +kernel
  · decide +kernel
  · decide +kernel

theorem no_chunk_lost_clearing : ∃ ops v, Run (MemoryStep twoClasses) (memoryInit 16) ops v ∧ v.Cleared 4096 ∧
    OneOf (v.InUse 1 4096) (v.Free 1 4096) (v.Cleared 4096) := by
  obtain ⟨ops, u, v, hr, _, _, hs, hc, hp⟩ := clearing_run
  have hrun := hr.append (.single hs)
  exact ⟨_, v, hrun, hc, no_chunk_lost hrun 1 4096 hp⟩

end RamCube
