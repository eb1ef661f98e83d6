import RamCube.Store.Reserving

/-! # Runs of the memory of items

Commands, allocations and the moves of pages keep the store in order, every chunk on the page
of its class, and the cleared chunks of the page that moves out of use (`PagedOk`). -/
namespace RamCube

variable {cfg : Settings} {s : Store} {held : Ptr → Nat} {live : List Ptr} {lru : SlabId → List Ptr}
  {m m' : ItemMemory} {r r' : Rebalance} {c : SlabId} {it p : Ptr}

/-! ## Clearing a chunk -/

theorem modify_clear {f : Item → Item} (hf : clearItem (f (s.mem it)) = clearItem (s.mem it)) :
    (s.modify it f).modify it clearItem = s.modify it clearItem := by
  simp [Store.modify, hf]

/-- A chunk nobody refers to is cleared without a trace. -/
theorem StoreOk.clear (h : StoreOk cfg s held) (h0 : (s.mem it).refcount = 0) :
    StoreOk cfg (s.modify it clearItem) held := by
  have hl := h.not_linked_of_zero h0
  refine h.modify (fun hx => ?_) hl.symm h0.symm fun hpos => ?_
  · rw [hl] at hx
    cases hx
  · omega

theorem StoreOk.erase_slot (h : StoreOk cfg s held) (it : Ptr) (c : SlabId) :
    StoreOk cfg { s with slots := Function.update s.slots c ((s.slots c).erase it) } held := by
  obtain ⟨live, lru, h⟩ := h
  have hsub : ∀ c' p, p ∈ Function.update s.slots c ((s.slots c).erase it) c' → p ∈ s.slots c' := by
    intro c' p hp
    by_cases hc : c' = c
    · subst hc
      rw [Function.update_self] at hp
      exact List.mem_of_mem_erase hp
    · rwa [Function.update_of_ne hc] at hp
  refine ⟨live, lru, h.table, h.count, h.queues, h.queued, h.refs, ?_⟩
  constructor
  · intro c'
    by_cases hc : c' = c
    · subst hc
      simpa using (h.chunks.nodup c').erase it
    · simpa [hc] using h.chunks.nodup c'
  · exact fun c₁ c₂ p h1 h2 => h.chunks.disjoint c₁ c₂ p (hsub c₁ p h1) (hsub c₂ p h2)
  · exact fun c' p hp => h.chunks.known c' p (hsub c' p hp)
  · exact fun c' p hp => h.chunks.free c' p (hsub c' p hp)
  · exact h.chunks.fresh
  · exact h.chunks.busy

/-- A chunk is cleared: it is neither in use nor free any more. -/
structure Clears (cfg : Settings) (held : Ptr → Nat) (m m' : ItemMemory) (it : Ptr) : Prop where
  was : (m.store.mem it).refcount = 0 ∨ (m.store.mem it).refcount = 1 ∧ (m.store.mem it).linked = true
  store : StoreOk cfg m'.store held
  idle : charge (m'.store.mem it) = none
  others : ∀ p, p ≠ it → charge (m'.store.mem p) = charge (m.store.mem p) ∧
    (m'.store.mem p).refcount = (m.store.mem p).refcount ∧ (m'.store.mem p).linked = (m.store.mem p).linked
  slots : ∀ c, m'.store.slots c = (m.store.slots c).erase it
  carved : m'.store.carved = m.store.carved
  slabList : m'.slabList = m.slabList
  requested : m'.requested = m.requested

theorem idle_clear (s : Store) (it : Ptr) : charge ((s.modify it clearItem).mem it) = none := by
  rw [modify_mem_self, charge_eq_none]
  rfl

/-- A free chunk is taken off its list and cleared. -/
theorem clears_free (h : StoreOk cfg m.store held) (hpl : Placed cfg m) (hc : it ∈ m.chunks c)
    (h0 : (m.store.mem it).refcount = 0) :
    Clears cfg held m (((m.onStore fun s => refcountIncr cfg s it).onStore fun s =>
      { s with slots := Function.update s.slots c ((s.slots c).erase it) }).mark it) it := by
  have hstore : (((m.onStore fun s => refcountIncr cfg s it).onStore fun s =>
      { s with slots := Function.update s.slots c ((s.slots c).erase it) }).mark it).store =
      { m.store.modify it clearItem with
        slots := Function.update m.store.slots c ((m.store.slots c).erase it) } := by
    simp [ItemMemory.mark, ItemMemory.onStore, refcountIncr, Store.modify, clearItem]
  refine ⟨.inl h0, ?_, ?_, fun p hp => ?_, fun c' => ?_, ?_, rfl, rfl⟩
  · rw [hstore]
    exact (h.clear h0).erase_slot it c
  · rw [hstore]
    exact idle_clear m.store it
  · rw [hstore]
    change charge ((m.store.modify it clearItem).mem p) = _ ∧ ((m.store.modify it clearItem).mem p).refcount = _ ∧
      ((m.store.modify it clearItem).mem p).linked = _
    rw [modify_mem_of_ne hp]
    exact ⟨rfl, rfl, rfl⟩
  · rw [hstore]
    by_cases hcc : c' = c
    · subst hcc
      exact Function.update_self _ _ _
    · have hout : it ∉ m.store.slots c' := fun hm => hcc (hpl.apart c' c it (hpl.slots c' it hm) hc)
      rw [List.erase_of_not_mem hout]
      exact Function.update_of_ne hcc _ _
  · rw [hstore]
    rfl

/-- A stored item that only its link refers to is unlinked, and its chunk cleared. -/
theorem clears_linked (h : StoreOk cfg m.store held) (hl : (m.store.mem it).linked = true)
    (h1 : (m.store.mem it).refcount = 1) :
    Clears cfg held m (((m.onStore fun s => refcountIncr cfg s it).doItemUnlinkNolock cfg it
      (cfg.hash (m.store.key it))).mark it) it := by
  have hoff := (h.off_of_pos (show 0 < (m.store.mem it).refcount by omega)).2
  have htwo := (refcountIncr_eq_two h it).mpr h1
  have hmark : ((refcountIncr cfg m.store it).mem it).linked = true := by
    rw [refcountIncr, modify_mem_self]
    exact hl
  have hsame := SameCharges.unlinkItem (refcountIncr cfg m.store it) it (cfg.hash (m.store.key it))
  have hmem := fun p => unlinkItem_mem (refcountIncr cfg m.store it) it p (cfg.hash (m.store.key it))
  have hunlink := @ItemMemory.unlink_referred cfg (m.onStore fun s => refcountIncr cfg s it) it hmark htwo
    (cfg.hash (m.store.key it))
  have hclear : ∀ s : Store, (refcountDecr cfg (s.modify it fun i => { i with slabsClsid := 0 }) it).modify it clearItem =
      s.modify it clearItem := fun s => by
    rw [refcountDecr, modify_clear rfl, modify_clear rfl]
  obtain ⟨hok, hready⟩ := h.takeChunk hl h1
  have hlast := hok.clear hready.free
  have hstore := (m.onStore fun s => refcountIncr cfg s it).store_unlink cfg it (cfg.hash (m.store.key it))
  rw [ItemMemory.store_onStore] at hstore
  rw [takeChunk, hclear, ← hstore, hunlink] at hlast
  rw [hunlink]
  refine ⟨.inr ⟨h1, hl⟩, hlast, idle_clear _ it, fun p hp => ?_, fun c => ?_, hsame.carved, rfl, rfl⟩
  · have hsame' : ((refcountDecr cfg (unlinkItem (refcountIncr cfg m.store it) it (cfg.hash (m.store.key it))) it
        ).modify it clearItem).mem p =
        (unlinkItem (refcountIncr cfg m.store it) it (cfg.hash (m.store.key it))).mem p := by
      rw [modify_mem_of_ne hp, refcountDecr, modify_mem_of_ne hp]
    have hincr : (refcountIncr cfg m.store it).mem p = m.store.mem p := modify_mem_of_ne hp
    have hlinked : ((unlinkItem (refcountIncr cfg m.store it) it (cfg.hash (m.store.key it))).mem p).linked =
        (m.store.mem p).linked := by
      rw [(hmem p).2.2, hincr]
      simp [hp]
    exact ⟨(congrArg charge hsame').trans ((hsame.charge p).trans (congrArg charge hincr)),
      (congrArg Item.refcount hsame').trans ((hmem p).2.1.trans (congrArg Item.refcount hincr)),
      (congrArg Item.linked hsame').trans hlinked⟩
  · rw [List.erase_of_not_mem (hoff c)]
    exact congrFun hsame.slots c

/-! ## One turn of a move -/

/-- The page is the first one of its class, and up to the position its chunks are cleared,
but for busy ones. -/
structure RebalOk (cfg : Settings) (m : ItemMemory) (r : Rebalance) : Prop where
  front : ∃ rest, m.slabList r.src = r.page :: rest
  dst : r.src ≠ r.dst ∧ 1 ≤ r.dst.val ∧ r.dst.val ≤ cfg.slabclass.sizes.length
  inPage : ∀ p ∈ r.marked, p ∈ r.page
  spent : ∀ p ∈ r.marked, Spent m p
  cleared : r.busyItems = 0 → ∀ i p, i < r.pos → r.page[i]? = some p → p ∈ r.marked
  finished : r.done = true → ∀ p ∈ r.page, p ∈ r.marked

theorem RebalOk.chunk (h : RebalOk cfg m r) (hp : p ∈ r.page) : p ∈ m.chunks r.src := by
  obtain ⟨rest, he⟩ := h.front
  rw [ItemMemory.chunks, he, List.flatten_cons]
  exact List.mem_append_left _ hp

theorem RebalOk.transfer (h : RebalOk cfg m r) (hpages : ∀ c, ∃ more, m'.slabList c = m.slabList c ++ more)
    (hspent : ∀ p ∈ r.marked, Spent m' p) : RebalOk cfg m' r := by
  obtain ⟨rest, he⟩ := h.front
  obtain ⟨more, hmore⟩ := hpages r.src
  refine ⟨⟨rest ++ more, ?_⟩, h.dst, h.inPage, hspent, h.cleared, h.finished⟩
  rw [hmore, he]
  rfl

/-- What a turn of the loop comes to. -/
inductive Turn (cfg : Settings) (held : Ptr → Nat) (m : ItemMemory) (r : Rebalance) (it : Ptr) (free : Bool) :
    ItemMemory → Rebalance → Prop where
  | passed : it ∈ r.marked → Turn cfg held m r it free m { r with pos := r.pos + 1 }
  | busy : Turn cfg held m r it free m { r with pos := r.pos + 1, busyItems := r.busyItems + 1 }
  | cleared {m' : ItemMemory} : free = true → Clears cfg held m m' it →
      Turn cfg held m r it free m' { r with pos := r.pos + 1, marked := it :: r.marked }

theorem refcountIncr_eq_one (h : StoreOk cfg s held) (it : Ptr) :
    ((refcountIncr cfg s it).mem it).refcount = 1 ↔ (s.mem it).refcount = 0 := by
  have hr := h.room it
  simp only [refcountIncr, modify_mem_self]
  rcases cfg.counts with h0 | h0
  · rw [h0, Nat.mod_zero]
    omega
  · rw [h0] at hr ⊢
    omega

theorem moveTurn_turn (h : StoreOk cfg m.store held) (hpl : Placed cfg m) (hr : RebalOk cfg m r) (hit : it ∈ r.page)
    (free : Bool) : Turn cfg held m r it free (m.moveTurn cfg r it free).1 (m.moveTurn cfg r it free).2 := by
  have hbusy : Turn cfg held m r it free (m.onStore fun s => refcountDecr cfg (refcountIncr cfg s it) it)
      { r with pos := r.pos + 1, busyItems := r.busyItems + 1 } := by
    rw [ItemMemory.passed h]
    exact .busy
  unfold ItemMemory.moveTurn ItemMemory.moveChunk
  by_cases hmarked : it ∈ r.marked
  · rw [if_pos hmarked]
    exact .passed hmarked
  · rw [if_neg hmarked]
    cases free with
    | false =>
      rw [if_pos rfl]
      exact .busy
    | true =>
      rw [if_neg (show ¬true = false by decide)]
      dsimp only
      by_cases hone : ((m.onStore fun s => refcountIncr cfg s it).store.mem it).refcount = 1
      · rw [if_pos hone]
        by_cases hslab : ((m.onStore fun s => refcountIncr cfg s it).store.mem it).slabbed = true
        · rw [if_pos hslab]
          exact .cleared rfl (clears_free h hpl (hr.chunk hit) ((refcountIncr_eq_one h it).mp hone))
        · rw [if_neg hslab]
          exact hbusy
      · rw [if_neg hone]
        by_cases htwo : ((m.onStore fun s => refcountIncr cfg s it).store.mem it).refcount = 2
        · rw [if_pos htwo]
          by_cases hlink : ((m.onStore fun s => refcountIncr cfg s it).store.mem it).linked = true
          · rw [if_pos hlink]
            have hl : (m.store.mem it).linked = true := by
              rw [ItemMemory.store_onStore, refcountIncr, modify_mem_self] at hlink
              exact hlink
            exact .cleared rfl (clears_linked h hl ((refcountIncr_eq_two h it).mp htwo))
          · rw [if_neg hlink]
            exact hbusy
        · rw [if_neg htwo]
          exact hbusy

theorem Clears.placed (h : Clears cfg held m m' it) (hpl : Placed cfg m) : Placed cfg m' := by
  have hchunks : ∀ c, m'.chunks c = m.chunks c := fun c => by rw [ItemMemory.chunks, h.slabList, ItemMemory.chunks]
  constructor
  · intro c
    rw [hchunks]
    exact hpl.nodup c
  · intro c c' p
    rw [hchunks, hchunks]
    exact hpl.apart c c' p
  · intro p
    rw [h.carved]
    simpa only [hchunks] using hpl.carved p
  · intro c p hp
    rw [h.slots] at hp
    rw [hchunks]
    exact hpl.slots c p (List.mem_of_mem_erase hp)
  · intro p c n hc
    rw [hchunks]
    by_cases hp : p = it
    · rw [hp, h.idle] at hc
      cases hc
    · rw [(h.others p hp).1] at hc
      exact hpl.used p c n hc
  · intro c p
    rw [hchunks]
    exact hpl.range c p

theorem Clears.spent (h : Clears cfg held m m' it) (hok : StoreOk cfg m.store held) (hp : p = it ∨ Spent m p) :
    Spent m' p := by
  obtain ⟨live, lru, hok⟩ := hok
  have hself : Spent m' it := by
    refine ⟨h.idle, fun c hm => ?_⟩
    rw [h.slots] at hm
    exact (hok.chunks.nodup c).not_mem_erase hm
  by_cases he : p = it
  · rw [he]
    exact hself
  · have hs := hp.resolve_left he
    refine ⟨by rw [(h.others p he).1]; exact hs.idle, fun c hm => hs.off c ?_⟩
    rw [h.slots] at hm
    exact List.mem_of_mem_erase hm

/-- The store and the pages in order while a page moves. -/
structure Moving (cfg : Settings) (held : Ptr → Nat) (m : ItemMemory) (r : Rebalance) : Prop where
  store : StoreOk cfg m.store held
  placed : Placed cfg m
  rebal : RebalOk cfg m r

theorem Turn.lists {free : Bool} (h : Turn cfg held m r it free m' r') : m'.slabList = m.slabList ∧ r'.dst = r.dst := by
  cases h with
  | passed => exact ⟨rfl, rfl⟩
  | busy => exact ⟨rfl, rfl⟩
  | cleared _ hc => exact ⟨hc.slabList, rfl⟩

theorem Turn.keeps {free : Bool} (h : Turn cfg held m r it free m' r') (hm : Moving cfg held m r) (hdone : r.done = false)
    (hit : r.page[r.pos]? = some it) : Moving cfg held m' r' ∧ r'.done = false ∧ r'.page = r.page := by
  obtain ⟨hok, hpl, hr⟩ := hm
  have hnot : r.done = true → ∀ p ∈ r.page, p ∈ r.marked := fun he => by
    rw [hdone] at he
    cases he
  cases h with
  | passed hmarked =>
    refine ⟨⟨hok, hpl, hr.front, hr.dst, hr.inPage, hr.spent, fun h0 i p hi hp => ?_, hnot⟩, hdone, rfl⟩
    rcases Nat.lt_or_eq_of_le (Nat.le_of_lt_succ hi) with hlt | heq
    · exact hr.cleared h0 i p hlt hp
    · subst heq
      rw [hit] at hp
      cases hp
      exact hmarked
  | busy =>
    exact ⟨⟨hok, hpl, hr.front, hr.dst, hr.inPage, hr.spent, fun h0 => absurd h0 (Nat.succ_ne_zero _), hnot⟩, hdone, rfl⟩
  | cleared _ hc =>
    have hpages : m'.slabList = m.slabList := hc.slabList
    refine ⟨⟨hc.store, hc.placed hpl, ?_, hr.dst, fun p hp => ?_, fun p hp => ?_, fun h0 i p hi hp => ?_, fun he => ?_⟩,
      hdone, rfl⟩
    · rw [hpages]
      exact hr.front
    · rcases List.mem_cons.mp hp with he | hp
      · rw [he]
        exact List.mem_of_getElem? hit
      · exact hr.inPage p hp
    · rcases List.mem_cons.mp hp with he | hp
      · exact hc.spent hok (.inl he)
      · exact hc.spent hok (.inr (hr.spent p hp))
    · rcases Nat.lt_or_eq_of_le (Nat.le_of_lt_succ hi) with hlt | heq
      · exact List.mem_cons_of_mem it (hr.cleared h0 i p hlt hp)
      · subst heq
        rw [hit] at hp
        cases hp
        exact List.mem_cons_self
    · exact absurd (hdone.symm.trans he) (by decide)

theorem moveLoop_keeps (frees : List Bool) (h : Moving cfg held m r) (hdone : r.done = false) :
    Moving cfg held (ItemMemory.moveLoop cfg frees (m, r)).1 (ItemMemory.moveLoop cfg frees (m, r)).2 ∧
      (ItemMemory.moveLoop cfg frees (m, r)).2.done = false := by
  induction frees generalizing m r with
  | nil => exact ⟨h, hdone⟩
  | cons free frees ih =>
    simp only [ItemMemory.moveLoop]
    cases hit : r.page[r.pos]? with
    | none => exact ⟨h, hdone⟩
    | some it =>
      have hturn := moveTurn_turn h.store h.placed h.rebal (List.mem_of_getElem? hit) free
      obtain ⟨h', hdone', _⟩ := hturn.keeps h hdone hit
      exact ih h' hdone'

theorem moveLoop_lists (frees : List Bool) (h : Moving cfg held m r) (hdone : r.done = false) :
    (ItemMemory.moveLoop cfg frees (m, r)).1.slabList = m.slabList ∧
      (ItemMemory.moveLoop cfg frees (m, r)).2.dst = r.dst := by
  induction frees generalizing m r with
  | nil => exact ⟨rfl, rfl⟩
  | cons free frees ih =>
    simp only [ItemMemory.moveLoop]
    cases hit : r.page[r.pos]? with
    | none => exact ⟨rfl, rfl⟩
    | some it =>
      have hturn := moveTurn_turn h.store h.placed h.rebal (List.mem_of_getElem? hit) free
      obtain ⟨h', hdone', _⟩ := hturn.keeps h hdone hit
      obtain ⟨h1, h2⟩ := ih h' hdone'
      exact ⟨h1.trans hturn.lists.1, h2.trans hturn.lists.2⟩

theorem slabRebalanceMove_lists (frees : List Bool) (h : Moving cfg held m r) (hdone : r.done = false) :
    (m.slabRebalanceMove cfg r frees).1.slabList = m.slabList ∧ (m.slabRebalanceMove cfg r frees).2.dst = r.dst := by
  obtain ⟨h1, h2⟩ := moveLoop_lists frees h hdone
  unfold ItemMemory.slabRebalanceMove
  generalize ItemMemory.moveLoop cfg frees (m, r) = mr at *
  dsimp only
  split
  · split <;> exact ⟨h1, h2⟩
  · exact ⟨h1, h2⟩

/-- Behind the last chunk the move starts over if any was busy, and is done otherwise. -/
theorem slabRebalanceMove_keeps (frees : List Bool) (h : Moving cfg held m r) (hdone : r.done = false) :
    Moving cfg held (m.slabRebalanceMove cfg r frees).1 (m.slabRebalanceMove cfg r frees).2 := by
  obtain ⟨h', hdone'⟩ := moveLoop_keeps frees h hdone
  unfold ItemMemory.slabRebalanceMove
  generalize ItemMemory.moveLoop cfg frees (m, r) = mr at *
  obtain ⟨m₁, r₁⟩ := mr
  obtain ⟨hok, hpl, hr⟩ := h'
  dsimp only at *
  have hnot : r₁.done = true → ∀ p ∈ r₁.page, p ∈ r₁.marked := fun he => by
    rw [hdone'] at he
    cases he
  split
  · rename_i hend
    split
    · exact ⟨hok, hpl, hr.front, hr.dst, hr.inPage, hr.spent, fun _ i p hi => absurd hi (Nat.not_lt_zero i), hnot⟩
    · rename_i hbusy
      refine ⟨hok, hpl, hr.front, hr.dst, hr.inPage, hr.spent, hr.cleared, fun _ p hp => ?_⟩
      obtain ⟨i, hi, he⟩ := List.getElem_of_mem hp
      exact hr.cleared (not_not.mp hbusy) i p (Nat.lt_of_lt_of_le hi hend) (List.getElem?_eq_some_iff.mpr ⟨hi, he⟩)
  · exact ⟨hok, hpl, hr⟩

/-! ## The end of a move -/

/-- The last page in the place of the first: all pages but the first. -/
theorem perm_moved (page : List Ptr) (rest : List (List Ptr)) :
    (((page :: rest).set 0 ((page :: rest).getLastD [])).dropLast).Perm rest := by
  rcases List.eq_nil_or_concat rest with he | ⟨init, last, he⟩
  · rw [he]
    exact .refl _
  · rw [he, List.concat_eq_append]
    have hlast : (page :: (init ++ [last])).getLastD [] = last := by
      rw [← List.cons_append, List.getLastD_concat]
    rw [hlast, List.set_cons_zero, ← List.cons_append, List.dropLast_concat]
    exact (List.perm_append_singleton last init).symm

/-- The memory without the page that moves. -/
def dropPage (m : ItemMemory) (r : Rebalance) : ItemMemory :=
  { m with
    slabList := Function.update m.slabList r.src
      (((m.slabList r.src).set 0 ((m.slabList r.src).getLastD [])).dropLast)
    store := { m.store with carved := m.store.carved.filter (· ∉ r.page) } }

theorem slabRebalanceFinish_eq (m : ItemMemory) (r : Rebalance) (chunks : List Ptr) :
    m.slabRebalanceFinish r chunks =
      ((dropPage m r).slabsNewslab r.dst chunks).onStore fun s => { s with slabRebal := none } := rfl

theorem RebalOk.perm_chunks (h : RebalOk cfg m r) : (m.chunks r.src).Perm (r.page ++ (dropPage m r).chunks r.src) := by
  obtain ⟨rest, he⟩ := h.front
  have hdrop : (dropPage m r).chunks r.src =
      (((r.page :: rest).set 0 ((r.page :: rest).getLastD [])).dropLast).flatten := by
    simp [ItemMemory.chunks, dropPage, he]
  rw [hdrop, ItemMemory.chunks, he, List.flatten_cons]
  exact ((perm_moved r.page rest).flatten.symm).append_left r.page

theorem chunks_dropPage (m : ItemMemory) (r : Rebalance) (hc : c ≠ r.src) : (dropPage m r).chunks c = m.chunks c := by
  simp [ItemMemory.chunks, dropPage, hc]

theorem Moving.mem_dropPage (h : Moving cfg held m r) (c : SlabId) (p : Ptr) :
    p ∈ (dropPage m r).chunks c ↔ p ∈ m.chunks c ∧ p ∉ r.page := by
  by_cases hc : c = r.src
  · subst hc
    have hperm := h.rebal.perm_chunks
    have hnd := (hperm.nodup_iff).mp (h.placed.nodup r.src)
    rw [hperm.mem_iff, List.mem_append]
    constructor
    · exact fun hp => ⟨.inr hp, fun hpage => (List.nodup_append.mp hnd).2.2 p hpage p hp rfl⟩
    · exact fun hp => hp.1.resolve_left hp.2
  · rw [chunks_dropPage m r hc]
    exact ⟨fun hp => ⟨hp, fun hpage => hc (h.placed.apart c r.src p hp (h.rebal.chunk hpage))⟩, fun hp => hp.1⟩

/-- The page can be taken away when all of it is cleared. -/
theorem Moving.dropPage (h : Moving cfg held m r) (hdone : r.done = true) :
    StoreOk cfg (dropPage m r).store held ∧ Placed cfg (dropPage m r) := by
  have hspent : ∀ p ∈ r.page, Spent m p := fun p hp => h.rebal.spent p (h.rebal.finished hdone p hp)
  have hcarved : ∀ p, p ∈ (RamCube.dropPage m r).store.carved ↔ p ∈ m.store.carved ∧ p ∉ r.page := fun p => by
    simp [RamCube.dropPage]
  refine ⟨?_, ?_⟩
  · obtain ⟨live, lru, hok⟩ := h.store
    refine ⟨live, lru, hok.table, hok.count, hok.queues, hok.queued, hok.refs, hok.chunks.nodup, hok.chunks.disjoint,
      fun c p hp => ?_, hok.chunks.free, fun p hp => ?_, hok.chunks.busy⟩
    · exact (hcarved p).mpr ⟨hok.chunks.known c p hp, fun hpage => (hspent p hpage).off c hp⟩
    · rw [hcarved] at hp
      by_cases hpage : p ∈ r.page
      · exact charge_eq_none.mp (hspent p hpage).idle
      · exact hok.chunks.fresh p fun hm => hp ⟨hm, hpage⟩
  · constructor
    · intro c
      by_cases hc : c = r.src
      · subst hc
        have hnd := (h.rebal.perm_chunks.nodup_iff).mp (h.placed.nodup r.src)
        exact (List.nodup_append.mp hnd).2.1
      · rw [chunks_dropPage m r hc]
        exact h.placed.nodup c
    · intro c c' p hp hp'
      exact h.placed.apart c c' p ((h.mem_dropPage c p).mp hp).1 ((h.mem_dropPage c' p).mp hp').1
    · intro p
      rw [hcarved, h.placed.carved]
      constructor
      · rintro ⟨⟨c, hp⟩, hpage⟩
        exact ⟨c, (h.mem_dropPage c p).mpr ⟨hp, hpage⟩⟩
      · rintro ⟨c, hp⟩
        obtain ⟨hp, hpage⟩ := (h.mem_dropPage c p).mp hp
        exact ⟨⟨c, hp⟩, hpage⟩
    · intro c p hp
      exact (h.mem_dropPage c p).mpr ⟨h.placed.slots c p hp, fun hpage => (hspent p hpage).off c hp⟩
    · intro p c n hc
      refine (h.mem_dropPage c p).mpr ⟨h.placed.used p c n hc, fun hpage => ?_⟩
      change charge (m.store.mem p) = _ at hc
      rw [(hspent p hpage).idle] at hc
      cases hc
    · intro c p hp
      exact h.placed.range c p ((h.mem_dropPage c p).mp hp).1

/-! ## Runs -/

/-- What every step keeps. -/
structure PagedOk (cfg : Settings) (s : MemoryState) : Prop where
  store : StoreOk cfg s.memory.store s.held
  placed : Placed cfg s.memory
  rebal : ∀ r ∈ s.rebal, RebalOk cfg s.memory r

theorem pagedOk_init (cfg : Settings) (n : Nat) : PagedOk cfg (memoryInit n) :=
  ⟨storeOk_init cfg n, placed_init cfg n, nofun⟩

/-- A command gives chunks back at most. -/
theorem PagedOk.gives {rebal : Option Rebalance} {held' : Ptr → Nat} (h : PagedOk cfg ⟨m, held, rebal⟩) (hg : Gives m m')
    (hok : StoreOk cfg m'.store held') : PagedOk cfg ⟨m', held', rebal⟩ := by
  refine ⟨hok, hg.placed h.placed, fun r hr => (h.rebal r hr).transfer (fun c => ⟨[], ?_⟩) fun p hp => ?_⟩
  · rw [hg.slabList, List.append_nil]
  · exact hg.spent ((h.rebal r hr).spent p hp)

/-- An item handed out keeps the cleared chunks out of use. -/
theorem PagedOk.handed {rebal : Option Rebalance} {newslab : Option (List Ptr)} {id : SlabId} {ntotal : Nat}
    {ahead : List Ptr} {m₂ : ItemMemory} {f : Item → Item} (h : PagedOk cfg ⟨m, held, rebal⟩)
    (hs : SetAside cfg newslab id ntotal ahead m m held m₂ it)
    (hh : Handed cfg id ntotal held (m₂.onStore fun s => s.modify it f) it) :
    PagedOk cfg ⟨m₂.onStore fun s => s.modify it f, addRef held it, rebal⟩ := by
  obtain ⟨live, lru, hok, _⟩ := hh.store
  refine ⟨⟨live, lru, hok⟩, hh.placed, fun r hr => ?_⟩
  refine (h.rebal r hr).transfer hs.reserves.pages fun p hp => ?_
  have hcarved : p ∈ m.store.carved :=
    (h.placed.carved p).mpr ⟨r.src, (h.rebal r hr).chunk ((h.rebal r hr).inPage p hp)⟩
  obtain ⟨hne, hspent⟩ := hs.reserves.spent hcarved ((h.rebal r hr).spent p hp)
  refine ⟨?_, hspent.off⟩
  change charge ((m₂.store.modify it f).mem p) = none
  rw [modify_mem_of_ne hne]
  exact hspent.idle

theorem MemoryStep.keeps {s s' : MemoryState} {op : MemoryOp} (h : PagedOk cfg s) (hs : MemoryStep cfg s op s') :
    PagedOk cfg s' := by
  cases hs with
  | item m held rebal hstep hop =>
    obtain ⟨hg, he⟩ := gives_perform h.store h.placed hstep hop
    have hok := hstep.keeps h.store
    rw [← he] at hok
    exact h.gives hg hok
  | allocate m held rebal env entry key flags exptime nbytes curHv hreq hf hfires =>
    obtain ⟨live, lru, hok⟩ := h.store
    obtain ⟨a, it, m₁, held₁, he, hrep, hend, hno⟩ :=
      @doItemAlloc_end cfg env entry curHv held live lru m hok h.placed hf key flags exptime nbytes
    obtain ⟨rfl, rfl⟩ := hrep.start (hno hfires)
    rw [he]
    cases it with
    | none =>
      have hmem : a.memory = m₁ := hend
      rw [hmem]
      exact h
    | some it =>
      obtain ⟨h0, m₂, haside, hmem⟩ := hend
      have hh := haside.filled h.placed (slabsClsid_range h0) hreq rfl exptime
      rw [hmem]
      exact h.handed haside hh
  | @startMove m held src dst grown m' r hstart =>
    unfold ItemMemory.slabRebalanceStart at hstart
    split at hstart
    · cases hstart
    · rename_i hgo
      cases hstart
      have hsame : SameCharges m.store { m.store with slabRebal := some (((m.slabList src).headD []).headD 0,
          ((m.slabList src).headD []).headD 0 + cfg.slabclass.sizes.getD (src.val - 1) 0 *
            ((m.slabList src).headD []).length) } := ⟨rfl, rfl, fun _ => rfl⟩
      refine ⟨h.store.clock _ _ _, h.placed.same hsame, fun r hr => ?_⟩
      cases hr
      have hne : src ≠ dst := fun he => hgo (.inr (.inr (.inr (.inr (.inl he)))))
      refine ⟨?_, ⟨hne, show 1 ≤ dst.val ∧ dst.val ≤ cfg.slabclass.sizes.length by omega⟩, nofun, nofun, fun _ i p hi => absurd hi (Nat.not_lt_zero i), nofun⟩
      change ∃ rest, m.slabList src = (m.slabList src).headD [] :: rest
      cases hl : m.slabList src with
      | nil => simp [hl] at hgo
      | cons page rest => exact ⟨rest, rfl⟩
  | refuseMove => exact h
  | move m held r frees hdone =>
    obtain ⟨hok, hpl, hr⟩ := slabRebalanceMove_keeps frees ⟨h.store, h.placed, h.rebal r rfl⟩ hdone
    exact ⟨hok, hpl, fun r' hr' => by cases hr'; exact hr⟩
  | finishMove m held r chunks hdone hnd hnew =>
    have hmoving : Moving cfg held m r := ⟨h.store, h.placed, h.rebal r rfl⟩
    obtain ⟨⟨live, lru, hok⟩, hpl⟩ := hmoving.dropPage hdone
    have hout : ∀ p ∈ chunks, p ∉ (dropPage m r).store.carved := by
      intro p hp hm
      have hm : p ∈ m.store.carved ∧ p ∉ r.page := by simpa [dropPage] using hm
      exact hm.2 (hnew p hp hm.1)
    have hsame : SameCharges ((dropPage m r).slabsNewslab r.dst chunks).store
        { ((dropPage m r).slabsNewslab r.dst chunks).store with slabRebal := none } := ⟨rfl, rfl, fun _ => rfl⟩
    rw [slabRebalanceFinish_eq]
    exact ⟨StoreOk.clock ⟨live, lru, hok.newslab r.dst hnd hout⟩ _ _ none,
      (hpl.newslab (h.rebal r rfl).dst.2 hnd hout).same hsame, nofun⟩

theorem memory_run_ok {n : Nat} {ops : List MemoryOp} {s : MemoryState}
    (hr : Run (MemoryStep cfg) (memoryInit n) ops s) : PagedOk cfg s :=
  hr.invariant (I := PagedOk cfg) (fun _ _ _ hi hs => hs.keeps hi) (pagedOk_init cfg n)

end RamCube
