import RamCube.Store.PageMoves

/-! # Which chunks are in use

A chunk is in use while its item is referred to. The commands, the allocation aside, do
two things to chunks: they leave each as it is, or give one back to the free list of its
class (`Gives`). -/
namespace RamCube

variable {cfg : Settings} {s s' : Store} {held : Ptr → Nat} {m m' m'' : ItemMemory} {it p : Ptr} {c c' : SlabId}

/-- What a chunk in use counts for: its class and the size of its item. -/
def charge (i : Item) : Option (SlabId × Nat) :=
  if 0 < i.refcount then some (i.slabsClsid, itemNtotal i) else none

theorem charge_congr {i j : Item} (hr : 0 < i.refcount ↔ 0 < j.refcount) (hc : i.slabsClsid = j.slabsClsid)
    (hn : itemNtotal i = itemNtotal j) : charge i = charge j := by
  unfold charge
  rw [hc, hn]
  exact if_congr hr rfl rfl

theorem charge_eq_some {i : Item} {n : Nat} : charge i = some (c, n) ↔
    0 < i.refcount ∧ i.slabsClsid = c ∧ itemNtotal i = n := by
  unfold charge
  split
  · rename_i h
    simp [h]
  · rename_i h
    simp [h]

theorem charge_eq_none {i : Item} : charge i = none ↔ i.refcount = 0 := by
  unfold charge
  split
  · rename_i h
    simp
    omega
  · rename_i h
    simpa using h

/-! ## Nothing given back -/

/-- No chunk changes hands. -/
structure SameCharges (s s' : Store) : Prop where
  carved : s'.carved = s.carved
  slots : s'.slots = s.slots
  charge : ∀ p, charge (s'.mem p) = charge (s.mem p)

namespace SameCharges

theorem refl (s : Store) : SameCharges s s := ⟨rfl, rfl, fun _ => rfl⟩

theorem trans {s'' : Store} (h : SameCharges s s') (h' : SameCharges s' s'') : SameCharges s s'' :=
  ⟨h'.carved.trans h.carved, h'.slots.trans h.slots, fun p => (h'.charge p).trans (h.charge p)⟩

theorem modify {f : Item → Item} (hr : 0 < (f (s.mem it)).refcount ↔ 0 < (s.mem it).refcount)
    (hc : (f (s.mem it)).slabsClsid = (s.mem it).slabsClsid)
    (hn : itemNtotal (f (s.mem it)) = itemNtotal (s.mem it)) : SameCharges s (s.modify it f) :=
  ⟨rfl, rfl, modify_field RamCube.charge (charge_congr hr hc hn)⟩

theorem incr (hpos : 0 < (s.mem it).refcount) (hroom : Room cfg s it) :
    SameCharges s (refcountIncr cfg s it) := by
  refine modify ?_ rfl rfl
  change 0 < ((s.mem it).refcount + 1) % cfg.refMod ↔ _
  rw [refcountIncr_eq hroom]
  omega

/-- Links and marks do not count. -/
theorem of_links (hcarved : s'.carved = s.carved) (hslots : s'.slots = s.slots)
    (hm : ∀ p, ∃ n q l t, s'.mem p = { s.mem p with next := n, prev := q, linked := l, time := t }) :
    SameCharges s s' := by
  refine ⟨hcarved, hslots, fun p => ?_⟩
  obtain ⟨n, q, l, t, he⟩ := hm p
  rw [he]
  rfl

theorem unlinkItem (s : Store) (it : Ptr) (hv : UInt32) : SameCharges s (unlinkItem s it hv) := by
  have hrest : (RamCube.unlinkItem s it hv).carved = s.carved ∧ (RamCube.unlinkItem s it hv).slots = s.slots := by
    obtain ⟨_, he⟩ := itemUnlinkQ_rest { s.modify it fun i => { i with linked := false } with
      currBytes := _, currItems := _, assoc := _ } it
    unfold RamCube.unlinkItem
    rw [he]
    exact ⟨rfl, rfl⟩
  refine of_links hrest.1 hrest.2 fun p => ?_
  obtain ⟨n, q, l, he⟩ := unlinkItem_links s it p hv
  exact ⟨n, q, l, _, he⟩

theorem unlinkQ (s : Store) (it : Ptr) : SameCharges s (itemUnlinkQ s it) := by
  have hrest : (itemUnlinkQ s it).carved = s.carved ∧ (itemUnlinkQ s it).slots = s.slots := by
    obtain ⟨_, he⟩ := itemUnlinkQ_rest s it
    rw [he]
    exact ⟨rfl, rfl⟩
  refine of_links hrest.1 hrest.2 fun p => ?_
  obtain ⟨n, q, he⟩ := relinked_itemUnlinkQ s it p
  exact ⟨n, q, _, _, he⟩

theorem linkQ (s : Store) (it : Ptr) : SameCharges s (itemLinkQ s it) := by
  have hrest : (itemLinkQ s it).carved = s.carved ∧ (itemLinkQ s it).slots = s.slots := by
    obtain ⟨_, he⟩ := itemLinkQ_rest s it
    rw [he]
    exact ⟨rfl, rfl⟩
  refine of_links hrest.1 hrest.2 fun p => ?_
  obtain ⟨n, q, he⟩ := relinked_itemLinkQ s it p
  exact ⟨n, q, _, _, he⟩

theorem update (s : Store) (it : Ptr) : SameCharges s (doItemUpdate s it) := by
  unfold doItemUpdate
  split
  · split
    · exact ((unlinkQ s it).trans (modify Iff.rfl rfl rfl)).trans (linkQ _ it)
    · exact refl s
  · exact refl s

theorem linkPrepare (cfg : Settings) (s : Store) (it : Ptr) (hv : UInt32) :
    SameCharges s (linkPrepare cfg s it hv) := by
  refine ⟨rfl, rfl, fun p => charge_congr ?_ ?_ ?_⟩
  · rw [linkPrepare_field (·.refcount) (fun _ _ => rfl) (fun _ _ => rfl)]
  · exact linkPrepare_field (·.slabsClsid) (fun _ _ => rfl) (fun _ _ => rfl) cfg s it hv p
  · exact linkPrepare_field itemNtotal (fun _ _ => rfl) (fun _ _ => rfl) cfg s it hv p

theorem link (hpos : 0 < (s.mem it).refcount) (hroom : Room cfg s it) (hv : UInt32) :
    SameCharges s (doItemLink cfg s it hv) := by
  rw [doItemLink_eq, linkItem_eq]
  have hp := linkPrepare cfg s it hv
  have hq := linkQ (RamCube.linkPrepare cfg s it hv) it
  have hsame := linkItem_refcount cfg s it hv it
  rw [linkItem_eq] at hsame
  refine (hp.trans hq).trans (incr ?_ ?_)
  · rw [hsame]
    exact hpos
  · unfold Room at hroom ⊢
    rw [hsame]
    exact hroom

end SameCharges

/-! ## Chunks and pages -/

/-- The chunks of the pages of a class. -/
def ItemMemory.chunks (m : ItemMemory) (c : SlabId) : List Ptr := (m.slabList c).flatten

/-- Every chunk is part of one page, free chunks and chunks in use are of the pages of their
class, and there are pages only of classes that exist. -/
structure Placed (cfg : Settings) (m : ItemMemory) : Prop where
  nodup : ∀ c, (m.chunks c).Nodup
  apart : ∀ c c' p, p ∈ m.chunks c → p ∈ m.chunks c' → c = c'
  carved : ∀ p, p ∈ m.store.carved ↔ ∃ c, p ∈ m.chunks c
  slots : ∀ c, ∀ p ∈ m.store.slots c, p ∈ m.chunks c
  used : ∀ p c n, charge (m.store.mem p) = some (c, n) → p ∈ m.chunks c
  range : ∀ c p, p ∈ m.chunks c → 1 ≤ c.val ∧ c.val ≤ cfg.slabclass.sizes.length

theorem placed_init (cfg : Settings) (n : Nat) : Placed cfg (memoryInit n).memory where
  nodup := fun _ => List.nodup_nil
  apart := by simp [memoryInit, ItemMemory.chunks]
  carved := by simp [memoryInit, storeInit, ItemMemory.chunks]
  slots := by simp [memoryInit, storeInit]
  used := by simp [memoryInit, storeInit, charge, emptyItem]
  range := by simp [memoryInit, ItemMemory.chunks]

theorem Placed.same (h : Placed cfg m) (hs : SameCharges m.store s') : Placed cfg { m with store := s' } where
  nodup := h.nodup
  apart := h.apart
  carved := fun p => by
    rw [hs.carved]
    exact h.carved p
  slots := fun c p hp => by
    rw [hs.slots] at hp
    exact h.slots c p hp
  used := fun p c n hc => h.used p c n (by rw [← hs.charge p]; exact hc)
  range := h.range

/-- One chunk goes back to the free list of its class, which is relieved of its bytes. -/
structure Frees (m m' : ItemMemory) (it : Ptr) (c : SlabId) (n : Nat) : Prop where
  charged : charge (m.store.mem it) = some (c, n)
  free : charge (m'.store.mem it) = none
  slabList : m'.slabList = m.slabList
  carved : m'.store.carved = m.store.carved
  slots : m'.store.slots = Function.update m.store.slots c (it :: m.store.slots c)
  requested : m'.requested = Function.update m.requested c (m.requested c - UInt64.ofNat n)
  others : ∀ p, p ≠ it → charge (m'.store.mem p) = charge (m.store.mem p)

theorem mem_pushed {f : SlabId → List Ptr} :
    p ∈ Function.update f c (it :: f c) c' ↔ p ∈ f c' ∨ (p = it ∧ c' = c) := by
  by_cases hc : c' = c
  · subst hc
    simp [or_comm]
  · simp [hc]

theorem Placed.free {n : Nat} (h : Placed cfg m) (hf : Frees m m' it c n) : Placed cfg m' := by
  have hchunks : ∀ c, m'.chunks c = m.chunks c := fun c => by rw [ItemMemory.chunks, hf.slabList, ItemMemory.chunks]
  constructor
  · intro c
    rw [hchunks]
    exact h.nodup c
  · intro c c' p
    rw [hchunks, hchunks]
    exact h.apart c c' p
  · intro p
    rw [hf.carved]
    simpa only [hchunks] using h.carved p
  · intro c' p hp
    rw [hf.slots, mem_pushed] at hp
    rw [hchunks]
    rcases hp with hp | ⟨rfl, rfl⟩
    · exact h.slots c' p hp
    · exact h.used p c' n hf.charged
  · intro p c n hc
    rw [hchunks]
    by_cases hp : p = it
    · rw [hp, hf.free] at hc
      cases hc
    · rw [hf.others p hp] at hc
      exact h.used p c n hc
  · intro c p
    rw [hchunks]
    exact h.range c p

/-- A new page of a class that exists. -/
theorem Placed.newslab (h : Placed cfg m) {page : List Ptr} (hc : 1 ≤ c.val ∧ c.val ≤ cfg.slabclass.sizes.length)
    (hnd : page.Nodup) (hnew : ∀ p ∈ page, p ∉ m.store.carved) : Placed cfg (m.slabsNewslab c page) := by
  have hchunks : ∀ c' p, p ∈ (m.slabsNewslab c page).chunks c' ↔ p ∈ m.chunks c' ∨ (p ∈ page ∧ c' = c) := by
    intro c' p
    by_cases hcc : c' = c
    · subst hcc
      simp [ItemMemory.chunks, ItemMemory.slabsNewslab]
    · simp [ItemMemory.chunks, ItemMemory.slabsNewslab, hcc]
  have hout : ∀ p ∈ page, ∀ c', p ∉ m.chunks c' := fun p hp c' hm => hnew p hp ((h.carved p).mpr ⟨c', hm⟩)
  constructor
  · intro c'
    by_cases hcc : c' = c
    · subst hcc
      have hsplit : (m.slabsNewslab c' page).chunks c' = m.chunks c' ++ page := by
        simp [ItemMemory.chunks, ItemMemory.slabsNewslab]
      rw [hsplit]
      refine List.nodup_append.mpr ⟨h.nodup c', hnd, fun a ha b hb he => ?_⟩
      exact hout b hb c' (he ▸ ha)
    · have hsame : (m.slabsNewslab c page).chunks c' = m.chunks c' := by
        simp [ItemMemory.chunks, ItemMemory.slabsNewslab, hcc]
      rw [hsame]
      exact h.nodup c'
  · intro c₁ c₂ p h1 h2
    rcases (hchunks c₁ p).mp h1 with k1 | ⟨k1, e1⟩
    · rcases (hchunks c₂ p).mp h2 with k2 | ⟨k2, _⟩
      · exact h.apart c₁ c₂ p k1 k2
      · exact absurd k1 (hout p k2 c₁)
    · rcases (hchunks c₂ p).mp h2 with k2 | ⟨_, e2⟩
      · exact absurd k2 (hout p k1 c₂)
      · exact e1.trans e2.symm
  · intro p
    change p ∈ page ++ m.store.carved ↔ _
    rw [List.mem_append, h.carved]
    constructor
    · intro hp
      rcases hp with hp | ⟨c', hp⟩
      · exact ⟨c, (hchunks c p).mpr (.inr ⟨hp, rfl⟩)⟩
      · exact ⟨c', (hchunks c' p).mpr (.inl hp)⟩
    · intro hp
      obtain ⟨c', hp⟩ := hp
      rcases (hchunks c' p).mp hp with hp | ⟨hp, _⟩
      · exact .inr ⟨c', hp⟩
      · exact .inl hp
  · intro c' p hp
    rw [hchunks]
    by_cases hcc : c' = c
    · subst hcc
      have hp : p ∈ page ∨ p ∈ m.store.slots c' := by
        simpa [ItemMemory.slabsNewslab, RamCube.slabsNewslab] using hp
      rcases hp with hp | hp
      · exact .inr ⟨hp, rfl⟩
      · exact .inl (h.slots c' p hp)
    · have hp : p ∈ m.store.slots c' := by
        simpa [ItemMemory.slabsNewslab, RamCube.slabsNewslab, hcc] using hp
      exact .inl (h.slots c' p hp)
  · intro p c' n hch
    rw [hchunks]
    by_cases hp : p ∈ page
    · have hempty : (m.slabsNewslab c page).store.mem p = emptyItem := if_pos hp
      rw [hempty] at hch
      cases hch
    · have hsame : (m.slabsNewslab c page).store.mem p = m.store.mem p := if_neg hp
      rw [hsame] at hch
      exact .inl (h.used p c' n hch)
  · intro c' p hp
    rcases (hchunks c' p).mp hp with hp | ⟨_, rfl⟩
    · exact h.range c' p hp
    · exact hc

/-- A chunk that is neither in use nor free to be taken. -/
structure Spent (m : ItemMemory) (p : Ptr) : Prop where
  idle : charge (m.store.mem p) = none
  off : ∀ c, p ∉ m.store.slots c

/-- Chunks are left as they are or given back. -/
inductive Gives : ItemMemory → ItemMemory → Prop where
  | refl (m : ItemMemory) : Gives m m
  | same {m m' : ItemMemory} {s' : Store} : SameCharges m.store s' → Gives { m with store := s' } m' → Gives m m'
  | free {m m' m'' : ItemMemory} {it : Ptr} {c : SlabId} {n : Nat} : Frees m m' it c n → Gives m' m'' → Gives m m''

namespace Gives

theorem trans (h : Gives m m') (h' : Gives m' m'') : Gives m m'' := by
  induction h with
  | refl => exact h'
  | same hs _ ih => exact .same hs (ih h')
  | free hf _ ih => exact .free hf (ih h')

theorem of_same (hs : SameCharges m.store m'.store) (hl : m'.slabList = m.slabList)
    (hr : m'.requested = m.requested) : Gives m m' := by
  obtain ⟨s1, slabList, requested⟩ := m'
  dsimp only at hs hl hr
  subst hl hr
  exact .same hs (.refl _)

theorem placed (h : Gives m m') (hp : Placed cfg m) : Placed cfg m' := by
  induction h with
  | refl => exact hp
  | same hs _ ih => exact ih (hp.same hs)
  | free hf _ ih => exact ih (hp.free hf)

theorem slabList (h : Gives m m') : m'.slabList = m.slabList := by
  induction h with
  | refl => rfl
  | same _ _ ih => exact ih
  | free hf _ ih => exact ih.trans hf.slabList

theorem spent (h : Gives m m') (hp : Spent m p) : Spent m' p := by
  induction h with
  | refl => exact hp
  | same hs _ ih =>
    refine ih ⟨(hs.charge p).trans hp.idle, fun c hc => hp.off c ?_⟩
    change p ∈ _ at hc
    rwa [hs.slots] at hc
  | @free _ _ _ it c _ hf _ ih =>
    have hne : p ≠ it := by
      intro he
      have hcharged := hf.charged
      rw [← he, hp.idle] at hcharged
      cases hcharged
    refine ih ⟨(hf.others p hne).trans hp.idle, fun c' hc => ?_⟩
    rw [hf.slots, mem_pushed] at hc
    exact hc.elim (hp.off c') fun he => hne he.1

end Gives

/-! ## The commands -/

theorem ItemMemory.itemFree_eq (h1 : 1 ≤ (m.store.mem it).slabsClsid.val)
    (h2 : (m.store.mem it).slabsClsid.val ≤ cfg.slabclass.sizes.length) :
    ∃ i, i.refcount = (m.store.mem it).refcount ∧ m.itemFree cfg it = { m with
      store := { m.store.modify it fun _ => i with
        slots := Function.update m.store.slots (m.store.mem it).slabsClsid
          (it :: m.store.slots (m.store.mem it).slabsClsid) }
      requested := Function.update m.requested (m.store.mem it).slabsClsid
        (m.requested (m.store.mem it).slabsClsid - UInt64.ofNat (itemNtotal (m.store.mem it))) } := by
  refine ⟨{ m.store.mem it with
    slabsClsid := 0
    slabbed := true
    prev := none
    next := (m.store.slots (m.store.mem it).slabsClsid).head? }, rfl, ?_⟩
  have hvalid : ¬((m.store.mem it).slabsClsid.val < 1 ∨
      cfg.slabclass.sizes.length < (m.store.mem it).slabsClsid.val) := by omega
  unfold ItemMemory.itemFree ItemMemory.slabsFree RamCube.slabsFree
  dsimp only
  rw [if_neg hvalid, if_neg hvalid]
  simp [ItemMemory.onStore, Store.modify]

/-- A reference given back, and the chunk with the last one. -/
theorem gives_remove (hp : Placed cfg m) (hpos : 0 < (m.store.mem it).refcount)
    (hroom : cfg.refMod = 0 ∨ (m.store.mem it).refcount < cfg.refMod) : Gives m (m.doItemRemove cfg it) := by
  have hcharge : charge (m.store.mem it) = some ((m.store.mem it).slabsClsid, itemNtotal (m.store.mem it)) :=
    charge_eq_some.mpr ⟨hpos, rfl, rfl⟩
  have hrange := hp.range _ _ (hp.used it _ _ hcharge)
  have hself : (refcountDecr cfg m.store it).mem it =
      { m.store.mem it with refcount := (m.store.mem it).refcount - 1 } := by
    rw [refcountDecr, modify_mem_self]
    simp only [refcountDecr_eq hroom hpos]
  have hother : ∀ q, q ≠ it → (refcountDecr cfg m.store it).mem q = m.store.mem q := fun q => modify_mem_of_ne
  have hcarved : (refcountDecr cfg m.store it).carved = m.store.carved := rfl
  have hslots : (refcountDecr cfg m.store it).slots = m.store.slots := rfl
  unfold ItemMemory.doItemRemove
  dsimp only [ItemMemory.onStore]
  generalize refcountDecr cfg m.store it = s1 at *
  split
  · rename_i h0
    obtain ⟨i, hi, he⟩ := @ItemMemory.itemFree_eq cfg { m with store := s1 } it
      (by rw [hself]; exact hrange.1) (by rw [hself]; exact hrange.2)
    have hfree : Frees m (({ m with store := s1 } : ItemMemory).itemFree cfg it) it
        (m.store.mem it).slabsClsid (itemNtotal (m.store.mem it)) := by
      rw [he, hself]
      refine ⟨hcharge, ?_, rfl, hcarved, ?_, rfl, fun q hq => ?_⟩
      · change charge (((s1.modify it fun _ => i).mem it)) = none
        rw [modify_mem_self, charge_eq_none, hi]
        exact h0
      · change Function.update s1.slots _ _ = _
        rw [hslots]
      · change charge ((s1.modify it fun _ => i).mem q) = _
        rw [modify_mem_of_ne hq, hother q hq]
    exact .free hfree (.refl _)
  · rename_i h0
    refine .same ⟨hcarved, hslots, fun q => ?_⟩ (.refl _)
    by_cases hq : q = it
    · subst hq
      rw [hself] at h0 ⊢
      exact charge_congr ⟨fun _ => hpos, fun _ => Nat.pos_of_ne_zero h0⟩ rfl rfl
    · rw [hother q hq]

theorem gives_unlink (h : StoreOk cfg m.store held) (hp : Placed cfg m) (it : Ptr) (hv : UInt32) :
    Gives m (m.doItemUnlinkNolock cfg it hv) := by
  unfold ItemMemory.doItemUnlinkNolock
  split
  · rename_i hl
    have hsame := SameCharges.unlinkItem m.store it hv
    have hcount : ((RamCube.unlinkItem m.store it hv).mem it).refcount = (m.store.mem it).refcount := by
      obtain ⟨n, q, l, he⟩ := unlinkItem_links m.store it it hv
      rw [he]
    refine .same hsame (gives_remove (hp.same hsame) ?_ ?_)
    · rw [hcount]
      exact h.refcount_pos (.inl hl)
    · rw [hcount]
      exact h.room it
  · exact .refl m

theorem gives_get (h : StoreOk cfg m.store held) (hp : Placed cfg m) {key : Bytes}
    (hroom : RoomAt cfg m.store key) : Gives m (m.doItemGet cfg key (cfg.hash key)).1 := by
  unfold ItemMemory.doItemGet
  cases hf : assocFind m.store.key m.store.assoc key (cfg.hash key) with
  | none => exact .refl m
  | some it =>
    obtain ⟨hl, rfl⟩ := h.find_iff.mp hf
    have hpos := h.refcount_pos (.inl hl)
    have hi := h.incr hpos (hroom it hl rfl)
    have hincr : SameCharges m.store (refcountIncr cfg m.store it) := .incr hpos (hroom it hl rfl)
    -- the reference just taken is given back after the item is unlinked
    have hgone : Gives m (((m.onStore fun s => refcountIncr cfg s it).doItemUnlinkNolock cfg it
        (cfg.hash (m.store.key it))).doItemRemove cfg it) := by
      have hu := hi.unlink it
      rw [key_refcountIncr] at hu
      have hgive := gives_unlink (m := m.onStore fun s => refcountIncr cfg s it) hi (hp.same hincr) it
        (cfg.hash (m.store.key it))
      refine .same hincr (hgive.trans (gives_remove (hgive.placed (hp.same hincr)) ?_ ?_))
      · rw [ItemMemory.store_unlink]
        exact hu.refcount_pos (.inr (by simp [addRef]))
      · rw [ItemMemory.store_unlink]
        exact hu.room it
    dsimp only
    split
    · exact hgone
    · split
      · exact hgone
      · exact .same hincr (.same (.modify Iff.rfl rfl rfl) (.refl _))

theorem gives_touch (h : StoreOk cfg m.store held) (hp : Placed cfg m) {key : Bytes} (exptime : UInt32)
    (hroom : RoomAt cfg m.store key) : Gives m (m.doItemTouch cfg key exptime (cfg.hash key)).1 := by
  have hg := gives_get h hp hroom
  unfold ItemMemory.doItemTouch
  generalize m.doItemGet cfg key (cfg.hash key) = r at *
  obtain ⟨m1, it⟩ := r
  cases it with
  | none => exact hg
  | some it => exact hg.trans (.same (.modify Iff.rfl rfl rfl) (.refl _))

theorem gives_flushClass (h : StoreOk cfg m.store held) (hp : Placed cfg m) (fuel : Nat) (iter : Option Ptr) :
    Gives m (m.flushClass cfg fuel iter) ∧ StoreOk cfg (m.flushClass cfg fuel iter).store held := by
  induction fuel generalizing m iter with
  | zero => exact ⟨.refl m, h⟩
  | succ fuel ih =>
    cases iter with
    | none => exact ⟨.refl m, h⟩
    | some iter =>
      simp only [ItemMemory.flushClass]
      split
      · split
        · exact ih h hp _
        · have hgive := gives_unlink h hp iter (cfg.hash (m.store.key iter))
          have hu := h.unlink iter
          rw [← ItemMemory.store_unlink] at hu
          obtain ⟨h1, h2⟩ := ih hu (hgive.placed hp) (m.store.mem iter).next
          exact ⟨hgive.trans h1, h2⟩
      · exact ⟨.refl m, h⟩

theorem gives_flush (h : StoreOk cfg m.store held) (hp : Placed cfg m) : Gives m (m.doItemFlushExpired cfg) := by
  unfold ItemMemory.doItemFlushExpired
  split
  · exact .refl m
  · rename_i h0
    clear h0
    generalize List.finRange LARGEST_ID = classes
    induction classes generalizing m with
    | nil => exact .refl m
    | cons c cs ih =>
      obtain ⟨h1, h2⟩ := gives_flushClass h hp (m.store.sizes c) (m.store.heads c)
      rw [List.foldl_cons]
      exact h1.trans (ih h2 (h1.placed hp))

theorem gives_replace {newIt : Ptr} (h : StoreOk cfg m.store held) (hp : Placed cfg m) (hn : 0 < held newIt)
    (hl : (m.store.mem newIt).linked = false) (hit : (m.store.mem it).linked = true)
    (hroom : Room cfg m.store newIt) :
    Gives m (m.doItemReplace cfg it newIt (cfg.hash (m.store.key it))) := by
  have hne : newIt ≠ it := by
    rintro rfl
    rw [hit] at hl
    cases hl
  have hcount : ((doItemUnlinkNolock cfg m.store it (cfg.hash (m.store.key it))).mem newIt).refcount =
      (m.store.mem newIt).refcount := (unlink_mem cfg m.store it newIt _).2.2 hne
  refine (gives_unlink h hp it _).trans (.same ?_ (.refl _))
  rw [ItemMemory.store_unlink]
  refine .link ?_ ?_ _
  · rw [hcount]
    exact h.refcount_pos (.inr hn)
  · unfold Room at hroom ⊢
    rw [hcount]
    exact hroom

/-- A command does to the store what it does in `Items`, and gives chunks back at most. -/
theorem gives_perform {op : ItemsOp} {s' : ItemsState} (h : StoreOk cfg m.store held) (hp : Placed cfg m)
    (hs : ItemsStep cfg ⟨m.store, held⟩ op s') (hop : op.OnItems m.store) :
    Gives m (m.perform cfg op) ∧ (m.perform cfg op).store = s'.store := by
  cases hs with
  | alloc => exact hop.elim
  | link _ _ it hh _ _ hroom => exact ⟨.same (.link (h.refcount_pos (.inr hh)) hroom _) (.refl _), rfl⟩
  | unlink _ _ it => exact ⟨gives_unlink h hp it _, m.store_unlink cfg it _⟩
  | remove _ _ it hh => exact ⟨gives_remove hp (h.refcount_pos (.inr hh)) (h.room it), m.store_doItemRemove cfg it⟩
  | replace _ _ it newIt hl hn hnl _ hroom => exact ⟨gives_replace h hp hn hnl hl hroom, m.store_replace cfg it newIt _⟩
  | update _ _ it => exact ⟨.same (.update m.store it) (.refl _), rfl⟩
  | get _ _ key hroom => exact ⟨gives_get h hp hroom, (m.store_get cfg key _).1⟩
  | touch _ _ key exptime hroom => exact ⟨gives_touch h hp exptime hroom, (m.store_touch cfg key exptime _).1⟩
  | flushExpired => exact ⟨gives_flush h hp, m.store_flush cfg⟩
  | write _ _ it bytes cas =>
    refine ⟨.same (.modify ?_ ?_ ?_) (.refl _), rfl⟩
    · rw [itemSetCas_field (·.refcount) (fun _ _ => rfl)]
    · rw [itemSetCas_field (·.slabsClsid) (fun _ _ => rfl)]
    · rw [itemSetCas_field itemNtotal (fun _ _ => rfl)]
      rfl
  | clock => exact ⟨.of_same ⟨rfl, rfl, fun _ => rfl⟩ rfl rfl, rfl⟩
  | expand => exact ⟨.of_same ⟨rfl, rfl, fun _ => rfl⟩ rfl rfl, rfl⟩
  | migrate => exact ⟨.of_same ⟨rfl, rfl, fun _ => rfl⟩ rfl rfl, rfl⟩

end RamCube
