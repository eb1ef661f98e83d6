import RamCube.Store.Chunks

/-! # A chunk set aside

Before it writes a header an allocation sets a chunk of its class aside (`Reserves`): one of
the free list, which a new page may fill, or that of a stored item, which then goes. -/
namespace RamCube

variable {cfg : Settings} {env : LockEnv} {entry : List Nat} {curHv : UInt32} {s' : Store} {held held' : Ptr → Nat}
  {live : List Ptr} {lru : SlabId → List Ptr} {m m' : ItemMemory} {newslab : Option (List Ptr)} {ntotal : Nat}
  {id : SlabId} {it p : Ptr}

/-- A stored item leaves its chunk to an item of `ntotal` bytes. -/
structure Reuses (m m' : ItemMemory) (it : Ptr) (id : SlabId) (old ntotal : Nat) : Prop where
  charged : charge (m.store.mem it) = some (id, old)
  free : charge (m'.store.mem it) = none
  slabList : m'.slabList = m.slabList
  carved : m'.store.carved = m.store.carved
  slots : m'.store.slots = m.store.slots
  requested : m'.requested =
    Function.update m.requested id (m.requested id - UInt64.ofNat old + UInt64.ofNat ntotal)
  others : ∀ p, p ≠ it → charge (m'.store.mem p) = charge (m.store.mem p)

/-- A chunk of the class is set aside, and the class counts `ntotal` bytes for it. -/
inductive Reserves (id : SlabId) (ntotal : Nat) (it : Ptr) : ItemMemory → ItemMemory → Prop where
  | same {m m' : ItemMemory} {s' : Store} : SameCharges m.store s' → Reserves id ntotal it { m with store := s' } m' →
      Reserves id ntotal it m m'
  | grow {m m' : ItemMemory} {page : List Ptr} : page.Nodup → (∀ p ∈ page, p ∉ m.store.carved) →
      Reserves id ntotal it (m.slabsNewslab id page) m' → Reserves id ntotal it m m'
  | pop {m : ItemMemory} {rest : List Ptr} {s' : Store} : m.store.slots id = it :: rest →
      SameCharges { m.store with slots := Function.update m.store.slots id rest } s' →
      Reserves id ntotal it m { m with
        store := s'
        requested := Function.update m.requested id (m.requested id + UInt64.ofNat ntotal) }
  | reuse {m m' : ItemMemory} {old : Nat} : Reuses m m' it id old ntotal → Reserves id ntotal it m m'

theorem mem_popped {f : SlabId → List Ptr} {rest : List Ptr} (h : f id = it :: rest) {c : SlabId}
    (hp : p ∈ Function.update f id rest c) : p ∈ f c := by
  by_cases hc : c = id
  · subst hc
    rw [Function.update_self] at hp
    rw [h]
    exact List.mem_cons_of_mem it hp
  · rwa [Function.update_of_ne hc] at hp

namespace Reserves

theorem placed (h : Reserves id ntotal it m m') (hid : 1 ≤ id.val ∧ id.val ≤ cfg.slabclass.sizes.length)
    (hp : Placed cfg m) : Placed cfg m' ∧ it ∈ m'.chunks id := by
  induction h with
  | same hs _ ih => exact ih (hp.same hs)
  | grow hnd hnew _ ih => exact ih (hp.newslab hid hnd hnew)
  | @pop m rest s' hslots hs =>
    have hpopped : Placed cfg { m with
        store := { m.store with slots := Function.update m.store.slots id rest }
        requested := Function.update m.requested id (m.requested id + UInt64.ofNat ntotal) } :=
      ⟨hp.nodup, hp.apart, hp.carved, fun c q hq => hp.slots c q (mem_popped hslots hq), hp.used, hp.range⟩
    exact ⟨hpopped.same hs, hp.slots id it (by rw [hslots]; exact List.mem_cons_self)⟩
  | @reuse m m' old hr =>
    have hchunks : ∀ c, m'.chunks c = m.chunks c := fun c => by
      rw [ItemMemory.chunks, hr.slabList, ItemMemory.chunks]
    refine ⟨?_, by rw [hchunks]; exact hp.used it id old hr.charged⟩
    constructor
    · intro c
      rw [hchunks]
      exact hp.nodup c
    · intro c c' q
      rw [hchunks, hchunks]
      exact hp.apart c c' q
    · intro q
      rw [hr.carved]
      simpa only [hchunks] using hp.carved q
    · intro c q hq
      rw [hr.slots] at hq
      rw [hchunks]
      exact hp.slots c q hq
    · intro q c n hq
      rw [hchunks]
      by_cases he : q = it
      · rw [he, hr.free] at hq
        cases hq
      · rw [hr.others q he] at hq
        exact hp.used q c n hq
    · intro c q
      rw [hchunks]
      exact hp.range c q

/-- Pages are only added, behind those that a class has. -/
theorem pages (h : Reserves id ntotal it m m') (c : SlabId) : ∃ more, m'.slabList c = m.slabList c ++ more := by
  induction h with
  | same _ _ ih => exact ih
  | @grow m m' page _ _ _ ih =>
    obtain ⟨more, he⟩ := ih
    by_cases hc : c = id
    · subst hc
      exact ⟨[page] ++ more, by simpa [ItemMemory.slabsNewslab] using he⟩
    · exact ⟨more, by simpa [ItemMemory.slabsNewslab, hc] using he⟩
  | pop => exact ⟨[], (List.append_nil _).symm⟩
  | reuse hr => exact ⟨[], by rw [hr.slabList, List.append_nil]⟩

theorem spent (h : Reserves id ntotal it m m') (hc : p ∈ m.store.carved) (hp : Spent m p) :
    p ≠ it ∧ Spent m' p := by
  induction h with
  | @same m _ s' hs _ ih =>
    refine ih (by rw [← hs.carved] at hc; exact hc) ⟨(hs.charge p).trans hp.idle, fun c hm => hp.off c ?_⟩
    change p ∈ s'.slots c at hm
    rwa [hs.slots] at hm
  | @grow m _ page _ hnew _ ih =>
    have hout : p ∉ page := fun hm => hnew p hm hc
    have hmem : (m.slabsNewslab id page).store.mem p = m.store.mem p := if_neg hout
    refine ih (List.mem_append_right page hc) ⟨by rw [hmem]; exact hp.idle, fun c hm => hp.off c ?_⟩
    by_cases hcid : c = id
    · subst hcid
      have hm : p ∈ page ∨ p ∈ m.store.slots c := by
        simpa [ItemMemory.slabsNewslab, RamCube.slabsNewslab] using hm
      exact hm.resolve_left hout
    · simpa [ItemMemory.slabsNewslab, RamCube.slabsNewslab, hcid] using hm
  | @pop m _ _ hslots hs =>
    have hne : p ≠ it := by
      intro he
      exact hp.off id (by rw [hslots, he]; exact List.mem_cons_self)
    refine ⟨hne, (hs.charge p).trans hp.idle, fun c hm => hp.off c ?_⟩
    rw [hs.slots] at hm
    exact mem_popped hslots hm
  | reuse hr =>
    have hne : p ≠ it := by
      intro he
      have hcharged := hr.charged
      rw [← he, hp.idle] at hcharged
      cases hcharged
    refine ⟨hne, (hr.others p hne).trans hp.idle, fun c hm => hp.off c ?_⟩
    rwa [hr.slots] at hm

end Reserves

/-! ## Where the chunk comes from -/

namespace ItemMemory

theorem slabsAlloc_none (hf : FreshPage m.store newslab) (hn : (m.slabsAlloc ntotal id newslab).2 = none) :
    (m.slabsAlloc ntotal id newslab).1 = m := by
  cases hs : m.store.slots id with
  | cons q rest =>
    simp only [slabsAlloc, hs] at hn
    cases hn
  | nil =>
    cases newslab with
    | none => simp only [slabsAlloc, hs]
    | some page =>
      have hslots : (m.slabsNewslab id page).store.slots id = page.reverse := by
        simp [slabsNewslab, RamCube.slabsNewslab, hs]
      cases hrev : page.reverse with
      | nil => exact absurd (List.reverse_eq_nil_iff.mp hrev) (hf page rfl).1
      | cons q rest =>
        simp only [slabsAlloc, hs, hslots, hrev] at hn
        cases hn

theorem slabsAlloc_reserves (hf : FreshPage m.store newslab)
    (hit : (m.slabsAlloc ntotal id newslab).2 = some it)
    (hs' : SameCharges (m.slabsAlloc ntotal id newslab).1.store s') :
    Reserves id ntotal it m { (m.slabsAlloc ntotal id newslab).1 with store := s' } := by
  cases hs : m.store.slots id with
  | cons q rest =>
    simp only [slabsAlloc, hs] at hit hs' ⊢
    cases hit
    exact .pop hs hs'
  | nil =>
    cases newslab with
    | none =>
      simp only [slabsAlloc, hs] at hit
      cases hit
    | some page =>
      obtain ⟨_, hnd, hnew⟩ := hf page rfl
      have hslots : (m.slabsNewslab id page).store.slots id = page.reverse := by
        simp [slabsNewslab, RamCube.slabsNewslab, hs]
      cases hrev : page.reverse with
      | nil =>
        simp only [slabsAlloc, hs, hslots, hrev] at hit
        cases hit
      | cons q rest =>
        rw [hrev] at hslots
        simp only [slabsAlloc, hs, hslots] at hit hs' ⊢
        cases hit
        exact .grow hnd hnew (.pop hslots hs')

/-- An item that is referred to besides its link keeps its chunk when it goes. -/
theorem unlink_referred (hl : (m.store.mem it).linked = true) (h2 : (m.store.mem it).refcount = 2) (hv : UInt32) :
    m.doItemUnlinkNolock cfg it hv = m.onStore fun s => refcountDecr cfg (RamCube.unlinkItem s it hv) it := by
  have hone : ((refcountDecr cfg (RamCube.unlinkItem m.store it hv) it).mem it).refcount ≠ 0 := by
    rw [refcountDecr, modify_mem_self]
    change (((RamCube.unlinkItem m.store it hv).mem it).refcount + cfg.refMod - 1) % cfg.refMod ≠ 0
    rw [(unlinkItem_mem m.store it it hv).2.1, h2]
    rcases cfg.counts with h0 | h0 <;> rw [h0] <;> decide
  exact (if_pos hl).trans (if_neg hone)

theorem takeChunk_referred (hl : (m.store.mem it).linked = true) (h2 : (m.store.mem it).refcount = 2)
    (ntotal : Nat) (hv : UInt32) : m.takeChunk cfg it ntotal hv = { m with
      store := (refcountDecr cfg (RamCube.unlinkItem m.store it hv) it).modify it fun i => { i with slabsClsid := 0 }
      requested := Function.update m.requested (m.store.mem it).slabsClsid
        (m.requested (m.store.mem it).slabsClsid - UInt64.ofNat (itemNtotal (m.store.mem it)) +
          UInt64.ofNat ntotal) } := by
  rw [takeChunk, unlink_referred (m := m.slabsAdjustMemRequested _ _ _) hl h2]
  rfl

/-- An item that only its link refers to leaves its chunk. -/
theorem takeChunk_reuses (h : StoreOk cfg m.store held) (hl : (m.store.mem it).linked = true)
    (h1 : (m.store.mem it).refcount = 1) (hc : (m.store.mem it).slabsClsid = id) (ntotal : Nat) :
    Reuses m (((m.onStore fun s => refcountIncr cfg s it).takeChunk cfg it ntotal
      (cfg.hash (m.store.key it))).onStore fun s => refcountDecr cfg s it) it id (itemNtotal (m.store.mem it))
      ntotal := by
  have hself : (refcountIncr cfg m.store it).mem it =
      { m.store.mem it with refcount := ((m.store.mem it).refcount + 1) % cfg.refMod } := modify_mem_self
  have hidle := (h.takeChunk hl h1).2.free
  have hstore := (m.onStore fun s => refcountIncr cfg s it).store_takeChunk cfg it ntotal (cfg.hash (m.store.key it))
  rw [store_onStore] at hstore
  rw [← hstore] at hidle
  have htake := @takeChunk_referred cfg (m.onStore fun s => refcountIncr cfg s it) it
    (by rw [store_onStore, hself]; exact hl) ((refcountIncr_eq_two h it).mpr h1) ntotal (cfg.hash (m.store.key it))
  have hcls : ((m.onStore fun s => refcountIncr cfg s it).store.mem it).slabsClsid = id := by
    rw [store_onStore, hself]
    exact hc
  have hsize : itemNtotal ((m.onStore fun s => refcountIncr cfg s it).store.mem it) = itemNtotal (m.store.mem it) := by
    rw [store_onStore, hself]
    rfl
  rw [hcls, hsize] at htake
  rw [htake] at hidle ⊢
  have hsame := SameCharges.unlinkItem (refcountIncr cfg m.store it) it (cfg.hash (m.store.key it))
  refine ⟨charge_eq_some.mpr ⟨by omega, hc, rfl⟩, charge_eq_none.mpr hidle, rfl, hsame.carved, hsame.slots, rfl, ?_⟩
  intro p hp
  have hincr : (refcountIncr cfg m.store it).mem p = m.store.mem p := modify_mem_of_ne hp
  have hlast : ∀ s : Store, ((refcountDecr cfg ((refcountDecr cfg s it).modify it fun i =>
      { i with slabsClsid := 0 }) it).mem p) = s.mem p := fun s => by
    rw [refcountDecr, modify_mem_of_ne hp, modify_mem_of_ne hp, refcountDecr, modify_mem_of_ne hp]
  exact (congrArg charge (hlast _)).trans ((hsame.charge p).trans (congrArg charge hincr))

end ItemMemory

/-! ## The search -/

/-- Why a stored item may go: it is expired or flushed, or no chunk is to be had and items
are evicted. -/
def GivenUp (cfg : Settings) (newslab : Option (List Ptr)) (s : Store) (id : SlabId) (p : Ptr) : Prop :=
  expiredOrFlushed s (s.mem p) = true ∨ ((slabsAlloc s id newslab).2 = none ∧ cfg.evictToFree = true)

/-- A page is added to the class, if one is granted when its free list is empty. -/
def NewPage (newslab : Option (List Ptr)) (id : SlabId) (m m' : ItemMemory) : Prop :=
  m'.slabList = m.slabList ∨ ∃ page ∈ newslab, m.store.slots id = [] ∧
    m'.slabList = Function.update m.slabList id (m.slabList id ++ [page])

/-- A search that began with `m` has set the chunk `it` of `m₁` aside. `ahead` are the items
that it could reach. -/
structure SetAside (cfg : Settings) (newslab : Option (List Ptr)) (id : SlabId) (ntotal : Nat) (ahead : List Ptr)
    (m m₁ : ItemMemory) (held : Ptr → Nat) (m' : ItemMemory) (it : Ptr) : Prop where
  reserves : Reserves id ntotal it m₁ m'
  pages : NewPage newslab id m₁ m'
  found : Found cfg m₁.store held m'.store it
  lost : (m₁.store.mem it).linked = true → m₁ = m ∧ it ∈ ahead ∧ (m.store.mem it).refcount = 1 ∧
    GivenUp cfg newslab m.store id it

namespace ItemMemory

theorem slabsAlloc_newPage (m : ItemMemory) (ntotal : Nat) (id : SlabId) (newslab : Option (List Ptr)) :
    NewPage newslab id m (m.slabsAlloc ntotal id newslab).1 := by
  cases hs : m.store.slots id with
  | cons q rest =>
    simp only [slabsAlloc, hs]
    exact .inl rfl
  | nil =>
    cases newslab with
    | none =>
      simp only [slabsAlloc, hs]
      exact .inl rfl
    | some page =>
      refine .inr ⟨page, rfl, hs, ?_⟩
      simp only [slabsAlloc, hs]
      split <;> rfl

theorem slabsAlloc_setAside (h : StoreOk cfg m.store held) (hf : FreshPage m.store newslab)
    (hit : (m.slabsAlloc ntotal id newslab).2 = some it) (ahead : List Ptr) (m₀ : ItemMemory) :
    SetAside cfg newslab id ntotal ahead m₀ m held (m.slabsAlloc ntotal id newslab).1 it := by
  have hreserves := slabsAlloc_reserves hf hit (SameCharges.refl _)
  obtain ⟨h1, h2⟩ := m.store_slabsAlloc ntotal id newslab
  rw [hit] at h2
  have hspec := slabsAlloc_spec h id hf
  have hkeeps := slabsAlloc_keeps h id hf it h2.symm
  rw [← h2] at hspec
  obtain ⟨hok, hready, h0, _⟩ := hspec
  refine ⟨hreserves, slabsAlloc_newPage m ntotal id newslab, ?_, fun hl => ?_⟩
  · rw [h1]
    exact ⟨hok, hready, hkeeps⟩
  · rw [h.not_linked_of_zero h0] at hl
    cases hl

theorem slabsAlloc_incr (cfg : Settings) (s : Store) (it : Ptr) (id : SlabId) (newslab : Option (List Ptr)) :
    (RamCube.slabsAlloc (refcountIncr cfg s it) id newslab).2 = (RamCube.slabsAlloc s id newslab).2 := by
  have hslots : (refcountIncr cfg s it).slots = s.slots := rfl
  unfold RamCube.slabsAlloc RamCube.slabsNewslab
  rw [hslots]
  cases s.slots id <;> cases newslab <;> dsimp only <;> split <;> simp_all

/-- What the walk does at an item that only its link refers to. -/
theorem stopAt_end (h : ItemsOk cfg m.store held live lru) (hf : FreshPage m.store newslab) {ahead : List Ptr}
    (hp : p ∈ lru id) (hahead : p ∈ ahead) (h1 : (m.store.mem p).refcount = 1) (ntotal : Nat) :
    (∃ it, (m.stopAt cfg ntotal id newslab p (cfg.hash (m.store.key p))).2 = .taken it ∧
      SetAside cfg newslab id ntotal ahead m m held
        (m.stopAt cfg ntotal id newslab p (cfg.hash (m.store.key p))).1 it) ∨
    m.stopAt cfg ntotal id newslab p (cfg.hash (m.store.key p)) = (m, .outOfMemory) := by
  have hok : StoreOk cfg m.store held := ⟨live, lru, h⟩
  obtain ⟨hlive, hcls⟩ := (h.queued id p).mp hp
  have hl : (m.store.mem p).linked = true := (h.table.linked p).mpr hlive
  have hpos : 0 < (m.store.mem p).refcount := by omega
  have hroom : Room cfg m.store p := refMod_room cfg (by omega)
  have hincr : SameCharges m.store (refcountIncr cfg m.store p) := .incr hpos hroom
  have hi := hok.incr hpos hroom
  have hreuse := takeChunk_reuses hok hl h1 hcls ntotal
  have hfound := found_takeChunk hok hl h1
  have hsame : (((m.onStore fun s => refcountIncr cfg s p).takeChunk cfg p ntotal (cfg.hash (m.store.key p))).onStore
      fun s => refcountDecr cfg s p).store =
      refcountDecr cfg (RamCube.takeChunk cfg (refcountIncr cfg m.store p) p (cfg.hash (m.store.key p))) p :=
    congrArg (refcountDecr cfg · p) (store_takeChunk cfg _ p ntotal _)
  -- the item itself goes, for the reason given
  have htaken : GivenUp cfg newslab m.store id p → SetAside cfg newslab id ntotal ahead m m held
      (((m.onStore fun s => refcountIncr cfg s p).takeChunk cfg p ntotal (cfg.hash (m.store.key p))).onStore
        fun s => refcountDecr cfg s p) p := by
    intro hwhy
    refine ⟨.reuse hreuse, .inl hreuse.slabList, ?_, fun _ => ⟨rfl, hahead, h1, hwhy⟩⟩
    rw [hsame]
    exact hfound
  have hexpired : expiredOrFlushed (refcountIncr cfg m.store p) ((refcountIncr cfg m.store p).mem p) =
      expiredOrFlushed m.store (m.store.mem p) := by
    rw [refcountIncr, modify_mem_self]
    rfl
  have hspec := slabsAlloc_spec hi id (show FreshPage (refcountIncr cfg m.store p) newslab from hf)
  obtain ⟨h2, h3⟩ := (m.onStore fun s => refcountIncr cfg s p).store_slabsAlloc ntotal id newslab
  have hnone := @slabsAlloc_none (m.onStore fun s => refcountIncr cfg s p) newslab ntotal id hf
  have hsome := fun it => @slabsAlloc_reserves (refcountDecr cfg
    ((m.onStore fun s => refcountIncr cfg s p).slabsAlloc ntotal id newslab).1.store p)
    (m.onStore fun s => refcountIncr cfg s p) newslab ntotal id it hf
  have hpages := slabsAlloc_newPage (m.onStore fun s => refcountIncr cfg s p) ntotal id newslab
  rw [store_onStore] at h2 h3
  unfold stopAt
  dsimp only
  split
  · rename_i he
    rw [store_onStore, hexpired] at he
    exact .inl ⟨p, rfl, htaken (.inl he)⟩
  · have hfresh := found_slabsAlloc hok id hf h1
    have hempty := slabsAlloc_incr cfg m.store p id newslab
    generalize slabsAlloc (m.onStore fun s => refcountIncr cfg s p) ntotal id newslab = r at *
    generalize RamCube.slabsAlloc (refcountIncr cfg m.store p) id newslab = r' at *
    obtain ⟨m₁, q⟩ := r
    obtain ⟨s₁, q'⟩ := r'
    dsimp only at *
    subst h2 h3
    cases q with
    | some it =>
      obtain ⟨hok₁, hready, h0, hmem, hlinked⟩ := hspec
      have hp₁ : m₁.store.mem p = (refcountIncr cfg m.store p).mem p :=
        hmem p (h.carved_of_pos hpos).1
      have htwo := (refcountIncr_eq_two hok p).mpr h1
      have hdecr : SameCharges m₁.store (refcountDecr cfg m₁.store p) := by
        refine .modify ?_ rfl rfl
        change 0 < ((m₁.store.mem p).refcount + cfg.refMod - 1) % cfg.refMod ↔ 0 < (m₁.store.mem p).refcount
        rw [hp₁, htwo]
        rcases cfg.counts with h0 | h0 <;> rw [h0] <;> decide
      refine .inl ⟨it, rfl, .same hincr (hsome it rfl hdecr), hpages, hfresh it rfl, fun hlit => ?_⟩
      have hzero := hi.not_linked_of_zero h0
      have hkeep : ((refcountIncr cfg m.store p).mem it).linked = (m.store.mem it).linked :=
        modify_field (·.linked) rfl it
      rw [hkeep, hlit] at hzero
      cases hzero
    | none =>
      have hm₁ := hnone rfl
      subst hm₁
      dsimp only
      split
      · rename_i hev
        exact .inl ⟨p, rfl, htaken (.inr ⟨hempty.symm, hev⟩)⟩
      · refine .inr ?_
        have hpass := passed hok p
        change (m.onStore fun s => refcountDecr cfg (refcountIncr cfg s p) p, Search.outOfMemory) = _
        rw [hpass]

end ItemMemory

/-! ## The allocation -/

/-- The memory after the repairs of a walk, and the references that are left. -/
structure Repairs (cfg : Settings) (m m₁ : ItemMemory) (held held₁ : Ptr → Nat) (repaired : List Ptr) : Prop where
  ok : StoreOk cfg m₁.store held₁
  gives : Gives m m₁
  kept : ∀ p, p ∉ repaired → (m₁.store.mem p).body = (m.store.mem p).body ∧
    (m₁.store.mem p).linked = (m.store.mem p).linked
  start : repaired = [] → m₁ = m ∧ held₁ = held

theorem Repairs.none (h : StoreOk cfg m.store held) : Repairs cfg m m held held [] :=
  ⟨h, .refl m, fun _ _ => ⟨rfl, rfl⟩, fun _ => ⟨rfl, rfl⟩⟩

/-- The repair takes away every reference to a stored item. -/
theorem tailRepair_repairs (h : ItemsOk cfg m.store held live lru) (hpl : Placed cfg m) (hlive : p ∈ live) :
    Repairs cfg m (m.tailRepair cfg p (cfg.hash (m.store.key p))) held (Function.update held p 0) [p] := by
  have hpos := h.refcount_pos (.inl hlive)
  have hone : ItemsOk cfg (m.store.modify p fun i => { i with refcount := 1 }) (Function.update held p 0) live lru :=
    h.setRefcount rfl hpos (by rw [if_pos hlive]) (cfg.counts.imp id fun h0 => by rw [h0]; decide)
  have hsame : SameCharges m.store (m.store.modify p fun i => { i with refcount := 1 }) :=
    .modify ⟨fun _ => hpos, fun _ => Nat.one_pos⟩ rfl rfl
  have hkey : (m.store.modify p fun i => { i with refcount := 1 }).key p = m.store.key p :=
    modify_field itemKey rfl p
  have hok : StoreOk cfg (m.store.modify p fun i => { i with refcount := 1 }) (Function.update held p 0) :=
    ⟨live, lru, hone⟩
  have hun := hok.unlink p
  rw [hkey] at hun
  refine ⟨?_, ?_, fun q hq => ?_, fun he => by cases he⟩
  · rw [ItemMemory.store_tailRepair]
    exact hun
  · exact .same hsame (gives_unlink hok (hpl.same hsame) p _)
  · have hne : q ≠ p := fun he => hq (by rw [he]; exact List.mem_singleton_self p)
    rw [ItemMemory.store_tailRepair]
    obtain ⟨h1, h2, _⟩ := unlink_mem cfg (m.store.modify p fun i => { i with refcount := 1 }) p q
      (cfg.hash (m.store.key p))
    rw [h1, h2, modify_mem_of_ne hne]
    exact ⟨rfl, by simp [hne]⟩

/-- How the search for a chunk ends: with nothing, or with a chunk set aside. -/
def SearchEnd (cfg : Settings) (newslab : Option (List Ptr)) (id : SlabId) (ntotal : Nat) (ahead : List Ptr)
    (m m₁ : ItemMemory) (held₁ : Ptr → Nat) (m' : ItemMemory) : Option Ptr → Prop
  | none => m' = m₁
  | some it => SetAside cfg newslab id ntotal ahead m m₁ held₁ m' it

theorem searchEnd_slabsAlloc (h : StoreOk cfg m'.store held) (hf : FreshPage m'.store newslab) (ahead : List Ptr)
    (m : ItemMemory) : SearchEnd cfg newslab id ntotal ahead m m' held (m'.slabsAlloc ntotal id newslab).1
      (m'.slabsAlloc ntotal id newslab).2 := by
  cases hit : (m'.slabsAlloc ntotal id newslab).2 with
  | none => exact ItemMemory.slabsAlloc_none hf hit
  | some it => exact ItemMemory.slabsAlloc_setAside h hf hit ahead m

theorem chunk_end (h : ItemsOk cfg m.store held live lru) (hpl : Placed cfg m) (hf : FreshPage m.store env.newslab)
    (hid : 1 ≤ id.val ∧ id.val ≤ cfg.slabclass.sizes.length) (ntotal : Nat) :
    ∃ a it m₁ held₁, Allocating.chunk cfg env ntotal id curHv ⟨m, ⟨none, entry, []⟩, []⟩ = (a, it) ∧
      Repairs cfg m m₁ held held₁ a.repaired ∧
      SearchEnd cfg env.newslab id ntotal ((lru id).reverse.take 5) m m₁ held₁ a.memory it ∧
      (repairFires cfg env entry curHv m.store 5 (m.store.tails id) = true ↔ a.repaired ≠ []) := by
  have hok : StoreOk cfg m.store held := ⟨live, lru, h⟩
  have htail : m.store.tails id = (lru id).getLast? := (h.queues.list id).tail_eq
  obtain ⟨l', m', repaired, r, he, hend, hrep⟩ := @Allocating.walk_end cfg env entry curHv held live lru m ntotal id
    h hid 5 (lru id) [] (List.append_nil _).symm ⟨none, entry, []⟩ (idle_start entry)
  unfold Allocating.chunk
  dsimp only
  rw [htail, he]
  cases hend with
  | exhausted =>
    exact ⟨_, _, m, held, rfl, .none hok, searchEnd_slabsAlloc hok hf _ m, hrep⟩
  | stopped p hp h1 =>
    have hq : p ∈ lru id := List.mem_reverse.mp (List.mem_of_mem_take hp)
    rcases ItemMemory.stopAt_end h hf hq hp h1 ntotal with ⟨it, hit, haside⟩ | hnone
    · rw [hit]
      exact ⟨_, _, m, held, rfl, .none hok, haside, hrep⟩
    · rw [hnone]
      exact ⟨_, _, m, held, rfl, .none hok, rfl, hrep⟩
  | repaired p hp h1 ht =>
    have hq : p ∈ lru id := List.mem_reverse.mp (List.mem_of_mem_take hp)
    have hfix := tailRepair_repairs h hpl ((h.queued id p).mp hq).1
    have hcarved : (m.tailRepair cfg p (cfg.hash (m.store.key p))).store.carved = m.store.carved := by
      rw [ItemMemory.store_tailRepair]
      exact (env_unlink cfg _ p _).2
    have hf' : FreshPage (m.tailRepair cfg p (cfg.hash (m.store.key p))).store env.newslab := by
      unfold FreshPage
      rw [hcarved]
      exact hf
    exact ⟨_, _, _, _, rfl, hfix, searchEnd_slabsAlloc hfix.ok hf' _ m, hrep⟩

/-! ## The size of the item -/

theorem length_decimalInt_le {i : Int} {k : Nat} (hk : 0 < k) (h : i.natAbs < 10 ^ k) :
    (decimalInt i).length ≤ k + 1 := by
  cases i with
  | ofNat n => exact Nat.le_succ_of_le (length_decimal_le hk h)
  | negSucc n => exact Nat.succ_le_succ (length_decimal_le hk h)

/-- The size of a request is the size of its item. -/
theorem RequestOk.size {key : Bytes} {flags nbytes : Int} (h : RequestOk key flags nbytes) (cfg : Settings)
    (id : SlabId) (exptime : UInt32) (i : Item) :
    itemNtotal (itemInit cfg id key flags exptime nbytes.toNat i) = requestSize cfg key.length flags nbytes := by
  have hn : (nbytes.toNat : Int) = nbytes := Int.toNat_of_nonneg h.nbytes.1
  have h1 : (decimalInt flags).length ≤ 11 := length_decimalInt_le (k := 10) (by omega) (by have := h.flags; omega)
  have h2 : (decimalInt ((nbytes.toNat : Int) - 2)).length ≤ 11 :=
    length_decimalInt_le (k := 10) (by omega) (by have := h.nbytes; omega)
  have hbound : itemMakeHeader cfg (key.length + 1) flags nbytes.toNat < 2 ^ 64 := by
    have hkey := h.key
    have hlen := h.nbytes
    simp only [itemMakeHeader, headerSuffix, sizeofItem, List.length_cons, List.length_append, List.length_nil]
    split <;> omega
  rw [itemNtotal_itemInit, ← requestSize_eq h.key hbound, hn]

theorem slabsClsid_fits {c : SlabClasses} {size : Nat} (h : slabsClsid c size ≠ 0) :
    size ≤ c.sizes.getD ((slabsClsid c size).val - 1) 0 := by
  unfold slabsClsid at *
  split at h
  · exact absurd rfl h
  · rename_i h0
    rw [if_neg h0]
    dsimp only at *
    split at h
    · rename_i hi
      rw [dif_pos hi]
      have hfits := List.findIdx_getElem (w := hi)
      simpa [hi] using of_decide_eq_true hfits
    · exact absurd rfl h

/-! ## The item handed out -/

/-- A chunk of the class, with a header for `ntotal` bytes and nobody else to know it. -/
structure Handed (cfg : Settings) (id : SlabId) (ntotal : Nat) (held : Ptr → Nat) (m : ItemMemory) (it : Ptr) :
    Prop where
  store : ∃ live lru, ItemsOk cfg m.store (addRef held it) live lru ∧ it ∉ live
  placed : Placed cfg m
  chunk : it ∈ m.chunks id
  charged : charge (m.store.mem it) = some (id, ntotal)
  count : (m.store.mem it).refcount = 1
  off : ∀ c, it ∉ m.store.slots c

theorem SetAside.filled {ahead : List Ptr} {m₀ m₁ : ItemMemory} (h : SetAside cfg newslab id ntotal ahead m₀ m₁ held m it)
    (hpl : Placed cfg m₁) (hid : 1 ≤ id.val ∧ id.val ≤ cfg.slabclass.sizes.length) {key : Bytes} {flags nbytes : Int}
    (hreq : RequestOk key flags nbytes) (hsize : requestSize cfg key.length flags nbytes = ntotal) (exptime : UInt32) :
    Handed cfg id ntotal held
      (m.onStore fun s => s.modify it (itemInit cfg id key flags exptime nbytes.toNat)) it := by
  obtain ⟨⟨live, lru, hok⟩, hready, _⟩ := h.found
  obtain ⟨hplaced, hchunk⟩ := h.reserves.placed hid hpl
  have hself : (m.store.modify it (itemInit cfg id key flags exptime nbytes.toNat)).mem it =
      itemInit cfg id key flags exptime nbytes.toNat (m.store.mem it) := modify_mem_self
  have hcharge : charge ((m.store.modify it (itemInit cfg id key flags exptime nbytes.toNat)).mem it) =
      some (id, ntotal) := by
    rw [hself, charge_eq_some]
    exact ⟨Nat.one_pos, rfl, (hreq.size cfg id exptime _).trans hsize⟩
  have hlive : it ∉ live := by
    intro hm
    have hpos := hok.refcount_pos (.inl hm)
    have h0 := hready.free
    omega
  refine ⟨⟨live, lru, hok.init hready rfl rfl rfl, hlive⟩, ?_, hchunk, hcharge, ?_, hready.off⟩
  · refine ⟨hplaced.nodup, hplaced.apart, hplaced.carved, hplaced.slots, fun p c n hc => ?_, hplaced.range⟩
    change charge ((m.store.modify it _).mem p) = _ at hc
    by_cases hp : p = it
    · rw [hp, hcharge] at hc
      cases hc
      rw [hp]
      exact hchunk
    · rw [modify_mem_of_ne hp] at hc
      exact hplaced.used p c n hc
  · change ((m.store.modify it _).mem it).refcount = 1
    rw [hself]
    rfl

/-- What an allocation comes to: nothing, or an item in a chunk set aside. -/
def AllocEnd (cfg : Settings) (env : LockEnv) (key : Bytes) (flags : Int) (exptime : UInt32) (nbytes : Int)
    (ahead : List Ptr) (m m₁ : ItemMemory) (held₁ : Ptr → Nat) (m' : ItemMemory) : Option Ptr → Prop
  | none => m' = m₁
  | some it =>
    let ntotal := requestSize cfg key.length flags nbytes
    let id := slabsClsid cfg.slabclass ntotal
    id ≠ 0 ∧ ∃ m₂, SetAside cfg env.newslab id ntotal ahead m m₁ held₁ m₂ it ∧
      m' = m₂.onStore fun s => s.modify it (itemInit cfg id key flags exptime nbytes.toNat)

theorem doItemAlloc_end (h : ItemsOk cfg m.store held live lru) (hpl : Placed cfg m)
    (hf : FreshPage m.store env.newslab) (key : Bytes) (flags : Int) (exptime : UInt32) (nbytes : Int) :
    ∃ a it m₁ held₁, m.doItemAlloc cfg env entry key flags exptime nbytes curHv = (a, it) ∧
      Repairs cfg m m₁ held held₁ a.repaired ∧
      AllocEnd cfg env key flags exptime nbytes
        ((lru (slabsClsid cfg.slabclass (requestSize cfg key.length flags nbytes))).reverse.take 5) m m₁ held₁ a.memory it ∧
      (repairFires cfg env entry curHv m.store 5
        (m.store.tails (slabsClsid cfg.slabclass (requestSize cfg key.length flags nbytes))) = false →
          a.repaired = []) := by
  unfold ItemMemory.doItemAlloc AllocEnd
  generalize requestSize cfg key.length flags nbytes = ntotal
  dsimp only
  split
  · exact ⟨_, _, m, held, rfl, .none ⟨live, lru, h⟩, rfl, fun _ => rfl⟩
  · rename_i h0
    obtain ⟨a, it, m₁, held₁, he, hrep, hend, hfires⟩ :=
      @chunk_end cfg env entry curHv held live lru m (slabsClsid cfg.slabclass ntotal) h hpl hf
        (slabsClsid_range h0) ntotal
    have hno : repairFires cfg env entry curHv m.store 5 (m.store.tails (slabsClsid cfg.slabclass ntotal)) = false →
        a.repaired = [] := by
      intro hfalse
      by_contra hne
      rw [hfires.mpr hne] at hfalse
      cases hfalse
    rw [he]
    cases it with
    | none => exact ⟨_, _, m₁, held₁, rfl, hrep, hend, hno⟩
    | some it => exact ⟨_, _, m₁, held₁, rfl, hrep, ⟨h0, a.memory, hend, rfl⟩, hno⟩

end RamCube
