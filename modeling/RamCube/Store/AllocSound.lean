import RamCube.Store.MemoryRuns

/-! # What an allocation hands out, and what it takes

In every run the chunk of an item handed out is of the class of the request, has room for it
and is part of nothing else. Of the stored items at most the one goes whose chunk it is, and
that one was near the tail, referred to by nobody, and given up for a reason. -/
namespace RamCube

variable {cfg : Settings} {env : LockEnv} {entry : List Nat} {curHv : UInt32} {m : ItemMemory} {id : SlabId}
  {it p : Ptr}

/-- The item is part of nothing and fills a chunk of its class. -/
structure OutOfStore (cfg : Settings) (m : ItemMemory) (id : SlabId) (it : Ptr) : Prop where
  queues : ∃ lru stored, ItemsConsistent cfg m.store lru stored ∧ ∀ c, it ∉ lru c
  buckets : ∀ b, it ∉ m.store.assoc.primaryHashtable b ∧
    (m.store.assoc.expanding = true → it ∉ m.store.assoc.oldHashtable b)
  freelists : ∀ c, it ∉ m.store.slots c
  count : (m.store.mem it).refcount = 1
  cls : (m.store.mem it).slabsClsid = id
  chunk : it ∈ m.chunks id
  fits : itemNtotal (m.store.mem it) ≤ cfg.slabclass.sizes.getD (id.val - 1) 0

/-- One of the last five items of its queue, referred to by nobody and given up. -/
def MayGo (cfg : Settings) (newslab : Option (List Ptr)) (m : ItemMemory) (id : SlabId) (p : Ptr) : Prop :=
  ∃ lru stored, ItemsConsistent cfg m.store lru stored ∧ p ∈ (lru id).reverse.take 5 ∧
    (m.store.mem p).refcount = 1 ∧ GivenUp cfg newslab m.store id p

/-- An allocation hands out an item that is part of nothing, and every stored item stays as
it is, but for those repaired and the one whose chunk is handed out. -/
structure AllocSound (cfg : Settings) (newslab : Option (List Ptr)) (id : SlabId) (m : ItemMemory)
    (r : Allocating × Option Ptr) : Prop where
  handed : ∀ it ∈ r.2, OutOfStore cfg r.1.memory id it
  kept : ∀ p, (m.store.mem p).linked = true → p ∉ r.1.repaired →
    ((r.1.memory.store.mem p).linked = true ∧ (r.1.memory.store.mem p).body = (m.store.mem p).body) ∨
      (r.2 = some p ∧ MayGo cfg newslab m id p)

theorem Handed.outOfStore {ntotal : Nat} {held : Ptr → Nat} (h : Handed cfg id ntotal held m it)
    (hfits : ntotal ≤ cfg.slabclass.sizes.getD (id.val - 1) 0) : OutOfStore cfg m id it := by
  obtain ⟨live, lru, hok, hlive⟩ := h.store
  obtain ⟨_, hcls, hsize⟩ := charge_eq_some.mp h.charged
  refine ⟨⟨lru, live, hok.consistent, hok.not_queued hlive⟩, fun b => ⟨fun hm => ?_, fun hex hm => ?_⟩, h.off, h.count,
    hcls, h.chunk, ?_⟩
  · exact hlive ((hok.table.assoc.primary b it).mp hm).1
  · exact hlive ((hok.table.assoc.old hex b it).mp hm).1
  · rw [hsize]
    exact hfits

/-- Everything but the chunk set aside stays as it is. -/
theorem SetAside.stays {newslab : Option (List Ptr)} {ntotal : Nat} {ahead : List Ptr} {m₁ m₂ : ItemMemory}
    {held : Ptr → Nat} {f : Item → Item} (h : SetAside cfg newslab id ntotal ahead m m₁ held m₂ it)
    (hok : StoreOk cfg m₁.store held) (hl : (m₁.store.mem p).linked = true) (hp : p ≠ it) :
    ((m₂.store.modify it f).mem p).linked = true ∧
      ((m₂.store.modify it f).mem p).body = (m₁.store.mem p).body := by
  obtain ⟨_, _, hkeeps⟩ := h.found
  have hcarved := (hok.off_of_pos (hok.refcount_pos (.inl hl))).1
  rw [modify_mem_of_ne hp, hkeeps.linked, hl]
  exact ⟨by simpa using hp, hkeeps.body p hp hcarved⟩

/-- In every run of commands, allocations and page moves an allocation is sound, whatever
`item_trylock` answers. -/
theorem alloc_sound {n : Nat} {ops : List MemoryOp} {s : MemoryState}
    (hr : Run (MemoryStep cfg) (memoryInit n) ops s) (env : LockEnv) (hf : FreshPage s.memory.store env.newslab)
    {key : Bytes} {flags nbytes : Int} (hreq : RequestOk key flags nbytes) (entry : List Nat) (exptime curHv : UInt32) :
    AllocSound cfg env.newslab (slabsClsid cfg.slabclass (requestSize cfg key.length flags nbytes)) s.memory
      (s.memory.doItemAlloc cfg env entry key flags exptime nbytes curHv) := by
  obtain ⟨⟨live, lru, hok⟩, hpl, _⟩ := memory_run_ok hr
  obtain ⟨a, it, m₁, held₁, he, hrep, hend, _⟩ :=
    @doItemAlloc_end cfg env entry curHv s.held live lru s.memory hok hpl hf key flags exptime nbytes
  rw [he]
  cases it with
  | none =>
    have hmem : a.memory = m₁ := hend
    refine ⟨nofun, fun p hl hp => .inl ?_⟩
    obtain ⟨hbody, hlinked⟩ := hrep.kept p hp
    rw [hmem, hlinked, hbody]
    exact ⟨hl, rfl⟩
  | some it =>
    obtain ⟨h0, m₂, haside, hmem⟩ := hend
    have hh := haside.filled (hrep.gives.placed hpl) (slabsClsid_range h0) hreq rfl exptime
    rw [← hmem] at hh
    refine ⟨fun q hq => ?_, fun p hl hp => ?_⟩
    · cases hq
      exact hh.outOfStore (slabsClsid_fits h0)
    · obtain ⟨hbody, hlinked⟩ := hrep.kept p hp
      by_cases hpit : p = it
      · subst hpit
        obtain ⟨_, hahead, h1, hwhy⟩ := haside.lost (hlinked.trans hl)
        exact .inr ⟨rfl, lru, live, hok.consistent, hahead, h1, hwhy⟩
      · rw [hmem, ← hbody]
        exact .inl (haside.stays hrep.ok (hlinked.trans hl) hpit)

/-- One class of chunks of 96 bytes. -/
def smallChunks : Settings where
  useCas := true
  evictToFree := true
  slabclass := ⟨[96], by decide⟩
  hash := fun _ => 0
  refMod := 2 ^ 16
  counts := counts_ushort

def smallPage : LockEnv := ⟨4, fun _ _ => false, some [4096]⟩

theorem freshPage_smallPage : FreshPage (memoryInit 16).memory.store smallPage.newslab := by
  intro page hp
  cases hp
  simp [memoryInit, storeInit]

theorem alloc_sound_first :
    AllocSound smallChunks smallPage.newslab
      (slabsClsid smallChunks.slabclass (requestSize smallChunks (List.length [107]) 0 3))
      (memoryInit 16).memory ((memoryInit 16).memory.doItemAlloc smallChunks smallPage [] [107] 0 0 3 0) :=
  @alloc_sound smallChunks 16 [] (memoryInit 16) (.nil _) smallPage freshPage_smallPage [107] 0 3
    ⟨by decide, by decide, by decide⟩ [] 0 0

/-- A length of -306 makes the size of the request wrap around to 10: the item gets a chunk
of 96 bytes, which its key of 250 bytes overruns. -/
theorem chunk_overrun :
    FreshPage (memoryInit 16).memory.store smallPage.newslab ∧ requestSize smallChunks 250 0 (-306) = 10 ∧
      ¬AllocSound smallChunks smallPage.newslab (slabsClsid smallChunks.slabclass (requestSize smallChunks 250 0 (-306)))
        (memoryInit 16).memory
        ((memoryInit 16).memory.doItemAlloc smallChunks smallPage [] (List.replicate 250 107) 0 0 (-306) 0) := by
  refine ⟨freshPage_smallPage, by decide +kernel, fun h => ?_⟩
  have hit : ((memoryInit 16).memory.doItemAlloc smallChunks smallPage [] (List.replicate 250 107) 0 0 (-306) 0).2 =
      some 4096 := by decide +kernel
  have hfits := (h.handed 4096 hit).fits
  revert hfits
  decide +kernel

end RamCube
