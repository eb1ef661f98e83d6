import RamCube.Store.Items

/-! # The invariant of the item store

Five structures record which items are stored: the `ITEM_LINKED` marks, the hash
table, the LRU queues with their sizes, the statistics and the reference counts.
`ItemsOk` ties each of them to one list of stored items (`live`) and one queue
for each slab class (`lru`), given how many references are held from outside
(`held`). Each part reads a few fields of the store, so an operation that leaves
these alone keeps the part as it is. -/
namespace RamCube

/-- The item a chunk holds, without the links, marks and counts kept about it. -/
def Item.body (i : Item) : Item :=
  { i with
    next := none
    prev := none
    refcount := 0
    linked := false
    slabbed := false
    fetched := false
    slabsClsid := 0 }

structure TableOk (hash : Bytes → UInt32) (mem : Ptr → Item) (assoc : Assoc Ptr)
    (live : List Ptr) : Prop where
  assoc : AssocOk hash (fun p => itemKey (mem p)) assoc live
  linked : ∀ p, (mem p).linked = true ↔ p ∈ live

structure CountOk (mem : Ptr → Item) (live : List Ptr) (currItems currBytes : Nat) : Prop where
  items : currItems = live.length
  bytes : currBytes = (live.map fun p => itemNtotal (mem p)).sum

structure LruOk (mem : Ptr → Item) (heads tails : SlabId → Option Ptr) (sizes : SlabId → Nat)
    (lru : SlabId → List Ptr) : Prop where
  list : ∀ c, DList (fun p => (mem p).next) (fun p => (mem p).prev) (heads c) (tails c) (lru c)
  cls : ∀ c, ∀ p ∈ lru c, (mem p).slabsClsid = c
  sizes : ∀ c, sizes c = (lru c).length

/-- A stored item has one reference of its own besides those held from outside. -/
structure RefsOk (refMod : Nat) (mem : Ptr → Item) (live : List Ptr) (held : Ptr → Nat) :
    Prop where
  refs : ∀ p, (mem p).refcount = (if p ∈ live then 1 else 0) + held p
  room : refMod = 0 ∨ ∀ p, (mem p).refcount < refMod

/-- Free chunks lie on one free list each and nobody refers to them. -/
structure ChunksOk (mem : Ptr → Item) (slots : SlabId → List Ptr) (carved : List Ptr) : Prop where
  nodup : ∀ c, (slots c).Nodup
  disjoint : ∀ c c' p, p ∈ slots c → p ∈ slots c' → c = c'
  known : ∀ c, ∀ p ∈ slots c, p ∈ carved
  free : ∀ c, ∀ p ∈ slots c, (mem p).refcount = 0
  fresh : ∀ p, p ∉ carved → (mem p).refcount = 0
  busy : ∀ p, 0 < (mem p).refcount → (mem p).slabbed = false

structure ItemsOk (cfg : Settings) (s : Store) (held : Ptr → Nat) (live : List Ptr)
    (lru : SlabId → List Ptr) : Prop where
  table : TableOk cfg.hash s.mem s.assoc live
  count : CountOk s.mem live s.currItems s.currBytes
  queues : LruOk s.mem s.heads s.tails s.sizes lru
  queued : ∀ c p, p ∈ lru c ↔ p ∈ live ∧ (s.mem p).slabsClsid = c
  refs : RefsOk cfg.refMod s.mem live held
  chunks : ChunksOk s.mem s.slots s.carved

/-- The store is in order for some list of stored items and some queues. -/
def StoreOk (cfg : Settings) (s : Store) (held : Ptr → Nat) : Prop :=
  ∃ live lru, ItemsOk cfg s held live lru

def addRef (held : Ptr → Nat) (p : Ptr) : Ptr → Nat := Function.update held p (held p + 1)

def dropRef (held : Ptr → Nat) (p : Ptr) : Ptr → Nat := Function.update held p (held p - 1)

/-- One more reference to `p` fits its count. -/
def Room (cfg : Settings) (s : Store) (p : Ptr) : Prop :=
  cfg.refMod = 0 ∨ (s.mem p).refcount + 1 < cfg.refMod

section

variable {s : Store} {it p : Ptr} {f : Item → Item}

@[simp]
theorem modify_mem_self : (s.modify it f).mem it = f (s.mem it) :=
  Function.update_self _ _ _

theorem modify_mem_of_ne (h : p ≠ it) : (s.modify it f).mem p = s.mem p :=
  Function.update_of_ne h _ _

/-- A field that `f` leaves alone. -/
theorem modify_field {β : Type} (g : Item → β) (h : g (f (s.mem it)) = g (s.mem it)) (p : Ptr) :
    g ((s.modify it f).mem p) = g (s.mem p) := by
  by_cases hp : p = it
  · subst hp
    rw [modify_mem_self, h]
  · rw [modify_mem_of_ne hp]

end

/-! ## What each part reads -/

section

variable {hash : Bytes → UInt32} {mem mem' : Ptr → Item} {assoc : Assoc Ptr} {live : List Ptr}
  {lru : SlabId → List Ptr} {held : Ptr → Nat} {refMod : Nat}

theorem TableOk.congr (h : TableOk hash mem assoc live)
    (hk : ∀ p ∈ live, itemKey (mem' p) = itemKey (mem p))
    (hl : ∀ p, (mem' p).linked = (mem p).linked) : TableOk hash mem' assoc live where
  assoc := h.assoc.congr hk
  linked := fun p => by rw [hl, h.linked]

theorem CountOk.congr {n b : Nat} (h : CountOk mem live n b)
    (hn : ∀ p ∈ live, itemNtotal (mem' p) = itemNtotal (mem p)) : CountOk mem' live n b where
  items := h.items
  bytes := by rw [h.bytes, List.map_congr_left hn]

theorem LruOk.congr {heads tails : SlabId → Option Ptr} {sizes : SlabId → Nat}
    (h : LruOk mem heads tails sizes lru)
    (hm : ∀ c, ∀ p ∈ lru c, (mem' p).next = (mem p).next ∧ (mem' p).prev = (mem p).prev ∧
      (mem' p).slabsClsid = (mem p).slabsClsid) : LruOk mem' heads tails sizes lru where
  list := fun c => (h.list c).congr (fun q hq => (hm c q hq).1) fun q hq => (hm c q hq).2.1
  cls := fun c p hp => (hm c p hp).2.2.trans (h.cls c p hp)
  sizes := h.sizes

theorem RefsOk.congr (h : RefsOk refMod mem live held)
    (hr : ∀ p, (mem' p).refcount = (mem p).refcount) : RefsOk refMod mem' live held where
  refs := fun p => by rw [hr, h.refs]
  room := h.room.imp id fun hb p => by rw [hr]; exact hb p

theorem ChunksOk.congr {slots : SlabId → List Ptr} {carved : List Ptr}
    (h : ChunksOk mem slots carved) (hr : ∀ p, (mem' p).refcount = (mem p).refcount)
    (hs : ∀ p, 0 < (mem p).refcount → (mem' p).slabbed = (mem p).slabbed) :
    ChunksOk mem' slots carved where
  nodup := h.nodup
  disjoint := h.disjoint
  known := h.known
  free := fun c p hp => by rw [hr]; exact h.free c p hp
  fresh := fun p hp => by rw [hr]; exact h.fresh p hp
  busy := fun p hp => by
    rw [hr] at hp
    rw [hs p hp]
    exact h.busy p hp

end

/-! ## The queues -/

section

variable {s : Store} {it : Ptr} {lru : SlabId → List Ptr}

/-- Writing links changes nothing but links. -/
def Relinked (s s' : Store) : Prop :=
  ∀ p, ∃ n q, s'.mem p = { s.mem p with next := n, prev := q }

theorem Relinked.trans {s₁ s₂ s₃ : Store} (h : Relinked s₁ s₂) (h' : Relinked s₂ s₃) :
    Relinked s₁ s₃ := by
  intro p
  obtain ⟨_, _, h1⟩ := h p
  obtain ⟨n, q, h2⟩ := h' p
  exact ⟨n, q, by rw [h2, h1]⟩

theorem relinked_setNext (s : Store) (node link : Option Ptr) :
    Relinked s (s.setNext node link) := by
  intro p
  refine ⟨((s.setNext node link).mem p).next, (s.mem p).prev, ?_⟩
  cases node with
  | none => rfl
  | some it =>
    simp only [Store.setNext, Store.modify, Function.update_apply]
    split
    · rename_i h; rw [h]
    · rfl

theorem relinked_setPrev (s : Store) (node link : Option Ptr) :
    Relinked s (s.setPrev node link) := by
  intro p
  refine ⟨(s.mem p).next, ((s.setPrev node link).mem p).prev, ?_⟩
  cases node with
  | none => rfl
  | some it =>
    simp only [Store.setPrev, Store.modify, Function.update_apply]
    split
    · rename_i h; rw [h]
    · rfl

theorem setNext_mem_only (s : Store) (node link : Option Ptr) :
    ∃ mem, s.setNext node link = { s with mem := mem } := by
  cases node <;> exact ⟨_, rfl⟩

theorem setPrev_mem_only (s : Store) (node link : Option Ptr) :
    ∃ mem, s.setPrev node link = { s with mem := mem } := by
  cases node <;> exact ⟨_, rfl⟩

theorem setNext_links (s : Store) (node link : Option Ptr) :
    (fun p => ((s.setNext node link).mem p).next) = setLink (fun p => (s.mem p).next) node link ∧
    (fun p => ((s.setNext node link).mem p).prev) = fun p => (s.mem p).prev := by
  cases node with
  | none => exact ⟨rfl, rfl⟩
  | some it =>
    constructor <;> funext p <;>
      simp only [Store.setNext, setLink, Store.modify, Function.update_apply] <;> split <;>
      simp_all

theorem setPrev_links (s : Store) (node link : Option Ptr) :
    (fun p => ((s.setPrev node link).mem p).next) = (fun p => (s.mem p).next) ∧
    (fun p => ((s.setPrev node link).mem p).prev) =
      setLink (fun p => (s.mem p).prev) node link := by
  cases node with
  | none => exact ⟨rfl, rfl⟩
  | some it =>
    constructor <;> funext p <;>
      simp only [Store.setPrev, setLink, Store.modify, Function.update_apply] <;> split <;>
      simp_all

theorem relinked_itemUnlinkQ (s : Store) (it : Ptr) : Relinked s (itemUnlinkQ s it) := by
  have h : ∀ heads tails sizes, Relinked s
      ({ s with heads := heads, tails := tails, sizes := sizes }.setPrev (s.mem it).next
        (s.mem it).prev) := fun _ _ _ => relinked_setPrev { s with heads := _, tails := _, sizes := _ } _ _
  exact (h _ _ _).trans (relinked_setNext _ _ _)

theorem itemUnlinkQ_links (s : Store) (it : Ptr) :
    (fun p => ((itemUnlinkQ s it).mem p).next) =
      setLink (fun p => (s.mem p).next) (s.mem it).prev (s.mem it).next ∧
    (fun p => ((itemUnlinkQ s it).mem p).prev) =
      setLink (fun p => (s.mem p).prev) (s.mem it).next (s.mem it).prev := by
  unfold itemUnlinkQ
  dsimp only
  constructor
  · rw [(setNext_links _ _ _).1, (setPrev_links _ _ _).1]
  · rw [(setNext_links _ _ _).2, (setPrev_links _ _ _).2]

theorem itemUnlinkQ_rest (s : Store) (it : Ptr) :
    ∃ mem, itemUnlinkQ s it = { s with
      mem := mem
      heads := if s.heads (s.mem it).slabsClsid = some it then
          Function.update s.heads (s.mem it).slabsClsid (s.mem it).next else s.heads
      tails := if s.tails (s.mem it).slabsClsid = some it then
          Function.update s.tails (s.mem it).slabsClsid (s.mem it).prev else s.tails
      sizes := Function.update s.sizes (s.mem it).slabsClsid
        (s.sizes (s.mem it).slabsClsid - 1) } := by
  unfold itemUnlinkQ
  dsimp only
  obtain ⟨_, h1⟩ := setNext_mem_only _ (s.mem it).prev (s.mem it).next
  obtain ⟨_, h2⟩ := setPrev_mem_only _ (s.mem it).next (s.mem it).prev
  rw [h1, h2]
  exact ⟨_, rfl⟩

/-- `item_unlink_q` on an item of a queue cuts it out of the queue of its class. -/
theorem LruOk.unlink (h : LruOk s.mem s.heads s.tails s.sizes lru)
    (hp : it ∈ lru (s.mem it).slabsClsid) :
    LruOk (itemUnlinkQ s it).mem (itemUnlinkQ s it).heads (itemUnlinkQ s it).tails
      (itemUnlinkQ s it).sizes
      (Function.update lru (s.mem it).slabsClsid ((lru (s.mem it).slabsClsid).erase it)) := by
  obtain ⟨hn, hq⟩ := itemUnlinkQ_links s it
  obtain ⟨_, hrest⟩ := itemUnlinkQ_rest s it
  have hheads := congrArg Store.heads hrest
  have htails := congrArg Store.tails hrest
  have hsizes := congrArg Store.sizes hrest
  have hrel := relinked_itemUnlinkQ s it
  generalize itemUnlinkQ s it = s' at *
  simp only at hheads htails hsizes
  generalize hid : (s.mem it).slabsClsid = id at *
  obtain ⟨l₁, l₂, hl⟩ := List.append_of_mem hp
  have hnd := (h.list id).nodup
  have herase : (lru id).erase it = l₁ ++ l₂ := by
    rw [hl] at hnd ⊢
    rw [List.erase_append_right _ (fun hm => (List.nodup_append.mp hnd).2.2 _ hm _ (by simp) rfl),
      List.erase_cons_head]
  constructor
  · intro c
    rw [hn, hq]
    by_cases hc : c = id
    · subst hc
      have hcut := h.list c
      rw [hl] at hcut
      have hcut := hcut.cut
      rw [Function.update_self, herase, hheads, htails]
      convert hcut using 1
      · split <;> simp
      · split <;> simp
    · have hout : ∀ q ∈ lru c, q ∉ lru id := fun q hq hq' =>
        hc ((h.cls c q hq).symm.trans (h.cls id q hq'))
      have hh : s'.heads c = s.heads c := by
        rw [hheads]
        split
        · rw [Function.update_of_ne hc]
        · rfl
      have ht : s'.tails c = s.tails c := by
        rw [htails]
        split
        · rw [Function.update_of_ne hc]
        · rfl
      rw [Function.update_of_ne hc, hh, ht]
      refine (h.list c).congr ?_ ?_
      · intro q hq
        refine setLink_of_ne fun he => hout q hq ?_
        exact (h.list id).prev_mem hp he
      · intro q hq
        refine setLink_of_ne fun he => hout q hq ?_
        exact (h.list id).next_mem hp he
  · intro c p hpc
    obtain ⟨n, q, he⟩ := hrel p
    rw [he]
    by_cases hc : c = id
    · subst hc
      rw [Function.update_self] at hpc
      exact h.cls c p (List.mem_of_mem_erase hpc)
    · rw [Function.update_of_ne hc] at hpc
      exact h.cls c p hpc
  · intro c
    rw [hsizes]
    by_cases hc : c = id
    · subst hc
      simp [h.sizes, List.length_erase_of_mem hp]
    · simp [Function.update_of_ne hc, h.sizes]

theorem relinked_itemLinkQ (s : Store) (it : Ptr) : Relinked s (itemLinkQ s it) := by
  have h1 : Relinked s (s.modify it fun i =>
      { i with prev := none, next := s.heads (s.mem it).slabsClsid }) := by
    intro p
    by_cases hp : p = it
    · subst hp
      exact ⟨_, _, modify_mem_self⟩
    · exact ⟨_, _, modify_mem_of_ne hp⟩
  exact h1.trans (relinked_setPrev _ _ _)

theorem itemLinkQ_links (s : Store) (it : Ptr) :
    (fun p => ((itemLinkQ s it).mem p).next) =
      Function.update (fun p => (s.mem p).next) it (s.heads (s.mem it).slabsClsid) ∧
    (fun p => ((itemLinkQ s it).mem p).prev) =
      setLink (Function.update (fun p => (s.mem p).prev) it none)
        (s.heads (s.mem it).slabsClsid) (some it) := by
  have hn : (fun p => ((s.modify it fun i =>
      { i with prev := none, next := s.heads (s.mem it).slabsClsid }).mem p).next) =
      Function.update (fun p => (s.mem p).next) it (s.heads (s.mem it).slabsClsid) := by
    funext p
    simp only [Store.modify, Function.update_apply]
    split <;> rfl
  have hp : (fun p => ((s.modify it fun i =>
      { i with prev := none, next := s.heads (s.mem it).slabsClsid }).mem p).prev) =
      Function.update (fun p => (s.mem p).prev) it none := by
    funext p
    simp only [Store.modify, Function.update_apply]
    split <;> rfl
  unfold itemLinkQ
  dsimp only
  rw [(setPrev_links _ _ _).1, (setPrev_links _ _ _).2, hn, hp]
  exact ⟨rfl, rfl⟩

theorem itemLinkQ_rest (s : Store) (it : Ptr) :
    ∃ mem, itemLinkQ s it = { s with
      mem := mem
      heads := Function.update s.heads (s.mem it).slabsClsid (some it)
      tails := if s.tails (s.mem it).slabsClsid = none then
          Function.update s.tails (s.mem it).slabsClsid (some it) else s.tails
      sizes := Function.update s.sizes (s.mem it).slabsClsid
        (s.sizes (s.mem it).slabsClsid + 1) } := by
  unfold itemLinkQ
  dsimp only
  obtain ⟨_, h⟩ := setPrev_mem_only _ (s.heads (s.mem it).slabsClsid) (some it)
  rw [h]
  exact ⟨_, rfl⟩

/-- `item_link_q` puts an item in front of the queue of its class. -/
theorem LruOk.link (h : LruOk s.mem s.heads s.tails s.sizes lru) (hp : ∀ c, it ∉ lru c) :
    LruOk (itemLinkQ s it).mem (itemLinkQ s it).heads (itemLinkQ s it).tails
      (itemLinkQ s it).sizes
      (Function.update lru (s.mem it).slabsClsid (it :: lru (s.mem it).slabsClsid)) := by
  obtain ⟨hn, hq⟩ := itemLinkQ_links s it
  obtain ⟨_, hrest⟩ := itemLinkQ_rest s it
  have hheads := congrArg Store.heads hrest
  have htails := congrArg Store.tails hrest
  have hsizes := congrArg Store.sizes hrest
  have hrel := relinked_itemLinkQ s it
  generalize itemLinkQ s it = s' at *
  simp only at hheads htails hsizes
  generalize hid : (s.mem it).slabsClsid = id at *
  constructor
  · intro c
    rw [hn, hq, hheads, htails]
    by_cases hc : c = id
    · subst hc
      rw [Function.update_self, Function.update_self]
      convert (h.list c).push (hp c) using 1
      split <;> simp
    · have hne : ∀ q ∈ lru c, q ≠ it := by
        intro q hm he
        exact hp c (he ▸ hm)
      have ht : (if s.tails id = none then Function.update s.tails id (some it) else s.tails) c =
          s.tails c := by
        split
        · rw [Function.update_of_ne hc]
        · rfl
      rw [Function.update_of_ne hc, Function.update_of_ne hc, ht]
      refine (h.list c).congr ?_ ?_
      · intro q hq
        exact Function.update_of_ne (hne q hq) _ _
      · intro q hq
        rw [setLink_of_ne, Function.update_of_ne (hne q hq)]
        intro he
        have hm := List.mem_of_mem_head? ((h.list id).head_eq.symm.trans he)
        exact hc ((h.cls c q hq).symm.trans (h.cls id q hm))
  · intro c p hpc
    obtain ⟨n, q, he⟩ := hrel p
    rw [he]
    by_cases hc : c = id
    · subst hc
      rw [Function.update_self] at hpc
      cases hpc with
      | head => exact hid
      | tail _ hm => exact h.cls c p hm
    · rw [Function.update_of_ne hc] at hpc
      exact h.cls c p hpc
  · intro c
    rw [hsizes]
    by_cases hc : c = id
    · subst hc
      simp [h.sizes]
    · simp [Function.update_of_ne hc, h.sizes]

end

/-! ## References -/

section

variable {cfg : Settings} {s : Store} {it : Ptr} {held : Ptr → Nat} {live : List Ptr}
  {lru : SlabId → List Ptr}

theorem ItemsOk.live_iff (h : ItemsOk cfg s held live lru) (p : Ptr) :
    p ∈ live ↔ p ∈ lru (s.mem p).slabsClsid := by
  simp [h.queued]

theorem ItemsOk.not_queued (h : ItemsOk cfg s held live lru) {p : Ptr} (hp : p ∉ live) (c : SlabId) :
    p ∉ lru c :=
  fun hm => hp ((h.queued c p).mp hm).1

theorem ItemsOk.refcount_pos (h : ItemsOk cfg s held live lru) {p : Ptr}
    (hp : p ∈ live ∨ 0 < held p) : 0 < (s.mem p).refcount := by
  rw [h.refs.refs]
  rcases hp with hp | hp
  · simp [hp]
  · omega

/-- A change to one item that every part of the invariant overlooks. -/
theorem ItemsOk.modify (h : ItemsOk cfg s held live lru) {f : Item → Item}
    (hk : it ∈ live → itemKey (f (s.mem it)) = itemKey (s.mem it) ∧
      itemNtotal (f (s.mem it)) = itemNtotal (s.mem it) ∧
      (f (s.mem it)).next = (s.mem it).next ∧ (f (s.mem it)).prev = (s.mem it).prev ∧
      (f (s.mem it)).slabsClsid = (s.mem it).slabsClsid)
    (hl : (f (s.mem it)).linked = (s.mem it).linked)
    (hr : (f (s.mem it)).refcount = (s.mem it).refcount)
    (hs : 0 < (s.mem it).refcount → (f (s.mem it)).slabbed = (s.mem it).slabbed) :
    ItemsOk cfg (s.modify it f) held live lru := by
  have hlive : ∀ {β : Type} (g : Item → β), (it ∈ live → g (f (s.mem it)) = g (s.mem it)) →
      ∀ p ∈ live, g ((s.modify it f).mem p) = g (s.mem p) := by
    intro β g hg p hp
    by_cases he : p = it
    · subst he
      rw [modify_mem_self, hg hp]
    · rw [modify_mem_of_ne he]
  have hcls := hlive (·.slabsClsid) fun hm => (hk hm).2.2.2.2
  have hrc := modify_field (·.refcount) hr
  constructor
  · exact h.table.congr (hlive itemKey fun hm => (hk hm).1) (modify_field (·.linked) hl)
  · exact h.count.congr (hlive itemNtotal fun hm => (hk hm).2.1)
  · refine h.queues.congr fun c p hp => ?_
    have hp := ((h.queued c p).mp hp).1
    exact ⟨hlive (·.next) (fun hm => (hk hm).2.2.1) p hp,
      hlive (·.prev) (fun hm => (hk hm).2.2.2.1) p hp, hcls p hp⟩
  · intro c p
    rw [h.queued]
    exact and_congr_right fun hp => by rw [hcls p hp]
  · exact h.refs.congr hrc
  · refine h.chunks.congr hrc fun p hp => ?_
    by_cases he : p = it
    · subst he
      rw [modify_mem_self, hs hp]
    · rw [modify_mem_of_ne he]

theorem refcountDecr_eq {m r : Nat} (hm : m = 0 ∨ r < m) (hr : 0 < r) :
    (r + m - 1) % m = r - 1 := by
  rcases hm with rfl | hm
  · simp
  · rw [show r + m - 1 = r - 1 + m by omega, Nat.add_mod_right, Nat.mod_eq_of_lt (by omega)]

theorem refcountIncr_eq {m r : Nat} (hm : m = 0 ∨ r + 1 < m) : (r + 1) % m = r + 1 := by
  rcases hm with rfl | hm
  · simp
  · exact Nat.mod_eq_of_lt hm

/-- A new count for one item, and the references that explain it. -/
theorem ItemsOk.setRefcount (h : ItemsOk cfg s held live lru) {f : Item → Item} {n r : Nat}
    (hf : f (s.mem it) = { s.mem it with refcount := r }) (hpos : 0 < (s.mem it).refcount)
    (hr : r = (if it ∈ live then 1 else 0) + n) (hroom : cfg.refMod = 0 ∨ r < cfg.refMod) :
    ItemsOk cfg (s.modify it f) (Function.update held it n) live lru := by
  have hfield : ∀ {β : Type} (g : Item → β), g (f (s.mem it)) = g (s.mem it) →
      ∀ p, g ((s.modify it f).mem p) = g (s.mem p) := fun g hg => modify_field g hg
  have hself : ((s.modify it f).mem it).refcount = r := by rw [modify_mem_self, hf]
  have hcls := hfield (·.slabsClsid) (by rw [hf])
  constructor
  · exact h.table.congr (fun p _ => hfield itemKey (by rw [hf]; rfl) p)
      (hfield (·.linked) (by rw [hf]))
  · exact h.count.congr fun p _ => hfield itemNtotal (by rw [hf]; rfl) p
  · exact h.queues.congr fun c p _ => ⟨hfield (·.next) (by rw [hf]) p,
      hfield (·.prev) (by rw [hf]) p, hcls p⟩
  · intro c p
    rw [h.queued, hcls]
  · constructor
    · intro p
      by_cases hp : p = it
      · subst hp
        rw [hself, hr, Function.update_self]
      · rw [modify_mem_of_ne hp, Function.update_of_ne hp, h.refs.refs]
    · refine hroom.imp id fun hb p => ?_
      by_cases hp : p = it
      · subst hp
        rw [hself]
        exact hb
      · rw [modify_mem_of_ne hp]
        exact h.refs.room.resolve_left (by omega) p
  · have hother : ∀ p, p ≠ it → (s.modify it f).mem p = s.mem p := fun p => modify_mem_of_ne
    have hbusy : ∀ p, (s.mem p).refcount = 0 → p ≠ it := by
      rintro p h0 rfl
      omega
    constructor
    · exact h.chunks.nodup
    · exact h.chunks.disjoint
    · exact h.chunks.known
    · intro c p hp
      have h0 := h.chunks.free c p hp
      rw [hother p (hbusy p h0), h0]
    · intro p hp
      have h0 := h.chunks.fresh p hp
      rw [hother p (hbusy p h0), h0]
    · intro p hp
      by_cases he : p = it
      · subst he
        rw [modify_mem_self, hf]
        exact h.chunks.busy p hpos
      · rw [hother p he] at hp ⊢
        exact h.chunks.busy p hp

theorem ItemsOk.incr (h : ItemsOk cfg s held live lru) (hpos : 0 < (s.mem it).refcount)
    (hroom : Room cfg s it) : ItemsOk cfg (refcountIncr cfg s it) (addRef held it) live lru := by
  refine h.setRefcount rfl hpos ?_ ?_
  · rw [refcountIncr_eq hroom, h.refs.refs]
    omega
  · rw [refcountIncr_eq hroom]
    exact hroom

theorem ItemsOk.decr (h : ItemsOk cfg s held live lru) (hp : 0 < held it) :
    ItemsOk cfg (refcountDecr cfg s it) (dropRef held it) live lru := by
  have hpos := h.refcount_pos (.inr hp)
  have hm : cfg.refMod = 0 ∨ (s.mem it).refcount < cfg.refMod := h.refs.room.imp id fun hb => hb it
  refine h.setRefcount rfl hpos ?_ ?_
  · rw [refcountDecr_eq hm hpos, h.refs.refs]
    omega
  · rw [refcountDecr_eq hm hpos]
    exact hm.imp id fun hb => by omega

theorem slabsFree_mem (cfg : Settings) (s : Store) (it : Ptr) (id : SlabId) :
    ∃ f : Item → Item, ∃ slots, slabsFree cfg s it id = { s.modify it f with slots := slots } ∧
      (∃ b n q, f (s.mem it) = { s.mem it with slabbed := b, next := n, prev := q }) ∧
      (slots = s.slots ∨ slots = Function.update s.slots id (it :: s.slots id)) := by
  unfold slabsFree
  split
  · exact ⟨fun _ => s.mem it, s.slots, by simp [Store.modify], ⟨_, _, _, rfl⟩, .inl rfl⟩
  · exact ⟨_, _, rfl, ⟨_, _, _, rfl⟩, .inr rfl⟩

/-- A chunk nobody refers to goes on a free list. -/
theorem ChunksOk.push {mem : Ptr → Item} {slots : SlabId → List Ptr} {carved : List Ptr} {id : SlabId}
    (h : ChunksOk mem slots carved) (h0 : (mem it).refcount = 0) (hc : it ∈ carved)
    (hs : ∀ c, it ∉ slots c) :
    ChunksOk mem (Function.update slots id (it :: slots id)) carved := by
  have hmem : ∀ c p, p ∈ Function.update slots id (it :: slots id) c ↔
      p ∈ slots c ∨ (p = it ∧ c = id) := by
    intro c p
    by_cases hcid : c = id
    · subst hcid
      simp [or_comm]
    · simp [hcid]
  constructor
  · intro c
    by_cases hcid : c = id
    · subst hcid
      rw [Function.update_self]
      exact List.nodup_cons.mpr ⟨hs _, h.nodup _⟩
    · rw [Function.update_of_ne hcid]
      exact h.nodup c
  · intro c c' p hp hp'
    rw [hmem] at hp hp'
    rcases hp with hp | ⟨rfl, rfl⟩ <;> rcases hp' with hp' | ⟨he, rfl⟩
    · exact h.disjoint c c' p hp hp'
    · exact absurd (he ▸ hp) (hs c)
    · exact absurd hp' (hs c')
    · rfl
  · intro c p hp
    rcases (hmem c p).mp hp with hp | ⟨rfl, _⟩
    · exact h.known c p hp
    · exact hc
  · intro c p hp
    rcases (hmem c p).mp hp with hp | ⟨rfl, _⟩
    · exact h.free c p hp
    · exact h0
  · exact h.fresh
  · exact h.busy

theorem ItemsOk.free (h : ItemsOk cfg s held live lru) (h0 : (s.mem it).refcount = 0)
    (hc : it ∈ s.carved) (hs : ∀ c, it ∉ s.slots c) :
    ItemsOk cfg (itemFree cfg s it) held live lru := by
  have hlive : it ∉ live := by
    have := h.refs.refs it
    intro hm
    rw [if_pos hm] at this
    omega
  obtain ⟨f, slots, he, ⟨b, n, q, hf⟩, hslots⟩ := slabsFree_mem cfg
    (s.modify it fun i => { i with slabsClsid := 0 }) it (s.mem it).slabsClsid
  have h1 : ItemsOk cfg (s.modify it fun i => { i with slabsClsid := 0 }) held live lru :=
    h.modify (fun hm => absurd hm hlive) rfl rfl fun _ => rfl
  have h2 : ItemsOk cfg ((s.modify it fun i => { i with slabsClsid := 0 }).modify it f) held live
      lru := h1.modify (fun hm => absurd hm hlive) (by rw [hf]) (by rw [hf])
    fun hpos => by simp [h0] at hpos
  have h0' : (((s.modify it fun i => { i with slabsClsid := 0 }).modify it f).mem it).refcount = 0 := by
    rw [modify_field (·.refcount) (by rw [hf]), modify_field (·.refcount) rfl]
    exact h0
  unfold itemFree
  rw [he]
  refine ⟨h2.table, h2.count, h2.queues, h2.queued, h2.refs, ?_⟩
  rcases hslots with rfl | rfl
  · exact h2.chunks
  · exact h2.chunks.push h0' hc hs

theorem ItemsOk.carved_of_pos (h : ItemsOk cfg s held live lru) (hp : 0 < (s.mem it).refcount) :
    it ∈ s.carved ∧ ∀ c, it ∉ s.slots c := by
  constructor
  · by_contra hc
    have := h.chunks.fresh it hc
    omega
  · intro c hm
    have := h.chunks.free c it hm
    omega

/-- `do_item_remove` gives one reference up. -/
theorem ItemsOk.remove (h : ItemsOk cfg s held live lru) (hp : 0 < held it) :
    ItemsOk cfg (doItemRemove cfg s it) (dropRef held it) live lru := by
  have hd := h.decr hp
  obtain ⟨hc, hs⟩ := h.carved_of_pos (h.refcount_pos (.inr hp))
  unfold doItemRemove
  dsimp only
  split
  · rename_i h0
    exact hd.free h0 hc hs
  · exact hd

/-! ## Unlinking and linking -/

theorem perm_filter_key {key : Ptr → Bytes} (hk : (live.map key).Nodup) (hp : it ∈ live) :
    live.Perm (it :: live.filter fun p => decide (key p ≠ key it)) := by
  have hnd := List.Nodup.of_map _ hk
  refine (List.perm_ext_iff_of_nodup hnd ?_).mpr ?_
  · exact List.nodup_cons.mpr ⟨by simp, hnd.filter _⟩
  · intro p
    simp only [List.mem_cons, List.mem_filter, decide_eq_true_eq]
    constructor
    · intro hm
      by_cases he : p = it
      · exact .inl he
      · exact .inr ⟨hm, fun hkey => he (eq_of_keyOf_eq hk hm hp hkey)⟩
    · rintro (rfl | ⟨hm, _⟩)
      · exact hp
      · exact hm

theorem mem_filter_key {key : Ptr → Bytes} (hk : (live.map key).Nodup) (hp : it ∈ live) {p : Ptr} :
    p ∈ live.filter (fun p => decide (key p ≠ key it)) ↔ p ∈ live ∧ p ≠ it := by
  rw [(perm_filter_key hk hp).mem_iff, List.mem_cons]
  have : it ∉ live.filter fun p => decide (key p ≠ key it) := by simp
  constructor
  · intro hm
    exact ⟨.inr hm, fun he => this (he ▸ hm)⟩
  · rintro ⟨hm | hm, hne⟩
    · exact absurd hm hne
    · exact hm

/-- The part of `do_item_unlink` before `do_item_remove`. -/
def unlinkItem (s : Store) (it : Ptr) (hv : UInt32) : Store :=
  let s := s.modify it fun i => { i with linked := false }
  itemUnlinkQ { s with
    currBytes := s.currBytes - itemNtotal (s.mem it)
    currItems := s.currItems - 1
    assoc := assocDelete s.key s.assoc (s.key it) hv } it

theorem doItemUnlinkNolock_eq (cfg : Settings) (s : Store) (it : Ptr) (hv : UInt32) :
    doItemUnlinkNolock cfg s it hv =
      if (s.mem it).linked then doItemRemove cfg (unlinkItem s it hv) it else s := rfl

/-- An item taken out of the table and its queue keeps its reference, held from
now on by the code that unlinks it. -/
theorem ItemsOk.unlinkItem (h : ItemsOk cfg s held live lru) (hp : it ∈ live) :
    ItemsOk cfg (unlinkItem s it (cfg.hash (s.key it))) (addRef held it)
      (live.filter fun p => decide (s.key p ≠ s.key it))
      (Function.update lru (s.mem it).slabsClsid ((lru (s.mem it).slabsClsid).erase it)) := by
  have hnd : (live.map s.key).Nodup := h.table.assoc.keys
  have hmem := fun p => mem_filter_key (p := p) hnd hp
  have hperm := perm_filter_key hnd hp
  have hit : it ∈ lru (s.mem it).slabsClsid := (h.live_iff it).mp hp
  let s1 := s.modify it fun i => { i with linked := false }
  have hsame : ∀ {β : Type} (g : Item → β), (∀ i, g { i with linked := false } = g i) →
      ∀ p, g (s1.mem p) = g (s.mem p) := fun g hg => modify_field g (hg _)
  let s2 : Store := { s1 with
    currBytes := s1.currBytes - itemNtotal (s1.mem it)
    currItems := s1.currItems - 1
    assoc := assocDelete s1.key s1.assoc (s1.key it) (cfg.hash (s.key it)) }
  have hkey : s1.key = s.key := funext fun p => hsame itemKey (fun _ => rfl) p
  have hq : LruOk s2.mem s2.heads s2.tails s2.sizes lru :=
    h.queues.congr fun c p _ => ⟨hsame (·.next) (fun _ => rfl) p, hsame (·.prev) (fun _ => rfl) p,
      hsame (·.slabsClsid) (fun _ => rfl) p⟩
  have hcls : (s2.mem it).slabsClsid = (s.mem it).slabsClsid := hsame (·.slabsClsid) (fun _ => rfl) it
  have hlru := hq.unlink (show it ∈ lru (s2.mem it).slabsClsid by rw [hcls]; exact hit)
  rw [hcls] at hlru
  have hrel := relinked_itemUnlinkQ s2 it
  obtain ⟨_, hrest⟩ := itemUnlinkQ_rest s2 it
  have hshape : RamCube.unlinkItem s it (cfg.hash (s.key it)) = itemUnlinkQ s2 it := rfl
  have hfield : ∀ {β : Type} (g : Item → β), (∀ i n q, g { i with next := n, prev := q } = g i) →
      ∀ p, g ((itemUnlinkQ s2 it).mem p) = g (s1.mem p) := by
    intro β g hg p
    obtain ⟨n, q, he⟩ := hrel p
    rw [he, hg]
  have hrc : ∀ p, ((itemUnlinkQ s2 it).mem p).refcount = (s.mem p).refcount := fun p =>
    (hfield (·.refcount) (fun _ _ _ => rfl) p).trans (hsame (·.refcount) (fun _ => rfl) p)
  rw [hshape]
  constructor
  · constructor
    · have hd := h.table.assoc.delete ⟨it, hp, rfl⟩
      rw [congrArg Store.assoc hrest]
      change AssocOk cfg.hash _ (assocDelete s1.key s1.assoc (s1.key it) (cfg.hash (s.key it))) _
      rw [hkey]
      exact hd.congr fun p _ => (hfield itemKey (fun _ _ _ => rfl) p).trans
        (hsame itemKey (fun _ => rfl) p)
    · intro p
      rw [hmem, hfield (·.linked) (fun _ _ _ => rfl) p, ← h.table.linked]
      by_cases he : p = it
      · subst he
        simp [s1]
      · simp [s1, modify_mem_of_ne he, he]
  · constructor
    · rw [congrArg Store.currItems hrest]
      change s.currItems - 1 = _
      rw [h.count.items, hperm.length_eq]
      rfl
    · rw [congrArg Store.currBytes hrest]
      change s.currBytes - itemNtotal (s1.mem it) = _
      rw [hsame itemNtotal (fun _ => rfl), h.count.bytes, (hperm.map _).sum_eq]
      simp only [List.map_cons, List.sum_cons, Nat.add_sub_cancel_left]
      congr 1
      apply List.map_congr_left
      intro p _
      exact ((hfield itemNtotal (fun _ _ _ => rfl) p).trans (hsame itemNtotal (fun _ => rfl) p)).symm
  · exact hlru
  · intro c p
    rw [hmem, hfield (·.slabsClsid) (fun _ _ _ => rfl) p, hsame (·.slabsClsid) (fun _ => rfl) p]
    by_cases hc : c = (s.mem it).slabsClsid
    · subst hc
      rw [Function.update_self, (h.queues.list _).nodup.mem_erase_iff, h.queued]
      tauto
    · rw [Function.update_of_ne hc, h.queued]
      constructor
      · rintro ⟨hm, rfl⟩
        exact ⟨⟨hm, fun he => hc (by rw [he])⟩, rfl⟩
      · rintro ⟨⟨hm, _⟩, rfl⟩
        exact ⟨hm, rfl⟩
  · constructor
    · intro p
      rw [hrc, h.refs.refs]
      by_cases he : p = it
      · subst he
        rw [if_pos hp, if_neg (fun hm => ((hmem p).mp hm).2 rfl), addRef, Function.update_self]
        omega
      · simp only [hmem, he, ne_eq, not_false_eq_true, and_true, addRef, Function.update_of_ne]
    · exact h.refs.room.imp id fun hb p => by rw [hrc]; exact hb p
  · have hch := h.chunks.congr hrc fun p _ => (hfield (·.slabbed) (fun _ _ _ => rfl) p).trans
      (hsame (·.slabbed) (fun _ => rfl) p)
    rw [congrArg Store.slots hrest, congrArg Store.carved hrest]
    exact hch

theorem dropRef_addRef (held : Ptr → Nat) (p : Ptr) : dropRef (addRef held p) p = held := by
  simp [dropRef, addRef]

/-- `do_item_unlink` on a stored item. -/
theorem ItemsOk.unlink (h : ItemsOk cfg s held live lru) (hp : it ∈ live) :
    ItemsOk cfg (doItemUnlinkNolock cfg s it (cfg.hash (s.key it))) held
      (live.filter fun p => decide (s.key p ≠ s.key it))
      (Function.update lru (s.mem it).slabsClsid ((lru (s.mem it).slabsClsid).erase it)) := by
  rw [doItemUnlinkNolock_eq, if_pos ((h.table.linked it).mpr hp)]
  have hu := (h.unlinkItem hp).remove (show 0 < addRef held it it by simp [addRef])
  rwa [dropRef_addRef] at hu

/-- The part of `do_item_link` before `refcount_incr`. -/
def linkItem (cfg : Settings) (s : Store) (it : Ptr) (hv : UInt32) : Store :=
  let s := s.modify it fun i => { i with linked := true, time := s.currentTime }
  let s := { s with
    currBytes := s.currBytes + itemNtotal (s.mem it)
    currItems := s.currItems + 1
    totalItems := s.totalItems + 1 }
  let s := if cfg.useCas then getCasId s else s
  let s := s.modify it fun i => itemSetCas i (if cfg.useCas then s.casId else 0)
  let s := { s with assoc := assocInsert s.assoc it hv }
  itemLinkQ s it

theorem doItemLink_eq (cfg : Settings) (s : Store) (it : Ptr) (hv : UInt32) :
    doItemLink cfg s it hv = refcountIncr cfg (linkItem cfg s it hv) it := rfl

/-- The `cas` unique a link hands out. -/
def linkCas (cfg : Settings) (s : Store) : UInt64 := if cfg.useCas then s.casId + 1 else 0

/-- The store on its way into `item_link_q`. -/
def linkPrepare (cfg : Settings) (s : Store) (it : Ptr) (hv : UInt32) : Store :=
  { s.modify it fun i =>
      itemSetCas { i with linked := true, time := s.currentTime } (linkCas cfg s) with
    currBytes := s.currBytes + itemNtotal (s.mem it)
    currItems := s.currItems + 1
    totalItems := s.totalItems + 1
    casId := if cfg.useCas then s.casId + 1 else s.casId
    assoc := assocInsert s.assoc it hv }

theorem linkItem_eq (cfg : Settings) (s : Store) (it : Ptr) (hv : UInt32) :
    linkItem cfg s it hv = itemLinkQ (linkPrepare cfg s it hv) it := by
  have hn : itemNtotal { s.mem it with linked := true, time := s.currentTime } =
      itemNtotal (s.mem it) := rfl
  unfold linkItem linkPrepare linkCas getCasId
  cases cfg.useCas <;> simp [Store.modify, hn]

theorem itemSetCas_field {β : Type} (g : Item → β) (hg : ∀ i c, g { i with cas := c } = g i)
    (i : Item) (c : UInt64) : g (itemSetCas i c) = g i := by
  unfold itemSetCas
  split
  · exact hg i c
  · rfl

theorem linkPrepare_field {β : Type} (g : Item → β) (hc : ∀ i c, g { i with cas := c } = g i)
    (hl : ∀ i t, g { i with linked := true, time := t } = g i) (cfg : Settings) (s : Store)
    (it : Ptr) (hv : UInt32) (p : Ptr) : g ((linkPrepare cfg s it hv).mem p) = g (s.mem p) := by
  have hf : g (itemSetCas { s.mem it with linked := true, time := s.currentTime }
      (linkCas cfg s)) = g (s.mem it) := by
    rw [itemSetCas_field g hc, hl]
  by_cases hp : p = it
  · subst hp
    simpa [linkPrepare, Store.modify] using hf
  · simp [linkPrepare, Store.modify, hp]

/-- A field that linking leaves alone. -/
theorem linkItem_field {β : Type} (g : Item → β) (hc : ∀ i c, g { i with cas := c } = g i)
    (hl : ∀ i t, g { i with linked := true, time := t } = g i)
    (hq : ∀ i n q, g { i with next := n, prev := q } = g i) (cfg : Settings) (s : Store) (it : Ptr) (hv : UInt32) (p : Ptr) :
    g ((linkItem cfg s it hv).mem p) = g (s.mem p) := by
  rw [linkItem_eq]
  obtain ⟨n, q, he⟩ := relinked_itemLinkQ (linkPrepare cfg s it hv) it p
  rw [he, hq]
  exact linkPrepare_field g hc hl cfg s it hv p

theorem linkItem_refcount (cfg : Settings) (s : Store) (it : Ptr) (hv : UInt32) (p : Ptr) :
    ((linkItem cfg s it hv).mem p).refcount = (s.mem p).refcount :=
  linkItem_field (·.refcount) (fun _ _ => rfl) (fun _ _ => rfl) (fun _ _ _ => rfl) cfg s it hv p

theorem linkItem_linked (cfg : Settings) (s : Store) (it : Ptr) (hv : UInt32) (p : Ptr) :
    ((linkItem cfg s it hv).mem p).linked = true ↔ p = it ∨ (s.mem p).linked = true := by
  rw [linkItem_eq]
  obtain ⟨n, q, he⟩ := relinked_itemLinkQ (linkPrepare cfg s it hv) it p
  rw [he]
  by_cases hp : p = it
  · subst hp
    simp only [linkPrepare, modify_mem_self, true_or, iff_true]
    rw [itemSetCas_field (·.linked) (fun _ _ => rfl)]
  · have hother : (linkPrepare cfg s it hv).mem p = s.mem p := Function.update_of_ne hp _ _
    simp [hp, hother]

/-- The rest of the store: the table has the item, and it is counted. -/
theorem linkItem_rest (cfg : Settings) (s : Store) (it : Ptr) (hv : UInt32) :
    (linkItem cfg s it hv).assoc = assocInsert s.assoc it hv ∧ (linkItem cfg s it hv).currItems = s.currItems + 1 ∧
      (linkItem cfg s it hv).currBytes = s.currBytes + itemNtotal (s.mem it) ∧
      (linkItem cfg s it hv).slots = s.slots ∧ (linkItem cfg s it hv).carved = s.carved := by
  rw [linkItem_eq]
  obtain ⟨_, hrest⟩ := itemLinkQ_rest (linkPrepare cfg s it hv) it
  rw [hrest]
  exact ⟨rfl, rfl, rfl, rfl, rfl⟩

/-- The item is at the head of the queue of its class. -/
theorem LruOk.linkItem {hv : UInt32} (h : LruOk s.mem s.heads s.tails s.sizes lru) (hl : ∀ c, it ∉ lru c) :
    LruOk (linkItem cfg s it hv).mem (linkItem cfg s it hv).heads (linkItem cfg s it hv).tails (linkItem cfg s it hv).sizes
      (Function.update lru (s.mem it).slabsClsid (it :: lru (s.mem it).slabsClsid)) := by
  have hprepared : LruOk (linkPrepare cfg s it hv).mem (linkPrepare cfg s it hv).heads
      (linkPrepare cfg s it hv).tails (linkPrepare cfg s it hv).sizes lru :=
    h.congr fun c p _ => ⟨linkPrepare_field (·.next) (fun _ _ => rfl) (fun _ _ => rfl) cfg s it hv p,
      linkPrepare_field (·.prev) (fun _ _ => rfl) (fun _ _ => rfl) cfg s it hv p,
      linkPrepare_field (·.slabsClsid) (fun _ _ => rfl) (fun _ _ => rfl) cfg s it hv p⟩
  have hcls : ((linkPrepare cfg s it hv).mem it).slabsClsid = (s.mem it).slabsClsid :=
    linkPrepare_field (·.slabsClsid) (fun _ _ => rfl) (fun _ _ => rfl) cfg s it hv it
  have hlinked := hprepared.link hl
  rw [hcls] at hlinked
  rwa [linkItem_eq]

/-- An item linked under a key that is not in the table: the reference the table
keeps is taken from those held outside. -/
theorem ItemsOk.linkItem (h : ItemsOk cfg s held live lru) (hp : 0 < held it) (hl : it ∉ live)
    (hk : ∀ x ∈ live, s.key x ≠ s.key it) :
    ItemsOk cfg (linkItem cfg s it (cfg.hash (s.key it))) (dropRef held it) (it :: live)
      (Function.update lru (s.mem it).slabsClsid (it :: lru (s.mem it).slabsClsid)) := by
  obtain ⟨hassoc, hitems, hbytes, hslots, hcarved⟩ := linkItem_rest cfg s it (cfg.hash (s.key it))
  have hrc := linkItem_refcount cfg s it (cfg.hash (s.key it))
  have hkey := linkItem_field itemKey (fun _ _ => rfl) (fun _ _ => rfl) (fun _ _ _ => rfl) cfg s it (cfg.hash (s.key it))
  have hntotal := linkItem_field itemNtotal (fun _ _ => rfl) (fun _ _ => rfl) (fun _ _ _ => rfl) cfg s it (cfg.hash (s.key it))
  have hcls := linkItem_field (·.slabsClsid) (fun _ _ => rfl) (fun _ _ => rfl) (fun _ _ _ => rfl) cfg s it (cfg.hash (s.key it))
  have hslabbed := linkItem_field (·.slabbed) (fun _ _ => rfl) (fun _ _ => rfl) (fun _ _ _ => rfl) cfg s it (cfg.hash (s.key it))
  have hlinked := linkItem_linked cfg s it (cfg.hash (s.key it))
  refine ⟨⟨?_, fun p => ?_⟩, ⟨?_, ?_⟩, h.queues.linkItem (h.not_queued hl), fun c p => ?_, ⟨fun p => ?_, ?_⟩, ?_⟩
  · rw [hassoc]
    exact (h.table.assoc.insert hk).congr fun p _ => hkey p
  · rw [hlinked, List.mem_cons, h.table.linked]
  · rw [hitems, h.count.items, List.length_cons]
  · rw [hbytes, h.count.bytes, List.map_cons, List.sum_cons, hntotal, Nat.add_comm]
    congr 2
    exact List.map_congr_left fun p _ => (hntotal p).symm
  · rw [hcls, List.mem_cons]
    by_cases hc : c = (s.mem it).slabsClsid
    · subst hc
      rw [Function.update_self, List.mem_cons, h.queued]
      constructor
      · rintro (rfl | ⟨hm, he⟩)
        · exact ⟨.inl rfl, rfl⟩
        · exact ⟨.inr hm, he⟩
      · rintro ⟨rfl | hm, he⟩
        · exact .inl rfl
        · exact .inr ⟨hm, he⟩
    · rw [Function.update_of_ne hc, h.queued]
      constructor
      · rintro ⟨hm, rfl⟩
        exact ⟨.inr hm, rfl⟩
      · rintro ⟨rfl | hm, rfl⟩
        · exact absurd rfl hc
        · exact ⟨hm, rfl⟩
  · rw [hrc, h.refs.refs]
    by_cases he : p = it
    · subst he
      simp only [hl, if_false, List.mem_cons_self, if_true, dropRef, Function.update_self]
      omega
    · simp [dropRef, he]
  · exact h.refs.room.imp id fun hb p => by rw [hrc]; exact hb p
  · rw [hslots, hcarved]
    exact h.chunks.congr hrc fun p _ => hslabbed p

theorem addRef_dropRef {held : Ptr → Nat} {p : Ptr} (hp : 0 < held p) :
    addRef (dropRef held p) p = held := by
  simp only [addRef, dropRef, Function.update_self, Function.update_idem]
  rw [Nat.sub_add_cancel hp, Function.update_eq_self]

theorem ItemsOk.link (h : ItemsOk cfg s held live lru) (hp : 0 < held it) (hl : it ∉ live)
    (hk : ∀ x ∈ live, s.key x ≠ s.key it) (hroom : Room cfg s it) :
    ItemsOk cfg (doItemLink cfg s it (cfg.hash (s.key it))) held (it :: live)
      (Function.update lru (s.mem it).slabsClsid (it :: lru (s.mem it).slabsClsid)) := by
  have hli := h.linkItem hp hl hk
  have hrc := linkItem_refcount cfg s it (cfg.hash (s.key it)) it
  rw [doItemLink_eq]
  have hi := hli.incr (show 0 < ((RamCube.linkItem cfg s it (cfg.hash (s.key it))).mem it).refcount
      by rw [hrc]; exact h.refcount_pos (.inr hp))
    (by unfold Room at hroom ⊢; rwa [hrc])
  rwa [addRef_dropRef hp] at hi

end

end RamCube
