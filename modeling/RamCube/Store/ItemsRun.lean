import RamCube.Lib.Run
import RamCube.Store.ItemsKeep

/-! # Runs of the item store

Any sequence of the operations of items.c, called as the commands call them: an
item is linked by a caller who holds a reference to it, when nothing is stored
under its key; references are given back by those who hold them; the data of an
item is written before the item is linked. Between the operations the clock, the
flush mark and the rebalanced range may change and the hash table may grow. An
operation that takes a reference finds room for it in the count, which an
unbounded count always has.

`ItemsStep` is such an operation, with an allocation that asks for a data block and
meets no item that tail repair takes away. `ItemsCall` has every allocation: binary
requests pass lengths below 2 as well, and one that is negative can make the key
overrun the chunk. -/
namespace RamCube

inductive ItemsOp where
  | alloc (env : AllocEnv) (key : Bytes) (flags : Int) (exptime : UInt32) (nbytes : Int)
      (curHv : UInt32)
  | link (it : Ptr)
  | unlink (it : Ptr)
  | remove (it : Ptr)
  | replace (it newIt : Ptr)
  | update (it : Ptr)
  | get (key : Bytes)
  | touch (key : Bytes) (exptime : UInt32)
  | flushExpired
  | write (it : Ptr) (bytes : Nat → UInt8) (cas : UInt64)
  | clock (currentTime oldestLive : UInt32) (slabRebal : Option (Ptr × Ptr))
  | expand (callocOk : Bool)
  | migrate

/-- The store and the references held outside it. -/
structure ItemsState where
  store : Store
  held : Ptr → Nat

/-- The references after a function returned an item or null. -/
def giveRef (held : Ptr → Nat) : Option Ptr → Ptr → Nat
  | none => held
  | some it => addRef held it

/-- An empty store with a hash table of `2 ^ hashpower` buckets. -/
def storeInit (hashpower : Nat) : Store where
  mem := fun _ => emptyItem
  heads := fun _ => none
  tails := fun _ => none
  sizes := fun _ => 0
  assoc := assocInit hashpower
  slots := fun _ => []
  carved := []
  currBytes := 0
  currItems := 0
  totalItems := 0
  casId := 0
  currentTime := 2
  oldestLive := 0
  slabRebal := none

def itemsInit (hashpower : Nat) : ItemsState := ⟨storeInit hashpower, fun _ => 0⟩

/-- One more reference to the item stored under a key fits its count. -/
def RoomAt (cfg : Settings) (s : Store) (key : Bytes) : Prop :=
  ∀ p, (s.mem p).linked = true → s.key p = key → Room cfg s p

/-- The queue an allocation searches. -/
def allocClass (cfg : Settings) (key : Bytes) (flags : Int) (nbytes : Nat) : SlabId :=
  slabsClsid cfg.slabclass (itemMakeHeader cfg (key.length + 1) flags nbytes)

inductive ItemsStep (cfg : Settings) : ItemsState → ItemsOp → ItemsState → Prop where
  | alloc (s : Store) (held : Ptr → Nat) (env : AllocEnv) (key : Bytes) (flags : Int)
      (exptime : UInt32) (nbytes : Nat) (curHv : UInt32) : 2 ≤ nbytes → FreshPage s env.newslab →
      tailRepairFires cfg env curHv s 5 (s.tails (allocClass cfg key flags nbytes)) = false →
      ItemsStep cfg ⟨s, held⟩ (.alloc env key flags exptime nbytes curHv)
        ⟨(doItemAlloc cfg env s key flags exptime nbytes curHv).1,
          giveRef held (doItemAlloc cfg env s key flags exptime nbytes curHv).2⟩
  | link (s : Store) (held : Ptr → Nat) (it : Ptr) : 0 < held it → (s.mem it).linked = false →
      assocFind s.key s.assoc (s.key it) (cfg.hash (s.key it)) = none → Room cfg s it →
      ItemsStep cfg ⟨s, held⟩ (.link it) ⟨doItemLink cfg s it (cfg.hash (s.key it)), held⟩
  | unlink (s : Store) (held : Ptr → Nat) (it : Ptr) :
      ItemsStep cfg ⟨s, held⟩ (.unlink it) ⟨doItemUnlink cfg s it (cfg.hash (s.key it)), held⟩
  | remove (s : Store) (held : Ptr → Nat) (it : Ptr) : 0 < held it →
      ItemsStep cfg ⟨s, held⟩ (.remove it) ⟨doItemRemove cfg s it, dropRef held it⟩
  | replace (s : Store) (held : Ptr → Nat) (it newIt : Ptr) : (s.mem it).linked = true →
      0 < held newIt → (s.mem newIt).linked = false → s.key it = s.key newIt → Room cfg s newIt →
      ItemsStep cfg ⟨s, held⟩ (.replace it newIt)
        ⟨doItemReplace cfg s it newIt (cfg.hash (s.key it)), held⟩
  | update (s : Store) (held : Ptr → Nat) (it : Ptr) :
      ItemsStep cfg ⟨s, held⟩ (.update it) ⟨doItemUpdate s it, held⟩
  | get (s : Store) (held : Ptr → Nat) (key : Bytes) : RoomAt cfg s key →
      ItemsStep cfg ⟨s, held⟩ (.get key)
        ⟨(doItemGet cfg s key (cfg.hash key)).1, giveRef held (doItemGet cfg s key (cfg.hash key)).2⟩
  | touch (s : Store) (held : Ptr → Nat) (key : Bytes) (exptime : UInt32) : RoomAt cfg s key →
      ItemsStep cfg ⟨s, held⟩ (.touch key exptime)
        ⟨(doItemTouch cfg s key exptime (cfg.hash key)).1,
          giveRef held (doItemTouch cfg s key exptime (cfg.hash key)).2⟩
  | flushExpired (s : Store) (held : Ptr → Nat) :
      ItemsStep cfg ⟨s, held⟩ .flushExpired ⟨doItemFlushExpired cfg s, held⟩
  | write (s : Store) (held : Ptr → Nat) (it : Ptr) (bytes : Nat → UInt8) (cas : UInt64) :
      0 < held it → (s.mem it).linked = false →
      (∀ i < itemDataOff (s.mem it), bytes i = (s.mem it).bytes i) →
      ItemsStep cfg ⟨s, held⟩ (.write it bytes cas)
        ⟨s.modify it fun i => itemSetCas { i with bytes := bytes } cas, held⟩
  | clock (s : Store) (held : Ptr → Nat) (currentTime oldestLive : UInt32)
      (slabRebal : Option (Ptr × Ptr)) :
      ItemsStep cfg ⟨s, held⟩ (.clock currentTime oldestLive slabRebal)
        ⟨{ s with currentTime := currentTime, oldestLive := oldestLive, slabRebal := slabRebal },
          held⟩
  | expand (s : Store) (held : Ptr → Nat) (callocOk : Bool) : s.assoc.expanding = false →
      (callocOk = true → s.assoc.hashpower ≤ 30) →
      ItemsStep cfg ⟨s, held⟩ (.expand callocOk)
        ⟨{ s with assoc := assocExpand s.assoc callocOk }, held⟩
  | migrate (s : Store) (held : Ptr → Nat) : s.assoc.expanding = true →
      ItemsStep cfg ⟨s, held⟩ .migrate
        ⟨{ s with assoc := migrateBucket cfg.hash s.key s.assoc }, held⟩

/-! ## Requests of any length -/

/-- The queue that a request of any length is given an item of. A negative length is added to
the size of the header modulo `2 ^ 64`. -/
def requestClass (cfg : Settings) (key : Bytes) (flags : Int) : Int → SlabId
  | .ofNat nbytes => allocClass cfg key flags nbytes
  | .negSucc n => slabsClsid cfg.slabclass (requestSize cfg key.length flags (.negSucc n))

/-- The address of `ITEM_key`. -/
def itemKeyAddr (cfg : Settings) (it : Ptr) : Nat := it + sizeofItem + if cfg.useCas then 8 else 0

/-- What `do_item_alloc` copies behind a header: the key and, one byte behind it, the suffix. -/
def itemText (key : Bytes) (flags nbytes : Int) : List (Option UInt8) :=
  key.map some ++ none :: (suffixText flags nbytes).map some

/-- The byte that `do_item_alloc` copies to an address. -/
def copiedByte (cfg : Settings) (it : Ptr) (key : Bytes) (flags nbytes : Int) (addr : Nat) : Option UInt8 :=
  if addr < itemKeyAddr cfg it then none
  else ((itemText key flags nbytes)[addr - itemKeyAddr cfg it]?).join

/-- The offset of `it_flags`. -/
def itFlagsOff : Nat := 39

/-- What may be left when key and suffix of the new item `it` run over the end of its chunk. The
chunks before it and behind the copied text stay as they are, and a byte `it_flags` that the text
hits has the bits of the byte copied over it. What the other fields of a chunk are that is hit, and
where the links in it lead, is left open. -/
structure Overrun (cfg : Settings) (s : Store) (id : SlabId) (it : Ptr) (key : Bytes) (flags nbytes : Int)
    (s' : Store) : Prop where
  queues : s'.heads = s.heads ∧ s'.tails = s.tails ∧ s'.sizes = s.sizes
  stats : s'.currItems = s.currItems ∧ s'.currBytes = s.currBytes
  own : (s'.mem it).refcount = 1 ∧ (s'.mem it).linked = false ∧ (s'.mem it).slabsClsid = id ∧
    (s'.mem it).nkey = key.length
  missed : ∀ p, p < it ∨ itemKeyAddr cfg it + (itemText key flags nbytes).length ≤ p → s'.mem p = s.mem p
  flags : ∀ p, it < p → ∀ b ∈ copiedByte cfg it key flags nbytes (p + itFlagsOff),
    (s'.mem p).linked = b.toNat.testBit 0 ∧ (s'.mem p).hasCas = b.toNat.testBit 1 ∧
      (s'.mem p).slabbed = b.toNat.testBit 2 ∧ (s'.mem p).fetched = b.toNat.testBit 3

/-- An operation of items.c, with any allocation. -/
inductive ItemsCall (cfg : Settings) : ItemsState → ItemsOp → ItemsState → Prop where
  | call {s s' : ItemsState} {op : ItemsOp} : ItemsStep cfg s op s' → ItemsCall cfg s op s'
  | alloc (s : Store) (held : Ptr → Nat) (env : AllocEnv) (key : Bytes) (flags : Int)
      (exptime : UInt32) (nbytes : Nat) (curHv : UInt32) : FreshPage s env.newslab →
      ItemsCall cfg ⟨s, held⟩ (.alloc env key flags exptime nbytes curHv)
        ⟨(doItemAlloc cfg env s key flags exptime nbytes curHv).1,
          giveRef held (doItemAlloc cfg env s key flags exptime nbytes curHv).2⟩
  | refused (s : Store) (held : Ptr → Nat) (env : AllocEnv) (key : Bytes) (flags : Int)
      (exptime : UInt32) (nbytes : Int) (curHv : UInt32) : nbytes < 0 →
      requestClass cfg key flags nbytes = 0 →
      ItemsCall cfg ⟨s, held⟩ (.alloc env key flags exptime nbytes curHv) ⟨s, held⟩
  | noChunk (s : Store) (held : Ptr → Nat) (env : AllocEnv) (key : Bytes) (flags : Int)
      (exptime : UInt32) (nbytes : Int) (curHv : UInt32) {t : Store} : nbytes < 0 →
      requestClass cfg key flags nbytes ≠ 0 → FreshPage s env.newslab →
      allocChunk cfg env s (requestClass cfg key flags nbytes) curHv = (t, none) →
      ItemsCall cfg ⟨s, held⟩ (.alloc env key flags exptime nbytes curHv) ⟨t, held⟩
  | overrun (s : Store) (held : Ptr → Nat) (env : AllocEnv) (key : Bytes) (flags : Int)
      (exptime : UInt32) (nbytes : Int) (curHv : UInt32) {t s' : Store} {it : Ptr} : nbytes < 0 →
      requestClass cfg key flags nbytes ≠ 0 → FreshPage s env.newslab →
      allocChunk cfg env s (requestClass cfg key flags nbytes) curHv = (t, some it) →
      Overrun cfg t (requestClass cfg key flags nbytes) it key flags nbytes s' →
      ItemsCall cfg ⟨s, held⟩ (.alloc env key flags exptime nbytes curHv) ⟨s', addRef held it⟩

/-- An allocation meets no item that tail repair takes away. -/
def NoRepair (cfg : Settings) (s : ItemsState) : ItemsOp → Prop
  | .alloc env key flags _ nbytes curHv =>
    tailRepairFires cfg env curHv s.store 5 (s.store.tails (requestClass cfg key flags nbytes)) = false
  | _ => True

/-- A request of a negative length is refused: with the header it comes to the size of no class. -/
def NegativeRefused (cfg : Settings) : ItemsOp → Prop
  | .alloc _ key flags _ nbytes _ => nbytes < 0 → requestClass cfg key flags nbytes = 0
  | _ => True

/-- The five structures agree on which items are stored. -/
structure ItemsConsistent (cfg : Settings) (s : Store) (lru : SlabId → List Ptr)
    (stored : List Ptr) : Prop where
  table : ∀ p, (s.mem p).linked = true ↔
    assocFind s.key s.assoc (s.key p) (cfg.hash (s.key p)) = some p
  queue : ∀ p, (s.mem p).linked = true ↔ (lru (s.mem p).slabsClsid).count p = 1
  only : ∀ c, ∀ p ∈ lru c, (s.mem p).linked = true ∧ (s.mem p).slabsClsid = c
  links : ∀ c, DList (fun p => (s.mem p).next) (fun p => (s.mem p).prev) (s.heads c) (s.tails c)
    (lru c)
  ends : ∀ c, s.heads c = none ↔ s.tails c = none
  sizes : ∀ c, s.sizes c = (lru c).length
  keys : ∀ p q, (s.mem p).linked = true → (s.mem q).linked = true → s.key p = s.key q → p = q
  nodup : stored.Nodup
  mem : ∀ p, p ∈ stored ↔ (s.mem p).linked = true
  items : s.currItems = stored.length
  bytes : s.currBytes = (stored.map fun p => itemNtotal (s.mem p)).sum

variable {cfg : Settings} {s : Store} {held : Ptr → Nat} {live : List Ptr} {lru : SlabId → List Ptr}

theorem storeOk_init (cfg : Settings) (n : Nat) : StoreOk cfg (storeInit n) fun _ => 0 := by
  refine ⟨[], fun _ => [], ⟨⟨assocOk_init n, ?_⟩, ⟨rfl, rfl⟩, ⟨fun c => ⟨⟨rfl, rfl⟩, List.nodup_nil⟩,
    ?_, fun _ => rfl⟩, ?_, ⟨?_, ?_⟩, ⟨fun _ => List.nodup_nil, ?_, ?_, ?_, fun _ _ => rfl, ?_⟩⟩⟩
  · simp [storeInit, emptyItem]
  · simp
  · simp
  · simp [storeInit, emptyItem]
  · refine cfg.counts.imp id fun h p => ?_
    rw [h]
    exact Nat.two_pow_pos 16
  · simp [storeInit]
  · simp [storeInit]
  · simp [storeInit]
  · intro p hp
    exact absurd hp (by simp [storeInit, emptyItem])

theorem ItemsOk.consistent (h : ItemsOk cfg s held live lru) : ItemsConsistent cfg s lru live where
  table := fun p => by
    have hf : assocFind s.key s.assoc (s.key p) (cfg.hash (s.key p)) = some p ↔
        p ∈ live ∧ s.key p = s.key p := assocFind_eq_some h.table.assoc
    rw [h.table.linked]
    exact ⟨fun hp => hf.mpr ⟨hp, rfl⟩, fun hp => (hf.mp hp).1⟩
  queue := fun p => by
    rw [h.table.linked, h.live_iff]
    constructor
    · exact fun hp => List.count_eq_one_of_mem (h.queues.list _).nodup hp
    · exact fun hp => List.count_pos_iff.mp (by omega)
  only := fun c p hp => ⟨(h.table.linked p).mpr ((h.queued c p).mp hp).1, h.queues.cls c p hp⟩
  links := h.queues.list
  ends := fun c => (h.queues.list c).head_none_iff
  sizes := h.queues.sizes
  keys := fun p q hp hq => eq_of_keyOf_eq h.table.assoc.keys ((h.table.linked p).mp hp)
    ((h.table.linked q).mp hq)
  nodup := List.Nodup.of_map _ h.table.assoc.keys
  mem := fun p => (h.table.linked p).symm
  items := h.count.items
  bytes := h.count.bytes

/-- The maintenance of the hash table moves no item in or out. -/
theorem StoreOk.assoc (h : StoreOk cfg s held) {assoc : Assoc Ptr}
    (ha : ∀ live, AssocOk cfg.hash s.key s.assoc live → AssocOk cfg.hash s.key assoc live) :
    StoreOk cfg { s with assoc := assoc } held := by
  obtain ⟨live, lru, h⟩ := h
  exact ⟨live, lru, ⟨ha live h.table.assoc, h.table.linked⟩, h.count, h.queues, h.queued, h.refs,
    h.chunks⟩

theorem StoreOk.clock (h : StoreOk cfg s held) (now oldest : UInt32) (rebal : Option (Ptr × Ptr)) :
    StoreOk cfg { s with currentTime := now, oldestLive := oldest, slabRebal := rebal } held := by
  obtain ⟨live, lru, h⟩ := h
  exact ⟨live, lru, h.table, h.count, h.queues, h.queued, h.refs, h.chunks⟩

/-- A write behind the key of an item. -/
theorem StoreOk.write (h : StoreOk cfg s held) {it : Ptr} {bytes : Nat → UInt8}
    (hb : ∀ i < (s.mem it).nkey, bytes i = (s.mem it).bytes i) (cas : UInt64) :
    StoreOk cfg (s.modify it fun i => itemSetCas { i with bytes := bytes } cas) held := by
  have hkey : itemKey { s.mem it with bytes := bytes } = itemKey (s.mem it) :=
    slice_congr fun i _ hi => hb i (by simpa using hi)
  refine h.modify (fun _ => ⟨?_, ?_, ?_, ?_, ?_⟩) ?_ ?_ fun _ => ?_
  · rw [itemSetCas_field itemKey (fun _ _ => rfl), hkey]
  · rw [itemSetCas_field itemNtotal (fun _ _ => rfl)]
    rfl
  · rw [itemSetCas_field (·.next) (fun _ _ => rfl)]
  · rw [itemSetCas_field (·.prev) (fun _ _ => rfl)]
  · rw [itemSetCas_field (·.slabsClsid) (fun _ _ => rfl)]
  · rw [itemSetCas_field (·.linked) (fun _ _ => rfl)]
  · rw [itemSetCas_field (·.refcount) (fun _ _ => rfl)]
  · rw [itemSetCas_field (·.slabbed) (fun _ _ => rfl)]

theorem StoreOk.touch (h : StoreOk cfg s held) {key : Bytes} (exptime : UInt32)
    (hroom : RoomAt cfg s key) :
    StoreOk cfg (doItemTouch cfg s key exptime (cfg.hash key)).1
      (giveRef held (doItemTouch cfg s key exptime (cfg.hash key)).2) := by
  have hg := h.get hroom
  unfold doItemTouch
  rcases hget : doItemGet cfg s key (cfg.hash key) with ⟨s1, r⟩
  rw [hget] at hg
  cases r with
  | none => exact hg
  | some it =>
    exact hg.modify (f := fun i => { i with exptime := exptime })
      (fun _ => ⟨rfl, rfl, rfl, rfl, rfl⟩) rfl rfl fun _ => rfl

theorem ItemsStep.keeps {s s' : ItemsState} {op : ItemsOp}
    (h : StoreOk cfg s.store s.held) (hs : ItemsStep cfg s op s') : StoreOk cfg s'.store s'.held := by
  cases hs with
  | alloc s held env key flags exptime nbytes curHv _ hf hr =>
    rcases doItemAlloc_spec h hf key flags exptime nbytes curHv hr with
      he | ⟨s1, it, id, i, he, hok, _⟩
    · rw [he]
      exact h
    · rw [he]
      exact hok
  | link s held it hp hl hk hroom => exact StoreOk.link h hp hl hk hroom
  | unlink s held it => exact StoreOk.unlink h it
  | remove s held it hp => exact StoreOk.remove h hp
  | replace s held it newIt hl hp hn hk hroom => exact StoreOk.replace h hp hn hk hl hroom
  | update s held it => exact StoreOk.update h it
  | get s held key hroom =>
    have hg := StoreOk.get h hroom
    cases hr : (doItemGet cfg s key (cfg.hash key)).2 <;> rw [hr] at hg <;> exact hg
  | touch s held key exptime hroom => exact StoreOk.touch h exptime hroom
  | flushExpired s held => exact StoreOk.flush h
  | write s held it bytes cas hp hl hb =>
    have hk : (s.mem it).nkey ≤ itemDataOff (s.mem it) := by
      unfold itemDataOff
      omega
    exact StoreOk.write h (fun i hi => hb i (Nat.lt_of_lt_of_le hi hk)) cas
  | clock s held now oldest rebal => exact StoreOk.clock h now oldest rebal
  | expand s held ok he hp => exact StoreOk.assoc h fun live ha => ha.expand he hp
  | migrate s held he => exact StoreOk.assoc h fun live ha => ha.migrate he

theorem ItemsCall.keeps {s s' : ItemsState} {op : ItemsOp} (h : StoreOk cfg s.store s.held)
    (hr : NoRepair cfg s op) (hn : NegativeRefused cfg op) (hs : ItemsCall cfg s op s') :
    StoreOk cfg s'.store s'.held := by
  cases hs with
  | call hs => exact hs.keeps h
  | alloc s held env key flags exptime nbytes curHv hf =>
    rcases doItemAlloc_spec h hf key flags exptime nbytes curHv hr with
      he | ⟨s1, it, id, i, he, hok, _⟩
    · rw [he]
      exact h
    · rw [he]
      exact hok
  | refused => exact h
  | noChunk s held env key flags exptime nbytes curHv h0 hc => exact absurd (hn h0) hc
  | overrun s held env key flags exptime nbytes curHv h0 hc => exact absurd (hn h0) hc

/-- In every run without tail repair in which the requests of a negative length are refused, the
marks, the table, the queues and the statistics agree on which items are stored. -/
theorem items_run_consistent {n : Nat} {ops : List ItemsOp} {s : ItemsState}
    (hr : Run (Guarded (fun s op => NoRepair cfg s op ∧ NegativeRefused cfg op) (ItemsCall cfg)) (itemsInit n) ops s) :
    ∃ lru stored, ItemsConsistent cfg s.store lru stored := by
  have h : StoreOk cfg s.store s.held :=
    hr.invariant_of_guard (I := fun s => StoreOk cfg s.store s.held)
      (fun _ _ _ hi hg hs => hs.keeps hi hg.1 hg.2) (storeOk_init cfg n)
  obtain ⟨live, lru, h⟩ := h
  exact ⟨lru, live, h.consistent⟩

/-- A setting with one slab class and all keys in one bucket. -/
def oneClass : Settings where
  useCas := true
  evictToFree := true
  slabclass := ⟨[1000], by decide⟩
  hash := fun _ => 0
  refMod := 0
  counts := .inl rfl

theorem items_run_consistent_set :
    ∃ s lru stored, Run (ItemsCall oneClass) (itemsInit 16)
        [.alloc ⟨fun _ => true, some [4096]⟩ [107] 0 0 3 0, .link 4096] s ∧
      ItemsConsistent oneClass s.store lru stored := by
  let r := doItemAlloc oneClass ⟨fun _ => true, some [4096]⟩ (storeInit 16) [107] 0 0 3 0
  have h1 : ItemsStep oneClass (itemsInit 16) _ ⟨r.1, giveRef (fun _ => 0) r.2⟩ :=
    .alloc (storeInit 16) _ ⟨fun _ => true, some [4096]⟩ [107] 0 0 3 0
      (by decide) (by simp [FreshPage, storeInit]) rfl
  have h2 : ItemsStep oneClass ⟨r.1, giveRef (fun _ => 0) r.2⟩ (.link 4096) _ :=
    .link r.1 _ 4096 (by decide) rfl rfl (.inl rfl)
  have hr : Run (Guarded (fun s op => NoRepair oneClass s op ∧ NegativeRefused oneClass op) (ItemsCall oneClass))
      (itemsInit 16) [.alloc ⟨fun _ => true, some [4096]⟩ [107] 0 0 3 0, .link 4096] _ :=
    .cons ⟨⟨rfl, fun h => absurd h (by decide)⟩, .call h1⟩ (.single ⟨⟨trivial, trivial⟩, .call h2⟩)
  obtain ⟨lru, stored, h⟩ := items_run_consistent hr
  exact ⟨_, lru, stored, hr.unguard, h⟩

/-! ### A request of a negative length -/

/-- Some state is left by an overrun. -/
theorem exists_overrun (cfg : Settings) (s : Store) (id : SlabId) (it : Ptr) (key : Bytes) (flags nbytes : Int) :
    ∃ s', Overrun cfg s id it key flags nbytes s' := by
  let hit : Ptr → Item := fun p => match copiedByte cfg it key flags nbytes (p + itFlagsOff) with
    | none => s.mem p
    | some b => { s.mem p with
      linked := b.toNat.testBit 0, hasCas := b.toNat.testBit 1, slabbed := b.toNat.testBit 2,
      fetched := b.toNat.testBit 3 }
  let mem : Ptr → Item := fun p =>
    if p = it then { s.mem p with refcount := 1, linked := false, slabsClsid := id, nkey := key.length }
    else if p < it ∨ itemKeyAddr cfg it + (itemText key flags nbytes).length ≤ p then s.mem p else hit p
  have hkey : it < itemKeyAddr cfg it := by
    have hle : it + sizeofItem ≤ itemKeyAddr cfg it := Nat.le_add_right _ _
    exact Nat.lt_of_lt_of_le (Nat.lt_add_of_pos_right (by decide)) hle
  refine ⟨{ s with mem := mem }, ⟨rfl, rfl, rfl⟩, ⟨rfl, rfl⟩, ?_, fun p hp => ?_, fun p hp b hb => ?_⟩
  · simp [mem]
  · have hne : p ≠ it := hp.elim Nat.ne_of_lt fun hle =>
      Nat.ne_of_gt (Nat.lt_of_lt_of_le hkey (Nat.le_of_add_right_le hle))
    simp [mem, hne, hp]
  · have hin : ¬(p < it ∨ itemKeyAddr cfg it + (itemText key flags nbytes).length ≤ p) := by
      rintro (hlt | hle)
      · exact Nat.lt_asymm hp hlt
      · -- behind the text nothing is copied
        have hle' := Nat.le_trans hle (Nat.le_add_right p itFlagsOff)
        have hnone : (itemText key flags nbytes)[p + itFlagsOff - itemKeyAddr cfg it]? = none :=
          List.getElem?_eq_none (Nat.le_sub_of_add_le' hle')
        have hfar : ¬p + itFlagsOff < itemKeyAddr cfg it := Nat.not_lt.mpr (Nat.le_of_add_right_le hle')
        rw [copiedByte, if_neg hfar, hnone] at hb
        cases hb
    have hb : copiedByte cfg it key flags nbytes (p + itFlagsOff) = some b := hb
    simp only [mem, hit, if_neg (Nat.ne_of_gt hp), if_neg hin, hb, and_self]

/-- A request of a negative length that is not refused. -/
theorem ItemsCall.of_negative {env : AllocEnv} {key : Bytes} {flags nbytes : Int} {exptime curHv : UInt32}
    {s' : ItemsState} (h0 : nbytes < 0) (hc : requestClass cfg key flags nbytes ≠ 0)
    (hs : ItemsCall cfg ⟨s, held⟩ (.alloc env key flags exptime nbytes curHv) s') :
    ∃ t it, allocChunk cfg env s (requestClass cfg key flags nbytes) curHv = (t, it) ∧ s'.held = giveRef held it ∧
      ∀ p ∈ it, Overrun cfg t (requestClass cfg key flags nbytes) p key flags nbytes s'.store := by
  generalize hop : ItemsOp.alloc env key flags exptime nbytes curHv = op at hs
  cases hs with
  | call hs =>
    cases hs <;> cases hop
    omega
  | alloc =>
    cases hop
    omega
  | refused =>
    cases hop
    contradiction
  | noChunk _ _ _ _ _ _ _ _ _ _ _ he =>
    cases hop
    exact ⟨_, none, he, rfl, nofun⟩
  | @overrun _ _ _ _ _ _ _ _ _ _ it _ _ _ he hw =>
    cases hop
    refine ⟨_, some it, he, rfl, fun p hp => ?_⟩
    cases hp
    exact hw

/-- A request that no class has room for changes nothing. -/
theorem ItemsCall.of_no_class {env : AllocEnv} {key : Bytes} {flags nbytes : Int} {exptime curHv : UInt32}
    {s' : ItemsState} (hc : requestClass cfg key flags nbytes = 0) (hn : nbytes < 2)
    (hs : ItemsCall cfg ⟨s, held⟩ (.alloc env key flags exptime nbytes curHv) s') : s' = ⟨s, held⟩ := by
  generalize hop : ItemsOp.alloc env key flags exptime nbytes curHv = op at hs
  cases hs with
  | call hs =>
    cases hs <;> cases hop
    omega
  | alloc s held env key flags exptime nbytes curHv =>
    cases hop
    have hnone : doItemAlloc cfg env s key flags exptime nbytes curHv = (s, none) := if_pos hc
    rw [hnone]
    rfl
  | refused =>
    cases hop
    rfl
  | noChunk =>
    cases hop
    contradiction
  | overrun =>
    cases hop
    contradiction

/-- One class of chunks of 96 bytes, and counts without a bound. -/
def shortChunks : Settings := { oneClass with slabclass := ⟨[96], show 1 < LARGEST_ID by decide⟩ }

/-- The upper one of two chunks holds a stored item, the lower one is free. -/
@[irreducible]
def neighbourStored : ItemsState :=
  let r := doItemAlloc shortChunks ⟨fun _ => true, some [4096, 4192]⟩ (storeInit 16) [107] 0 0 3 0
  ⟨doItemLink shortChunks r.1 4192 (shortChunks.hash (r.1.key 4192)), giveRef (fun _ => 0) r.2⟩

theorem neighbourStored_run : Run (Guarded (NoRepair shortChunks) (ItemsCall shortChunks)) (itemsInit 16)
    [.alloc ⟨fun _ => true, some [4096, 4192]⟩ [107] 0 0 3 0, .link 4192] neighbourStored := by
  have h1 : ItemsStep shortChunks (itemsInit 16) (.alloc ⟨fun _ => true, some [4096, 4192]⟩ [107] 0 0 3 0) _ :=
    .alloc (storeInit 16) _ _ [107] 0 0 3 0 (by decide) (by simp [FreshPage, storeInit]) rfl
  refine .cons ⟨rfl, .call h1⟩ (.single ⟨trivial, .call ?_⟩)
  unfold neighbourStored
  exact .link _ _ 4192 (by decide) rfl rfl (.inl rfl)

/-- A set with a key of 250 bytes and the length -306. -/
def overrunningSet : ItemsOp := .alloc ⟨fun _ => true, none⟩ (List.replicate 250 98) 0 0 (-306) 0

/-- The item for the set gets the chunk below the stored item, and its key overwrites the flags of
that one: whatever else is left, an item that heads its queue has lost its mark. -/
theorem items_run_overrun : ∃ ops s,
    Run (Guarded (NoRepair shortChunks) (ItemsCall shortChunks)) (itemsInit 16) ops s ∧
    NoRepair shortChunks s overrunningSet ∧ (∃ s', ItemsCall shortChunks s overrunningSet s') ∧
    ∀ s', ItemsCall shortChunks s overrunningSet s' →
      ¬∃ lru stored, ItemsConsistent shortChunks s'.store lru stored := by
  have hclass : requestClass shortChunks (List.replicate 250 98) 0 (-306) = 1 := by decide +kernel
  have hchunk : (allocChunk shortChunks ⟨fun _ => true, none⟩ neighbourStored.store 1 0).2 = some 4096 ∧
      (allocChunk shortChunks ⟨fun _ => true, none⟩ neighbourStored.store 1 0).1.heads 1 = some 4192 := by
    decide +kernel
  have hbyte : copiedByte shortChunks 4096 (List.replicate 250 98) 0 (-306) (4192 + itFlagsOff) = some 98 := by
    decide +kernel
  have hne : requestClass shortChunks (List.replicate 250 98) 0 (-306) ≠ 0 := by
    rw [hclass]
    decide
  refine ⟨_, _, neighbourStored_run, show _ = false by decide +kernel, ?_, fun s' hs => ?_⟩
  · obtain ⟨s', hw⟩ := exists_overrun shortChunks
      (allocChunk shortChunks ⟨fun _ => true, none⟩ neighbourStored.store 1 0).1 1 4096 (List.replicate 250 98) 0 (-306)
    rw [← hclass] at hw
    exact ⟨_, .overrun neighbourStored.store neighbourStored.held _ _ 0 0 (-306) 0 (by decide) hne nofun
      (by rw [hclass]; exact Prod.ext rfl hchunk.1) (by rw [hclass] at hw ⊢; exact hw)⟩
  · rintro ⟨lru, stored, hok⟩
    obtain ⟨t, it, he, _, hw⟩ := ItemsCall.of_negative (by decide) hne hs
    rw [hclass] at he hw
    obtain ⟨hit, hhead⟩ := he ▸ hchunk
    have hover := hw 4096 hit
    have hheads : s'.store.heads 1 = some 4192 := (congrFun hover.queues.1 1).trans hhead
    have hmem : 4192 ∈ lru 1 := List.mem_of_mem_head? ((hok.links 1).head_eq.symm.trans hheads)
    have hmark : (s'.store.mem 4192).linked = false := (hover.flags 4192 (by decide) 98 hbyte).1
    rw [(hok.only 1 4192 hmem).1] at hmark
    cases hmark

end RamCube
