import RamCube.Store.Requested

/-! # The lists of pages

The array `slab_list` of a class has `list_size` places. `grow_slab_list` makes it longer
when all are taken, before a page is allocated and when a move to the class starts; the move
puts its page into the list much later. -/
namespace RamCube

variable {cfg : Settings} {m m' : ItemMemory} {r : Rebalance} {id c : SlabId} {it p : Ptr}

/-- The memory and the `list_size` of each class. -/
structure ListedState where
  run : MemoryState
  listSize : SlabId → Nat

def listedInit (hashpower : Nat) : ListedState := ⟨memoryInit hashpower, fun _ => 0⟩

namespace ListedState

variable (s : ListedState)

/-- `slabclass[id].slabs` -/
def slabs (id : SlabId) : Nat := (s.run.memory.slabList id).length

def growSlabList (id : SlabId) (reallocOk : Bool) : (SlabId → Nat) × Bool :=
  if s.slabs id = s.listSize id then
    let newSize := if s.listSize id ≠ 0 then s.listSize id * 2 else 16
    if reallocOk then (Function.update s.listSize id newSize, true) else (s.listSize, false)
  else (s.listSize, true)

/-- `grow_slab_list`, if `do_slabs_newslab` comes to call it. -/
def grown (id : SlabId) : Option Bool → (SlabId → Nat) × Bool
  | none => (s.listSize, false)
  | some reallocOk => s.growSlabList id reallocOk

end ListedState

inductive ListedOp where
  /-- a command or a part of a page move, with the answers of `realloc` for what it may call -/
  | memory (op : MemoryOp) (realloc : Option Bool)
  /-- `do_slabs_newslab` of `slabs_preallocate` -/
  | newslab (id : SlabId) (page : List Ptr) (reallocOk : Bool)

/-- The class that an allocation takes its chunk from. -/
def MemoryOp.classOf (cfg : Settings) : MemoryOp → SlabId
  | .allocate _ _ key flags _ nbytes _ => slabsClsid cfg.slabclass (requestSize cfg key.length flags nbytes)
  | _ => 0

/-- Neither an allocation nor the start or the end of a move. -/
def MemoryOp.KeepsLists : MemoryOp → Prop
  | .item _ => True
  | .move _ => True
  | _ => False

inductive ListedStep (cfg : Settings) : ListedState → ListedOp → ListedState → Prop where
  | other (s : ListedState) {op : MemoryOp} {t : MemoryState} : MemoryStep cfg s.run op t → op.KeepsLists →
      ListedStep cfg s (.memory op none) ⟨t, s.listSize⟩
  /-- a page is added only when `grow_slab_list` has made room for it -/
  | allocate (s : ListedState) (realloc : Option Bool) {env : LockEnv} {entry : List Nat} {key : Bytes} {flags : Int}
      {exptime : UInt32} {nbytes : Int} {curHv : UInt32} {t : MemoryState} :
      MemoryStep cfg s.run (.allocate env entry key flags exptime nbytes curHv) t →
      (t.memory.slabList ≠ s.run.memory.slabList →
        (s.grown (slabsClsid cfg.slabclass (requestSize cfg key.length flags nbytes)) realloc).2 = true) →
      ListedStep cfg s (.memory (.allocate env entry key flags exptime nbytes curHv) realloc)
        ⟨t, (s.grown (slabsClsid cfg.slabclass (requestSize cfg key.length flags nbytes)) realloc).1⟩
  | startMove (s : ListedState) (src dst : SlabId) (reallocOk : Bool) {t : MemoryState} :
      MemoryStep cfg s.run (.startMove src dst (s.growSlabList dst reallocOk).2) t →
      ListedStep cfg s (.memory (.startMove src dst (s.growSlabList dst reallocOk).2) (some reallocOk))
        ⟨t, (s.growSlabList dst reallocOk).1⟩
  /-- the first chunk of the new class is where the page starts -/
  | finishMove (s : ListedState) (chunks : List Ptr) {t : MemoryState} :
      MemoryStep cfg s.run (.finishMove chunks) t →
      (∀ r ∈ s.run.rebal, chunks.head? = r.page.head?) →
      ListedStep cfg s (.memory (.finishMove chunks) none) ⟨t, s.listSize⟩
  | newslab (s : ListedState) (id : SlabId) (page : List Ptr) (reallocOk : Bool) :
      1 ≤ id.val ∧ id.val ≤ cfg.slabclass.sizes.length → s.slabs id = 0 → s.run.rebal = none →
      FreshPage s.run.memory.store (some page) → (s.growSlabList id reallocOk).2 = true →
      ListedStep cfg s (.newslab id page reallocOk)
        ⟨{ s.run with memory := s.run.memory.slabsNewslab id page }, (s.growSlabList id reallocOk).1⟩

/-- The places of the lists that a step writes to. -/
def ListedOp.writes (cfg : Settings) (s t : ListedState) : ListedOp → List (SlabId × Nat)
  | .memory (.finishMove _) _ =>
    match s.run.rebal with
    | none => []
    | some r => [(r.src, 0), (r.dst, s.slabs r.dst)]
  | .memory op _ =>
    if t.run.memory.slabList = s.run.memory.slabList then [] else [(op.classOf cfg, s.slabs (op.classOf cfg))]
  | .newslab id _ _ => [(id, s.slabs id)]

/-! ## The pages of all classes -/

/-- A page is known by its first address. -/
def ItemMemory.pageStarts (m : ItemMemory) (c : SlabId) : List Ptr := (m.slabList c).map fun page => page.headD 0

def ItemMemory.allPages (m : ItemMemory) : List Ptr := (List.finRange LARGEST_ID).flatMap m.pageStarts

/-- The pages that a step allocates. -/
def ListedOp.added (s t : ListedState) : ListedOp → List Ptr
  | .memory (.allocate env _ _ _ _ _ _) _ =>
    if t.run.memory.slabList = s.run.memory.slabList then [] else [(env.newslab.getD []).headD 0]
  | .newslab _ page _ => [page.headD 0]
  | _ => []

theorem mem_allPages {a : Ptr} : a ∈ m.allPages ↔ ∃ c, ∃ page ∈ m.slabList c, page.headD 0 = a := by
  simp [ItemMemory.allPages, ItemMemory.pageStarts]

theorem headD_mem {page : List Ptr} (h : page ≠ []) : page.headD 0 ∈ page := by
  cases page with
  | nil => exact absurd rfl h
  | cons p ps => exact List.mem_cons_self

theorem nodup_starts {pages : List (List Ptr)} (hnd : pages.flatten.Nodup) (hne : ∀ page ∈ pages, page ≠ []) :
    (pages.map fun page => page.headD 0).Nodup := by
  induction pages with
  | nil => exact List.nodup_nil
  | cons page pages ih =>
    rw [List.flatten_cons] at hnd
    obtain ⟨_, hrest, hdisj⟩ := List.nodup_append.mp hnd
    rw [List.map_cons, List.nodup_cons]
    refine ⟨fun hm => ?_, ih hrest fun q hq => hne q (List.mem_cons_of_mem page hq)⟩
    obtain ⟨q, hq, he⟩ := List.mem_map.mp hm
    have hq' := headD_mem (hne q (List.mem_cons_of_mem page hq))
    rw [he] at hq'
    exact hdisj _ (headD_mem (hne page List.mem_cons_self)) _ (List.mem_flatten.mpr ⟨q, hq, hq'⟩) rfl

theorem nodup_allPages (h : Placed cfg m) (hne : ∀ c, ∀ page ∈ m.slabList c, page ≠ []) : m.allPages.Nodup := by
  refine List.nodup_flatMap.mpr ⟨fun c _ => nodup_starts (h.nodup c) (hne c), ?_⟩
  refine (List.nodup_finRange LARGEST_ID).imp fun {c c'} hcc => ?_
  intro a ha ha'
  obtain ⟨page, hp, he⟩ := List.mem_map.mp ha
  obtain ⟨page', hp', he'⟩ := List.mem_map.mp ha'
  refine hcc (h.apart c c' a (List.mem_flatten.mpr ⟨page, hp, ?_⟩) (List.mem_flatten.mpr ⟨page', hp', ?_⟩))
  · rw [← he]
    exact headD_mem (hne c page hp)
  · rw [← he']
    exact headD_mem (hne c' page' hp')

/-! ## What every step keeps -/

/-- The lists have room for their pages, and the list that a page moves to for one more. -/
structure ListedOk (cfg : Settings) (s : ListedState) : Prop where
  paged : PagedOk cfg s.run
  nonempty : ∀ c, ∀ page ∈ s.run.memory.slabList c, page ≠ []
  room : ∀ c, s.slabs c ≤ s.listSize c
  place : ∀ r ∈ s.run.rebal, s.slabs r.dst < s.listSize r.dst

/-- While a page moves to a class, no allocation there takes the last place of its list. -/
def KeepsPlace (cfg : Settings) (s : ListedState) : ListedOp → Prop
  | .memory (.allocate env entry key flags exptime nbytes curHv) _ => ∀ r ∈ s.run.rebal,
    r.dst = MemoryOp.classOf cfg (.allocate env entry key flags exptime nbytes curHv) →
      s.run.memory.store.slots r.dst = [] → env.newslab ≠ none → s.slabs r.dst + 1 ≠ s.listSize r.dst
  | _ => True

/-- A step writes inside the lists and keeps the pages, and nothing knows a page that is
cleared. -/
structure ListsSound (cfg : Settings) (s t : ListedState) (op : ListedOp) : Prop where
  inBounds : ∀ w ∈ op.writes cfg s t, w.2 < t.listSize w.1
  pages : t.run.memory.allPages.Perm (op.added s t ++ s.run.memory.allPages)
  cleared : ∀ chunks, op = .memory (.finishMove chunks) none → ∀ r ∈ s.run.rebal, ∀ p ∈ r.page,
    (s.run.memory.store.mem p).linked = false ∧ (∀ c, p ∉ s.run.memory.store.slots c) ∧ s.run.held p = 0

section

variable {s t : ListedState}

theorem listSize_spec (hroom : ∀ c, s.slabs c ≤ s.listSize c) (id : SlabId) (reallocOk : Bool) :
    (∀ c, s.listSize c ≤ (s.growSlabList id reallocOk).1 c) ∧
      ((s.growSlabList id reallocOk).2 = true → s.slabs id < (s.growSlabList id reallocOk).1 id) ∧
      (s.slabs id < s.listSize id → (s.growSlabList id reallocOk).1 = s.listSize) := by
  unfold ListedState.growSlabList
  have hid := hroom id
  split
  · rename_i hfull
    cases reallocOk with
    | false => exact ⟨fun c => Nat.le_refl _, nofun, fun _ => rfl⟩
    | true =>
      refine ⟨fun c => ?_, fun _ => ?_, fun hlt => by omega⟩
      · by_cases hc : c = id
        · subst hc
          rw [if_pos rfl]
          dsimp only
          rw [Function.update_self]
          split <;> omega
        · rw [if_pos rfl]
          exact (Function.update_of_ne hc _ _).ge
      · rw [if_pos rfl]
        dsimp only
        rw [Function.update_self]
        split <;> omega
  · exact ⟨fun c => Nat.le_refl _, fun _ => by dsimp only; omega, fun _ => rfl⟩

theorem grown_spec (hroom : ∀ c, s.slabs c ≤ s.listSize c) (id : SlabId) (realloc : Option Bool) :
    (∀ c, s.listSize c ≤ (s.grown id realloc).1 c) ∧
      ((s.grown id realloc).2 = true → s.slabs id < (s.grown id realloc).1 id) ∧
      (s.slabs id < s.listSize id → (s.grown id realloc).1 = s.listSize) := by
  cases realloc with
  | none => exact ⟨fun c => Nat.le_refl _, nofun, fun _ => rfl⟩
  | some reallocOk => exact listSize_spec hroom id reallocOk

/-- An allocation adds one page at most, to its class. -/
theorem newPage_allocate {s t : MemoryState} {env : LockEnv} {entry : List Nat} {key : Bytes} {flags : Int} {exptime : UInt32}
    {nbytes : Int} {curHv : UInt32} (h : PagedOk cfg s)
    (hs : MemoryStep cfg s (.allocate env entry key flags exptime nbytes curHv) t) :
    NewPage env.newslab (slabsClsid cfg.slabclass (requestSize cfg key.length flags nbytes)) s.memory t.memory ∧
      t.rebal = s.rebal ∧ FreshPage s.memory.store env.newslab := by
  cases hs with
  | allocate m held rebal _ _ _ _ _ _ _ hreq hf hfires =>
    obtain ⟨live, lru, hok⟩ := h.store
    obtain ⟨a, it, m₁, held₁, he, hrep, hend, hnone⟩ :=
      @doItemAlloc_end cfg env entry curHv held live lru m hok h.placed hf key flags exptime nbytes
    obtain ⟨rfl, rfl⟩ := hrep.start (hnone hfires)
    rw [he]
    refine ⟨?_, rfl, hf⟩
    cases it with
    | none =>
      have hmem : a.memory = m₁ := hend
      exact .inl (congrArg ItemMemory.slabList hmem)
    | some it =>
      obtain ⟨_, m₂, haside, hmem⟩ := hend
      have hlast : a.memory.slabList = m₂.slabList := by
        rw [hmem]
        rfl
      unfold NewPage
      dsimp only
      rw [hlast]
      exact haside.pages

theorem keepsLists_slabList {s t : MemoryState} {op : MemoryOp} (h : PagedOk cfg s) (hop : op.KeepsLists)
    (hs : MemoryStep cfg s op t) :
    t.memory.slabList = s.memory.slabList ∧ ∀ r' ∈ t.rebal, ∃ r ∈ s.rebal, r'.dst = r.dst := by
  cases hs with
  | item m held rebal hstep hon =>
    exact ⟨(gives_perform h.store h.placed hstep hon).1.slabList, fun r hr => ⟨r, hr, rfl⟩⟩
  | move m held r frees hdone =>
    obtain ⟨h1, h2⟩ := slabRebalanceMove_lists frees ⟨h.store, h.placed, h.rebal r rfl⟩ hdone
    refine ⟨h1, fun r' hr' => ⟨r, rfl, ?_⟩⟩
    cases hr'
    exact h2
  | allocate => exact hop.elim
  | startMove => exact hop.elim
  | refuseMove => exact hop.elim
  | finishMove => exact hop.elim

/-! ## Steps -/

/-- A page that no class has is added to one. -/
structure AddsPage (m m' : ItemMemory) (id : SlabId) (page : List Ptr) : Prop where
  nonempty : page ≠ []
  fresh : ∀ p ∈ page, p ∉ m.store.carved
  slabList : m'.slabList = Function.update m.slabList id (m.slabList id ++ [page])

namespace AddsPage

variable {page : List Ptr}

theorem mem_iff (h : AddsPage m m' id page) (c : SlabId) (q : List Ptr) :
    q ∈ m'.slabList c ↔ q ∈ m.slabList c ∨ (c = id ∧ q = page) := by
  rw [h.slabList]
  by_cases hc : c = id
  · subst hc
    simp
  · simp [hc]

theorem length_eq (h : AddsPage m m' id page) (c : SlabId) :
    (m'.slabList c).length = if c = id then (m.slabList c).length + 1 else (m.slabList c).length := by
  rw [h.slabList]
  by_cases hc : c = id
  · subst hc
    simp
  · simp [hc]

theorem perm (h : AddsPage m m' id page) (hpl : Placed cfg m) (hpl' : Placed cfg m')
    (hne : ∀ c, ∀ q ∈ m.slabList c, q ≠ []) : m'.allPages.Perm (page.headD 0 :: m.allPages) := by
  have hne' : ∀ c, ∀ q ∈ m'.slabList c, q ≠ [] := by
    intro c q hq
    rcases (h.mem_iff c q).mp hq with hq | ⟨_, hq⟩
    · exact hne c q hq
    · rw [hq]
      exact h.nonempty
  have hout : page.headD 0 ∉ m.allPages := by
    intro hm
    obtain ⟨c, q, hq, he⟩ := mem_allPages.mp hm
    refine h.fresh _ (headD_mem h.nonempty) ((hpl.carved _).mpr ⟨c, List.mem_flatten.mpr ⟨q, hq, ?_⟩⟩)
    rw [← he]
    exact headD_mem (hne c q hq)
  refine (List.perm_ext_iff_of_nodup (nodup_allPages hpl' hne')
    (List.nodup_cons.mpr ⟨hout, nodup_allPages hpl hne⟩)).mpr fun a => ?_
  rw [List.mem_cons, mem_allPages, mem_allPages]
  constructor
  · intro ha
    obtain ⟨c, q, hq, he⟩ := ha
    rcases (h.mem_iff c q).mp hq with hq | ⟨_, hq⟩
    · exact .inr ⟨c, q, hq, he⟩
    · exact .inl (by rw [← he, hq])
  · intro ha
    rcases ha with ha | ⟨c, q, hq, he⟩
    · exact ⟨id, page, (h.mem_iff id page).mpr (.inr ⟨rfl, rfl⟩), ha.symm⟩
    · exact ⟨c, q, (h.mem_iff c q).mpr (.inl hq), he⟩

end AddsPage

theorem allPages_congr (h : m'.slabList = m.slabList) : m'.allPages = m.allPages := by
  unfold ItemMemory.allPages ItemMemory.pageStarts
  rw [h]

theorem slabs_congr (h : t.run.memory.slabList = s.run.memory.slabList) (c : SlabId) : t.slabs c = s.slabs c := by
  rw [ListedState.slabs, h, ListedState.slabs]

/-- Nothing is written and no page comes or goes. -/
theorem ListsSound.of_same {op : ListedOp} (hl : t.run.memory.slabList = s.run.memory.slabList)
    (hw : op.writes cfg s t = []) (ha : op.added s t = [])
    (hop : ∀ chunks, op ≠ .memory (.finishMove chunks) none) : ListsSound cfg s t op := by
  refine ⟨fun w hm => ?_, ?_, fun chunks he => absurd he (hop chunks)⟩
  · rw [hw] at hm
    cases hm
  · rw [ha, allPages_congr hl]
    exact .refl _

theorem ListedOk.same (h : ListedOk cfg s) (hp : PagedOk cfg t.run) (hl : t.run.memory.slabList = s.run.memory.slabList)
    (hsize : ∀ c, s.listSize c ≤ t.listSize c) (hplace : ∀ r ∈ t.run.rebal, t.slabs r.dst < t.listSize r.dst) :
    ListedOk cfg t := by
  refine ⟨hp, ?_, fun c => ?_, hplace⟩
  · rw [hl]
    exact h.nonempty
  · rw [slabs_congr hl]
    exact Nat.le_trans (h.room c) (hsize c)

theorem ListedOk.adds {page : List Ptr} (h : ListedOk cfg s) (hp : PagedOk cfg t.run)
    (ha : AddsPage s.run.memory t.run.memory id page) (hsize : ∀ c, s.listSize c ≤ t.listSize c)
    (hroom : s.slabs id < t.listSize id) (hplace : ∀ r ∈ t.run.rebal, t.slabs r.dst < t.listSize r.dst) :
    ListedOk cfg t := by
  refine ⟨hp, fun c q hq => ?_, fun c => ?_, hplace⟩
  · rcases (ha.mem_iff c q).mp hq with hq | ⟨_, hq⟩
    · exact h.nonempty c q hq
    · rw [hq]
      exact ha.nonempty
  · have hlen : t.slabs c = if c = id then s.slabs c + 1 else s.slabs c := ha.length_eq c
    have hc := h.room c
    have hcs := hsize c
    rw [hlen]
    split
    · rename_i he
      rw [he]
      exact hroom
    · omega

theorem lists_allocate {env : LockEnv} {entry : List Nat} {key : Bytes} {flags : Int} {exptime : UInt32} {nbytes : Int}
    {curHv : UInt32} {realloc : Option Bool} {t : MemoryState} (h : ListedOk cfg s)
    (hk : KeepsPlace cfg s (.memory (.allocate env entry key flags exptime nbytes curHv) realloc))
    (hs : MemoryStep cfg s.run (.allocate env entry key flags exptime nbytes curHv) t)
    (hgrown : t.memory.slabList ≠ s.run.memory.slabList →
      (s.grown (slabsClsid cfg.slabclass (requestSize cfg key.length flags nbytes)) realloc).2 = true) :
    ListedOk cfg ⟨t, (s.grown (slabsClsid cfg.slabclass (requestSize cfg key.length flags nbytes)) realloc).1⟩ ∧
      ListsSound cfg s ⟨t, (s.grown (slabsClsid cfg.slabclass (requestSize cfg key.length flags nbytes)) realloc).1⟩
        (.memory (.allocate env entry key flags exptime nbytes curHv) realloc) := by
  have hp := hs.keeps h.paged
  obtain ⟨hnew, hrebal, hfresh⟩ := newPage_allocate h.paged hs
  have hclass : MemoryOp.classOf cfg (.allocate env entry key flags exptime nbytes curHv) =
      slabsClsid cfg.slabclass (requestSize cfg key.length flags nbytes) := rfl
  generalize slabsClsid cfg.slabclass (requestSize cfg key.length flags nbytes) = id at *
  obtain ⟨hsize, hlt, hkeep⟩ := grown_spec h.room id realloc
  rcases hnew with hl | ⟨page, hpage, hslots, hl⟩
  · refine ⟨h.same hp hl hsize fun r hr => ?_, .of_same hl (if_pos hl) (if_pos hl) fun chunks => by simp⟩
    have hr' : r ∈ s.run.rebal := by rw [← hrebal]; exact hr
    exact Nat.lt_of_le_of_lt (slabs_congr (s := s) (t := ⟨t, (s.grown id realloc).1⟩) hl r.dst).le
      (Nat.lt_of_lt_of_le (h.place r hr') (hsize r.dst))
  · obtain ⟨hne, _, hout⟩ := hfresh page hpage
    have ha : AddsPage s.run.memory t.memory id page := ⟨hne, hout, hl⟩
    have hchanged : t.memory.slabList ≠ s.run.memory.slabList := by
      intro he
      have hlen := ha.length_eq id
      rw [if_pos rfl, he] at hlen
      omega
    have hroom := hlt (hgrown hchanged)
    refine ⟨h.adds hp ha hsize hroom fun r hr => ?_, ?_, ?_, fun chunks he => by simp at he⟩
    · have hr' : r ∈ s.run.rebal := by rw [← hrebal]; exact hr
      have hplace := h.place r hr'
      have hlen : ListedState.slabs ⟨t, (s.grown id realloc).1⟩ r.dst =
          if r.dst = id then s.slabs r.dst + 1 else s.slabs r.dst := ha.length_eq r.dst
      rw [hlen]
      split
      · rename_i he
        have hlast := hk r hr' (by rw [hclass]; exact he) (by rw [he]; exact hslots)
          (by rw [Option.mem_def.mp hpage]; simp)
        rw [he] at hplace hlast ⊢
        dsimp only
        rw [hkeep hplace]
        omega
      · exact Nat.lt_of_lt_of_le hplace (hsize r.dst)
    · intro w hw
      have hwrites : ListedOp.writes cfg s ⟨t, (s.grown id realloc).1⟩
          (.memory (.allocate env entry key flags exptime nbytes curHv) realloc) =
          [(MemoryOp.classOf cfg (.allocate env entry key flags exptime nbytes curHv),
            s.slabs (MemoryOp.classOf cfg (.allocate env entry key flags exptime nbytes curHv)))] := if_neg hchanged
      rw [hwrites, List.mem_singleton] at hw
      rw [hw, hclass]
      exact hroom
    · have hadded : ListedOp.added s ⟨t, (s.grown id realloc).1⟩
          (.memory (.allocate env entry key flags exptime nbytes curHv) realloc) = [page.headD 0] := by
        rw [ListedOp.added, if_neg hchanged, Option.mem_def.mp hpage]
        rfl
      rw [hadded]
      exact ha.perm h.paged.placed hp.placed h.nonempty

theorem lists_startMove {src dst : SlabId} {reallocOk : Bool} {t : MemoryState} (h : ListedOk cfg s)
    (hs : MemoryStep cfg s.run (.startMove src dst (s.growSlabList dst reallocOk).2) t) :
    ListedOk cfg ⟨t, (s.growSlabList dst reallocOk).1⟩ ∧
      ListsSound cfg s ⟨t, (s.growSlabList dst reallocOk).1⟩
        (.memory (.startMove src dst (s.growSlabList dst reallocOk).2) (some reallocOk)) := by
  have hp := hs.keeps h.paged
  obtain ⟨hsize, hlt, _⟩ := listSize_spec h.room dst reallocOk
  have hmove : t.memory.slabList = s.run.memory.slabList ∧
      ∀ r ∈ t.rebal, r.dst = dst ∧ (s.growSlabList dst reallocOk).2 = true := by
    generalize (s.growSlabList dst reallocOk).2 = grown at *
    generalize s.run = s₀ at hs
    cases hs with
    | startMove m held _ _ _ hstart =>
      unfold ItemMemory.slabRebalanceStart at hstart
      split at hstart
      · cases hstart
      · rename_i hgo
        cases hstart
        refine ⟨rfl, fun r hr => ?_⟩
        cases hr
        refine ⟨rfl, ?_⟩
        by_contra hg
        exact hgo (.inr (.inr (.inr (.inr (.inr (.inl (Bool.eq_false_iff.mpr hg)))))))
    | refuseMove => exact ⟨rfl, nofun⟩
  obtain ⟨hl, hdst⟩ := hmove
  refine ⟨h.same hp hl hsize fun r hr => ?_, .of_same hl (if_pos hl) rfl fun chunks => by simp⟩
  obtain ⟨he, hg⟩ := hdst r hr
  rw [he]
  exact Nat.lt_of_le_of_lt (slabs_congr (s := s) (t := ⟨t, (s.growSlabList dst reallocOk).1⟩) hl dst).le (hlt hg)

/-- The pages after a move: the same, one of them in another list. -/
theorem mem_slabRebalanceFinish {rest : List (List Ptr)} {chunks : List Ptr} (hr : RebalOk cfg m r)
    (hfront : m.slabList r.src = r.page :: rest) (c : SlabId) (q : List Ptr) :
    q ∈ (m.slabRebalanceFinish r chunks).slabList c ↔
      (c ≠ r.src ∧ q ∈ m.slabList c) ∨ (c = r.src ∧ q ∈ rest) ∨ (c = r.dst ∧ q = chunks) := by
  have hsrc : r.src ≠ r.dst := hr.dst.1
  change q ∈ Function.update (dropPage m r).slabList r.dst ((dropPage m r).slabList r.dst ++ [chunks]) c ↔ _
  have hdrop : ∀ c, q ∈ (dropPage m r).slabList c ↔ (c ≠ r.src ∧ q ∈ m.slabList c) ∨ (c = r.src ∧ q ∈ rest) := by
    intro c
    by_cases hc : c = r.src
    · subst hc
      have hlist : (dropPage m r).slabList r.src = ((r.page :: rest).set 0 ((r.page :: rest).getLastD [])).dropLast := by
        rw [← hfront]
        exact Function.update_self _ _ _
      rw [hlist, (perm_moved r.page rest).mem_iff]
      simp
    · have hlist : (dropPage m r).slabList c = m.slabList c := Function.update_of_ne hc _ _
      rw [hlist]
      simp [hc]
  by_cases hc : c = r.dst
  · subst hc
    rw [Function.update_self, List.mem_append, hdrop, List.mem_singleton, or_assoc]
    simp
  · rw [Function.update_of_ne hc, hdrop]
    simp [hc]

theorem length_slabRebalanceFinish {rest : List (List Ptr)}
    (hfront : m.slabList r.src = r.page :: rest) (chunks : List Ptr) (c : SlabId) :
    ((m.slabRebalanceFinish r chunks).slabList c).length ≤
      if c = r.dst then (m.slabList c).length + 1 else (m.slabList c).length := by
  change (Function.update (dropPage m r).slabList r.dst ((dropPage m r).slabList r.dst ++ [chunks]) c).length ≤ _
  have hdrop : ∀ c, ((dropPage m r).slabList c).length ≤ (m.slabList c).length := by
    intro c
    by_cases hc : c = r.src
    · subst hc
      have hlist : (dropPage m r).slabList r.src = ((r.page :: rest).set 0 ((r.page :: rest).getLastD [])).dropLast := by
        rw [← hfront]
        exact Function.update_self _ _ _
      rw [hlist, (perm_moved r.page rest).length_eq, hfront]
      exact Nat.le_succ _
    · exact (congrArg List.length (Function.update_of_ne hc _ _)).le
  by_cases hc : c = r.dst
  · subst hc
    rw [Function.update_self, if_pos rfl, List.length_append]
    exact Nat.succ_le_succ (hdrop r.dst)
  · rw [Function.update_of_ne hc, if_neg hc]
    exact hdrop c

theorem lists_finishMove {chunks : List Ptr} {t : MemoryState} (h : ListedOk cfg s)
    (hs : MemoryStep cfg s.run (.finishMove chunks) t) (hhead : ∀ r ∈ s.run.rebal, chunks.head? = r.page.head?) :
    ListedOk cfg ⟨t, s.listSize⟩ ∧ ListsSound cfg s ⟨t, s.listSize⟩ (.memory (.finishMove chunks) none) := by
  have hp := hs.keeps h.paged
  obtain ⟨s₀, listSize⟩ := s
  cases hs with
  | finishMove m held r chunks hdone hnd hnew =>
    have hr : RebalOk cfg m r := h.paged.rebal r rfl
    have hplace : (m.slabList r.dst).length < listSize r.dst := h.place r rfl
    obtain ⟨rest, hfront⟩ := hr.front
    have hmem := @mem_slabRebalanceFinish cfg m r rest chunks hr hfront
    have hstart : chunks.headD 0 = r.page.headD 0 := by
      rw [List.headD_eq_head?_getD, List.headD_eq_head?_getD, hhead r rfl]
    have hpage : r.page ∈ m.slabList r.src := by
      rw [hfront]
      exact List.mem_cons_self
    have hchunks : chunks ≠ [] := by
      intro he
      have hnil := hhead r rfl
      rw [he] at hnil
      exact h.nonempty r.src r.page hpage (List.head?_eq_none_iff.mp hnil.symm)
    have hne : ∀ c, ∀ q ∈ (m.slabRebalanceFinish r chunks).slabList c, q ≠ [] := by
      intro c q hq
      rcases (hmem c q).mp hq with ⟨_, hq⟩ | ⟨_, hq⟩ | ⟨_, hq⟩
      · exact h.nonempty c q hq
      · exact h.nonempty r.src q (by rw [hfront]; exact List.mem_cons_of_mem _ hq)
      · rw [hq]
        exact hchunks
    refine ⟨⟨hp, hne, fun c => ?_, nofun⟩, ⟨fun w hw => ?_, ?_, fun chunks' he r' hr' p hpg => ?_⟩⟩
    · have hlen := length_slabRebalanceFinish hfront chunks c
      have hroom := h.room c
      change ((m.slabRebalanceFinish r chunks).slabList c).length ≤ listSize c
      change (m.slabList c).length ≤ listSize c at hroom
      split at hlen
      · rename_i hc
        rw [hc] at hlen hroom ⊢
        omega
      · omega
    · have hsrc : (m.slabList r.src).length ≤ listSize r.src := h.room r.src
      rw [hfront, List.length_cons] at hsrc
      rcases List.mem_cons.mp hw with hw | hw
      · rw [hw]
        exact Nat.lt_of_lt_of_le (Nat.succ_pos _) hsrc
      · rw [List.mem_singleton.mp hw]
        exact hplace
    · refine (List.perm_ext_iff_of_nodup (nodup_allPages hp.placed hne)
        (nodup_allPages h.paged.placed h.nonempty)).mpr fun a => ?_
      rw [mem_allPages]
      change _ ↔ a ∈ m.allPages
      rw [mem_allPages]
      constructor
      · intro ha
        obtain ⟨c, q, hq, he⟩ := ha
        rcases (hmem c q).mp hq with ⟨_, hq⟩ | ⟨_, hq⟩ | ⟨_, hq⟩
        · exact ⟨c, q, hq, he⟩
        · exact ⟨r.src, q, by rw [hfront]; exact List.mem_cons_of_mem _ hq, he⟩
        · exact ⟨r.src, r.page, hpage, by rw [← hstart, ← hq, he]⟩
      · intro ha
        obtain ⟨c, q, hq, he⟩ := ha
        by_cases hc : c = r.src
        · rw [hc, hfront] at hq
          rcases List.mem_cons.mp hq with hq | hq
          · exact ⟨r.dst, chunks, (hmem r.dst chunks).mpr (.inr (.inr ⟨rfl, rfl⟩)), by rw [hstart, ← hq, he]⟩
          · exact ⟨r.src, q, (hmem r.src q).mpr (.inr (.inl ⟨rfl, hq⟩)), he⟩
        · exact ⟨c, q, (hmem c q).mpr (.inl ⟨hc, hq⟩), he⟩
    · cases hr'
      have hspent := hr.spent p (hr.finished hdone p hpg)
      have hzero := charge_eq_none.mp hspent.idle
      have hrefs := h.paged.store.refcount_eq p
      change (m.store.mem p).refcount = (if (m.store.mem p).linked then 1 else 0) + held p at hrefs
      refine ⟨?_, hspent.off, ?_⟩
      · exact h.paged.store.not_linked_of_zero hzero
      · change held p = 0
        omega

theorem lists_newslab {page : List Ptr} {reallocOk : Bool} (h : ListedOk cfg s)
    (hid : 1 ≤ id.val ∧ id.val ≤ cfg.slabclass.sizes.length) (hf : FreshPage s.run.memory.store (some page))
    (hgrown : (s.growSlabList id reallocOk).2 = true) (hno : s.run.rebal = none) :
    ListedOk cfg ⟨{ s.run with memory := s.run.memory.slabsNewslab id page }, (s.growSlabList id reallocOk).1⟩ ∧
      ListsSound cfg s ⟨{ s.run with memory := s.run.memory.slabsNewslab id page }, (s.growSlabList id reallocOk).1⟩
        (.newslab id page reallocOk) := by
  obtain ⟨hne, hnd, hout⟩ := hf page rfl
  obtain ⟨hsize, hlt, _⟩ := listSize_spec h.room id reallocOk
  have ha : AddsPage s.run.memory (s.run.memory.slabsNewslab id page) id page := ⟨hne, hout, rfl⟩
  have hpl := h.paged.placed.newslab hid hnd hout
  obtain ⟨live, lru, hok⟩ := h.paged.store
  have hnone : ∀ r ∈ s.run.rebal, False := fun r hr => by
    rw [hno] at hr
    cases hr
  have hp : PagedOk cfg { s.run with memory := s.run.memory.slabsNewslab id page } :=
    ⟨⟨live, lru, hok.newslab id hnd hout⟩, hpl, fun r hr => (hnone r hr).elim⟩
  refine ⟨h.adds hp ha hsize (hlt hgrown) fun r hr => (hnone r hr).elim, fun w hw => ?_,
    ha.perm h.paged.placed hpl h.nonempty, fun chunks he => by simp at he⟩
  rw [List.mem_singleton.mp hw]
  exact hlt hgrown

theorem ListedStep.keeps {op : ListedOp} (h : ListedOk cfg s) (hk : KeepsPlace cfg s op) (hs : ListedStep cfg s op t) :
    ListedOk cfg t ∧ ListsSound cfg s t op := by
  cases hs with
  | @other op t hstep hop =>
    obtain ⟨hl, hdst⟩ := keepsLists_slabList h.paged hop hstep
    refine ⟨h.same (hstep.keeps h.paged) hl (fun c => Nat.le_refl _) fun r' hr' => ?_, .of_same hl ?_ ?_ fun chunks he => ?_⟩
    · obtain ⟨r, hr, he⟩ := hdst r' hr'
      rw [he]
      exact Nat.lt_of_le_of_lt (slabs_congr (s := s) (t := ⟨t, s.listSize⟩) hl r.dst).le (h.place r hr)
    · cases op with
      | item => exact if_pos hl
      | move => exact if_pos hl
      | allocate => exact hop.elim
      | startMove => exact hop.elim
      | finishMove => exact hop.elim
    · cases op with
      | item => rfl
      | move => rfl
      | allocate => exact hop.elim
      | startMove => exact hop.elim
      | finishMove => exact hop.elim
    · cases he
      exact hop.elim
  | allocate realloc hstep hgrown => exact lists_allocate h hk hstep hgrown
  | startMove src dst reallocOk hstep => exact lists_startMove h hstep
  | finishMove chunks hstep hhead => exact lists_finishMove h hstep hhead
  | newslab id page reallocOk hid _ hno hf hgrown => exact lists_newslab h hid hf hgrown hno

end

/-! ## Runs -/

theorem listedOk_init (cfg : Settings) (n : Nat) : ListedOk cfg (listedInit n) :=
  ⟨pagedOk_init cfg n, by simp [listedInit, memoryInit], fun _ => Nat.le_refl _, nofun⟩

/-- In every run that leaves a page that moves its place, every page is in one list once, and
whatever happens next writes inside the lists, keeps all pages and clears only a page that
nothing knows. -/
theorem slab_lists_sound {n : Nat} {ops : List ListedOp} {s : ListedState}
    (hr : Run (Guarded (KeepsPlace cfg) (ListedStep cfg)) (listedInit n) ops s) :
    s.run.memory.allPages.Nodup ∧
      ∀ op t, KeepsPlace cfg s op → ListedStep cfg s op t → ListsSound cfg s t op := by
  have h : ListedOk cfg s := hr.invariant_of_guard (I := ListedOk cfg) (fun _ _ _ hi hk hs => (hs.keeps hi hk).1)
    (listedOk_init cfg n)
  exact ⟨nodup_allPages h.paged.placed h.nonempty, fun op t hk hs => (hs.keeps h hk).2⟩

/-! ## A list that is full at the end of a move -/

/-- An allocation in `twoClasses` that may get a page of one chunk. -/
def ListedState.take (s : ListedState) (page : Ptr) (nbytes : Int) : ListedState :=
  let r := s.run.memory.doItemAlloc twoClasses (pageAt page) [] [107] 0 0 nbytes 0
  ⟨⟨r.1.memory, giveRef s.run.held r.2, s.run.rebal⟩,
    (s.grown (slabsClsid twoClasses.slabclass (requestSize twoClasses 1 0 nbytes)) (some true)).1⟩

def takeOp (page : Ptr) (nbytes : Int) : ListedOp := .memory (.allocate (pageAt page) [] [107] 0 0 nbytes 0) (some true)

theorem growSlabList_granted (s : ListedState) (id : SlabId) : (s.growSlabList id true).2 = true := by
  unfold ListedState.growSlabList
  split <;> rfl

theorem take_step {s : ListedState} {page : Ptr} {nbytes : Int} (hn : 0 ≤ nbytes ∧ nbytes < 2 ^ 31)
    (hf : page ∉ s.run.memory.store.carved)
    (hr : repairFires twoClasses (pageAt page) [] 0 s.run.memory.store 5
      (s.run.memory.store.tails (slabsClsid twoClasses.slabclass (requestSize twoClasses 1 0 nbytes))) = false) :
    ListedStep twoClasses s (takeOp page nbytes) (s.take page nbytes) := by
  have hfresh : FreshPage s.run.memory.store (pageAt page).newslab := by
    intro q hq
    cases hq
    simpa using hf
  exact .allocate s (some true) (.allocate s.run.memory s.run.held s.run.rebal (pageAt page) [] [107] 0 0 nbytes 0
    ⟨by decide, by decide, hn⟩ hfresh hr) fun _ => growSlabList_granted s _

/-- The class 2 is given pages one by one. -/
def fillPages : Nat → ListedState
  | 0 => listedInit 16
  | n + 1 => (fillPages n).take (4096 * (n + 1)) 100

def fillPagesOps : Nat → List ListedOp
  | 0 => []
  | n + 1 => fillPagesOps n ++ [takeOp (4096 * (n + 1)) 100]

theorem fillPages_run {n : Nat} (hn : n ≤ 15) :
    Run (Guarded (KeepsPlace twoClasses) (ListedStep twoClasses)) (listedInit 16) (fillPagesOps n) (fillPages n) := by
  have hall : ∀ k < 15, 4096 * (k + 1) ∉ (fillPages k).run.memory.store.carved ∧
      repairFires twoClasses (pageAt (4096 * (k + 1))) [] 0 (fillPages k).run.memory.store 5
        ((fillPages k).run.memory.store.tails (slabsClsid twoClasses.slabclass (requestSize twoClasses 1 0 100))) = false := by
    decide +kernel
  have hnone : ∀ k, (fillPages k).run.rebal = none := by
    intro k
    induction k with
    | zero => rfl
    | succ k ih => exact ih
  induction n with
  | zero => exact .nil _
  | succ n ih =>
    obtain ⟨hf, hr⟩ := hall n hn
    refine (ih (Nat.le_of_succ_le hn)).append (.single ⟨fun r hr' => ?_, take_step (by decide) hf hr⟩)
    rw [hnone n] at hr'
    cases hr'

theorem slab_lists_sound_filled : (fillPages 15).run.memory.allPages.Nodup ∧
    ∀ op t, KeepsPlace twoClasses (fillPages 15) op → ListedStep twoClasses (fillPages 15) op t →
      ListsSound twoClasses (fillPages 15) t op :=
  slab_lists_sound (fillPages_run (Nat.le_refl 15))

/-- The class 1 has two pages, and the chunk of the first is free. -/
def twoPages : ListedState :=
  let s := ((fillPages 15).take 1048576 3).take 1052672 3
  ⟨⟨s.run.memory.perform twoClasses (.remove 1048576), dropRef s.run.held 1048576, none⟩, s.listSize⟩

theorem twoPages_run : ∃ ops, Run (ListedStep twoClasses) (listedInit 16) ops twoPages := by
  have h₁ : ListedStep twoClasses (fillPages 15) (takeOp 1048576 3) ((fillPages 15).take 1048576 3) :=
    take_step (by decide) (by decide +kernel) (by decide +kernel)
  have h₂ : ListedStep twoClasses ((fillPages 15).take 1048576 3) (takeOp 1052672 3)
      (((fillPages 15).take 1048576 3).take 1052672 3) := take_step (by decide) (by decide +kernel) (by decide +kernel)
  have h₃ : ListedStep twoClasses (((fillPages 15).take 1048576 3).take 1052672 3) (.memory (.item (.remove 1048576)) none)
      twoPages := .other _ (.item _ _ none (.remove _ _ 1048576 (by decide +kernel)) trivial) trivial
  exact ⟨_, (fillPages_run (Nat.le_refl 15)).unguard.append (.cons h₁ (.cons h₂ (.single h₃)))⟩

theorem isSome_start : (twoPages.run.memory.slabRebalanceStart twoClasses 1 2
    (twoPages.growSlabList 2 true).2).isSome = true := by
  decide +kernel

def startedMove : ItemMemory × Rebalance :=
  (twoPages.run.memory.slabRebalanceStart twoClasses 1 2 (twoPages.growSlabList 2 true).2).get isSome_start

/-- The page has been moved through. -/
def movedThrough : ListedState :=
  let mr := startedMove.1.slabRebalanceMove twoClasses startedMove.2 [true]
  ⟨⟨mr.1, twoPages.run.held, some mr.2⟩, (twoPages.growSlabList 2 true).1⟩

/-- Its new class is given another page before the move is finished. -/
def lastPlace : ListedState := movedThrough.take 1056768 100

theorem lastPlace_run : ∃ ops, Run (ListedStep twoClasses) (listedInit 16) ops lastPlace := by
  obtain ⟨ops, hr⟩ := twoPages_run
  have h₁ : ListedStep twoClasses twoPages _
      ⟨⟨startedMove.1, twoPages.run.held, some startedMove.2⟩, (twoPages.growSlabList 2 true).1⟩ :=
    .startMove twoPages 1 2 true (.startMove twoPages.run.memory twoPages.run.held 1 2
      (twoPages.growSlabList 2 true).2 (Option.some_get isSome_start).symm)
  have hdone : startedMove.2.done = false := by decide +kernel
  have h₂ : ListedStep twoClasses _ (.memory (.move [true]) none) movedThrough :=
    .other ⟨⟨startedMove.1, twoPages.run.held, some startedMove.2⟩, (twoPages.growSlabList 2 true).1⟩
      (.move _ _ _ [true] hdone) trivial
  have h₃ : ListedStep twoClasses movedThrough (takeOp 1056768 100) lastPlace :=
    take_step (by decide) (by decide +kernel) (by decide +kernel)
  exact ⟨_, hr.append (.cons h₁ (.cons h₂ (.single h₃)))⟩

/-- A move to a class with 15 pages starts; an allocation there takes the sixteenth place of
its list; the page that moves is then written behind it. -/
theorem page_written_behind : ∃ ops s op t, Run (ListedStep twoClasses) (listedInit 16) ops s ∧
    ListedStep twoClasses s op t ∧ (2, 16) ∈ op.writes twoClasses s t ∧ t.listSize 2 = 16 := by
  obtain ⟨ops, hr⟩ := lastPlace_run
  have h : ListedStep twoClasses lastPlace (.memory (.finishMove [1048576]) none) _ :=
    .finishMove lastPlace [1048576] (.finishMove _ _ _ [1048576] (by decide +kernel) (by decide) (by decide +kernel))
      (by decide +kernel)
  refine ⟨ops, _, _, _, hr, h, ?_⟩
  decide +kernel

end RamCube
