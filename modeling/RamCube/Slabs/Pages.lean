import RamCube.Slabs.FreeLists

/-! # Pages

Where the pages of the classes lie. A page comes from `malloc`, or from the arena that
`slabs_init` took from it, and overlaps no other page. -/
namespace RamCube

/-- Two stretches of memory, each given by its start and its length, do not overlap. -/
def Separate (p n q m : Nat) : Prop := p + n ≤ q ∨ q + m ≤ p

theorem Separate.symm {p n q m : Nat} (h : Separate p n q m) : Separate q m p n := Or.symm h

namespace Slabs

def page (s : Slabs) (id i : Nat) : Nat := (s.slabclass id).slabList i

/-- The pages of a class. -/
def pages (s : Slabs) (id : Nat) : List Ptr := (List.range (s.slabclass id).slabs.toNat).map (s.page id)

/-- The chunks of the pages of a class. -/
def chunks (s : Slabs) (id : Nat) : List Ptr :=
  (s.pages id).flatMap (chunksOf (s.slabclass id).size (s.slabclass id).perslab)

/-- A stretch of memory that the allocator owns. -/
def Granted (libc : Libc) (s : Slabs) (ptr len : Nat) : Prop :=
  match s.memBase with
  | none => ∃ n < s.calls, libc.malloc n len = some ptr
  | some base => base ≤ ptr ∧ ptr + len ≤ s.memCurrent ∧ ptr + len ≤ base + s.memLimit.toNat

end Slabs

/-- The classes have the pages they had. -/
structure SameRows (s s' : Slabs) : Prop where
  size : ∀ id, (s'.slabclass id).size = (s.slabclass id).size
  perslab : ∀ id, (s'.slabclass id).perslab = (s.slabclass id).perslab
  slabs : ∀ id, (s'.slabclass id).slabs = (s.slabclass id).slabs
  page : ∀ id, s'.page id = s.page id
  largest : s'.powerLargest = s.powerLargest
  base : s'.memBase = s.memBase
  limit : s'.memLimit = s.memLimit
  malloced : s'.memMalloced = s.memMalloced

namespace SameRows

variable {s s' s'' : Slabs} {id : Nat}

theorem of_ground (h : s'.ground = s.ground) : SameRows s s' :=
  have row := fun id => congrArg (fun g => g.slabclass id) h
  ⟨fun id => congrArg (·.size) (row id), fun id => congrArg (·.perslab) (row id), fun id => congrArg (·.slabs) (row id),
    fun id => congrArg (·.slabList) (row id), congrArg (fun g => g.powerLargest) h, congrArg (fun g => g.memBase) h,
    congrArg (fun g => g.memLimit) h, congrArg (fun g => g.memMalloced) h⟩

theorem trans (h : SameRows s s') (h' : SameRows s' s'') : SameRows s s'' :=
  ⟨fun id => (h'.size id).trans (h.size id), fun id => (h'.perslab id).trans (h.perslab id),
    fun id => (h'.slabs id).trans (h.slabs id), fun id => (h'.page id).trans (h.page id), h'.largest.trans h.largest,
    h'.base.trans h.base, h'.limit.trans h.limit, h'.malloced.trans h.malloced⟩

theorem pageLen (h : SameRows s s') (cfg : SlabSettings) : s'.pageLen cfg id = s.pageLen cfg id := by
  rw [Slabs.pageLen, Slabs.pageLen, h.size, h.perslab]

theorem chunks (h : SameRows s s') : s'.chunks id = s.chunks id := by
  rw [Slabs.chunks, Slabs.chunks, Slabs.pages, Slabs.pages, h.size, h.perslab, h.slabs, h.page]

end SameRows

structure PagesOk (libc : Libc) (cfg : SlabSettings) (s : Slabs) : Prop where
  sized : ∀ id, POWER_SMALLEST ≤ id → id ≤ s.powerLargest → sizeofItem ≤ (s.slabclass id).size ∧
    0 < (s.slabclass id).perslab ∧ (s.slabclass id).size * (s.slabclass id).perslab ≤ cfg.itemSizeMax
  outside : ∀ id, ¬(POWER_SMALLEST ≤ id ∧ id ≤ s.powerLargest) → (s.slabclass id).slabs = 0
  apart : ∀ id i id' j, i < (s.slabclass id).slabs.toNat → j < (s.slabclass id').slabs.toNat → (id, i) ≠ (id', j) →
    Separate (s.page id i) (s.pageLen cfg id) (s.page id' j) (s.pageLen cfg id')
  granted : ∀ id, ∀ i < (s.slabclass id).slabs.toNat, s.Granted libc (s.page id i) (s.pageLen cfg id)
  arena : ∀ base, s.memBase = some base → base ≤ s.memCurrent ∧
    (s.memAvail = 0 ∨ s.memCurrent + s.memAvail = base + s.memLimit.toNat)

namespace PagesOk

variable {libc : Libc} {cfg : SlabSettings} {s s' : Slabs} {id id' it : Nat}

/-- Nothing of this is about the free lists and the memory. -/
theorem of_rows (h : PagesOk libc cfg s) (hsame : SameRows s s')
    (hcurrent : s'.memCurrent = s.memCurrent) (havail : s'.memAvail = s.memAvail) (hcalls : s.calls ≤ s'.calls) :
    PagesOk libc cfg s' := by
  refine ⟨fun id h1 h2 => ?_, fun id hid => ?_, fun id i id' j hi hj hne => ?_, fun id i hi => ?_, fun base hb => ?_⟩
  · rw [hsame.size, hsame.perslab]
    exact h.sized id h1 (hsame.largest ▸ h2)
  · rw [hsame.slabs]
    exact h.outside id (hsame.largest ▸ hid)
  · rw [hsame.slabs] at hi hj
    rw [hsame.page, hsame.page, hsame.pageLen, hsame.pageLen]
    exact h.apart id i id' j hi hj hne
  · rw [hsame.slabs] at hi
    have hgranted := h.granted id i hi
    rw [hsame.page, hsame.pageLen]
    rcases Option.eq_none_or_eq_some s.memBase with hnone | ⟨base, hsome⟩
    · rw [Slabs.Granted, hnone] at hgranted
      obtain ⟨n, hn, hptr⟩ := hgranted
      rw [Slabs.Granted, hsame.base, hnone]
      exact ⟨n, Nat.lt_of_lt_of_le hn hcalls, hptr⟩
    · rw [Slabs.Granted, hsome] at hgranted
      rw [Slabs.Granted, hsame.base, hsome, hcurrent, hsame.limit]
      exact hgranted
  · rw [hcurrent, havail, hsame.limit]
    exact h.arena base (hsame.base ▸ hb)

theorem of_ground (h : PagesOk libc cfg s) (hg : s'.ground = s.ground) : PagesOk libc cfg s' :=
  h.of_rows (.of_ground hg) (congrArg (fun g => g.memCurrent) hg)
    (congrArg (fun g => g.memAvail) hg) (Nat.le_of_eq (congrArg (fun g => g.calls) hg).symm)

theorem lt_of_slabs (h : PagesOk libc cfg s) (hs : 0 < (s.slabclass id).slabs.toNat) :
    POWER_SMALLEST ≤ id ∧ id ≤ s.powerLargest := by
  by_contra hid
  rw [h.outside id hid] at hs
  exact Nat.lt_irrefl 0 hs

theorem size_pos (h : PagesOk libc cfg s) (hid : POWER_SMALLEST ≤ id ∧ id ≤ s.powerLargest) :
    0 < (s.slabclass id).size :=
  Nat.lt_of_lt_of_le (by decide) (h.sized id hid.1 hid.2).1

/-- A page has room for its chunks. -/
theorem le_pageLen (h : PagesOk libc cfg s) (hid : POWER_SMALLEST ≤ id ∧ id ≤ s.powerLargest) :
    (s.slabclass id).size * (s.slabclass id).perslab ≤ s.pageLen cfg id := by
  unfold Slabs.pageLen
  split
  · exact (h.sized id hid.1 hid.2).2.2
  · exact Nat.le_refl _

/-- A chunk lies in a page of its class. -/
theorem mem_chunks (h : PagesOk libc cfg s) (hit : it ∈ s.chunks id) : ∃ i < (s.slabclass id).slabs.toNat,
    it ∈ chunksOf (s.slabclass id).size (s.slabclass id).perslab (s.page id i) ∧
      s.page id i ≤ it ∧ it + (s.slabclass id).size ≤ s.page id i + s.pageLen cfg id := by
  obtain ⟨p, hp, hit⟩ := List.mem_flatMap.mp hit
  obtain ⟨i, hi, rfl⟩ := List.mem_map.mp hp
  have hi := List.mem_range.mp hi
  have hid := h.lt_of_slabs (Nat.lt_of_le_of_lt (Nat.zero_le i) hi)
  refine ⟨i, hi, hit, ?_⟩
  obtain ⟨k, hk, rfl⟩ := mem_chunksOf.mp hit
  have hlen := h.le_pageLen hid
  have hmul : (k + 1) * (s.slabclass id).size ≤ (s.slabclass id).size * (s.slabclass id).perslab := by
    rw [Nat.mul_comm]
    exact Nat.mul_le_mul_left _ hk
  rw [Nat.add_mul] at hmul
  omega

/-- No chunk is in two classes. -/
theorem chunks_once (h : PagesOk libc cfg s) (h1 : it ∈ s.chunks id) (h2 : it ∈ s.chunks id') : id = id' := by
  by_contra hne
  obtain ⟨i, hi, _, hlo, hhi⟩ := h.mem_chunks h1
  obtain ⟨j, hj, _, hlo', hhi'⟩ := h.mem_chunks h2
  have hid := h.lt_of_slabs (Nat.lt_of_le_of_lt (Nat.zero_le i) hi)
  have hid' := h.lt_of_slabs (Nat.lt_of_le_of_lt (Nat.zero_le j) hj)
  have hsize := h.size_pos hid
  have hsize' := h.size_pos hid'
  rcases h.apart id i id' j hi hj (fun he => hne (congrArg Prod.fst he)) with hle | hle <;> omega

theorem nodup_chunks (h : PagesOk libc cfg s) (id : Nat) : (s.chunks id).Nodup := by
  by_cases hid : POWER_SMALLEST ≤ id ∧ id ≤ s.powerLargest
  · have hsize := h.size_pos hid
    refine List.nodup_flatMap.mpr ⟨fun p _ => nodup_chunksOf hsize, ?_⟩
    refine List.pairwise_map.mpr (List.Pairwise.imp_of_mem ?_ List.nodup_range)
    intro i j hi hj hij it h1 h2
    obtain ⟨k, hk, rfl⟩ := mem_chunksOf.mp h1
    obtain ⟨l, hl, he⟩ := mem_chunksOf.mp h2
    have hlen := h.le_pageLen hid
    have hin : ∀ m < (s.slabclass id).perslab, m * (s.slabclass id).size + (s.slabclass id).size ≤ s.pageLen cfg id := by
      intro m hm
      refine Nat.le_trans ?_ hlen
      rw [← Nat.succ_mul, Nat.mul_comm]
      exact Nat.mul_le_mul_left _ hm
    have hk := hin k hk
    have hl := hin l hl
    rcases h.apart id i id j (List.mem_range.mp hi) (List.mem_range.mp hj) (fun he => hij (congrArg Prod.snd he)) with
      hle | hle <;> omega
  · have hnone : s.chunks id = [] := by
      rw [Slabs.chunks, Slabs.pages, h.outside id hid]
      rfl
    rw [hnone]
    exact List.nodup_nil

/-! ## A page is taken -/

theorem memoryAllocate_spec (h : PagesOk libc cfg s) {len : Nat} (hlen : 0 < len) :
    ∃ c a n, (s.memoryAllocate libc len).1 = { s with memCurrent := c, memAvail := a, calls := n } ∧
      PagesOk libc cfg (s.memoryAllocate libc len).1 ∧
      ∀ ptr, (s.memoryAllocate libc len).2 = some ptr → (s.memoryAllocate libc len).1.Granted libc ptr len ∧
        ∀ id, ∀ i < (s.slabclass id).slabs.toNat, Separate ptr len (s.page id i) (s.pageLen cfg id) := by
  rcases Option.eq_none_or_eq_some s.memBase with hbase | ⟨base, hbase⟩
  · have hstate : s.memoryAllocate libc len = ({ s with calls := s.calls + 1 }, libc.malloc s.calls len) := by
      rw [Slabs.memoryAllocate, hbase]
    have hgranted : ∀ id, ∀ i < (s.slabclass id).slabs.toNat,
        ∃ n < s.calls, libc.malloc n (s.pageLen cfg id) = some (s.page id i) := by
      intro id i hi
      have hg := h.granted id i hi
      rwa [Slabs.Granted, hbase] at hg
    rw [hstate]
    refine ⟨_, _, _, rfl, ⟨h.sized, h.outside, h.apart, fun id i hi => ?_, h.arena⟩, fun ptr hptr =>
      ⟨?_, fun id i hi => ?_⟩⟩
    · obtain ⟨n, hn, hm⟩ := hgranted id i hi
      rw [Slabs.Granted, hbase]
      exact ⟨n, Nat.lt_succ_of_lt hn, hm⟩
    · rw [Slabs.Granted, hbase]
      exact ⟨s.calls, Nat.lt_succ_self _, hptr⟩
    · obtain ⟨n, hn, hm⟩ := hgranted id i hi
      exact libc.apart _ _ _ _ _ _ (Nat.ne_of_gt hn) hptr hm
  · obtain ⟨hstart, hend⟩ := h.arena base hbase
    have hgranted : ∀ id, ∀ i < (s.slabclass id).slabs.toNat, base ≤ s.page id i ∧
        s.page id i + s.pageLen cfg id ≤ s.memCurrent ∧
        s.page id i + s.pageLen cfg id ≤ base + s.memLimit.toNat := by
      intro id i hi
      have hg := h.granted id i hi
      rwa [Slabs.Granted, hbase] at hg
    by_cases havail : s.memAvail < len
    · have hstate : s.memoryAllocate libc len = (s, none) := by
        rw [Slabs.memoryAllocate, hbase]
        exact if_pos havail
      rw [hstate]
      exact ⟨_, _, _, rfl, h, nofun⟩
    · have hstate : s.memoryAllocate libc len =
          ({ s with
              memCurrent := s.memCurrent + Slabs.aligned len
              memAvail := if Slabs.aligned len < s.memAvail then s.memAvail - Slabs.aligned len else 0 },
            some s.memCurrent) := by
        rw [Slabs.memoryAllocate, hbase]
        exact if_neg havail
      have hlong : len ≤ Slabs.aligned len := by
        unfold Slabs.aligned
        split <;> omega
      rw [hstate]
      refine ⟨_, _, _, rfl, ⟨h.sized, h.outside, h.apart, fun id i hi => ?_, fun b hb => ?_⟩, fun ptr hptr =>
        ⟨?_, fun id i hi => ?_⟩⟩
      · obtain ⟨hlo, hcur, hhi⟩ := hgranted id i hi
        rw [Slabs.Granted, hbase]
        exact ⟨hlo, Nat.le_trans hcur (Nat.le_add_right _ _), hhi⟩
      · obtain rfl : base = b := Option.some.inj (hbase.symm.trans hb)
        dsimp only
        split <;> omega
      · obtain rfl : s.memCurrent = ptr := Option.some.inj hptr
        rw [Slabs.Granted, hbase]
        exact ⟨hstart, by dsimp only; omega, by dsimp only; omega⟩
      · obtain rfl : s.memCurrent = ptr := Option.some.inj hptr
        exact .inr (hgranted id i hi).2.1

end PagesOk

/-! ## The list of pages grows -/

namespace Slabs

variable {s : Slabs} {id : Nat}

/-- The entries of the lists of pages are in the arrays. -/
def InLists (s : Slabs) : Prop := ∀ id, (s.slabclass id).slabs.toNat ≤ (s.slabclass id).listSize.toNat

/-- A list of pages that is full is made twice as long. -/
theorem growSlabList_eq (libc : Libc) (h : s.InLists) (hslabs : (s.slabclass id).slabs.toNat < 2 ^ 31) :
    ∃ l n, (s.growSlabList libc id).1 = { s.setClass id { s.slabclass id with listSize := l } with calls := n } ∧
      s.calls ≤ n ∧ (s.slabclass id).slabs.toNat ≤ l.toNat ∧
      ((s.growSlabList libc id).2 = true → (s.slabclass id).slabs.toNat < l.toNat) := by
  have hself : s = { s.setClass id { s.slabclass id with listSize := (s.slabclass id).listSize } with calls := s.calls } := by
    simp [setClass]
  have hle := h id
  unfold growSlabList
  dsimp only
  by_cases hfull : (s.slabclass id).slabs = (s.slabclass id).listSize
  · rw [if_pos hfull]
    have hmore : (s.slabclass id).slabs.toNat <
        (if (s.slabclass id).listSize ≠ 0 then (s.slabclass id).listSize * 2 else 16).toNat := by
      split
      · rename_i hne
        have hpos : (s.slabclass id).listSize.toNat ≠ 0 := fun he => hne (UInt32.toNat_inj.mp he)
        rw [hfull] at hslabs ⊢
        rw [UInt32.toNat_mul]
        simp only [UInt32.reduceToNat]
        omega
      · rename_i hzero
        rw [hfull, not_not.mp hzero]
        decide
    generalize (if (s.slabclass id).listSize ≠ 0 then (s.slabclass id).listSize * 2 else 16) = newSize at hmore ⊢
    cases libc.realloc s.calls (newSize.toNat * 8) with
    | true => exact ⟨newSize, s.calls + 1, rfl, Nat.le_succ _, Nat.le_of_lt hmore, fun _ => hmore⟩
    | false => exact ⟨(s.slabclass id).listSize, s.calls + 1, by simp [setClass], Nat.le_succ _, hle, by simp⟩
  · rw [if_neg hfull]
    refine ⟨(s.slabclass id).listSize, s.calls, hself, Nat.le_refl _, hle, fun _ => ?_⟩
    exact Nat.lt_of_le_of_ne hle fun he => hfull (UInt32.toNat_inj.mp he)

end Slabs

/-- The allocator without a page given. -/
structure SlabsKept (libc : Libc) (cfg : SlabSettings) (s : Slabs) (free : Nat → List Ptr) (s' : Slabs) : Prop where
  lists : FreeLists s' free
  pages : PagesOk libc cfg s'
  inLists : s'.InLists
  same : SameRows s s'

theorem growSlabList_spec {libc : Libc} {cfg : SlabSettings} {s : Slabs} {free : Nat → List Ptr} {id : Nat}
    (hf : FreeLists s free) (hp : PagesOk libc cfg s) (hl : s.InLists) (hslabs : (s.slabclass id).slabs.toNat < 2 ^ 31) :
    SlabsKept libc cfg s free (s.growSlabList libc id).1 ∧ (s.growSlabList libc id).1.mem = s.mem ∧
      ((s.growSlabList libc id).2 = true →
        (s.slabclass id).slabs.toNat < ((s.growSlabList libc id).1.slabclass id).listSize.toNat) := by
  obtain ⟨l, n, hs, hn, hle, hlt⟩ := Slabs.growSlabList_eq libc hl hslabs
  rw [hs]
  have hrow : ∀ id', (({ s.setClass id { s.slabclass id with listSize := l } with calls := n } : Slabs).slabclass id') =
      { s.slabclass id' with listSize := if id' = id then l else (s.slabclass id').listSize } := by
    intro id'
    by_cases hid : id' = id
    · subst hid
      simp [Slabs.setClass]
    · simp [Slabs.setClass, hid]
  have hsame : SameRows s { s.setClass id { s.slabclass id with listSize := l } with calls := n } :=
    ⟨fun id' => by rw [hrow], fun id' => by rw [hrow], fun id' => by rw [hrow],
      fun id' => funext fun i => by rw [Slabs.page, Slabs.page, hrow], rfl, rfl, rfl, rfl⟩
  refine ⟨⟨hf.of_rows (fun _ _ _ => rfl) fun id' => ?_, hp.of_rows hsame rfl rfl hn, fun id' => ?_, hsame⟩, rfl,
    fun h => ?_⟩
  · rw [hrow]
    exact ⟨rfl, rfl⟩
  · rw [hrow]
    by_cases hid : id' = id
    · subst hid
      simpa using hle
    · simpa [hid] using hl id'
  · rw [hrow]
    simpa using hlt h

/-! ## A new page -/

namespace Slabs

variable {libc : Libc} {cfg : SlabSettings} {s s' : Slabs} {free : Nat → List Ptr} {id ptr : Nat}

/-- A page is given to a class. -/
structure PageGiven (libc : Libc) (cfg : SlabSettings) (s : Slabs) (free : Nat → List Ptr) (id ptr : Nat) (s' : Slabs) :
    Prop where
  lists : FreeLists s' (Function.update free id
    ((chunksOf (s.slabclass id).size (s.slabclass id).perslab ptr).reverse ++ free id))
  pages : PagesOk libc cfg s'
  inLists : s'.InLists
  chunks : s'.chunks = Function.update s.chunks id
    (s.chunks id ++ chunksOf (s.slabclass id).size (s.slabclass id).perslab ptr)
  slabs : (s'.slabclass id).slabs.toNat = (s.slabclass id).slabs.toNat + 1
  others : ∀ id', id' ≠ id → (s'.slabclass id').slabs = (s.slabclass id').slabs
  sizes : ∀ id', (s'.slabclass id').size = (s.slabclass id').size ∧ (s'.slabclass id').perslab = (s.slabclass id').perslab
  largest : s'.powerLargest = s.powerLargest
  base : s'.memBase = s.memBase
  limit : s'.memLimit = s.memLimit
  /-- beyond the limit, it is the first page of the class -/
  first : s.memLimit ≠ 0 → s.memLimit < s'.memMalloced → (s.slabclass id).slabs = 0

/-! ### The page in the list of its class -/

section

variable {len id' i : Nat}

theorem addPage_row (s : Slabs) (id ptr len id' : Nat) : (s.addPage id ptr len).slabclass id' =
    if id' = id then { s.slabclass id with
      slabList := Function.update (s.slabclass id).slabList (s.slabclass id).slabs.toNat ptr
      slabs := (s.slabclass id).slabs + 1 } else s.slabclass id' := by
  by_cases hid : id' = id
  · subst hid
    simp [addPage, setClass]
  · simp [addPage, setClass, hid]

theorem addPage_sizes (s : Slabs) (id ptr len id' : Nat) :
    ((s.addPage id ptr len).slabclass id').size = (s.slabclass id').size ∧
      ((s.addPage id ptr len).slabclass id').perslab = (s.slabclass id').perslab ∧
      ((s.addPage id ptr len).slabclass id').listSize = (s.slabclass id').listSize := by
  rw [addPage_row]
  split
  · rename_i he
    rw [he]
    exact ⟨rfl, rfl, rfl⟩
  · exact ⟨rfl, rfl, rfl⟩

theorem addPage_slots (s : Slabs) (id ptr len id' : Nat) :
    ((s.addPage id ptr len).slabclass id').slots = (s.slabclass id').slots ∧
      ((s.addPage id ptr len).slabclass id').slCurr = (s.slabclass id').slCurr := by
  rw [addPage_row]
  split
  · rename_i he
    rw [he]
    exact ⟨rfl, rfl⟩
  · exact ⟨rfl, rfl⟩

theorem addPage_pageLen : (s.addPage id ptr len).pageLen cfg id' = s.pageLen cfg id' := by
  obtain ⟨hsize, hperslab, -⟩ := addPage_sizes s id ptr len id'
  rw [pageLen, pageLen, hsize, hperslab]

theorem addPage_page (hi : i < (s.slabclass id').slabs.toNat) : (s.addPage id ptr len).page id' i = s.page id' i := by
  rw [page, addPage_row]
  split
  · rename_i he
    subst he
    exact Function.update_of_ne (Nat.ne_of_lt hi) _ _
  · rfl

theorem addPage_last : (s.addPage id ptr len).page id (s.slabclass id).slabs.toNat = ptr := by
  rw [page, addPage_row, if_pos rfl]
  exact Function.update_self _ _ _

section

variable (hroom : (s.slabclass id).slabs.toNat < (s.slabclass id).listSize.toNat)
include hroom

theorem addPage_slabs : ((s.addPage id ptr len).slabclass id').slabs.toNat =
    if id' = id then (s.slabclass id).slabs.toNat + 1 else (s.slabclass id').slabs.toNat := by
  rw [addPage_row]
  split
  · have hlt := (s.slabclass id).listSize.toNat_lt
    simp only [UInt32.toNat_add, UInt32.reduceToNat]
    omega
  · rfl

/-- A page is an old one or the new one. -/
theorem addPage_cases (hi : i < ((s.addPage id ptr len).slabclass id').slabs.toNat) :
    i < (s.slabclass id').slabs.toNat ∧ (s.addPage id ptr len).page id' i = s.page id' i ∨
      id' = id ∧ i = (s.slabclass id).slabs.toNat ∧ (s.addPage id ptr len).page id' i = ptr := by
  rw [addPage_slabs hroom] at hi
  by_cases hold : i < (s.slabclass id').slabs.toNat
  · exact .inl ⟨hold, addPage_page hold⟩
  · split at hi
    · rename_i he
      subst he
      obtain rfl : i = (s.slabclass id').slabs.toNat := by omega
      exact .inr ⟨rfl, rfl, addPage_last⟩
    · exact absurd hi hold

theorem addPage_pages : (s.addPage id ptr len).pages id' = if id' = id then s.pages id ++ [ptr] else s.pages id' := by
  have hmap : (List.range (s.slabclass id').slabs.toNat).map ((s.addPage id ptr len).page id') =
      (List.range (s.slabclass id').slabs.toNat).map (s.page id') :=
    List.map_congr_left fun i hi => addPage_page (List.mem_range.mp hi)
  rw [pages, addPage_slabs hroom]
  split
  · rename_i he
    subst he
    rw [List.range_succ, List.map_append, hmap, List.map_singleton, addPage_last]
    rfl
  · exact hmap

theorem addPage_chunks : (s.addPage id ptr len).chunks = Function.update s.chunks id
    (s.chunks id ++ chunksOf (s.slabclass id).size (s.slabclass id).perslab ptr) := by
  funext id'
  obtain ⟨hsize, hperslab, -⟩ := addPage_sizes s id ptr len id'
  rw [Slabs.chunks, addPage_pages hroom, hsize, hperslab]
  split
  · rename_i he
    subst he
    rw [Function.update_self, List.flatMap_append, List.flatMap_singleton]
    rfl
  · rename_i he
    rw [Function.update_of_ne he]
    rfl

end

/-- The new page is apart from the old ones and was granted, so they are all in order. -/
theorem addPage_pagesOk (hp : PagesOk libc cfg s) (hid : POWER_SMALLEST ≤ id ∧ id ≤ s.powerLargest)
    (hroom : (s.slabclass id).slabs.toNat < (s.slabclass id).listSize.toNat) (hgranted : s.Granted libc ptr (s.pageLen cfg id))
    (hapart : ∀ id', ∀ i < (s.slabclass id').slabs.toNat, Separate ptr (s.pageLen cfg id) (s.page id' i) (s.pageLen cfg id')) :
    PagesOk libc cfg (s.addPage id ptr len) where
  sized id' h1 h2 := by
    obtain ⟨hsize, hperslab, -⟩ := addPage_sizes s id ptr len id'
    rw [hsize, hperslab]
    exact hp.sized id' h1 h2
  outside id' hout := by
    have hne : id' ≠ id := fun he => hout (he ▸ hid)
    rw [addPage_row, if_neg hne]
    exact hp.outside id' hout
  apart id₁ i id₂ j hi hj hne := by
    rw [addPage_pageLen, addPage_pageLen]
    rcases addPage_cases hroom hi with ⟨hi', h1⟩ | ⟨rfl, rfl, h1⟩
    · rcases addPage_cases hroom hj with ⟨hj', h2⟩ | ⟨rfl, rfl, h2⟩
      · rw [h1, h2]
        exact hp.apart id₁ i id₂ j hi' hj' hne
      · rw [h1, h2]
        exact (hapart id₁ i hi').symm
    · rcases addPage_cases hroom hj with ⟨hj', h2⟩ | ⟨rfl, rfl, h2⟩
      · rw [h1, h2]
        exact hapart id₂ j hj'
      · exact absurd rfl hne
  granted id' i hi := by
    rw [addPage_pageLen]
    rcases addPage_cases hroom hi with ⟨hi, h1⟩ | ⟨rfl, rfl, h1⟩
    · rw [h1]
      exact hp.granted id' i hi
    · rw [h1]
      exact hgranted
  arena := hp.arena

end

theorem PageGiven.of_same {s₁ : Slabs} (h : PageGiven libc cfg s₁ free id ptr s') (hsame : SameRows s s₁) :
    PageGiven libc cfg s free id ptr s' := by
  have hchunks : s₁.chunks = s.chunks := funext fun _ => hsame.chunks
  refine ⟨?_, h.pages, h.inLists, ?_, ?_, fun id' hne => (h.others id' hne).trans (hsame.slabs id'), fun id' => ?_, h.largest.trans hsame.largest, h.base.trans hsame.base,
    h.limit.trans hsame.limit, ?_⟩
  · have hlists := h.lists
    rwa [hsame.size, hsame.perslab] at hlists
  · have hgiven := h.chunks
    rwa [hchunks, hsame.size, hsame.perslab] at hgiven
  · rw [h.slabs, hsame.slabs]
  · rw [(h.sizes id').1, (h.sizes id').2]
    exact ⟨hsame.size id', hsame.perslab id'⟩
  · have hfirst := h.first
    rwa [hsame.limit, hsame.slabs] at hfirst

/-- The page is cut up. -/
theorem split_page (hf : FreeLists s free) (hp : PagesOk libc cfg s) (hin : ∀ id', ∀ it ∈ free id', it ∈ s.chunks id')
    (hid : POWER_SMALLEST ≤ id ∧ id ≤ s.powerLargest)
    (hapart : ∀ id', ∀ i < (s.slabclass id').slabs.toNat, Separate ptr (s.pageLen cfg id) (s.page id' i) (s.pageLen cfg id')) :
    ∃ s₁, (s.clear ptr (s.pageLen cfg id)).splitSlabPageIntoFreelist id (s.slabclass id).perslab ptr = some s₁ ∧
      FreeLists s₁ (Function.update free id
        ((chunksOf (s.slabclass id).size (s.slabclass id).perslab ptr).reverse ++ free id)) ∧ s₁.ground = s.ground := by
  have hsize := hp.size_pos hid
  have hlen := hp.le_pageLen hid
  -- the chunks of the other pages are elsewhere
  have hold : ∀ id' (it : Nat), it ∈ free id' → ¬(ptr ≤ it ∧ it < ptr + s.pageLen cfg id) := by
    intro id' it hit hin'
    obtain ⟨i, hi, _, hlo, hhi⟩ := hp.mem_chunks (hin id' it hit)
    have hsize' := hp.size_pos (hp.lt_of_slabs (Nat.lt_of_le_of_lt (Nat.zero_le i) hi))
    rcases hapart id' i hi with hle | hle <;> omega
  have hnew : ∀ it ∈ chunksOf (s.slabclass id).size (s.slabclass id).perslab ptr,
      ptr ≤ it ∧ it < ptr + s.pageLen cfg id := by
    intro it hit
    obtain ⟨k, hk, rfl⟩ := mem_chunksOf.mp hit
    have hmul : (k + 1) * (s.slabclass id).size ≤ (s.slabclass id).size * (s.slabclass id).perslab := by
      rw [Nat.mul_comm]
      exact Nat.mul_le_mul_left _ hk
    rw [Nat.add_mul] at hmul
    omega
  have hclear : FreeLists (s.clear ptr (s.pageLen cfg id)) free :=
    hf.of_rows (fun id' it hit => if_neg (hold id' it hit)) fun _ => ⟨rfl, rfl⟩
  exact hclear.split hsize (fun it hit id' hmem => hold id' it hmem (hnew it hit))
    (fun it hit => by rw [Slabs.clear]; simp only [if_pos (hnew it hit)]; rfl) hid

theorem Granted.of_ground {len : Nat} (h : s.Granted libc ptr len) (hg : s'.ground = s.ground) : s'.Granted libc ptr len := by
  have hstate : s'.memBase = s.memBase ∧ s'.memCurrent = s.memCurrent ∧ s'.memLimit = s.memLimit ∧ s'.calls = s.calls :=
    ⟨congrArg (fun g => g.memBase) hg, congrArg (fun g => g.memCurrent) hg, congrArg (fun g => g.memLimit) hg,
      congrArg (fun g => g.calls) hg⟩
  unfold Granted at h ⊢
  rwa [hstate.1, hstate.2.1, hstate.2.2.1, hstate.2.2.2]

/-- The page is cut up and entered in the list of the class. -/
theorem enter_page (hf : FreeLists s free) (hp : PagesOk libc cfg s) (hl : s.InLists)
    (hin : ∀ id', ∀ it ∈ free id', it ∈ s.chunks id') (hid : POWER_SMALLEST ≤ id ∧ id ≤ s.powerLargest)
    (hroom : (s.slabclass id).slabs.toNat < (s.slabclass id).listSize.toNat)
    (hgranted : s.Granted libc ptr (s.pageLen cfg id))
    (hapart : ∀ id', ∀ i < (s.slabclass id').slabs.toNat, Separate ptr (s.pageLen cfg id) (s.page id' i) (s.pageLen cfg id'))
    (hlimit : ¬(s.memLimit ≠ 0 ∧ s.memLimit < s.memMalloced + UInt64.ofNat (s.pageLen cfg id) ∧ 0 < (s.slabclass id).slabs)) :
    ∃ s₁, (s.clear ptr (s.pageLen cfg id)).splitSlabPageIntoFreelist id (s.slabclass id).perslab ptr = some s₁ ∧
      PageGiven libc cfg s free id ptr (s₁.addPage id ptr (s.pageLen cfg id)) := by
  obtain ⟨s₁, hs₁, hf₁, hg₁⟩ := split_page hf hp hin hid hapart
  have hsame : SameRows s s₁ := .of_ground hg₁
  have hlists : ∀ id', (s₁.slabclass id').listSize = (s.slabclass id').listSize := fun id' =>
    congrArg (fun g => (g.slabclass id').listSize) hg₁
  have hroom₁ : (s₁.slabclass id).slabs.toNat < (s₁.slabclass id).listSize.toNat := by rwa [hsame.slabs, hlists]
  have hlen : s₁.pageLen cfg id = s.pageLen cfg id := hsame.pageLen cfg
  have hgranted₁ : s₁.Granted libc ptr (s₁.pageLen cfg id) := hlen ▸ hgranted.of_ground hg₁
  have hapart₁ : ∀ id', ∀ i < (s₁.slabclass id').slabs.toNat,
      Separate ptr (s₁.pageLen cfg id) (s₁.page id' i) (s₁.pageLen cfg id') := by
    intro id' i hi
    rw [hsame.slabs] at hi
    rw [hsame.pageLen, hsame.pageLen, hsame.page]
    exact hapart id' i hi
  rw [← hsame.size, ← hsame.perslab] at hf₁
  refine ⟨s₁, hs₁, PageGiven.of_same ?_ hsame⟩
  refine {
    lists := hf₁.of_rows (fun _ _ _ => rfl) (addPage_slots s₁ id ptr _)
    pages := addPage_pagesOk (hp.of_ground hg₁) (hsame.largest ▸ hid) hroom₁ hgranted₁ hapart₁
    inLists := fun id' => ?_
    chunks := addPage_chunks hroom₁
    slabs := by rw [addPage_slabs hroom₁, if_pos rfl]
    others := fun id' hne => by rw [addPage_row, if_neg hne]
    sizes := fun id' => ⟨(addPage_sizes s₁ id ptr _ id').1, (addPage_sizes s₁ id ptr _ id').2.1⟩
    largest := rfl
    base := rfl
    limit := rfl
    first := fun hnz hover => ?_ }
  · rw [addPage_slabs hroom₁, (addPage_sizes s₁ id ptr _ id').2.2]
    split
    · rename_i he
      rw [he]
      exact hroom₁
    · rw [hsame.slabs, hlists]
      exact hl id'
  · rw [hsame.slabs]
    by_contra hne
    rw [hsame.limit] at hnz hover
    refine hlimit ⟨hnz, ?_, UInt32.pos_iff_ne_zero.mpr hne⟩
    rw [← hsame.malloced]
    exact hover

/-- A class is given a page or nothing changes in its pages and free chunks. -/
theorem doSlabsNewslab_spec (hf : FreeLists s free) (hp : PagesOk libc cfg s) (hl : s.InLists)
    (hin : ∀ id', ∀ it ∈ free id', it ∈ s.chunks id') (hid : POWER_SMALLEST ≤ id ∧ id ≤ s.powerLargest)
    (hslabs : (s.slabclass id).slabs.toNat < 2 ^ 31) : ∃ s' given, s.doSlabsNewslab libc cfg id = some (s', given) ∧
      if given then ∃ ptr, PageGiven libc cfg s free id ptr s' else SlabsKept libc cfg s free s' := by
  unfold doSlabsNewslab
  dsimp only
  by_cases hlimit : s.memLimit ≠ 0 ∧ s.memLimit < s.memMalloced + UInt64.ofNat (s.pageLen cfg id) ∧
      0 < (s.slabclass id).slabs
  · rw [if_pos hlimit]
    exact ⟨s, false, rfl, hf, hp, hl, .of_ground rfl⟩
  · rw [if_neg hlimit]
    obtain ⟨hkept, _, hgrown⟩ := growSlabList_spec hf hp hl hslabs
    rcases hg : s.growSlabList libc id with ⟨s₁, _ | _⟩
    · rw [hg] at hkept
      exact ⟨s₁, false, rfl, hkept⟩
    · rw [hg] at hkept hgrown
      dsimp only at hkept hgrown ⊢
      have hlen : 0 < s.pageLen cfg id :=
        Nat.lt_of_lt_of_le (Nat.mul_pos (hp.size_pos hid) (hp.sized id hid.1 hid.2).2.1) (hp.le_pageLen hid)
      obtain ⟨c, a, n, hs₂, hp₂, hgranted⟩ := hkept.pages.memoryAllocate_spec hlen
      rcases ha : s₁.memoryAllocate libc (s.pageLen cfg id) with ⟨s₂, ptr⟩
      rw [ha] at hs₂ hp₂ hgranted
      dsimp only at hs₂ hp₂ hgranted ⊢
      have hsame₂ : SameRows s₁ s₂ := by
        rw [hs₂]
        exact ⟨fun _ => rfl, fun _ => rfl, fun _ => rfl, fun _ => rfl, rfl, rfl, rfl, rfl⟩
      have hf₂ : FreeLists s₂ free := by
        rw [hs₂]
        exact hkept.lists.of_rows (fun _ _ _ => rfl) fun _ => ⟨rfl, rfl⟩
      have hl₂ : s₂.InLists := by
        rw [hs₂]
        exact hkept.inLists
      have hsame := hkept.same.trans hsame₂
      cases ptr with
      | none => exact ⟨s₂, false, rfl, hf₂, hp₂, hl₂, hsame⟩
      | some ptr =>
        obtain ⟨hptr, hapart⟩ := hgranted ptr rfl
        have hlen₂ : s₂.pageLen cfg id = s.pageLen cfg id := hsame.pageLen cfg
        have hroom : (s₂.slabclass id).slabs.toNat < (s₂.slabclass id).listSize.toNat := by
          rw [hsame.slabs, hs₂]
          exact hgrown rfl
        have hpage := enter_page hf₂ hp₂ hl₂ (fun id' it hit => hsame.chunks ▸ hin id' it hit) (hsame.largest ▸ hid) hroom
          (hlen₂ ▸ hptr) (fun id' i hi => ?_) ?_
        · obtain ⟨s₃, hs₃, hgiven⟩ := hpage
          rw [hlen₂, hsame.perslab] at hs₃
          rw [hlen₂] at hgiven
          exact ⟨s₃.addPage id ptr (s.pageLen cfg id), true, congrArg (Option.bind · _) hs₃, ptr, hgiven.of_same hsame⟩
        · rw [hsame₂.slabs] at hi
          rw [hlen₂, hsame₂.page, hsame₂.pageLen]
          exact hapart id' i hi
        · rw [hlen₂, hsame.limit, hsame.malloced, hsame.slabs]
          exact hlimit

end Slabs
end RamCube
