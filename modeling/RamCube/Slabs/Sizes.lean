import Mathlib.Algebra.Order.Archimedean.Basic
import Mathlib.Data.Rat.Floor
import Mathlib.Tactic.Linarith
import Mathlib.Tactic.NormNum
import RamCube.Slabs.Allocation

/-! # Chunk sizes (slabs.c)

`slabs_init` multiplies the size by the growth factor, truncates it and rounds it up to the
alignment, as long as the size is at most `item_size_max / factor`. The last class has chunks of
`item_size_max`. -/
namespace RamCube

/-- The settings of `-f factor -n chunkSize -I itemSizeMax`, with the factor as a rational. -/
def factorSettings (factor : ℚ) (hfactor : 1 < factor) (chunkSize itemSizeMax : Nat) (hmin : 1024 ≤ itemSizeMax)
    (hmax : itemSizeMax ≤ 1024 * 1024 * 128) (limit initialMalloc : UInt64) (prealloc slabReassign : Bool) : SlabSettings where
  itemSizeMax := itemSizeMax
  chunkSize := chunkSize
  slabReassign := slabReassign
  limit := limit
  prealloc := prealloc
  initialMalloc := initialMalloc
  fits size := decide ((size : ℚ) ≤ itemSizeMax / factor)
  times size := ⌊(size : ℚ) * factor⌋₊
  min_le := hmin
  max_le := hmax
  grows size := Nat.le_floor (le_mul_of_one_le_right (Nat.cast_nonneg size) hfactor.le)

/-- The loop of `slabs_clsid`. -/
def Slabs.clsidFrom (s : Slabs) (size : Nat) : Nat → Nat → Nat
  | 0, _ => 0
  | n + 1, res =>
    if (s.slabclass res).size < size then
      if res = s.powerLargest then 0 else s.clsidFrom size n (res + 1)
    else res

/-- `slabs_clsid` -/
def Slabs.clsid (s : Slabs) (size : Nat) : Nat := if size = 0 then 0 else s.clsidFrom size s.powerLargest POWER_SMALLEST

/-- What is to hold of the classes after `slabs_init`. -/
structure ClassesSound (itemSizeMax : Nat) (s : Slabs) : Prop where
  increasing : ∀ id id', POWER_SMALLEST ≤ id → id < id' → id' ≤ s.powerLargest → (s.slabclass id).size < (s.slabclass id').size
  perslab : ∀ id, POWER_SMALLEST ≤ id → id ≤ s.powerLargest →
    1 ≤ (s.slabclass id).perslab ∧ (s.slabclass id).perslab * (s.slabclass id).size ≤ itemSizeMax
  rows : s.powerLargest < LARGEST_ID
  clsid : ∀ n, 1 ≤ n → n ≤ itemSizeMax →
    (POWER_SMALLEST ≤ s.clsid n ∧ s.clsid n ≤ s.powerLargest ∧ n ≤ (s.slabclass (s.clsid n)).size) ∧
      ∀ id, POWER_SMALLEST ≤ id → id < s.clsid n → (s.slabclass id).size < n
  tooLarge : ∀ n, itemSizeMax < n → s.clsid n = 0

/-- A size multiplied `k` times, each time rounded up to the alignment before and down after. -/
def grownSize (factor : ℚ) (first : Nat) : Nat → Nat
  | 0 => first
  | k + 1 => ⌊(Slabs.aligned (grownSize factor first k) : ℚ) * factor⌋₊

/-- The growth passes `item_size_max / factor` while there are classes for it, and no chunk is as large as a page. -/
structure GrowthFits (factor : ℚ) (chunkSize itemSizeMax : Nat) : Prop where
  passes : ∃ k ≤ LARGEST_ID - 2, (itemSizeMax / factor : ℚ) < grownSize factor (sizeofItem + chunkSize) k
  below : ∀ k, (grownSize factor (sizeofItem + chunkSize) k : ℚ) ≤ itemSizeMax / factor →
    Slabs.aligned (grownSize factor (sizeofItem + chunkSize) k) < itemSizeMax

/-! ## Looking a class up -/

section

variable {s s' : Slabs} {size n res : Nat}

/-- The loop stops at the first class that is large enough. -/
theorem clsidFrom_least (hn : s.powerLargest < res + n) (hres : res ≤ s.powerLargest)
    (hfits : size ≤ (s.slabclass s.powerLargest).size) :
    (res ≤ s.clsidFrom size n res ∧ s.clsidFrom size n res ≤ s.powerLargest ∧
      size ≤ (s.slabclass (s.clsidFrom size n res)).size) ∧
      ∀ id, res ≤ id → id < s.clsidFrom size n res → (s.slabclass id).size < size := by
  induction n generalizing res with
  | zero => omega
  | succ n ih =>
    rw [Slabs.clsidFrom]
    by_cases hsmall : (s.slabclass res).size < size
    · have hne : res ≠ s.powerLargest := by
        intro he
        rw [he] at hsmall
        omega
      rw [if_pos hsmall, if_neg hne]
      obtain ⟨⟨h1, h2, h3⟩, h4⟩ := ih (show s.powerLargest < res + 1 + n by omega) (show res + 1 ≤ s.powerLargest by omega)
      refine ⟨⟨by omega, h2, h3⟩, fun id hid hlt => ?_⟩
      by_cases he : id = res
      · exact he ▸ hsmall
      · exact h4 id (by omega) hlt
    · rw [if_neg hsmall]
      exact ⟨⟨Nat.le_refl _, hres, by omega⟩, fun id h1 h2 => absurd h2 (by omega)⟩

theorem clsidFrom_zero (hres : res ≤ s.powerLargest) (hsmall : ∀ id, res ≤ id → id ≤ s.powerLargest → (s.slabclass id).size < size) :
    s.clsidFrom size n res = 0 := by
  induction n generalizing res with
  | zero => rfl
  | succ n ih =>
    rw [Slabs.clsidFrom, if_pos (hsmall res (Nat.le_refl _) hres)]
    split
    · rfl
    · exact ih (by omega) fun id h1 h2 => hsmall id (by omega) h2

/-! ## Preallocation leaves the sizes -/

theorem Fixed.refl (s : Slabs) : Fixed s s := ⟨fun _ => ⟨rfl, rfl⟩, rfl, rfl, rfl⟩

/-- A class is written, but not its sizes. -/
theorem fixed_update {id : Nat} {p : Slabclass} (hclass : s'.slabclass = Function.update s.slabclass id p)
    (hsize : p.size = (s.slabclass id).size) (hper : p.perslab = (s.slabclass id).perslab)
    (hlargest : s'.powerLargest = s.powerLargest) (hbase : s'.memBase = s.memBase) (hlimit : s'.memLimit = s.memLimit) :
    Fixed s s' := by
  refine ⟨fun id' => ?_, hlargest, hbase, hlimit⟩
  rw [hclass]
  by_cases hid : id' = id
  · rw [hid, Function.update_self]
    exact ⟨hsize, hper⟩
  · rw [Function.update_of_ne hid]
    exact ⟨rfl, rfl⟩

theorem doSlabsFree_fixed {ptr : Ptr} {charge : UInt64} {id : Nat} (h : s.doSlabsFree ptr charge id = some s') : Fixed s s' := by
  unfold Slabs.doSlabsFree at h
  split at h
  · cases h
  · obtain rfl := Option.some.inj h
    have hclass : ∀ link, ((s.modify ptr fun g => { g with
        itFlags := g.itFlags ||| ITEM_SLABBED, prev := none, next := (s.slabclass id).slots }).setPrev
          (s.slabclass id).slots link).slabclass = s.slabclass := by
      intro link
      cases (s.slabclass id).slots <;> rfl
    refine Fixed.trans (SameRows.of_ground ?_).fixed (fixed_update rfl ?_ ?_ rfl rfl rfl)
    · exact Slabs.ground_setPrev.trans Slabs.ground_modify
    · rw [hclass]
    · rw [hclass]

theorem split_fixed {id : Nat} {ptr : Ptr} (h : s.splitSlabPageIntoFreelist id n ptr = some s') : Fixed s s' := by
  induction n generalizing s ptr with
  | zero => exact Option.some.inj h ▸ Fixed.refl s
  | succ n ih =>
    rw [Slabs.splitSlabPageIntoFreelist, Option.bind_eq_bind, Option.bind_eq_some_iff] at h
    obtain ⟨s₁, hfree, hrest⟩ := h
    exact (doSlabsFree_fixed hfree).trans (ih hrest)

theorem memoryAllocate_fixed (libc : Libc) (s : Slabs) (len : Nat) : Fixed s (s.memoryAllocate libc len).1 := by
  unfold Slabs.memoryAllocate
  split
  · exact ⟨fun _ => ⟨rfl, rfl⟩, rfl, rfl, rfl⟩
  · split <;> exact ⟨fun _ => ⟨rfl, rfl⟩, rfl, rfl, rfl⟩

theorem growSlabList_fixed (libc : Libc) (s : Slabs) (id : Nat) : Fixed s (s.growSlabList libc id).1 := by
  unfold Slabs.growSlabList
  dsimp only
  by_cases hfull : (s.slabclass id).slabs = (s.slabclass id).listSize
  · rw [if_pos hfull]
    generalize (if (s.slabclass id).listSize ≠ 0 then (s.slabclass id).listSize * 2 else 16) = newSize
    split
    · exact fixed_update rfl rfl rfl rfl rfl rfl
    · exact ⟨fun _ => ⟨rfl, rfl⟩, rfl, rfl, rfl⟩
  · rw [if_neg hfull]
    exact Fixed.refl s

theorem doSlabsNewslab_fixed {libc : Libc} {cfg : SlabSettings} {id : Nat} {given : Bool}
    (h : s.doSlabsNewslab libc cfg id = some (s', given)) : Fixed s s' := by
  unfold Slabs.doSlabsNewslab at h
  dsimp only at h
  split at h
  · cases h
    exact Fixed.refl s
  · have hgrow := growSlabList_fixed libc s id
    split at h
    · rename_i s₁ hg
      cases h
      rwa [hg] at hgrow
    · rename_i s₁ hg
      rw [hg] at hgrow
      have halloc := memoryAllocate_fixed libc s₁ (s.pageLen cfg id)
      split at h
      · rename_i s₂ ha
        cases h
        rw [ha] at halloc
        exact hgrow.trans halloc
      · rename_i s₂ ptr ha
        rw [ha] at halloc
        rw [Option.bind_eq_bind, Option.bind_eq_some_iff] at h
        obtain ⟨s₃, hsplit, h⟩ := h
        cases h
        have hclear : Fixed s₂ (s₂.clear ptr (s.pageLen cfg id)) := ⟨fun _ => ⟨rfl, rfl⟩, rfl, rfl, rfl⟩
        have hadd : Fixed s₃ (s₃.addPage id ptr (s.pageLen cfg id)) := fixed_update rfl rfl rfl rfl rfl rfl
        exact (((hgrow.trans halloc).trans hclear).trans (split_fixed hsplit)).trans hadd

theorem slabsPreallocate_fixed {libc : Libc} {cfg : SlabSettings} {maxslabs i prealloc : Nat}
    (h : s.slabsPreallocate libc cfg maxslabs n i prealloc = some s') : Fixed s s' := by
  induction n generalizing s i prealloc with
  | zero => exact Option.some.inj h ▸ Fixed.refl s
  | succ n ih =>
    rw [Slabs.slabsPreallocate] at h
    split at h
    · exact Option.some.inj h ▸ Fixed.refl s
    · rw [Option.bind_eq_bind, Option.bind_eq_some_iff] at h
      obtain ⟨⟨s₁, given⟩, hnew, h⟩ := h
      dsimp only at h
      split at h
      · exact (doSlabsNewslab_fixed hnew).trans (ih h)
      · cases h

theorem slabsInit_fixed {libc : Libc} {cfg : SlabSettings} (h : Slabs.slabsInit libc cfg = some s) :
    Fixed (Slabs.setup libc cfg) s := by
  unfold Slabs.slabsInit at h
  split at h
  · exact slabsPreallocate_fixed h
  · exact Option.some.inj h ▸ Fixed.refl _

end

/-! ## How the sizes grow -/

section

variable {cfg : SlabSettings} {factor : ℚ} {first k : Nat}

theorem aligned_aligned (size : Nat) : Slabs.aligned (Slabs.aligned size) = Slabs.aligned size := by
  unfold Slabs.aligned CHUNK_ALIGN_BYTES
  by_cases h : size % 8 ≠ 0
  · rw [if_pos h, if_neg (by omega)]
  · rw [if_neg h, if_neg h]

theorem aligned_le (size : Nat) : Slabs.aligned size ≤ size + 7 := by
  unfold Slabs.aligned CHUNK_ALIGN_BYTES
  split <;> omega

theorem grownSize_shift (factor : ℚ) (first k : Nat) :
    grownSize factor first (k + 1) = grownSize factor ⌊(Slabs.aligned first : ℚ) * factor⌋₊ k := by
  induction k with
  | zero => rfl
  | succ k ih => rw [grownSize, ih, grownSize]

theorem aligned_le_grownSize (hfactor : 1 < factor) : Slabs.aligned (grownSize factor first k) ≤ grownSize factor first (k + 1) :=
  Nat.le_floor (le_mul_of_one_le_right (Nat.cast_nonneg _) hfactor.le)

theorem grownSize_mono (hfactor : 1 < factor) (first : Nat) : Monotone (grownSize factor first) :=
  monotone_nat_of_le_succ fun _ => Nat.le_trans (le_aligned _) (aligned_le_grownSize hfactor)

/-- A size that is not increased once is never increased again. -/
theorem grownSize_stuck (h : grownSize factor first (k + 1) = Slabs.aligned (grownSize factor first k)) (j : Nat) :
    grownSize factor first (k + 1 + j) = grownSize factor first (k + 1) := by
  induction j with
  | zero => rfl
  | succ j ih => rw [← Nat.add_assoc, grownSize, ih, h, aligned_aligned, ← grownSize, h]

/-- The loop of `slabs_init`: the classes it sets, and why it stops. -/
theorem sizesFrom_grown {bound : ℚ} (hfits : ∀ size, cfg.fits size = true ↔ (size : ℚ) ≤ bound)
    (htimes : ∀ size, cfg.times size = ⌊(size : ℚ) * factor⌋₊) (n first : Nat) :
    ∃ m ≤ n, cfg.sizesFrom n first = (List.range m).map (fun k => Slabs.aligned (grownSize factor first k)) ∧
      (∀ k < m, (grownSize factor first k : ℚ) ≤ bound) ∧ (m < n → bound < grownSize factor first m) := by
  induction n generalizing first with
  | zero => exact ⟨0, Nat.le_refl _, rfl, fun k hk => absurd hk (Nat.not_lt_zero k), fun h => absurd h (Nat.lt_irrefl 0)⟩
  | succ n ih =>
    rw [SlabSettings.sizesFrom]
    by_cases hfit : cfg.fits first = true
    · rw [if_pos hfit, htimes]
      obtain ⟨m, hm, hsizes, hle, hstop⟩ := ih ⌊(Slabs.aligned first : ℚ) * factor⌋₊
      refine ⟨m + 1, Nat.succ_le_succ hm, ?_, fun k hk => ?_, fun h => ?_⟩
      · rw [hsizes, List.range_succ_eq_map, List.map_cons, List.map_map]
        simp only [Function.comp_def, grownSize_shift]
        rfl
      · cases k with
        | zero => exact (hfits first).mp hfit
        | succ k =>
          rw [grownSize_shift]
          exact hle k (Nat.lt_of_succ_lt_succ hk)
      · rw [grownSize_shift]
        exact hstop (Nat.lt_of_succ_lt_succ h)
    · rw [if_neg hfit]
      refine ⟨0, Nat.zero_le _, rfl, fun k hk => absurd hk (Nat.not_lt_zero k), fun _ => ?_⟩
      exact not_le.mp fun hle => hfit ((hfits first).mpr hle)

end

/-! ## When the classes are sound -/

/-- The classes that the loop has set, and the last one. -/
structure SizesGrown (factor : ℚ) (first itemSizeMax m : Nat) (s : Slabs) : Prop where
  largest : s.powerLargest = POWER_SMALLEST + m
  most : m ≤ LARGEST_ID - 1
  size : ∀ k < m, (s.slabclass (POWER_SMALLEST + k)).size = Slabs.aligned (grownSize factor first k) ∧
    (s.slabclass (POWER_SMALLEST + k)).perslab = itemSizeMax / Slabs.aligned (grownSize factor first k)
  last : (s.slabclass s.powerLargest).size = itemSizeMax ∧ (s.slabclass s.powerLargest).perslab = 1
  fits : ∀ k < m, (grownSize factor first k : ℚ) ≤ itemSizeMax / factor
  stops : m < LARGEST_ID - 1 → (itemSizeMax / factor : ℚ) < grownSize factor first m

section

variable {factor : ℚ} {chunkSize itemSizeMax m : Nat} {s : Slabs}

theorem slabsInit_grown {libc : Libc} {hfactor : 1 < factor} {hmin : 1024 ≤ itemSizeMax} {hmax : itemSizeMax ≤ 1024 * 1024 * 128}
    {limit initialMalloc : UInt64} {prealloc slabReassign : Bool}
    (h : Slabs.slabsInit libc (factorSettings factor hfactor chunkSize itemSizeMax hmin hmax limit initialMalloc prealloc slabReassign) =
      some s) : ∃ m, SizesGrown factor (sizeofItem + chunkSize) itemSizeMax m s := by
  have hfixed := slabsInit_fixed h
  generalize hcfg : factorSettings factor hfactor chunkSize itemSizeMax hmin hmax limit initialMalloc prealloc slabReassign = cfg at *
  have hfits : ∀ size, cfg.fits size = true ↔ (size : ℚ) ≤ itemSizeMax / factor := by
    subst hcfg
    exact fun size => decide_eq_true_iff
  have htimes : ∀ size, cfg.times size = ⌊(size : ℚ) * factor⌋₊ := by
    subst hcfg
    exact fun size => rfl
  have hchunk : cfg.chunkSize = chunkSize := hcfg ▸ rfl
  have hsize : cfg.itemSizeMax = itemSizeMax := hcfg ▸ rfl
  obtain ⟨m, hm, hsizes, hle, hstop⟩ := sizesFrom_grown hfits htimes (POWER_LARGEST - POWER_SMALLEST) (sizeofItem + chunkSize)
  have hclasses : cfg.classSizes = (List.range m).map fun k => Slabs.aligned (grownSize factor (sizeofItem + chunkSize) k) := by
    rw [SlabSettings.classSizes, hchunk, hsizes]
  have hlargest : cfg.powerLargest = POWER_SMALLEST + m := by
    rw [SlabSettings.powerLargest, hclasses, List.length_map, List.length_range]
  have hlast : cfg.initClass cfg.powerLargest = emptyClass itemSizeMax 1 := by
    rw [SlabSettings.initClass, if_pos rfl, hsize]
  refine ⟨m, hfixed.largest.trans hlargest, hm, fun k hk => ?_, ?_, hle, hstop⟩
  · have hclass : cfg.initClass (POWER_SMALLEST + k) = emptyClass (Slabs.aligned (grownSize factor (sizeofItem + chunkSize) k))
        (itemSizeMax / Slabs.aligned (grownSize factor (sizeofItem + chunkSize) k)) := by
      rw [SlabSettings.initClass, if_neg (by omega), if_pos (by omega), hclasses, Nat.add_sub_cancel_left,
        List.getD_eq_getElem _ _ (by rwa [List.length_map, List.length_range]), hsize]
      simp only [List.getElem_map, List.getElem_range]
    have hfix := hfixed.sizes (POWER_SMALLEST + k)
    rw [show (Slabs.setup libc cfg).slabclass = cfg.initClass from rfl, hclass] at hfix
    exact hfix
  · have hfix := hfixed.sizes cfg.powerLargest
    rw [show (Slabs.setup libc cfg).slabclass = cfg.initClass from rfl, hlast] at hfix
    rw [hfixed.largest]
    exact hfix

namespace SizesGrown

variable {first : Nat}

/-- Where the loop stops early, the sizes before increase. -/
theorem aligned_lt (h : SizesGrown factor first itemSizeMax m s) (hfactor : 1 < factor) (hm : m < LARGEST_ID - 1) {k : Nat} (hk : k + 1 < m) :
    Slabs.aligned (grownSize factor first k) < Slabs.aligned (grownSize factor first (k + 1)) := by
  rcases Nat.lt_or_eq_of_le (aligned_le_grownSize hfactor : _ ≤ grownSize factor first (k + 1)) with hlt | heq
  · exact Nat.lt_of_lt_of_le hlt (le_aligned _)
  · have hstuck := grownSize_stuck heq.symm (m - (k + 1))
    rw [Nat.add_sub_cancel' (Nat.le_of_lt hk)] at hstuck
    have hfit := h.fits (k + 1) hk
    have hstop := h.stops hm
    rw [hstuck] at hstop
    exact absurd hfit (not_le.mpr hstop)

theorem sizes_lt (h : SizesGrown factor first itemSizeMax m s) (hfactor : 1 < factor) (hm : m < LARGEST_ID - 1) {j k : Nat} (hjk : j < k)
    (hk : k < m) : Slabs.aligned (grownSize factor first j) < Slabs.aligned (grownSize factor first k) := by
  induction k, hjk using Nat.le_induction with
  | base => exact h.aligned_lt hfactor hm hk
  | succ k hjk ih => exact Nat.lt_trans (ih (Nat.lt_of_succ_lt hk)) (h.aligned_lt hfactor hm hk)

theorem increasing (h : SizesGrown factor first itemSizeMax m s) (hfactor : 1 < factor) (hm : m < LARGEST_ID - 1)
    (hbelow : ∀ k < m, Slabs.aligned (grownSize factor first k) < itemSizeMax) {id id' : Nat} (h1 : POWER_SMALLEST ≤ id)
    (hlt : id < id') (h2 : id' ≤ s.powerLargest) : (s.slabclass id).size < (s.slabclass id').size := by
  have hlargest := h.largest
  obtain ⟨j, rfl⟩ := Nat.exists_eq_add_of_le h1
  have hj : j < m := by omega
  rw [(h.size j hj).1]
  rcases Nat.lt_or_eq_of_le h2 with hin | hlast
  · obtain ⟨k, rfl⟩ := Nat.exists_eq_add_of_le (Nat.le_trans h1 (Nat.le_of_lt hlt))
    rw [(h.size k (by omega)).1]
    exact h.sizes_lt hfactor hm (by omega) (by omega)
  · rw [hlast, h.last.1]
    exact hbelow j hj

theorem sound (h : SizesGrown factor (sizeofItem + chunkSize) itemSizeMax m s) (hfactor : 1 < factor)
    (hg : GrowthFits factor chunkSize itemSizeMax) (hpos : 0 < itemSizeMax) : ClassesSound itemSizeMax s := by
  have hlargest := h.largest
  have hsmallest : POWER_SMALLEST = 1 := rfl
  have hrows : LARGEST_ID = 200 := rfl
  have hm : m < LARGEST_ID - 1 := by
    obtain ⟨k, hk, hpass⟩ := hg.passes
    by_contra hall
    exact not_le.mpr hpass (h.fits k (by omega))
  have hbelow : ∀ k < m, Slabs.aligned (grownSize factor (sizeofItem + chunkSize) k) < itemSizeMax :=
    fun k hk => hg.below k (h.fits k hk)
  have hinc : ∀ id id', POWER_SMALLEST ≤ id → id < id' → id' ≤ s.powerLargest →
      (s.slabclass id).size < (s.slabclass id').size := fun _ _ h1 hlt h2 => h.increasing hfactor hm hbelow h1 hlt h2
  have hle : ∀ id, POWER_SMALLEST ≤ id → id ≤ s.powerLargest → (s.slabclass id).size ≤ itemSizeMax := by
    intro id h1 h2
    rcases Nat.lt_or_eq_of_le h2 with hin | hlast
    · exact h.last.1 ▸ Nat.le_of_lt (hinc id _ h1 hin (Nat.le_refl _))
    · rw [hlast, h.last.1]
  refine ⟨hinc, fun id h1 h2 => ?_, by omega, fun n h1 h2 => ?_, fun n hn => ?_⟩
  · rcases Nat.lt_or_eq_of_le h2 with hin | hlast
    · obtain ⟨k, rfl⟩ := Nat.exists_eq_add_of_le h1
      obtain ⟨hsize, hper⟩ := h.size k (by omega)
      have hk := hbelow k (by omega)
      have hsizeof : sizeofItem ≤ Slabs.aligned (grownSize factor (sizeofItem + chunkSize) k) :=
        Nat.le_trans (Nat.le_trans (Nat.le_add_right _ _) (grownSize_mono hfactor _ (Nat.zero_le k))) (le_aligned _)
      have hpos' : 0 < Slabs.aligned (grownSize factor (sizeofItem + chunkSize) k) := Nat.lt_of_lt_of_le (by decide) hsizeof
      rw [hsize, hper]
      exact ⟨(Nat.le_div_iff_mul_le hpos').mpr (by omega), Nat.div_mul_le_self _ _⟩
    · rw [hlast, h.last.1, h.last.2]
      exact ⟨Nat.le_refl _, Nat.le_of_eq (Nat.one_mul _)⟩
  · rw [Slabs.clsid, if_neg (by omega)]
    exact clsidFrom_least (by omega) (by omega) (h.last.1.symm ▸ h2)
  · rw [Slabs.clsid, if_neg (by omega)]
    exact clsidFrom_zero (by omega) fun id h1 h2 => Nat.lt_of_le_of_lt (hle id h1 h2) hn

theorem growthFits (h : SizesGrown factor (sizeofItem + chunkSize) itemSizeMax m s) (hfactor : 1 < factor)
    (hs : ClassesSound itemSizeMax s) : GrowthFits factor chunkSize itemSizeMax := by
  have hlargest := h.largest
  have hsmallest : POWER_SMALLEST = 1 := rfl
  have hrow := hs.rows
  have hstop := h.stops (by omega)
  refine ⟨⟨m, by omega, hstop⟩, fun k hk => ?_⟩
  have hkm : k < m := by
    by_contra hge
    have hmono : (grownSize factor (sizeofItem + chunkSize) m : ℚ) ≤ grownSize factor (sizeofItem + chunkSize) k :=
      Nat.cast_le.mpr (grownSize_mono hfactor _ (Nat.le_of_not_lt hge))
    exact absurd hstop (not_lt.mpr (hmono.trans hk))
  have hlt := hs.increasing (POWER_SMALLEST + k) s.powerLargest (Nat.le_add_right _ _) (by omega) (Nat.le_refl _)
  rwa [(h.size k hkm).1, h.last.1] at hlt

end SizesGrown

/-- `size` stays within an `unsigned int`. -/
theorem grownSize_lt (hfactor : 1 < factor) (hmax : itemSizeMax ≤ 1024 * 1024 * 128) {k : Nat}
    (hk : (grownSize factor (sizeofItem + chunkSize) k : ℚ) ≤ itemSizeMax / factor) :
    grownSize factor (sizeofItem + chunkSize) (k + 1) < 2 ^ 32 := by
  have hpos : 0 < factor := lt_trans one_pos hfactor
  have hsizeof : (48 : ℚ) ≤ grownSize factor (sizeofItem + chunkSize) k := by
    have hle : sizeofItem ≤ grownSize factor (sizeofItem + chunkSize) k :=
      Nat.le_trans (Nat.le_add_right _ _) (grownSize_mono hfactor _ (Nat.zero_le k))
    exact_mod_cast hle
  have hmax' : (itemSizeMax : ℚ) ≤ 134217728 := by exact_mod_cast hmax
  have hpage : (grownSize factor (sizeofItem + chunkSize) k : ℚ) * factor ≤ 134217728 := ((le_div_iff₀ hpos).mp hk).trans hmax'
  have hfactor' : 48 * factor ≤ 134217728 := (mul_le_mul_of_nonneg_right hsizeof hpos.le).trans hpage
  have haligned : (Slabs.aligned (grownSize factor (sizeofItem + chunkSize) k) : ℚ) ≤
      grownSize factor (sizeofItem + chunkSize) k + 7 := by exact_mod_cast aligned_le _
  have hfloor : (grownSize factor (sizeofItem + chunkSize) (k + 1) : ℚ) ≤
      (Slabs.aligned (grownSize factor (sizeofItem + chunkSize) k) : ℚ) * factor := Nat.floor_le (by positivity)
  have hmul := mul_le_mul_of_nonneg_right haligned hpos.le
  have hlt : (grownSize factor (sizeofItem + chunkSize) (k + 1) : ℚ) < 4294967296 := by linarith
  exact_mod_cast hlt

/-- With a factor from 1.08 on, chunks of any size grow fast enough. -/
theorem growthFits_of_le (hfactor : 27 / 25 ≤ factor) (hchunk : 0 < chunkSize) (hmin : 1024 ≤ itemSizeMax)
    (hmax : itemSizeMax ≤ 1024 * 1024 * 128) : GrowthFits factor chunkSize itemSizeMax := by
  have hpos : 0 < factor := by linarith
  have hmin' : (1024 : ℚ) ≤ itemSizeMax := by exact_mod_cast hmin
  have hmax' : (itemSizeMax : ℚ) ≤ 134217728 := by exact_mod_cast hmax
  have hpage : (itemSizeMax / factor : ℚ) ≤ itemSizeMax * (25 / 27) := by
    rw [div_le_iff₀ hpos]
    nlinarith
  have hfloor : ∀ size : ℚ, 0 ≤ size → size * (27 / 25) - 1 < ⌊size * factor⌋₊ := by
    intro size hsize
    have hlt := Nat.lt_floor_add_one (size * factor)
    have hmul := mul_le_mul_of_nonneg_left hfactor hsize
    linarith
  have hgrown : ∀ k, 43 * (27 / 25 : ℚ) ^ k + 25 / 2 ≤ Slabs.aligned (grownSize factor (sizeofItem + chunkSize) k) := by
    intro k
    induction k with
    | zero =>
      have hfirst : 56 ≤ Slabs.aligned (sizeofItem + chunkSize) := by
        unfold Slabs.aligned CHUNK_ALIGN_BYTES sizeofItem
        split <;> omega
      have hfirst' : (56 : ℚ) ≤ Slabs.aligned (sizeofItem + chunkSize) := by exact_mod_cast hfirst
      rw [pow_zero, grownSize]
      linarith
    | succ k ih =>
      have hstep := hfloor _ (Nat.cast_nonneg (Slabs.aligned (grownSize factor (sizeofItem + chunkSize) k)))
      have hle : (grownSize factor (sizeofItem + chunkSize) (k + 1) : ℚ) ≤
          Slabs.aligned (grownSize factor (sizeofItem + chunkSize) (k + 1)) := Nat.cast_le.mpr (le_aligned _)
      rw [grownSize] at hle ⊢
      rw [pow_succ]
      linarith
  refine ⟨⟨LARGEST_ID - 2, Nat.le_refl _, ?_⟩, fun k hk => ?_⟩
  · have hlast := hgrown 197
    have hstep := hfloor _ (Nat.cast_nonneg (Slabs.aligned (grownSize factor (sizeofItem + chunkSize) 197)))
    have hpow : (3800000 : ℚ) ≤ (27 / 25) ^ 197 := by norm_num
    show (itemSizeMax / factor : ℚ) < (⌊(Slabs.aligned (grownSize factor (sizeofItem + chunkSize) 197) : ℚ) * factor⌋₊ : ℚ)
    linarith
  · have haligned : (Slabs.aligned (grownSize factor (sizeofItem + chunkSize) k) : ℚ) ≤
        grownSize factor (sizeofItem + chunkSize) k + 7 := by exact_mod_cast aligned_le _
    have hlt : (Slabs.aligned (grownSize factor (sizeofItem + chunkSize) k) : ℚ) < itemSizeMax := by linarith
    exact_mod_cast hlt

/-- The classes are as they should be exactly where the sizes grow fast enough and none reaches the size of a page. -/
theorem slab_classes_sound_iff (libc : Libc) (factor : ℚ) (hfactor : 1 < factor) (chunkSize itemSizeMax : Nat) (hmin : 1024 ≤ itemSizeMax)
    (hmax : itemSizeMax ≤ 1024 * 1024 * 128) (limit initialMalloc : UInt64) (prealloc slabReassign : Bool) (s : Slabs)
    (h : Slabs.slabsInit libc (factorSettings factor hfactor chunkSize itemSizeMax hmin hmax limit initialMalloc prealloc slabReassign) =
      some s) : ClassesSound itemSizeMax s ↔ GrowthFits factor chunkSize itemSizeMax := by
  obtain ⟨m, hgrown⟩ := slabsInit_grown h
  exact ⟨hgrown.growthFits hfactor, fun hg => hgrown.sound hfactor hg (Nat.lt_of_lt_of_le (by decide) hmin)⟩

/-- No memory, which the chunk sizes do not need. -/
def noMemory : Libc where
  malloc _ _ := none
  realloc _ _ := false
  apart _ _ _ _ _ _ _ hp _ := nomatch hp

theorem slab_classes_sound_iff_default : ∃ s, Slabs.slabsInit noMemory (factorSettings (5 / 4) (by norm_num) 48 1048576 (by decide)
    (by decide) 67108864 0 false false) = some s ∧ ClassesSound 1048576 s :=
  ⟨_, rfl, (slab_classes_sound_iff noMemory (5 / 4) (by norm_num) 48 1048576 (by decide) (by decide) 67108864 0 false false _
    rfl).mpr (growthFits_of_le (by norm_num) (by decide) (by decide) (by decide))⟩

/-- With `-f 1.01` all classes but the last have chunks of 96 bytes, and there are 200. -/
theorem small_factor_repeats : ∃ s, Slabs.slabsInit noMemory (factorSettings (101 / 100) (by norm_num) 48 1048576 (by decide)
    (by decide) 67108864 0 false false) = some s ∧ ¬ClassesSound 1048576 s ∧ s.powerLargest = LARGEST_ID := by
  refine ⟨_, rfl, fun hs => ?_, ?_⟩
  · have hlt := hs.increasing 1 2 (by decide) (by decide)
    revert hlt
    decide +kernel
  · decide +kernel

end

end RamCube
