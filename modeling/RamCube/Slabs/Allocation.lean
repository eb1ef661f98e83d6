import RamCube.Lib.Run
import RamCube.Slabs.Pages

/-! # Whole runs of the allocator

Every chunk of every page is on the free list of its class or handed out, and the counts of
a class are those of its chunks, as long as there are fewer than `2 ^ 32` free ones. -/
namespace RamCube

/-- The chunks of a class that are handed out, `out` having all with their classes. -/
def outOf (out : List (Ptr × Nat)) (id : Nat) : List Ptr := (out.filter fun x => decide (x.2 = id)).map Prod.fst

/-- Every chunk is free or handed out. -/
structure SlabsOk (libc : Libc) (cfg : SlabSettings) (s : Slabs) (out : List (Ptr × Nat)) (free : Nat → List Ptr) :
    Prop where
  lists : FreeLists s free
  pages : PagesOk libc cfg s
  inLists : s.InLists
  shared : ∀ id, (s.chunks id).Perm (free id ++ outOf out id)

section

variable {libc : Libc} {cfg : SlabSettings} {s s' : Slabs} {out : List (Ptr × Nat)} {free : Nat → List Ptr}
  {id id' it ptr : Nat} {rest : List Ptr}

theorem outOf_cons : outOf ((it, id) :: out) id' = if id' = id then it :: outOf out id' else outOf out id' := by
  unfold outOf
  by_cases h : id' = id
  · subst h
    simp
  · simp [h, Ne.symm h]

theorem mem_outOf : it ∈ outOf out id ↔ (it, id) ∈ out := by
  simp [outOf]

theorem outOf_erase (h : (it, id) ∈ out) (id' : Nat) : (outOf out id').Perm
    (if id' = id then it :: outOf (out.erase (it, id)) id' else outOf (out.erase (it, id)) id') := by
  rw [← outOf_cons]
  exact ((List.perm_cons_erase h).filter _).map _

namespace SlabsOk

theorem mem_chunks (h : SlabsOk libc cfg s out free) : it ∈ s.chunks id ↔ it ∈ free id ∨ (it, id) ∈ out := by
  rw [(h.shared id).mem_iff, List.mem_append, mem_outOf]

/-- A chunk that is handed out is on no free list. -/
theorem not_free (h : SlabsOk libc cfg s out free) (hout : (it, id) ∈ out) (id' : Nat) : it ∉ free id' := by
  intro hfree
  obtain rfl : id' = id := h.pages.chunks_once (h.mem_chunks.mpr (.inl hfree)) (h.mem_chunks.mpr (.inr hout))
  have hnodup := (h.shared id').nodup_iff.mp (h.pages.nodup_chunks id')
  exact (List.disjoint_of_nodup_append hnodup) hfree (mem_outOf.mpr hout)

theorem in_range (h : SlabsOk libc cfg s out free) (hit : it ∈ s.chunks id) : POWER_SMALLEST ≤ id ∧ id ≤ s.powerLargest := by
  obtain ⟨i, hi, _⟩ := h.pages.mem_chunks hit
  exact h.pages.lt_of_slabs (Nat.lt_of_le_of_lt (Nat.zero_le i) hi)

theorem kept (h : SlabsOk libc cfg s out free) (hk : SlabsKept libc cfg s free s') : SlabsOk libc cfg s' out free :=
  ⟨hk.lists, hk.pages, hk.inLists, fun id => hk.same.chunks ▸ h.shared id⟩

theorem given (h : SlabsOk libc cfg s out free) (hg : Slabs.PageGiven libc cfg s free id ptr s') :
    SlabsOk libc cfg s' out (Function.update free id
      ((chunksOf (s.slabclass id).size (s.slabclass id).perslab ptr).reverse ++ free id)) := by
  refine ⟨hg.lists, hg.pages, hg.inLists, fun id' => ?_⟩
  rw [hg.chunks]
  by_cases hid : id' = id
  · subst hid
    rw [Function.update_self, Function.update_self, List.append_assoc]
    exact ((h.shared id').append_right _).trans (List.perm_append_comm.trans ((List.reverse_perm _).symm.append_right _))
  · rw [Function.update_of_ne hid, Function.update_of_ne hid]
    exact h.shared id'

theorem ground (h : SlabsOk libc cfg s out free) (hg : s'.ground = s.ground) :
    PagesOk libc cfg s' ∧ s'.InLists ∧ ∀ id, s'.chunks id = s.chunks id := by
  refine ⟨h.pages.of_ground hg, fun id => ?_, fun id => (SameRows.of_ground hg).chunks⟩
  have hrow : s'.ground.slabclass id = s.ground.slabclass id := congrArg (fun g => g.slabclass id) hg
  have hslabs : (s'.slabclass id).slabs = (s.slabclass id).slabs := congrArg (·.slabs) hrow
  have hlist : (s'.slabclass id).listSize = (s.slabclass id).listSize := congrArg (·.listSize) hrow
  rw [hslabs, hlist]
  exact h.inLists id

/-- A chunk is handed out. -/
theorem take (h : SlabsOk libc cfg s out free) (hfree : free id = it :: rest) (size : UInt64) :
    SlabsOk libc cfg (s.take it size id) ((it, id) :: out) (Function.update free id rest) := by
  have hground : (s.take it size id).ground = s.ground := Slabs.ground_take
  obtain ⟨hp, hl, hchunks⟩ := h.ground hground
  refine ⟨h.lists.pop hfree, hp, hl, fun id' => ?_⟩
  rw [hchunks, outOf_cons]
  have hshared := h.shared id'
  by_cases hid : id' = id
  · subst hid
    rw [hfree] at hshared
    rw [if_pos rfl, Function.update_self]
    exact hshared.trans (List.perm_middle.symm)
  · rw [if_neg hid, Function.update_of_ne hid]
    exact hshared

/-- A chunk is given back. -/
theorem giveBack (h : SlabsOk libc cfg s out free) (hout : (it, id) ∈ out) {size : UInt64}
    (hs : s.doSlabsFree it size id = some s') :
    SlabsOk libc cfg s' (out.erase (it, id)) (Function.update free id (it :: free id)) ∧ SameRows s s' := by
  have hid := h.in_range (h.mem_chunks.mpr (.inr hout))
  have hclsid : (s.mem it).slabsClsid = 0 := by
    by_contra hne
    rw [Slabs.doSlabsFree, if_pos (.inl hne)] at hs
    cases hs
  obtain ⟨s₁, hs₁, hf, hg, _⟩ := h.lists.push size (h.not_free hout) hclsid hid
  obtain rfl : s₁ = s' := Option.some.inj (hs₁.symm.trans hs)
  obtain ⟨hp, hl, hchunks⟩ := h.ground hg
  refine ⟨⟨hf, hp, hl, fun id' => ?_⟩, .of_ground hg⟩
  rw [hchunks]
  refine (h.shared id').trans ((List.Perm.append_left _ (outOf_erase hout id')).trans ?_)
  by_cases hid' : id' = id
  · subst hid'
    rw [if_pos rfl, Function.update_self]
    exact List.perm_middle
  · rw [if_neg hid', Function.update_of_ne hid']

/-- The holder of a chunk writes to it. -/
theorem write (h : SlabsOk libc cfg s out free) (hout : (it, id) ∈ out) (c : ChunkHeader) :
    SlabsOk libc cfg { s with mem := Function.update s.mem it c } out free := by
  refine ⟨h.lists.of_rows (fun id' p hp => ?_) fun _ => ⟨rfl, rfl⟩, h.pages.of_ground rfl, h.inLists, h.shared⟩
  exact Function.update_of_ne (fun he : p = it => h.not_free hout id' (he ▸ hp)) _ _

end SlabsOk

/-! ## slabs_alloc -/

/-- Where the free list looks empty, the class has less than `2 ^ 31` pages: with more, `realloc`
is asked for a list of 0 bytes. -/
def SlabRoom (s : Slabs) (id : Nat) : Prop := (s.slabclass id).slCurr = 0 → (s.slabclass id).slabs.toNat < 2 ^ 31

/-- A page that takes `mem_malloced` beyond the limit is the first one of its class. -/
def OverLimit (s s' : Slabs) : Prop :=
  ∀ id, (s'.slabclass id).slabs ≠ (s.slabclass id).slabs → s.memLimit ≠ 0 → s.memLimit < s'.memMalloced →
    (s.slabclass id).slabs = 0

/-- The free lists have less than `n` chunks each. -/
def Short (n : Nat) (free : Nat → List Ptr) : Prop := ∀ id, (free id).length < n

theorem Short.update {n : Nat} {l : List Ptr} (h : Short n free) (hl : l.length < n) : Short n (Function.update free id l) := by
  intro id'
  by_cases hid : id' = id
  · subst hid
    rwa [Function.update_self]
  · rw [Function.update_of_ne hid]
    exact h id'

/-- A list that a count of 32 bits can tell the length of is empty where it looks so. -/
theorem Short.eq_nil {n : Nat} (h : Short n free) (hn : n ≤ 2 ^ 32) (hf : FreeLists s free)
    (hempty : (s.slabclass id).slCurr = 0) : free id = [] := by
  have hcount := congrArg UInt32.toNat ((hf.counted id).symm.trans hempty)
  rw [UInt32.toNat_ofNat', Nat.mod_eq_of_lt (Nat.lt_of_lt_of_le (h id) hn)] at hcount
  exact List.length_eq_zero_iff.mp hcount

/-- What calls of `slabs_alloc` and `slabs_free` leave as it is. -/
structure Fixed (s s' : Slabs) : Prop where
  sizes : ∀ id, (s'.slabclass id).size = (s.slabclass id).size ∧ (s'.slabclass id).perslab = (s.slabclass id).perslab
  largest : s'.powerLargest = s.powerLargest
  base : s'.memBase = s.memBase
  limit : s'.memLimit = s.memLimit

theorem SameRows.fixed (h : SameRows s s') : Fixed s s' := ⟨fun id => ⟨h.size id, h.perslab id⟩, h.largest, h.base, h.limit⟩

theorem Slabs.PageGiven.fixed (h : Slabs.PageGiven libc cfg s free id ptr s') : Fixed s s' :=
  ⟨h.sizes, h.largest, h.base, h.limit⟩

theorem Fixed.trans {s'' : Slabs} (h : Fixed s s') (h' : Fixed s' s'') : Fixed s s'' :=
  ⟨fun id => ⟨(h'.sizes id).1.trans (h.sizes id).1, (h'.sizes id).2.trans (h.sizes id).2⟩, h'.largest.trans h.largest,
    h'.base.trans h.base, h'.limit.trans h.limit⟩

/-- The chunks handed out after a call of `slabs_alloc`. -/
def handedOut (out : List (Ptr × Nat)) (id : Nat) : Option Ptr → List (Ptr × Nat)
  | none => out
  | some it => (it, id) :: out

theorem perslab_lt (h : PagesOk libc cfg s) (hid : POWER_SMALLEST ≤ id ∧ id ≤ s.powerLargest) :
    (s.slabclass id).perslab < 2 ^ 32 := by
  obtain ⟨_, _, hle⟩ := h.sized id hid.1 hid.2
  have hmul := Nat.le_mul_of_pos_left (s.slabclass id).perslab (h.size_pos hid)
  have hmax := cfg.max_le
  omega

/-- A class does not look empty with a new page. -/
theorem slCurr_given (h : SlabsOk libc cfg s out free) (hid : POWER_SMALLEST ≤ id ∧ id ≤ s.powerLargest)
    (hempty : (s.slabclass id).slCurr = 0) (hg : Slabs.PageGiven libc cfg s free id ptr s') :
    (s'.slabclass id).slCurr ≠ 0 := by
  have hperslab := (h.pages.sized id hid.1 hid.2).2.1
  have hlt := perslab_lt h.pages hid
  have hcount := hg.lists.counted id
  have hbefore := h.lists.counted id
  rw [hempty] at hbefore
  rw [Function.update_self, List.length_append, List.length_reverse, length_chunksOf, UInt32.ofNat_add, ← hbefore,
    UInt32.add_zero] at hcount
  rw [hcount]
  intro hzero
  have hnat := congrArg UInt32.toNat hzero
  rw [UInt32.toNat_ofNat'] at hnat
  simp only [UInt32.toNat_zero] at hnat
  omega

/-- `slabs_alloc` fails only where its class is given no page. -/
theorem doSlabsAlloc_spec (h : SlabsOk libc cfg s out free) (size : UInt64) (id : Nat) (hroom : SlabRoom s id) :
    ∃ s' ret, s.doSlabsAlloc libc cfg size id = some (s', ret) ∧
      (∃ free', SlabsOk libc cfg s' (handedOut out id ret) free' ∧
        ∀ n ≤ 2 ^ 32, (POWER_SMALLEST ≤ id ∧ id ≤ s.powerLargest → (s.slabclass id).perslab ≤ n) → Short n free →
          Short n free') ∧
      Fixed s s' ∧ OverLimit s s' ∧
      (ret = none → POWER_SMALLEST ≤ id ∧ id ≤ s.powerLargest → s.doSlabsNewslab libc cfg id = some (s', false)) := by
  unfold Slabs.doSlabsAlloc
  by_cases hid : POWER_SMALLEST ≤ id ∧ id ≤ s.powerLargest
  swap
  · rw [if_pos (by omega)]
    exact ⟨s, none, rfl, ⟨free, h, fun _ _ _ hs => hs⟩, (SameRows.of_ground rfl).fixed,
      fun _ hne => absurd rfl hne, fun _ hid' => absurd hid' hid⟩
  rw [if_neg (by omega)]
  by_cases hcurr : (s.slabclass id).slCurr = 0
  · rw [if_neg (by simp [hcurr])]
    obtain ⟨s₁, given, hs₁, hpage⟩ := Slabs.doSlabsNewslab_spec h.lists h.pages h.inLists
      (fun id' it hit => h.mem_chunks.mpr (.inl hit)) hid (hroom hcurr)
    cases given with
    | false =>
      have hpage : SlabsKept libc cfg s free s₁ := hpage
      refine ⟨s₁, none, ?_, ⟨free, h.kept hpage, fun _ _ _ hs => hs⟩, hpage.same.fixed,
        fun id' hne => absurd (hpage.same.slabs id') hne, fun _ _ => hs₁⟩
      simp [hcurr, hs₁]
    | true =>
      obtain ⟨ptr, hpage⟩ : ∃ ptr, Slabs.PageGiven libc cfg s free id ptr s₁ := hpage
      have h₁ := h.given hpage
      have hcurr₁ := slCurr_given h hid hcurr hpage
      obtain ⟨it, rest, hfree⟩ := h₁.lists.ne_nil_of_slCurr hcurr₁
      have hslots : (s₁.slabclass id).slots = some it := by rw [h₁.lists.slots_eq, hfree]; rfl
      have hsame : SameRows s₁ (s₁.take it size id) := .of_ground Slabs.ground_take
      refine ⟨s₁.take it size id, some it, ?_, ⟨_, h₁.take hfree size, fun n hn hle hs => ?_⟩,
        hpage.fixed.trans hsame.fixed, fun id' hne hlimit hover => ?_, nofun⟩
      · simp [hcurr, hs₁, hcurr₁, hslots]
        rfl
      · have hlen := congrArg List.length hfree
        rw [Function.update_self, hs.eq_nil hn h.lists hcurr, List.append_nil, List.length_reverse, length_chunksOf,
          List.length_cons] at hlen
        rw [Function.update_idem]
        have hle := hle hid
        exact hs.update (by omega)
      · rw [hsame.slabs] at hne
        rw [hsame.malloced] at hover
        by_cases hid' : id' = id
        · subst hid'
          exact hpage.first hlimit hover
        · exact absurd (hpage.others id' hid') hne
  · obtain ⟨it, rest, hfree⟩ := h.lists.ne_nil_of_slCurr hcurr
    have hslots : (s.slabclass id).slots = some it := by rw [h.lists.slots_eq, hfree]; rfl
    have hclear := h.lists.clear id it (hfree ▸ List.mem_cons_self)
    have hsame : SameRows s (s.take it size id) := .of_ground Slabs.ground_take
    refine ⟨s.take it size id, some it, ?_, ⟨_, h.take hfree size, fun _ _ _ hs => ?_⟩, hsame.fixed,
      fun id' hne => absurd (hsame.slabs id') hne, nofun⟩
    swap
    · have hlen := hs id
      rw [hfree, List.length_cons] at hlen
      exact hs.update (by omega)
    rw [if_neg (by simp [hslots, hclear])]
    simp [hcurr, hslots]
    rfl

end

/-! ## Runs -/

/-- The allocator, and the chunks that are handed out with their classes. -/
structure SlabUse where
  slabs : Slabs
  out : List (Ptr × Nat)

/-- A call of `slabs_alloc` or of `slabs_free`, or the holder of a chunk writes its header. -/
inductive SlabOp where
  | alloc (size : UInt64) (id : Nat)
  | free (ptr : Ptr) (size : UInt64) (id : Nat)
  | write (ptr : Ptr) (header : ChunkHeader)

/-- Only chunks that are handed out are freed and written, and freed to their own class. -/
inductive SlabStep (libc : Libc) (cfg : SlabSettings) : SlabUse → SlabOp → SlabUse → Prop where
  | alloc {u : SlabUse} {size : UInt64} {id : Nat} {s : Slabs} {ret : Option Ptr} :
      u.slabs.doSlabsAlloc libc cfg size id = some (s, ret) →
      SlabStep libc cfg u (.alloc size id) ⟨s, handedOut u.out id ret⟩
  | free {u : SlabUse} {ptr : Ptr} {size : UInt64} {id : Nat} {s : Slabs} : (ptr, id) ∈ u.out →
      u.slabs.doSlabsFree ptr size id = some s →
      SlabStep libc cfg u (.free ptr size id) ⟨s, u.out.erase (ptr, id)⟩
  | write {u : SlabUse} {ptr : Ptr} {id : Nat} {header : ChunkHeader} : (ptr, id) ∈ u.out →
      SlabStep libc cfg u (.write ptr header)
        ⟨{ u.slabs with mem := Function.update u.slabs.mem ptr header }, u.out⟩

/-- How many chunks of a class are free. -/
def SlabUse.freeChunks (u : SlabUse) (id : Nat) : Nat :=
  (u.slabs.slabclass id).slabs.toNat * (u.slabs.slabclass id).perslab - (outOf u.out id).length

/-- The free chunks of a class stay less than `2 ^ 32`. -/
def SlabGuard (u : SlabUse) : SlabOp → Prop
  | .alloc _ id => SlabRoom u.slabs id
  | .free _ _ id => u.freeChunks id + 1 < 2 ^ 32
  | .write _ _ => True

/-- The chunks of a class: `l` is the list that its links make. -/
structure ClassSound (u : SlabUse) (id : Nat) (l : List Ptr) : Prop where
  linked : DList u.slabs.next u.slabs.prev (u.slabs.slabclass id).slots l.getLast? l
  once : (u.slabs.chunks id).Nodup
  shared : (u.slabs.chunks id).Perm (l ++ outOf u.out id)
  length : (u.slabs.slabclass id).slCurr.toNat = l.length
  total : (u.slabs.slabclass id).slabs.toNat * (u.slabs.slabclass id).perslab =
    (u.slabs.slabclass id).slCurr.toNat + (outOf u.out id).length

structure SlabsSound (cfg : SlabSettings) (u : SlabUse) : Prop where
  classes : ∀ id, ∃ l, ClassSound u id l
  distinct : ∀ id id', ∀ it ∈ u.slabs.chunks id, it ∈ u.slabs.chunks id' → id = id'
  apart : ∀ id i id' j, i < (u.slabs.slabclass id).slabs.toNat → j < (u.slabs.slabclass id').slabs.toNat →
    (id, i) ≠ (id', j) →
    Separate (u.slabs.page id i) (u.slabs.pageLen cfg id) (u.slabs.page id' j) (u.slabs.pageLen cfg id')
  arena : ∀ base, u.slabs.memBase = some base → ∀ id, ∀ i < (u.slabs.slabclass id).slabs.toNat,
    base ≤ u.slabs.page id i ∧ u.slabs.page id i + u.slabs.pageLen cfg id ≤ base + u.slabs.memLimit.toNat

/-- What holds in every state of a run. -/
def SlabsInv (libc : Libc) (cfg : SlabSettings) (u : SlabUse) : Prop :=
  ∃ free, SlabsOk libc cfg u.slabs u.out free ∧ Short (2 ^ 32) free

section

variable {libc : Libc} {cfg : SlabSettings} {u u' : SlabUse} {op : SlabOp} {free : Nat → List Ptr} {id : Nat}

theorem length_chunks (s : Slabs) (id : Nat) :
    (s.chunks id).length = (s.slabclass id).slabs.toNat * (s.slabclass id).perslab := by
  unfold Slabs.chunks Slabs.pages
  rw [List.length_flatMap]
  simp [length_chunksOf, Function.comp_def]

theorem SlabsOk.total {s : Slabs} {out : List (Ptr × Nat)} (h : SlabsOk libc cfg s out free) (id : Nat) :
    (s.slabclass id).slabs.toNat * (s.slabclass id).perslab = (free id).length + (outOf out id).length := by
  rw [← length_chunks, (h.shared id).length_eq, List.length_append]

theorem SlabsInv.sound (h : SlabsInv libc cfg u) : SlabsSound cfg u := by
  obtain ⟨free, h, hshort⟩ := h
  refine ⟨fun id => ⟨free id, h.lists.linked id, h.pages.nodup_chunks id, h.shared id, ?_, ?_⟩,
    fun id id' it h1 h2 => h.pages.chunks_once h1 h2, h.pages.apart, fun base hbase id i hi => ?_⟩
  · rw [h.lists.counted id, UInt32.toNat_ofNat', Nat.mod_eq_of_lt (hshort id)]
  · rw [h.total id, h.lists.counted id, UInt32.toNat_ofNat', Nat.mod_eq_of_lt (hshort id)]
  · have hgranted := h.pages.granted id i hi
    rw [Slabs.Granted, hbase] at hgranted
    exact ⟨hgranted.1, hgranted.2.2⟩

theorem SlabsInv.step (h : SlabsInv libc cfg u) (hg : SlabGuard u op) (hs : SlabStep libc cfg u op u') :
    SlabsInv libc cfg u' ∧ OverLimit u.slabs u'.slabs := by
  obtain ⟨free, h, hshort⟩ := h
  cases hs with
  | @alloc size id s ret hs =>
    obtain ⟨s', ret', hs', ⟨free', h', hshort'⟩, _, hover, _⟩ := doSlabsAlloc_spec h size id hg
    obtain ⟨rfl, rfl⟩ := Prod.mk.inj (Option.some.inj (hs'.symm.trans hs))
    exact ⟨⟨free', h', hshort' _ (Nat.le_refl _) (fun hid => Nat.le_of_lt (perslab_lt h.pages hid)) hshort⟩, hover⟩
  | @free ptr size id s hout hs =>
    have hlen : (free id).length + 1 < 2 ^ 32 := by
      have hg : u.freeChunks id + 1 < 2 ^ 32 := hg
      rwa [SlabUse.freeChunks, h.total id, Nat.add_sub_cancel] at hg
    obtain ⟨h', hsame⟩ := h.giveBack hout hs
    exact ⟨⟨_, h', hshort.update hlen⟩, fun id' hne => absurd (hsame.slabs id') hne⟩
  | @write ptr id header hout =>
    exact ⟨⟨free, h.write hout header, hshort⟩, fun id' hne => absurd rfl hne⟩

end

/-! ## Starting up -/

section

variable {libc : Libc} {cfg : SlabSettings}

theorem le_aligned (n : Nat) : n ≤ Slabs.aligned n := by
  unfold Slabs.aligned
  split <;> omega

/-- Every class has room for the header of an item. -/
theorem sizeofItem_le_size : ∀ {n size : Nat}, sizeofItem ≤ size → ∀ x ∈ cfg.sizesFrom n size, sizeofItem ≤ x := by
  intro n
  induction n with
  | zero => intro size _ x hx; cases hx
  | succ n ih =>
    intro size hsize x hx
    rw [SlabSettings.sizesFrom] at hx
    split at hx
    · have haligned := Nat.le_trans hsize (le_aligned size)
      rcases List.mem_cons.mp hx with rfl | hx
      · exact haligned
      · exact ih (Nat.le_trans haligned (cfg.grows _)) x hx
    · cases hx

theorem initClass_sized {id : Nat} (h1 : POWER_SMALLEST ≤ id) (h2 : id ≤ cfg.powerLargest) :
    sizeofItem ≤ (cfg.initClass id).size ∧ (cfg.initClass id).size * (cfg.initClass id).perslab ≤ cfg.itemSizeMax := by
  unfold SlabSettings.initClass
  by_cases hlast : id = cfg.powerLargest
  · rw [if_pos hlast]
    have hmin := cfg.min_le
    exact ⟨Nat.le_trans (by decide) hmin, Nat.le_of_eq (Nat.mul_one _)⟩
  · have hlt : id < cfg.powerLargest := Nat.lt_of_le_of_ne h2 hlast
    rw [if_neg hlast, if_pos ⟨h1, hlt⟩]
    have hindex : id - POWER_SMALLEST < cfg.classSizes.length := by
      unfold SlabSettings.powerLargest at hlt
      omega
    refine ⟨?_, Nat.mul_div_le _ _⟩
    dsimp only [emptyClass]
    rw [List.getD_eq_getElem _ _ hindex]
    exact sizeofItem_le_size (Nat.le_add_right _ _) _ (List.getElem_mem hindex)

theorem initClass_empty (id : Nat) : (cfg.initClass id).slots = none ∧ (cfg.initClass id).slCurr = 0 ∧
    (cfg.initClass id).slabs = 0 ∧ (cfg.initClass id).listSize = 0 := by
  unfold SlabSettings.initClass
  split
  · exact ⟨rfl, rfl, rfl, rfl⟩
  · split
    · exact ⟨rfl, rfl, rfl, rfl⟩
    · exact ⟨rfl, rfl, rfl, rfl⟩

/-- The classes have no chunks yet. -/
theorem slabsOk_setup (hper : ∀ id, POWER_SMALLEST ≤ id → id ≤ cfg.powerLargest → 0 < (cfg.initClass id).perslab) :
    SlabsOk libc cfg (Slabs.setup libc cfg) [] fun _ => [] := by
  have hslabs : ∀ id, ((Slabs.setup libc cfg).slabclass id).slabs = 0 := fun id => (initClass_empty id).2.2.1
  have hnone : ∀ id i, ¬i < ((Slabs.setup libc cfg).slabclass id).slabs.toNat := by
    intro id i
    rw [hslabs]
    exact Nat.not_lt_zero i
  refine ⟨⟨fun id => ?_, nofun, fun id => (initClass_empty id).2.1, nofun⟩, ⟨fun id h1 h2 => ?_, fun id _ => hslabs id,
    fun id i id' j hi => absurd hi (hnone id i), fun id i hi => absurd hi (hnone id i), fun base hbase => ?_⟩,
    fun id => ?_, fun id => ?_⟩
  · change DList _ _ (cfg.initClass id).slots none []
    rw [(initClass_empty id).1]
    exact ⟨⟨rfl, rfl⟩, List.nodup_nil⟩
  · obtain ⟨hsize, hle⟩ := initClass_sized h1 h2
    exact ⟨hsize, hper id h1 h2, hle⟩
  · unfold Slabs.setup at hbase ⊢
    dsimp only at hbase ⊢
    rw [hbase]
    exact ⟨Nat.le_refl _, .inr rfl⟩
  · rw [hslabs]
    exact Nat.zero_le _
  · rw [Slabs.chunks, Slabs.pages, hslabs]
    exact List.Perm.refl _

/-- The classes from `i` on are still without pages. -/
theorem SlabsOk.preallocate {maxslabs n i : Nat} {s s' : Slabs} {free : Nat → List Ptr} (h : SlabsOk libc cfg s [] free)
    (hshort : Short (2 ^ 32) free) (hi : POWER_SMALLEST ≤ i) (hmax : maxslabs = s.powerLargest)
    (hnone : ∀ id, i ≤ id → (s.slabclass id).slabs = 0)
    (hs : Slabs.slabsPreallocate libc cfg maxslabs n i (i - POWER_SMALLEST) s = some s') :
    ∃ free', SlabsOk libc cfg s' [] free' ∧ Short (2 ^ 32) free' := by
  induction n generalizing s free i with
  | zero =>
    obtain rfl := Option.some.inj hs
    exact ⟨free, h, hshort⟩
  | succ n ih =>
    rw [Slabs.slabsPreallocate] at hs
    split at hs
    · obtain rfl := Option.some.inj hs
      exact ⟨free, h, hshort⟩
    · rename_i hgo
      have hid : POWER_SMALLEST ≤ i ∧ i ≤ s.powerLargest := ⟨hi, by unfold POWER_SMALLEST at hi hgo; omega⟩
      have hslabs : (s.slabclass i).slabs.toNat < 2 ^ 31 := by
        rw [hnone i (Nat.le_refl i)]
        decide
      obtain ⟨s₁, given, hs₁, hpage⟩ := Slabs.doSlabsNewslab_spec h.lists h.pages h.inLists
        (fun id' it hit => h.mem_chunks.mpr (.inl hit)) hid hslabs
      rw [hs₁] at hs
      cases given with
      | false => cases hs
      | true =>
        obtain ⟨ptr, hpage⟩ : ∃ ptr, Slabs.PageGiven libc cfg s free i ptr s₁ := hpage
        have hlen := h.total i
        rw [hnone i (Nat.le_refl i)] at hlen
        have hlt := perslab_lt h.pages hid
        refine ih (h.given hpage) (hshort.update ?_) (Nat.le_succ_of_le hi) (hmax.trans hpage.largest.symm) (fun id hid' => ?_) ?_
        · rw [List.length_append, List.length_reverse, length_chunksOf]
          simp only [UInt32.toNat_zero, Nat.zero_mul] at hlen
          omega
        · rw [hpage.others id (by omega)]
          exact hnone id (by omega)
        · have hnext : i + 1 - POWER_SMALLEST = i - POWER_SMALLEST + 1 := by omega
          rw [hnext]
          exact hs

theorem slabsInv_init (hper : ∀ id, POWER_SMALLEST ≤ id → id ≤ cfg.powerLargest → 0 < (cfg.initClass id).perslab)
    {s : Slabs} (hs : Slabs.slabsInit libc cfg = some s) : SlabsInv libc cfg ⟨s, []⟩ := by
  have hsetup : SlabsOk libc cfg (Slabs.setup libc cfg) [] fun _ => [] := slabsOk_setup hper
  unfold Slabs.slabsInit at hs
  split at hs
  · exact hsetup.preallocate (fun _ => Nat.two_pow_pos 32) (Nat.le_refl _) rfl (fun id _ => (initClass_empty id).2.2.1) hs
  · obtain rfl := Option.some.inj hs
    exact ⟨_, hsetup, fun _ => Nat.two_pow_pos 32⟩

/-- As long as the free chunks of a class stay less than `2 ^ 32`, each chunk of each page is on
the free list of its class or handed out, the counts are those of the chunks, and the pages lie
apart. -/
theorem slabs_sound (libc : Libc) (cfg : SlabSettings)
    (hper : ∀ id, POWER_SMALLEST ≤ id → id ≤ cfg.powerLargest → 0 < (cfg.initClass id).perslab) (s : Slabs)
    (hs : Slabs.slabsInit libc cfg = some s) (ops : List SlabOp) (u : SlabUse)
    (hrun : Run (Guarded SlabGuard (SlabStep libc cfg)) ⟨s, []⟩ ops u) :
    SlabsSound cfg u ∧ ∀ op u', SlabGuard u op → SlabStep libc cfg u op u' → OverLimit u.slabs u'.slabs := by
  have hinv := hrun.invariant_of_guard (fun _ _ _ h hg hstep => (h.step hg hstep).1) (slabsInv_init hper hs)
  exact ⟨hinv.sound, fun op u' hg hstep => (hinv.step hg hstep).2⟩

end
end RamCube
