import RamCube.Slabs.Allocator

/-! # The free lists

What `do_slabs_free` and `do_slabs_alloc` do to the lists of free chunks, whatever the
pages are. -/
namespace RamCube

namespace Slabs

def next (s : Slabs) : Ptr → Option Ptr := fun it => (s.mem it).next

def prev (s : Slabs) : Ptr → Option Ptr := fun it => (s.mem it).prev

/-- A class without its free list. -/
def bare (p : Slabclass) : Slabclass :=
  { p with
    slots := none
    slCurr := 0
    requested := 0 }

/-- The allocator without the free lists and the memory: its pages and what it counts of
them. -/
def ground (s : Slabs) : Slabs :=
  { s with
    mem := fun _ => zeroHeader
    slabclass := fun id => bare (s.slabclass id) }

end Slabs

/-- The chunks of each free list in order. -/
structure FreeLists (s : Slabs) (free : Nat → List Ptr) : Prop where
  linked : ∀ id, DList s.next s.prev (s.slabclass id).slots (free id).getLast? (free id)
  clear : ∀ id, ∀ it ∈ free id, (s.mem it).slabsClsid = 0
  counted : ∀ id, (s.slabclass id).slCurr = UInt32.ofNat (free id).length
  once : ∀ id id', ∀ it ∈ free id, it ∈ free id' → id = id'

namespace Slabs

variable {s s' : Slabs} {it : Ptr} {id : Nat} {node link : Option Ptr} {f : ChunkHeader → ChunkHeader}

@[simp] theorem slabclass_setPrev : (s.setPrev node link).slabclass = s.slabclass := by
  cases node <;> rfl

@[simp] theorem next_setPrev : (s.setPrev node link).next = s.next := by
  cases node with
  | none => rfl
  | some p =>
    funext q
    by_cases hq : q = p
    · subst hq
      simp [setPrev, modify, next]
    · simp [setPrev, modify, next, hq]

@[simp] theorem prev_setPrev : (s.setPrev node link).prev = setLink s.prev node link := by
  cases node with
  | none => rfl
  | some p =>
    funext q
    by_cases hq : q = p
    · subst hq
      simp [setPrev, modify, prev, setLink]
    · simp [setPrev, modify, prev, setLink, hq]

@[simp] theorem clsid_setPrev {p : Ptr} : ((s.setPrev node link).mem p).slabsClsid = (s.mem p).slabsClsid := by
  cases node with
  | none => rfl
  | some q =>
    by_cases hq : p = q
    · subst hq
      simp [setPrev, modify]
    · simp [setPrev, modify, hq]

@[simp] theorem ground_setPrev : (s.setPrev node link).ground = s.ground := by
  cases node <;> rfl

@[simp] theorem next_modify : (s.modify it f).next = Function.update s.next it (f (s.mem it)).next := by
  funext q
  by_cases hq : q = it
  · subst hq
    simp [modify, next]
  · simp [modify, next, hq]

@[simp] theorem prev_modify : (s.modify it f).prev = Function.update s.prev it (f (s.mem it)).prev := by
  funext q
  by_cases hq : q = it
  · subst hq
    simp [modify, prev]
  · simp [modify, prev, hq]

@[simp] theorem slabclass_modify : (s.modify it f).slabclass = s.slabclass := rfl

@[simp] theorem ground_modify : (s.modify it f).ground = s.ground := rfl

@[simp] theorem next_setClass {p : Slabclass} : (s.setClass id p).next = s.next := rfl

@[simp] theorem prev_setClass {p : Slabclass} : (s.setClass id p).prev = s.prev := rfl

@[simp] theorem mem_setClass {p : Slabclass} : (s.setClass id p).mem = s.mem := rfl

/-- A class is written without a change to its pages. -/
theorem ground_setClass {p : Slabclass} (h : bare p = bare (s.slabclass id)) : (s.setClass id p).ground = s.ground := by
  have hrow : (s.setClass id p).ground.slabclass = s.ground.slabclass := by
    funext id'
    by_cases hid : id' = id
    · subst hid
      simpa [setClass, ground] using h
    · simp [setClass, ground, hid]
  unfold ground at hrow ⊢
  dsimp only at hrow ⊢
  rw [hrow]
  rfl

end Slabs

/-! ## A chunk is freed -/

namespace FreeLists

variable {s s' : Slabs} {free : Nat → List Ptr} {it : Ptr} {id : Nat}

theorem head_mem (h : FreeLists s free) (hslots : (s.slabclass id).slots = some it) : it ∈ free id :=
  List.mem_of_mem_head? ((h.linked id).head_eq.symm.trans hslots)

/-- A list stays where its links and its class do. -/
theorem linked_of (h : FreeLists s free) (id : Nat) (next prev : Ptr → Option Ptr)
    (hn : ∀ p ∈ free id, next p = s.next p) (hp : ∀ p ∈ free id, prev p = s.prev p) :
    DList next prev (s.slabclass id).slots (free id).getLast? (free id) := (h.linked id).congr hn hp

/-- The lists are kept in the headers of their chunks and in the classes. -/
theorem of_rows (h : FreeLists s free) (hmem : ∀ id, ∀ it ∈ free id, s'.mem it = s.mem it)
    (hrow : ∀ id, (s'.slabclass id).slots = (s.slabclass id).slots ∧ (s'.slabclass id).slCurr = (s.slabclass id).slCurr) :
    FreeLists s' free := by
  refine ⟨fun id => ?_, fun id it hit => ?_, fun id => ?_, h.once⟩
  · rw [(hrow id).1]
    refine h.linked_of id _ _ (fun p hp => ?_) (fun p hp => ?_)
    · rw [Slabs.next, Slabs.next, hmem id p hp]
    · rw [Slabs.prev, Slabs.prev, hmem id p hp]
  · rw [hmem id it hit]
    exact h.clear id it hit
  · rw [(hrow id).2]
    exact h.counted id

theorem push (h : FreeLists s free) (size : UInt64) (hnew : ∀ id, it ∉ free id) (hclsid : (s.mem it).slabsClsid = 0)
    (hid : POWER_SMALLEST ≤ id ∧ id ≤ s.powerLargest) : ∃ s', s.doSlabsFree it size id = some s' ∧
      FreeLists s' (Function.update free id (it :: free id)) ∧ s'.ground = s.ground ∧
      ∀ p, (s'.mem p).slabsClsid = (s.mem p).slabsClsid := by
  have hgo : ¬((s.mem it).slabsClsid ≠ 0 ∨ id < POWER_SMALLEST ∨ s.powerLargest < id) := by
    simp only [hclsid, ne_eq, not_true_eq_false, false_or]
    omega
  have hmem : ∀ p, (((s.modify it fun h => { h with
      itFlags := h.itFlags ||| ITEM_SLABBED
      prev := none
      next := (s.slabclass id).slots }).setPrev (s.slabclass id).slots (some it)).mem p).slabsClsid =
      (s.mem p).slabsClsid := by
    intro p
    rw [Slabs.clsid_setPrev]
    by_cases hp : p = it
    · subst hp
      simp [Slabs.modify]
    · simp [Slabs.modify, hp]
  refine ⟨_, by rw [Slabs.doSlabsFree, if_neg hgo], ⟨fun id' => ?_, fun id' p hp => ?_, fun id' => ?_,
    fun id₁ id₂ p h1 h2 => ?_⟩, ?_, fun p => ?_⟩
  · rw [Slabs.next_setClass, Slabs.prev_setClass, Slabs.next_setPrev, Slabs.prev_setPrev, Slabs.next_modify,
      Slabs.prev_modify]
    by_cases hid' : id' = id
    · subst hid'
      have hpush := (h.linked id').push (hnew id')
      have hlast : (it :: free id').getLast? =
          if (free id').getLast? = none then some it else (free id').getLast? := by
        cases hl : (free id').getLast? with
        | none =>
          rw [List.getLast?_eq_none_iff] at hl
          simp [hl]
        | some q => simp [List.getLast?_cons, hl]
      simpa [Slabs.setClass, hlast] using hpush
    · have hstay := h.linked_of id' (Function.update s.next it (s.slabclass id).slots)
        (setLink (Function.update s.prev it none) (s.slabclass id).slots (some it)) (fun p hp => ?_) (fun p hp => ?_)
      · simpa [Slabs.setClass, hid'] using hstay
      · exact Function.update_of_ne (fun he : p = it => hnew id' (he ▸ hp)) _ _
      · rw [setLink_of_ne fun he => hid' (h.once id' id p hp (h.head_mem he)),
          Function.update_of_ne fun he : p = it => hnew id' (he ▸ hp)]
  · rw [Slabs.mem_setClass, hmem]
    by_cases hid' : id' = id
    · subst hid'
      rw [Function.update_self] at hp
      rcases List.mem_cons.mp hp with rfl | hp
      · exact hclsid
      · exact h.clear id' p hp
    · rw [Function.update_of_ne hid'] at hp
      exact h.clear id' p hp
  · by_cases hid' : id' = id
    · subst hid'
      simp [Slabs.setClass, h.counted id', UInt32.ofNat_add]
    · simp [Slabs.setClass, hid', h.counted id']
  · have hone : ∀ {id'}, p ∈ Function.update free id (it :: free id) id' → p = it ∧ id' = id ∨ p ∈ free id' := by
      intro id' hp
      by_cases hid' : id' = id
      · subst hid'
        rw [Function.update_self] at hp
        rcases List.mem_cons.mp hp with rfl | hp
        · exact .inl ⟨rfl, rfl⟩
        · exact .inr hp
      · rw [Function.update_of_ne hid'] at hp
        exact .inr hp
    rcases hone h1 with ⟨hp, h1⟩ | h1
    · rcases hone h2 with ⟨_, h2⟩ | h2
      · rw [h1, h2]
      · exact absurd (hp ▸ h2) (hnew id₂)
    · rcases hone h2 with ⟨hp, _⟩ | h2
      · exact absurd (hp ▸ h1) (hnew id₁)
      · exact h.once id₁ id₂ p h1 h2
  · rw [Slabs.ground_setClass (by simp [Slabs.bare]), Slabs.ground_setPrev, Slabs.ground_modify]
  · exact hmem p

end FreeLists

/-! ## A chunk is handed out -/

namespace Slabs

variable {s : Slabs} {it : Ptr} {id : Nat} {size : UInt64}

/-- The first chunk of a free list is taken from it. -/
def take (s : Slabs) (it : Ptr) (size : UInt64) (id : Nat) : Slabs :=
  (s.setPrev (s.next it) none).setClass id { s.slabclass id with
    slots := s.next it
    slCurr := (s.slabclass id).slCurr - 1
    requested := (s.slabclass id).requested + size }

@[simp] theorem ground_take : (s.take it size id).ground = s.ground := by
  rw [take, ground_setClass (by simp [bare]), ground_setPrev]

@[simp] theorem clsid_take {p : Ptr} : ((s.take it size id).mem p).slabsClsid = (s.mem p).slabsClsid :=
  clsid_setPrev

end Slabs

namespace FreeLists

variable {s : Slabs} {free : Nat → List Ptr} {it : Ptr} {rest : List Ptr} {id : Nat} {size : UInt64}

theorem slots_eq (h : FreeLists s free) : (s.slabclass id).slots = (free id).head? := (h.linked id).head_eq

/-- Only a list of `2 ^ 32` chunks, or a multiple of that, can look empty. -/
theorem ne_nil_of_slCurr (h : FreeLists s free) (hc : (s.slabclass id).slCurr ≠ 0) : ∃ it rest, free id = it :: rest := by
  refine List.exists_cons_of_ne_nil fun hnil => hc ?_
  rw [h.counted, hnil]
  rfl

theorem pop (h : FreeLists s free) (hfree : free id = it :: rest) :
    FreeLists (s.take it size id) (Function.update free id rest) := by
  have hl : DList s.next s.prev (s.slabclass id).slots (free id).getLast? ([] ++ it :: rest) := by
    rw [List.nil_append, ← hfree]
    exact h.linked id
  have hcut := hl.cut
  have hlinks := hl.links
  have hit : it ∉ rest := (List.nodup_cons.mp hl.nodup).1
  have hmem : ∀ {id' p}, p ∈ Function.update free id rest id' → p ∈ free id' := by
    intro id' p hp
    by_cases hid' : id' = id
    · subst hid'
      rw [Function.update_self] at hp
      rw [hfree]
      exact List.mem_cons_of_mem _ hp
    · rwa [Function.update_of_ne hid'] at hp
  refine ⟨fun id' => ?_, fun id' p hp => ?_, fun id' => ?_, fun id₁ id₂ p h1 h2 => h.once id₁ id₂ p (hmem h1) (hmem h2)⟩
  · rw [Slabs.take, Slabs.next_setClass, Slabs.prev_setClass, Slabs.next_setPrev, Slabs.prev_setPrev]
    by_cases hid' : id' = id
    · subst hid'
      have hlast := hcut.tail_eq
      rw [hlast, h.slots_eq, hfree, List.head?_cons, if_pos rfl, hlinks.2] at hcut
      simpa [Slabs.setClass, setLink] using hcut
    · have hstay := h.linked_of id' s.next (setLink s.prev (s.next it) none) (fun _ _ => rfl) (fun p hp => setLink_of_ne fun he => ?_)
      · simpa [Slabs.setClass, hid'] using hstay
      · have hp' : p ∈ free id := by
          rw [hfree]
          exact List.mem_cons_of_mem _ (List.mem_of_mem_head? (hlinks.1.symm.trans he))
        exact hid' (h.once id' id p hp hp')
  · rw [Slabs.clsid_take]
    exact h.clear id' p (hmem hp)
  · by_cases hid' : id' = id
    · subst hid'
      have hcount := h.counted id'
      rw [hfree, List.length_cons, UInt32.ofNat_add] at hcount
      simp [Slabs.take, Slabs.setClass, hcount]
    · simp [Slabs.take, Slabs.setClass, hid', h.counted id']

end FreeLists

/-! ## A page is split -/

/-- The chunks of a page. -/
def chunksOf (size : Nat) : Nat → Nat → List Nat
  | 0, _ => []
  | n + 1, ptr => ptr :: chunksOf size n (ptr + size)

theorem mem_chunksOf {size n ptr it : Nat} : it ∈ chunksOf size n ptr ↔ ∃ i < n, it = ptr + i * size := by
  induction n generalizing ptr with
  | zero => simp [chunksOf]
  | succ n ih =>
    rw [chunksOf, List.mem_cons, ih]
    constructor
    · rintro (rfl | ⟨i, hi, rfl⟩)
      · exact ⟨0, by omega, by omega⟩
      · exact ⟨i + 1, by omega, by rw [Nat.add_mul]; omega⟩
    · rintro ⟨i, hi, rfl⟩
      cases i with
      | zero => exact .inl (by omega)
      | succ i => exact .inr ⟨i, by omega, by rw [Nat.add_mul]; omega⟩

theorem length_chunksOf {size n ptr : Nat} : (chunksOf size n ptr).length = n := by
  induction n generalizing ptr with
  | zero => rfl
  | succ n ih => rw [chunksOf, List.length_cons, ih]

theorem nodup_chunksOf {size n ptr : Nat} (hsize : 0 < size) : (chunksOf size n ptr).Nodup := by
  induction n generalizing ptr with
  | zero => exact List.nodup_nil
  | succ n ih =>
    refine List.nodup_cons.mpr ⟨fun h => ?_, ih⟩
    obtain ⟨i, _, hi⟩ := mem_chunksOf.mp h
    omega

theorem FreeLists.split {s : Slabs} {free : Nat → List Ptr} {id n ptr : Nat} (h : FreeLists s free)
    (hsize : 0 < (s.slabclass id).size) (hnew : ∀ it ∈ chunksOf (s.slabclass id).size n ptr, ∀ id', it ∉ free id')
    (hclear : ∀ it ∈ chunksOf (s.slabclass id).size n ptr, (s.mem it).slabsClsid = 0)
    (hid : POWER_SMALLEST ≤ id ∧ id ≤ s.powerLargest) : ∃ s', Slabs.splitSlabPageIntoFreelist id n ptr s = some s' ∧
      FreeLists s' (Function.update free id ((chunksOf (s.slabclass id).size n ptr).reverse ++ free id)) ∧
      s'.ground = s.ground := by
  induction n generalizing s free ptr with
  | zero => exact ⟨s, rfl, by simpa [chunksOf] using h, rfl⟩
  | succ n ih =>
    obtain ⟨s₁, hs₁, h₁, hg₁, hcls⟩ := h.push 0 (hnew ptr List.mem_cons_self) (hclear ptr List.mem_cons_self) hid
    have hrow : (s₁.slabclass id).size = (s.slabclass id).size := congrArg (fun g => (g.slabclass id).size) hg₁
    have hlargest : s₁.powerLargest = s.powerLargest := congrArg (fun g => g.powerLargest) hg₁
    have hnodup : (chunksOf (s.slabclass id).size (n + 1) ptr).Nodup := nodup_chunksOf hsize
    have hnew₁ : ∀ it ∈ chunksOf (s₁.slabclass id).size n (ptr + (s.slabclass id).size), ∀ id',
        it ∉ Function.update free id (ptr :: free id) id' := by
      intro it hit id' hmem
      rw [hrow] at hit
      by_cases hid' : id' = id
      · subst hid'
        rw [Function.update_self] at hmem
        rcases List.mem_cons.mp hmem with rfl | hmem
        · exact (List.nodup_cons.mp hnodup).1 hit
        · exact hnew it (List.mem_cons_of_mem _ hit) id' hmem
      · rw [Function.update_of_ne hid'] at hmem
        exact hnew it (List.mem_cons_of_mem _ hit) id' hmem
    have hclear₁ : ∀ it ∈ chunksOf (s₁.slabclass id).size n (ptr + (s.slabclass id).size),
        (s₁.mem it).slabsClsid = 0 := by
      intro it hit
      rw [hrow] at hit
      rw [hcls]
      exact hclear it (List.mem_cons_of_mem _ hit)
    obtain ⟨s', hs', h', hg'⟩ := ih h₁ (hrow ▸ hsize) hnew₁ hclear₁ (hlargest ▸ hid)
    refine ⟨s', ?_, ?_, hg'.trans hg₁⟩
    · rw [Slabs.splitSlabPageIntoFreelist, hs₁]
      simpa [hrow] using hs'
    · rw [hrow, Function.update_self, Function.update_idem] at h'
      simpa [chunksOf] using h'

end RamCube
