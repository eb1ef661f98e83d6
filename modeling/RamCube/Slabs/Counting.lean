import RamCube.Slabs.Allocation

/-! # A count of 32 bits

`sl_curr` is an `unsigned int`. With `2 ^ 32` chunks of a class handed out and then freed, it
tells less than there are. -/
namespace RamCube

/-- Every call is granted: `malloc` takes one kilobyte after the other. -/
def kilobytes : Libc where
  malloc n len := if len ≤ 1024 then some ((n + 1) * 1024) else none
  realloc _ _ := true
  apart i j n m p q hne hp hq := by
    have hn : n ≤ 1024 ∧ (i + 1) * 1024 = p := by simpa using hp
    have hm : m ≤ 1024 ∧ (j + 1) * 1024 = q := by simpa using hq
    omega

/-- The settings of `-m 0 -n 16 -f 2 -I 1024`. -/
def smallPages : SlabSettings where
  itemSizeMax := 1024
  chunkSize := 16
  slabReassign := false
  limit := 0
  prealloc := false
  initialMalloc := 0
  fits size := size ≤ 512
  times size := size * 2
  min_le := Nat.le_refl _
  max_le := by decide
  grows size := by omega

theorem perslab_smallPages {id : Nat} (h1 : POWER_SMALLEST ≤ id) (h2 : id ≤ smallPages.powerLargest) :
    0 < (smallPages.initClass id).perslab ∧ (smallPages.initClass id).perslab ≤ 16 ∧
      (smallPages.initClass id).size * (smallPages.initClass id).perslab ≤ 1024 := by
  have hlast : smallPages.powerLargest = 5 := by decide
  rw [hlast] at h2
  unfold POWER_SMALLEST at h1
  interval_cases id <;> decide

section

variable {s s' : Slabs} {out : List (Ptr × Nat)} {free : Nat → List Ptr} {n id : Nat}

/-- A class can always have another page. -/
theorem newslab_kilobytes (hlimit : s.memLimit = 0) (hbase : s.memBase = none) (hlen : s.pageLen smallPages id ≤ 1024) :
    s.doSlabsNewslab kilobytes smallPages id ≠ some (s', false) := by
  intro h
  have hgrown : (s.growSlabList kilobytes id).2 = true ∧ (s.growSlabList kilobytes id).1.memBase = none := by
    unfold Slabs.growSlabList
    dsimp only [kilobytes]
    split
    · exact ⟨rfl, hbase⟩
    · exact ⟨rfl, hbase⟩
  unfold Slabs.doSlabsNewslab at h
  rw [if_neg (fun hover => hover.1 hlimit)] at h
  rcases hg : s.growSlabList kilobytes id with ⟨s₁, given⟩
  rw [hg] at h hgrown
  obtain ⟨rfl, hbase₁⟩ := hgrown
  have halloc : s₁.memoryAllocate kilobytes (s.pageLen smallPages id) =
      ({ s₁ with calls := s₁.calls + 1 }, some ((s₁.calls + 1) * 1024)) := by
    unfold Slabs.memoryAllocate
    rw [hbase₁]
    dsimp only [kilobytes]
    rw [if_pos hlen]
  dsimp only at h
  rw [halloc] at h
  obtain ⟨s₂, _, hs₂⟩ := Option.bind_eq_some_iff.mp h
  cases hs₂

/-- `n` chunks of the first class of `smallPages` are handed out. -/
structure Handing (u : SlabUse) (n : Nat) : Prop where
  sound : ∃ free, SlabsOk kilobytes smallPages u.slabs u.out free ∧ Short 17 free
  fixed : Fixed (Slabs.setup kilobytes smallPages) u.slabs
  first : u.out.length = n ∧ ∀ x ∈ u.out, x.2 = 1

theorem Handing.step {u : SlabUse} (h : Handing u n) (hn : n < 2 ^ 32) :
    ∃ u', SlabStep kilobytes smallPages u (.alloc 0 1) u' ∧ Handing u' (n + 1) := by
  obtain ⟨free, hok, hshort⟩ := h.sound
  have hid : POWER_SMALLEST ≤ 1 ∧ 1 ≤ u.slabs.powerLargest := by
    rw [h.fixed.largest]
    decide
  have hrow : (u.slabs.slabclass 1).size = 64 ∧ (u.slabs.slabclass 1).perslab = 16 := by
    rw [(h.fixed.sizes 1).1, (h.fixed.sizes 1).2]
    decide
  have hroom : SlabRoom u.slabs 1 := by
    intro _
    have htotal := hok.total 1
    have hfree := hshort 1
    have hout : (outOf u.out 1).length ≤ u.out.length := by
      rw [outOf, List.length_map]
      exact List.length_filter_le _ _
    rw [hrow.2] at htotal
    rw [h.first.1] at hout
    omega
  obtain ⟨s', ret, hs', ⟨free', hok', hshort'⟩, hfixed, _, hnone⟩ := doSlabsAlloc_spec hok 0 1 hroom
  have hsound := hshort' 17 (by decide) (fun _ => by rw [hrow.2]; decide) hshort
  cases ret with
  | none =>
    have hlen : u.slabs.pageLen smallPages 1 ≤ 1024 := by
      rw [Slabs.pageLen, hrow.1, hrow.2]
      decide
    exact absurd (hnone rfl hid) (newslab_kilobytes h.fixed.limit h.fixed.base hlen)
  | some it =>
    refine ⟨_, .alloc hs', ⟨free', hok', hsound⟩, h.fixed.trans hfixed, ?_, fun x hx => ?_⟩
    · exact congrArg (· + 1) h.first.1
    · rcases List.mem_cons.mp hx with rfl | hx
      · rfl
      · exact h.first.2 x hx

theorem handing_start : Handing ⟨Slabs.setup kilobytes smallPages, []⟩ 0 := by
  have hok : SlabsOk kilobytes smallPages (Slabs.setup kilobytes smallPages) [] fun _ => [] :=
    slabsOk_setup fun id h1 h2 => (perslab_smallPages h1 h2).1
  exact ⟨⟨_, hok, fun _ => by decide⟩, ⟨fun _ => ⟨rfl, rfl⟩, rfl, rfl, rfl⟩, rfl, nofun⟩

theorem hand_out (hn : n ≤ 2 ^ 32) : ∃ u, Run (SlabStep kilobytes smallPages) ⟨Slabs.setup kilobytes smallPages, []⟩
    (List.replicate n (.alloc 0 1)) u ∧ Handing u n := by
  induction n with
  | zero => exact ⟨_, .nil _, handing_start⟩
  | succ n ih =>
    obtain ⟨u, hrun, hu⟩ := ih (by omega)
    obtain ⟨u', hstep, hu'⟩ := hu.step (by omega)
    rw [List.replicate_succ']
    exact ⟨u', hrun.append (.single hstep), hu'⟩

end

theorem slabs_sound_first : ∃ u, Run (Guarded SlabGuard (SlabStep kilobytes smallPages))
    ⟨Slabs.setup kilobytes smallPages, []⟩ [.alloc 0 1] u ∧ u.out.length = 1 ∧ SlabsSound smallPages u := by
  obtain ⟨u, hstep, hu⟩ := handing_start.step (Nat.two_pow_pos 32)
  have hguard : SlabGuard ⟨Slabs.setup kilobytes smallPages, []⟩ (.alloc 0 1) := by
    intro _
    decide
  have hrun : Run (Guarded SlabGuard (SlabStep kilobytes smallPages)) ⟨Slabs.setup kilobytes smallPages, []⟩
      [.alloc 0 1] u := .single ⟨hguard, hstep⟩
  exact ⟨u, hrun, hu.first.1,
    (slabs_sound kilobytes smallPages (fun id h1 h2 => (perslab_smallPages h1 h2).1) _ rfl _ u hrun).1⟩

/-- All chunks can be freed, once their holders have cleared them. -/
theorem free_all {libc : Libc} {cfg : SlabSettings} {s : Slabs} {out : List (Ptr × Nat)} {free : Nat → List Ptr}
    (h : SlabsOk libc cfg s out free) : ∃ ops s' free', Run (SlabStep libc cfg) ⟨s, out⟩ ops ⟨s', []⟩ ∧
      SlabsOk libc cfg s' [] free' ∧ SameRows s s' := by
  induction out generalizing s free with
  | nil => exact ⟨[], s, free, .nil _, h, .of_ground rfl⟩
  | cons x out ih =>
    obtain ⟨it, id⟩ := x
    have hout : (it, id) ∈ (it, id) :: out := List.mem_cons_self
    have hw := h.write hout zeroHeader
    have hid := h.in_range (h.mem_chunks.mpr (.inr hout))
    have hclear : (Function.update s.mem it zeroHeader it).slabsClsid = 0 := by
      rw [Function.update_self]
      rfl
    obtain ⟨s₁, hs₁, _⟩ := hw.lists.push 0 (hw.not_free hout) hclear hid
    obtain ⟨hok, hsame⟩ := hw.giveBack hout hs₁
    rw [List.erase_cons_head] at hok
    obtain ⟨ops, s', free', hrun, hok', hsame'⟩ := ih hok
    have hfree : SlabStep libc cfg ⟨{ s with mem := Function.update s.mem it zeroHeader }, (it, id) :: out⟩
        (.free it 0 id) ⟨s₁, ((it, id) :: out).erase (it, id)⟩ := .free hout hs₁
    rw [List.erase_cons_head] at hfree
    refine ⟨.write it zeroHeader :: .free it 0 id :: ops, s', free', .cons (.write hout) (.cons hfree hrun), hok',
      SameRows.trans ?_ (hsame.trans hsame')⟩
    exact .of_ground rfl

/-- The chunks of a class are all free, and `sl_curr` does not tell how many there are. -/
theorem slCurr_wraps : ∃ s ops u, Slabs.slabsInit kilobytes smallPages = some s ∧
    (∀ id, POWER_SMALLEST ≤ id → id ≤ smallPages.powerLargest → 0 < (smallPages.initClass id).perslab) ∧
    Run (SlabStep kilobytes smallPages) ⟨s, []⟩ (List.replicate (2 ^ 32) (.alloc 0 1) ++ ops) u ∧ u.out = [] ∧
    ¬SlabsSound smallPages u := by
  obtain ⟨u, hrun, hu⟩ := hand_out (Nat.le_refl _)
  obtain ⟨free, hok, _⟩ := hu.sound
  obtain ⟨ops, s', free', hrun', hok', hsame⟩ := free_all hok
  refine ⟨_, ops, ⟨s', []⟩, rfl, fun id h1 h2 => (perslab_smallPages h1 h2).1, hrun.append hrun', rfl, fun hsound => ?_⟩
  obtain ⟨l, hclass⟩ := hsound.classes 1
  have htotal := hok.total 1
  have hall : outOf u.out 1 = u.out.map Prod.fst := by
    rw [outOf, List.filter_eq_self.mpr fun x hx => by simpa using hu.first.2 x hx]
  have hcount : (s'.slabclass 1).slabs.toNat * (s'.slabclass 1).perslab = (s'.slabclass 1).slCurr.toNat := hclass.total
  have hlt := (s'.slabclass 1).slCurr.toNat_lt
  rw [hall, List.length_map, hu.first.1] at htotal
  rw [hsame.slabs, hsame.perslab, htotal] at hcount
  omega

end RamCube
