import Mathlib.Data.List.TakeWhile
import Mathlib.Logic.Function.Basic
import RamCube.Lib.Run
import RamCube.Slabs.Allocator

/-! # The slab automover (slabs.c)

`slab_automove_decision` looks at the evictions of each class in windows of ten seconds: a class
without any in three windows gives a page to the one with the most in these three. It takes the
evictions of a window as the difference of a counter that `stats reset` zeroes. -/
namespace RamCube

/-- The static variables of `slab_automove_decision`. -/
structure AutomoveStatics where
  evictedOld : Nat → Nat
  slabZeroes : Nat → Nat
  slabWinner : Nat
  slabWins : Nat
  nextRun : Nat

/-- What the loop over the classes changes. -/
structure AutomoveScan where
  evictedOld : Nat → Nat
  slabZeroes : Nat → Nat
  source : Nat
  evictedMax : Nat
  highestSlab : Nat

def evictedDiff (evictedNew evictedOld : Nat → Nat) (i : Nat) : Nat := (evictedNew i + 2 ^ 64 - evictedOld i) % 2 ^ 64

def scanClass (evictedNew totalPages : Nat → Nat) (c : AutomoveScan) (i : Nat) : AutomoveScan :=
  let diff := evictedDiff evictedNew c.evictedOld i
  let evictedOld := Function.update c.evictedOld i (evictedNew i)
  if diff = 0 ∧ 2 < totalPages i then
    let zeroes := (c.slabZeroes i + 1) % 2 ^ 32
    { c with
      evictedOld := evictedOld
      slabZeroes := Function.update c.slabZeroes i zeroes
      source := if c.source = 0 ∧ 3 ≤ zeroes then i else c.source }
  else
    { c with
      evictedOld := evictedOld
      slabZeroes := Function.update c.slabZeroes i 0
      evictedMax := if c.evictedMax < diff then diff else c.evictedMax
      highestSlab := if c.evictedMax < diff then i else c.highestSlab }

/-- The classes that are looked at: the last one is not. -/
def automoveClasses (powerLargest : Nat) : List Nat := List.range' POWER_SMALLEST (powerLargest - POWER_SMALLEST)

def slabAutomoveDecision (powerLargest currentTime : Nat) (evictedNew totalPages : Nat → Nat) (st : AutomoveStatics) :
    Option (Nat × Nat) × AutomoveStatics :=
  if st.nextRun ≤ currentTime then
    let c := (automoveClasses powerLargest).foldl (scanClass evictedNew totalPages) ⟨st.evictedOld, st.slabZeroes, 0, 0, 0⟩
    let again := st.slabWinner ≠ 0 ∧ st.slabWinner = c.highestSlab
    let wins := if again then (st.slabWins + 1) % 2 ^ 32 else 1
    let winner := if again then st.slabWinner else c.highestSlab
    let dest := if again ∧ 3 ≤ wins then winner else 0
    (if c.source ≠ 0 ∧ dest ≠ 0 then some (c.source, dest) else none,
      ⟨c.evictedOld, c.slabZeroes, winner, wins, (currentTime + 10) % 2 ^ 32⟩)
  else (none, st)

/-! ## Windows -/

/-- What happened in a window: the evictions, and the pages at its end. -/
structure SlabWindow where
  evictions : Nat → Nat
  pages : Nat → Nat

structure Automove where
  statics : AutomoveStatics
  /-- `itemstats[i].evicted` -/
  evicted : Nat → Nat
  /-- `slabclass[i].slabs` -/
  slabs : Nat → Nat
  currentTime : Nat
  /-- the evictions in the window that is open -/
  since : Nat → Nat
  /-- the windows before it, the last one first -/
  windows : List SlabWindow

inductive AutomoveEvent where
  | evict (i : Nat)
  | statsReset
  | pages (i n : Nat)
  | clock (now : Nat)
  | decision (result : Option (Nat × Nat))

def Automove.start (slabs : Nat → Nat) (currentTime : Nat) : Automove where
  statics := ⟨fun _ => 0, fun _ => 0, 0, 0, 0⟩
  evicted _ := 0
  slabs := slabs
  currentTime := currentTime
  since _ := 0
  windows := []

def Automove.decision (powerLargest : Nat) (s : Automove) : Option (Nat × Nat) × AutomoveStatics :=
  slabAutomoveDecision powerLargest s.currentTime s.evicted s.slabs s.statics

inductive AutomoveStep (powerLargest : Nat) (s : Automove) : AutomoveEvent → Automove → Prop where
  | evict (i : Nat) : AutomoveStep powerLargest s (.evict i)
      { s with
        evicted := Function.update s.evicted i ((s.evicted i + 1) % 2 ^ 64)
        since := Function.update s.since i (s.since i + 1) }
  | statsReset : AutomoveStep powerLargest s .statsReset { s with evicted := fun _ => 0 }
  | pages (i n : Nat) : AutomoveStep powerLargest s (.pages i n) { s with slabs := Function.update s.slabs i n }
  | clock (now : Nat) : AutomoveStep powerLargest s (.clock now) { s with currentTime := now }
  | window : s.statics.nextRun ≤ s.currentTime → AutomoveStep powerLargest s (.decision (s.decision powerLargest).1)
      { s with
        statics := (s.decision powerLargest).2
        since := fun _ => 0
        windows := ⟨s.since, s.slabs⟩ :: s.windows }
  | early : s.currentTime < s.statics.nextRun → AutomoveStep powerLargest s (.decision (s.decision powerLargest).1)
      { s with statics := (s.decision powerLargest).2 }

/-- No class had evictions that the reset makes forget, and no class is evicted from `2 ^ 64` times in a window. -/
def AutomoveGuard (powerLargest : Nat) (s : Automove) : AutomoveEvent → Prop
  | .evict i => s.since i + 1 < 2 ^ 64
  | .statsReset => ∀ i ∈ automoveClasses powerLargest, s.evicted i = 0
  | _ => True

instance (powerLargest : Nat) (s : Automove) : (e : AutomoveEvent) → Decidable (AutomoveGuard powerLargest s e)
  | .evict i => inferInstanceAs (Decidable (s.since i + 1 < 2 ^ 64))
  | .statsReset => inferInstanceAs (Decidable (∀ i ∈ automoveClasses powerLargest, s.evicted i = 0))
  | .pages _ _ | .clock _ | .decision _ => inferInstanceAs (Decidable True)

/-- Why a page is moved. -/
structure MoveJustified (powerLargest : Nat) (windows : List SlabWindow) (src dst : Nat) : Prop where
  differ : src ≠ dst
  three : 3 ≤ windows.length
  source : src ∈ automoveClasses powerLargest ∧ ∀ w ∈ windows.take 3, 2 < w.pages src ∧ w.evictions src = 0
  dest : dst ∈ automoveClasses powerLargest ∧ ∀ w ∈ windows.take 3, 0 < w.evictions dst ∧
    ∀ i ∈ automoveClasses powerLargest, w.evictions i ≤ w.evictions dst

/-! ## The loop over the classes -/

/-- What the loop has found out about the classes that it is through with. -/
structure ClassesScanned (evictedNew totalPages evictedOld slabZeroes : Nat → Nat) (classes : List Nat) (c : AutomoveScan) : Prop where
  old : ∀ i, c.evictedOld i = if i ∈ classes then evictedNew i else evictedOld i
  zeroes : ∀ i, c.slabZeroes i = if i ∈ classes then
    if evictedDiff evictedNew evictedOld i = 0 ∧ 2 < totalPages i then (slabZeroes i + 1) % 2 ^ 32 else 0 else slabZeroes i
  source : c.source ≠ 0 → c.source ∈ classes ∧ 3 ≤ c.slabZeroes c.source
  max : ∀ i ∈ classes, evictedDiff evictedNew evictedOld i ≤ c.evictedMax
  highest : c.highestSlab ≠ 0 → c.highestSlab ∈ classes ∧ 0 < c.evictedMax ∧
    evictedDiff evictedNew evictedOld c.highestSlab = c.evictedMax

theorem ClassesScanned.step {evictedNew totalPages evictedOld slabZeroes : Nat → Nat} {classes : List Nat} {c : AutomoveScan} {i : Nat}
    (h : ClassesScanned evictedNew totalPages evictedOld slabZeroes classes c) (hi : i ∉ classes) :
    ClassesScanned evictedNew totalPages evictedOld slabZeroes (classes ++ [i]) (scanClass evictedNew totalPages c i) := by
  have hold : c.evictedOld i = evictedOld i := by rw [h.old, if_neg hi]
  have hzero : c.slabZeroes i = slabZeroes i := by rw [h.zeroes, if_neg hi]
  have hdiff : evictedDiff evictedNew c.evictedOld i = evictedDiff evictedNew evictedOld i := by
    rw [evictedDiff, hold, evictedDiff]
  have hmem : ∀ j, j ≠ i → (j ∈ classes ++ [i] ↔ j ∈ classes) := by
    intro j hj
    simp [hj]
  have hother : ∀ j ∈ classes, j ≠ i := fun j hj he => hi (he ▸ hj)
  unfold scanClass
  rw [hdiff, hzero]
  by_cases hidle : evictedDiff evictedNew evictedOld i = 0 ∧ 2 < totalPages i
  · rw [if_pos hidle]
    refine ⟨fun j => ?_, fun j => ?_, fun hs => ?_, fun j hj => ?_, fun hs => ?_⟩
    · by_cases hj : j = i
      · rw [hj]
        simp
      · simp only [Function.update_of_ne hj, hmem j hj]
        exact h.old j
    · by_cases hj : j = i
      · rw [hj]
        simp [hidle]
      · simp only [Function.update_of_ne hj, hmem j hj]
        exact h.zeroes j
    · dsimp only at hs ⊢
      by_cases hfirst : c.source = 0 ∧ 3 ≤ (slabZeroes i + 1) % 2 ^ 32
      · rw [if_pos hfirst, Function.update_self]
        exact ⟨by simp, hfirst.2⟩
      · rw [if_neg hfirst] at hs ⊢
        obtain ⟨hin, hthree⟩ := h.source hs
        rw [Function.update_of_ne (hother _ hin)]
        exact ⟨List.mem_append_left _ hin, hthree⟩
    · rcases List.mem_append.mp hj with hj | hj
      · exact h.max j hj
      · rw [List.mem_singleton.mp hj, hidle.1]
        exact Nat.zero_le _
    · obtain ⟨hin, hmax⟩ := h.highest hs
      exact ⟨List.mem_append_left _ hin, hmax⟩
  · rw [if_neg hidle]
    refine ⟨fun j => ?_, fun j => ?_, fun hs => ?_, fun j hj => ?_, fun hs => ?_⟩
    · by_cases hj : j = i
      · rw [hj]
        simp
      · simp only [Function.update_of_ne hj, hmem j hj]
        exact h.old j
    · by_cases hj : j = i
      · rw [hj]
        simp [hidle]
      · simp only [Function.update_of_ne hj, hmem j hj]
        exact h.zeroes j
    · obtain ⟨hin, hthree⟩ := h.source hs
      dsimp only
      rw [Function.update_of_ne (hother _ hin)]
      exact ⟨List.mem_append_left _ hin, hthree⟩
    · dsimp only
      rcases List.mem_append.mp hj with hj | hj
      · have hle := h.max j hj
        split <;> omega
      · rw [List.mem_singleton.mp hj]
        split <;> omega
    · dsimp only at hs ⊢
      by_cases hmore : c.evictedMax < evictedDiff evictedNew evictedOld i
      · simp only [if_pos hmore]
        exact ⟨by simp, by omega, trivial⟩
      · simp only [if_neg hmore] at hs ⊢
        obtain ⟨hin, hmax⟩ := h.highest hs
        exact ⟨List.mem_append_left _ hin, hmax⟩

theorem scanned (evictedNew totalPages evictedOld slabZeroes : Nat → Nat) {classes : List Nat} (hnodup : classes.Nodup) :
    ClassesScanned evictedNew totalPages evictedOld slabZeroes classes
      (classes.foldl (scanClass evictedNew totalPages) ⟨evictedOld, slabZeroes, 0, 0, 0⟩) := by
  induction classes using List.reverseRecOn with
  | nil =>
    rw [List.foldl_nil]
    exact ⟨fun _ => (if_neg List.not_mem_nil).symm, fun _ => (if_neg List.not_mem_nil).symm, fun h => absurd rfl h, nofun,
      fun h => absurd rfl h⟩
  | append_singleton classes i ih =>
    obtain ⟨hnodup, -, hapart⟩ := List.nodup_append.mp hnodup
    rw [List.foldl_append, List.foldl_cons, List.foldl_nil]
    exact (ih hnodup).step fun hi => hapart i hi i List.mem_cons_self rfl

/-! ## What the static variables know of the windows -/

namespace SlabWindow

/-- The class could give a page away. -/
def idle (i : Nat) (w : SlabWindow) : Bool := decide (2 < w.pages i ∧ w.evictions i = 0)

/-- No class had more evictions. -/
def won (powerLargest i : Nat) (w : SlabWindow) : Bool :=
  decide (0 < w.evictions i ∧ ∀ j ∈ automoveClasses powerLargest, w.evictions j ≤ w.evictions i)

end SlabWindow

structure AutomoveOk (powerLargest : Nat) (s : Automove) : Prop where
  known : ∀ i ∈ automoveClasses powerLargest, s.evicted i = (s.statics.evictedOld i + s.since i) % 2 ^ 64
  old : ∀ i ∈ automoveClasses powerLargest, s.statics.evictedOld i < 2 ^ 64
  since : ∀ i, s.since i < 2 ^ 64
  zeroes : ∀ i ∈ automoveClasses powerLargest, s.statics.slabZeroes i ≤ (s.windows.takeWhile (SlabWindow.idle i)).length
  winner : s.statics.slabWinner ≠ 0 →
    s.statics.slabWinner ∈ automoveClasses powerLargest ∧
      s.statics.slabWins ≤ (s.windows.takeWhile (SlabWindow.won powerLargest s.statics.slabWinner)).length

section

variable {powerLargest : Nat} {s t : Automove} {src dst : Nat}

theorem last_three {p : SlabWindow → Bool} {ws : List SlabWindow} (h : 3 ≤ (ws.takeWhile p).length) :
    3 ≤ ws.length ∧ ∀ w ∈ ws.take 3, p w = true := by
  obtain ⟨rest, hws⟩ := List.takeWhile_prefix (l := ws) p
  have hlen : (ws.takeWhile p).length ≤ ws.length := (List.takeWhile_prefix p).length_le
  refine ⟨by omega, fun w hw => ?_⟩
  rw [← hws, List.take_append_of_le_length h] at hw
  exact List.mem_takeWhile_imp (List.mem_of_mem_take hw)

theorem automoveClasses_nodup (powerLargest : Nat) : (automoveClasses powerLargest).Nodup := List.nodup_range'

theorem AutomoveOk.evictedDiff (h : AutomoveOk powerLargest s) {i : Nat} (hi : i ∈ automoveClasses powerLargest) :
    RamCube.evictedDiff s.evicted s.statics.evictedOld i = s.since i := by
  have h1 := h.known i hi
  have h2 := h.old i hi
  have h3 := h.since i
  unfold RamCube.evictedDiff
  omega

/-- The decision is taken from the static variables as they are after it. -/
theorem decision_some (hran : s.statics.nextRun ≤ s.currentTime) (hres : (s.decision powerLargest).1 = some (src, dst)) :
    src ∈ automoveClasses powerLargest ∧ 3 ≤ (s.decision powerLargest).2.slabZeroes src ∧
      dst = (s.decision powerLargest).2.slabWinner ∧ dst ≠ 0 ∧ 3 ≤ (s.decision powerLargest).2.slabWins := by
  have hscan := scanned s.evicted s.slabs s.statics.evictedOld s.statics.slabZeroes (automoveClasses_nodup powerLargest)
  unfold Automove.decision slabAutomoveDecision at hres ⊢
  rw [if_pos hran] at hres ⊢
  obtain ⟨⟨hsource, hdest⟩, hres⟩ := Option.ite_none_right_eq_some.mp hres
  obtain ⟨rfl, rfl⟩ := Prod.mk.inj (Option.some.inj hres)
  obtain ⟨hin, hthree⟩ := hscan.source hsource
  obtain ⟨hagain, hne⟩ := ite_ne_right_iff.mp hdest
  exact ⟨hin, hthree, if_pos hagain, hdest, hagain.2⟩

theorem AutomoveOk.window (h : AutomoveOk powerLargest s) (hran : s.statics.nextRun ≤ s.currentTime) :
    AutomoveOk powerLargest { s with
      statics := (s.decision powerLargest).2
      since := fun _ => 0
      windows := ⟨s.since, s.slabs⟩ :: s.windows } := by
  have hscan := scanned s.evicted s.slabs s.statics.evictedOld s.statics.slabZeroes (automoveClasses_nodup powerLargest)
  have hbound : ∀ i ∈ automoveClasses powerLargest, s.evicted i < 2 ^ 64 := by
    intro i hi
    rw [h.known i hi]
    exact Nat.mod_lt _ (by decide)
  unfold Automove.decision slabAutomoveDecision
  rw [if_pos hran]
  generalize (automoveClasses powerLargest).foldl (scanClass s.evicted s.slabs) ⟨_, _, 0, 0, 0⟩ = c at hscan ⊢
  refine ⟨fun i hi => ?_, fun i hi => ?_, fun _ => Nat.two_pow_pos 64, fun i hi => ?_, fun hw => ?_⟩
  · dsimp only
    rw [hscan.old, if_pos hi, Nat.add_zero, Nat.mod_eq_of_lt (hbound i hi)]
  · dsimp only
    rw [hscan.old, if_pos hi]
    exact hbound i hi
  · dsimp only
    rw [hscan.zeroes, if_pos hi, h.evictedDiff hi]
    by_cases hidle : s.since i = 0 ∧ 2 < s.slabs i
    · rw [if_pos hidle, List.takeWhile_cons_of_pos (by simp [SlabWindow.idle, hidle]), List.length_cons]
      exact Nat.le_trans (Nat.mod_le ..) (Nat.succ_le_succ (h.zeroes i hi))
    · rw [if_neg hidle]
      exact Nat.zero_le _
  · -- who wins has the most evictions of the window
    have hwon : c.highestSlab ≠ 0 → SlabWindow.won powerLargest c.highestSlab ⟨s.since, s.slabs⟩ = true := by
      intro hne
      obtain ⟨hin, hpos, hmax⟩ := hscan.highest hne
      rw [h.evictedDiff hin] at hmax
      rw [← hmax] at hpos
      refine decide_eq_true ⟨hpos, fun j hj => ?_⟩
      have hle := hscan.max j hj
      rw [h.evictedDiff hj] at hle
      show s.since j ≤ s.since c.highestSlab
      rw [hmax]
      exact hle
    dsimp only at hw ⊢
    split at hw
    · rename_i hagain
      obtain ⟨hne, hsame⟩ := hagain
      obtain ⟨hin, hwins⟩ := h.winner hne
      rw [if_pos ⟨hne, hsame⟩, if_pos ⟨hne, hsame⟩]
      have hthis := hwon (hsame ▸ hne)
      rw [← hsame] at hthis
      refine ⟨hin, ?_⟩
      rw [List.takeWhile_cons_of_pos hthis, List.length_cons]
      exact Nat.le_trans (Nat.mod_le ..) (Nat.succ_le_succ hwins)
    · rename_i hagain
      rw [if_neg hagain, if_neg hagain]
      refine ⟨(hscan.highest hw).1, ?_⟩
      rw [List.takeWhile_cons_of_pos (hwon hw), List.length_cons]
      exact Nat.succ_le_succ (Nat.zero_le _)

theorem AutomoveStep.ok {e : AutomoveEvent} (hs : AutomoveStep powerLargest s e t) (hg : AutomoveGuard powerLargest s e)
    (h : AutomoveOk powerLargest s) : AutomoveOk powerLargest t := by
  cases hs with
  | evict i =>
    refine ⟨fun j hj => ?_, h.old, fun j => ?_, h.zeroes, h.winner⟩
    · have hj' := h.known j hj
      dsimp only
      by_cases he : j = i
      · rw [he] at hj' ⊢
        rw [Function.update_self, Function.update_self, hj', Nat.mod_add_mod, Nat.add_assoc]
      · rw [Function.update_of_ne he, Function.update_of_ne he, hj']
    · dsimp only
      by_cases he : j = i
      · rw [he, Function.update_self]
        exact hg
      · rw [Function.update_of_ne he]
        exact h.since j
  | statsReset =>
    refine ⟨fun i hi => ?_, h.old, h.since, h.zeroes, h.winner⟩
    rw [← h.known i hi]
    exact (hg i hi).symm
  | pages i n => exact ⟨h.known, h.old, h.since, h.zeroes, h.winner⟩
  | clock now => exact ⟨h.known, h.old, h.since, h.zeroes, h.winner⟩
  | window hran => exact h.window hran
  | early hearly =>
    have hkept : (s.decision powerLargest).2 = s.statics := by
      unfold Automove.decision slabAutomoveDecision
      rw [if_neg (Nat.not_le.mpr hearly)]
    rw [hkept]
    exact h

/-- Where the automover moves a page, the last three windows are the reason. -/
theorem automove_justified {slabs : Nat → Nat} {now : Nat} {ops : List AutomoveEvent}
    (hr : Run (Guarded (AutomoveGuard powerLargest) (AutomoveStep powerLargest)) (Automove.start slabs now) ops s)
    (hs : AutomoveStep powerLargest s (.decision (some (src, dst))) t) : MoveJustified powerLargest t.windows src dst := by
  have hstart : AutomoveOk powerLargest (Automove.start slabs now) :=
    ⟨fun _ _ => rfl, fun _ _ => Nat.two_pow_pos 64, fun _ => Nat.two_pow_pos 64, fun _ _ => Nat.zero_le _,
      fun h => absurd rfl h⟩
  have h := hr.invariant_of_guard (I := AutomoveOk powerLargest) (fun _ _ _ h hg hs => hs.ok hg h) hstart
  have ht := hs.ok trivial h
  generalize hres : AutomoveEvent.decision (some (src, dst)) = e at hs
  cases hs with
  | evict | statsReset | pages | clock => cases hres
  | window hran =>
    obtain ⟨hsrc, hzeroes, rfl, hne, hwins⟩ := decision_some hran (AutomoveEvent.decision.inj hres).symm
    obtain ⟨hdst, hwon⟩ := ht.winner hne
    obtain ⟨hlen, hidle⟩ := last_three (Nat.le_trans hzeroes (ht.zeroes src hsrc))
    obtain ⟨-, hwon⟩ := last_three (Nat.le_trans hwins hwon)
    refine ⟨fun he => ?_, hlen, ⟨hsrc, fun w hw => of_decide_eq_true (hidle w hw)⟩, hdst, fun w hw => of_decide_eq_true (hwon w hw)⟩
    -- one had no eviction in the last window, the other had
    have hzero := (of_decide_eq_true (hidle ⟨s.since, s.slabs⟩ List.mem_cons_self)).2
    have hpos := (of_decide_eq_true (hwon ⟨s.since, s.slabs⟩ List.mem_cons_self)).1
    exact absurd hzero (Nat.ne_of_gt (he ▸ hpos))
  | early hearly =>
    have hnone : (s.decision powerLargest).1 = none := by
      unfold Automove.decision slabAutomoveDecision
      rw [if_neg (Nat.not_le.mpr hearly)]
    rw [hnone] at hres
    cases hres

end

/-- Class 2 is evicted from in each window, and class 1 never. -/
theorem automove_justified_evictions : ∃ s t, MoveJustified 4 t.windows 1 2 ∧
    AutomoveStep 4 s (.decision (some (1, 2))) t := by
  have hr : ∃ ops s, Run (Guarded (AutomoveGuard 4) (AutomoveStep 4)) (Automove.start (fun _ => 3) 0) ops s ∧
      (s.decision 4).1 = some (1, 2) ∧ s.statics.nextRun ≤ s.currentTime := by
    refine ⟨_, _, .cons ⟨?_, .evict 2⟩ (.cons ⟨?_, .window (Nat.le_refl 0)⟩ (.cons ⟨?_, .evict 2⟩ (.cons ⟨?_, .clock 10⟩
      (.cons ⟨?_, .window (Nat.le_refl 10)⟩ (.cons ⟨?_, .evict 2⟩ (.cons ⟨?_, .clock 20⟩ (.nil _))))))), ?_, ?_⟩
    all_goals decide +kernel
  obtain ⟨ops, s, hr, hres, hran⟩ := hr
  have hs : AutomoveStep 4 s _ _ := .window hran
  rw [hres] at hs
  exact ⟨s, _, automove_justified hr hs, hs⟩

/-- A reset counts as evictions: class 2 gets a page of class 1 although one window had none. -/
theorem reset_moves_page : ¬ ∀ (powerLargest now src dst : Nat) (slabs : Nat → Nat) (ops : List AutomoveEvent) (s t : Automove),
    Run (AutomoveStep powerLargest) (Automove.start slabs now) ops s →
    AutomoveStep powerLargest s (.decision (some (src, dst))) t → MoveJustified powerLargest t.windows src dst := by
  intro h
  have hr : ∃ ops s, Run (AutomoveStep 4) (Automove.start (fun _ => 3) 0) ops s ∧
      (s.decision 4).1 = some (1, 2) ∧ s.statics.nextRun ≤ s.currentTime ∧ ∃ w ∈ s.windows.take 2, w.evictions 2 = 0 :=
    ⟨_, _, .cons (.evict 2) (.cons (.window (Nat.le_refl 0)) (.cons .statsReset (.cons (.clock 10) (.cons (.window (Nat.le_refl 10))
      (.cons (.evict 2) (.cons (.clock 20) (.nil _))))))), by decide +kernel, by decide +kernel, _, List.mem_cons_self, rfl⟩
  obtain ⟨ops, s, hr, hres, hran, w, hw, hnone⟩ := hr
  have hs : AutomoveStep 4 s _ _ := .window hran
  rw [hres] at hs
  have hpos := ((h 4 0 1 2 _ ops s _ hr hs).dest.2 w (List.mem_cons_of_mem _ hw)).1
  exact absurd hnone (Nat.ne_of_gt hpos)

end RamCube
