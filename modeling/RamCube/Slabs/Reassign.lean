import RamCube.Lib.Run
import RamCube.Server.Conn
import RamCube.Slabs.Allocator

/-! # The source of a page (slabs.c)

`slabs_reassign` moves a page from one class to another. Asked for any source, it takes the next
class that has a page to spare: `slabs_reassign_pick_any` goes around the classes with a cursor
that stays where the last call left it. -/
namespace RamCube

/-- What `slabs_reassign_pick_any` returns, the static `cur` after it, and the classes that the
call looked at. -/
structure PickedClass where
  result : Int
  cur : Nat
  looked : List Nat

/-- The static variables of slabs.c that `do_slabs_reassign` writes. -/
structure ReassignStatics where
  slabRebalanceSignal : Int
  sClsid : Int
  dClsid : Int
  cur : Nat
deriving DecidableEq

namespace Slabs

variable (s : Slabs)

/-- The class that is looked at after the class `cur`. -/
def nextClass (cur : Nat) : Nat := if s.powerLargest < cur + 1 then POWER_SMALLEST else cur + 1

def pickTries (dst : Int) : Nat → Nat → PickedClass
  | 0, cur => ⟨-1, cur, []⟩
  | tries + 1, cur =>
    let cur := s.nextClass cur
    let later := pickTries dst tries cur
    if cur = dst then { later with looked := cur :: later.looked }
    else if 1 < (s.slabclass cur).slabs then ⟨cur, cur, [cur]⟩
    else { later with looked := cur :: later.looked }

def slabsReassignPickAny (dst : Int) (cur : Nat) : PickedClass := s.pickTries dst (s.powerLargest + 1 - POWER_SMALLEST) cur

/-- `do_slabs_reassign` behind the choice of the source. -/
def requestMove (r : ReassignStatics) (src dst : Int) : ReassignResult × ReassignStatics :=
  if src < POWER_SMALLEST ∨ s.powerLargest < src ∨ dst < POWER_SMALLEST ∨ s.powerLargest < dst then (.BADCLASS, r)
  else if (s.slabclass src.toNat).slabs < 2 then (.NOSPARE, r)
  else (.OK, { r with sClsid := src, dClsid := dst, slabRebalanceSignal := 1 })

def doSlabsReassign (r : ReassignStatics) (src dst : Int) : ReassignResult × ReassignStatics :=
  if r.slabRebalanceSignal ≠ 0 then (.RUNNING, r)
  else if src = dst then (.SRC_DST_SAME, r)
  else if src = -1 then
    let picked := s.slabsReassignPickAny dst r.cur
    s.requestMove { r with cur := picked.cur } picked.result dst
  else s.requestMove r src dst

/-! ## The way around the classes -/

def IsClass (c : Nat) : Prop := POWER_SMALLEST ≤ c ∧ c ≤ s.powerLargest

/-- A class that can give a page to the class `dst`. -/
structure Spare (dst : Int) (c : Nat) : Prop where
  isClass : s.IsClass c
  other : (c : Int) ≠ dst
  pages : 1 < (s.slabclass c).slabs

/-- How often the cursor is moved until it is at the class `c`. -/
def movesTo (cur c : Nat) : Nat := if cur < c then c - cur else s.powerLargest - cur + c

variable {s : Slabs} {dst : Int} {cur c : Nat}

theorem IsClass.nextClass (h : s.IsClass c) (cur : Nat) : s.IsClass (s.nextClass cur) := by
  obtain ⟨h1, h2⟩ := h
  unfold IsClass Slabs.nextClass
  simp only [POWER_SMALLEST] at *
  split <;> omega

theorem movesTo_nextClass (h : s.IsClass c) (cur : Nat) : s.movesTo cur (s.nextClass cur) = 1 := by
  obtain ⟨h1, h2⟩ := h
  unfold movesTo Slabs.nextClass
  simp only [POWER_SMALLEST] at *
  split <;> split <;> omega

/-- A class that the cursor is not moved to is one move closer. -/
theorem movesTo_of_ne (h : s.IsClass c) (hne : c ≠ s.nextClass cur) : s.movesTo cur c = s.movesTo (s.nextClass cur) c + 1 := by
  obtain ⟨h1, h2⟩ := h
  unfold movesTo Slabs.nextClass at *
  simp only [POWER_SMALLEST] at *
  split at hne <;> split <;> split <;> omega

theorem one_le_movesTo (h : s.IsClass c) (cur : Nat) : 1 ≤ s.movesTo cur c := by
  obtain ⟨h1, h2⟩ := h
  unfold movesTo
  simp only [POWER_SMALLEST] at h1
  split <;> omega

theorem movesTo_le (h : s.IsClass c) (cur : Nat) : s.movesTo cur c ≤ s.powerLargest + 1 - POWER_SMALLEST := by
  obtain ⟨h1, h2⟩ := h
  unfold movesTo
  simp only [POWER_SMALLEST] at *
  split <;> omega

theorem movesTo_self (h : s.IsClass c) : s.movesTo c c = s.powerLargest := by
  obtain ⟨h1, h2⟩ := h
  rw [movesTo, if_neg (Nat.lt_irrefl c)]
  omega

/-- What a call does that moves the cursor at most `tries` times. -/
structure PickOk (s : Slabs) (dst : Int) (tries cur : Nat) (p : PickedClass) : Prop where
  inRange : ∀ c ∈ p.looked, s.IsClass c ∧ s.movesTo cur c ≤ tries
  nodup : p.looked.Nodup
  result : (p.result = -1 ∧ ∀ c, s.IsClass c → s.movesTo cur c ≤ tries → c ∈ p.looked ∧ ¬s.Spare dst c) ∨
    ∃ c : Nat, p.result = c ∧ p.cur = c ∧ s.Spare dst c ∧ ∀ c', s.Spare dst c' → s.movesTo cur c ≤ s.movesTo cur c'

theorem PickOk.later {tries : Nat} {p : PickedClass} (h : PickOk s dst tries (s.nextClass cur) p)
    (htries : tries < s.powerLargest) (hclass : s.IsClass (s.nextClass cur)) (hspare : ¬s.Spare dst (s.nextClass cur)) :
    PickOk s dst (tries + 1) cur { p with looked := s.nextClass cur :: p.looked } := by
  have hnext : s.nextClass cur ∉ p.looked := by
    intro hm
    have hle := (h.inRange _ hm).2
    rw [movesTo_self hclass] at hle
    omega
  refine ⟨fun c hc => ?_, List.nodup_cons.mpr ⟨hnext, h.nodup⟩, ?_⟩
  · rcases List.mem_cons.mp hc with rfl | hc
    · rw [movesTo_nextClass hclass]
      exact ⟨hclass, by omega⟩
    · obtain ⟨hcl, hle⟩ := h.inRange c hc
      rw [movesTo_of_ne hcl fun he => hnext (he ▸ hc)]
      exact ⟨hcl, by omega⟩
  · rcases h.result with ⟨hres, hall⟩ | ⟨c, hres, hcur, hc, hfirst⟩
    · refine .inl ⟨hres, fun c hcl hle => ?_⟩
      by_cases he : c = s.nextClass cur
      · exact ⟨he ▸ List.mem_cons_self, he ▸ hspare⟩
      · rw [movesTo_of_ne hcl he] at hle
        obtain ⟨hm, hno⟩ := hall c hcl (by omega)
        exact ⟨List.mem_cons_of_mem _ hm, hno⟩
    · refine .inr ⟨c, hres, hcur, hc, fun c' hc' => ?_⟩
      have hfirst' := hfirst c' hc'
      rw [movesTo_of_ne hc.isClass fun he => hspare (he ▸ hc), movesTo_of_ne hc'.isClass fun he => hspare (he ▸ hc')]
      omega

/-- The classes ahead of the cursor, as many as there are tries, are looked at until one has a
page to spare. -/
theorem pickTries_ok {tries : Nat} (htries : tries ≤ s.powerLargest) (cur : Nat) :
    PickOk s dst tries cur (s.pickTries dst tries cur) := by
  induction tries generalizing cur with
  | zero =>
    refine ⟨nofun, List.nodup_nil, .inl ⟨rfl, fun c hcl hle => ?_⟩⟩
    have hpos := one_le_movesTo hcl cur
    omega
  | succ tries ih =>
    have hclass : s.IsClass (s.nextClass cur) :=
      IsClass.nextClass (c := s.powerLargest) ⟨by simp only [POWER_SMALLEST]; omega, Nat.le_refl _⟩ cur
    have hlater := ih (by omega) (s.nextClass cur)
    rw [pickTries]
    by_cases hdst : (s.nextClass cur : Int) = dst
    · rw [if_pos hdst]
      exact hlater.later htries hclass fun h => h.other hdst
    · rw [if_neg hdst]
      by_cases hpages : 1 < (s.slabclass (s.nextClass cur)).slabs
      · rw [if_pos hpages]
        refine ⟨fun c hc => ?_, List.nodup_singleton _, .inr ⟨_, rfl, rfl, ⟨hclass, hdst, hpages⟩, fun c' hc' => ?_⟩⟩
        · obtain rfl := List.mem_singleton.mp hc
          rw [movesTo_nextClass hclass]
          exact ⟨hclass, by omega⟩
        · rw [movesTo_nextClass hclass]
          exact one_le_movesTo hc'.isClass cur
      · rw [if_neg hpages]
        exact hlater.later htries hclass fun h => hpages h.pages

theorem slabsReassignPickAny_ok (s : Slabs) (dst : Int) (cur : Nat) :
    PickOk s dst (s.powerLargest + 1 - POWER_SMALLEST) cur (s.slabsReassignPickAny dst cur) :=
  pickTries_ok (by simp [POWER_SMALLEST]) cur

/-- The cursor stays at a class, or where it started. -/
theorem pickTries_cur {tries : Nat} (htries : tries ≤ s.powerLargest) (hcur : cur ≤ s.powerLargest) :
    (s.pickTries dst tries cur).cur ≤ s.powerLargest := by
  induction tries generalizing cur with
  | zero => exact hcur
  | succ tries ih =>
    have hnext : s.nextClass cur ≤ s.powerLargest := by
      unfold Slabs.nextClass
      simp only [POWER_SMALLEST]
      split <;> omega
    rw [pickTries]
    split
    · exact ih (by omega) hnext
    · split
      · exact hnext
      · exact ih (by omega) hnext

/-- From wherever the cursor is, the call takes a class that has a page to spare, or has looked
at all classes and there is none. -/
theorem pick_any_finds (s : Slabs) (dst : Int) (cur : Nat) :
    ((∃ c, s.Spare dst c) → ∃ c, s.Spare dst c ∧ (s.slabsReassignPickAny dst cur).result = c) ∧
      ((¬∃ c, s.Spare dst c) → (s.slabsReassignPickAny dst cur).result = -1) ∧
      (s.slabsReassignPickAny dst cur).looked.Nodup ∧
      (∀ c ∈ (s.slabsReassignPickAny dst cur).looked, s.IsClass c) ∧
      ((s.slabsReassignPickAny dst cur).result = -1 →
        ∀ c, s.IsClass c → c ∈ (s.slabsReassignPickAny dst cur).looked) := by
  have h := slabsReassignPickAny_ok s dst cur
  refine ⟨fun ⟨c, hc⟩ => ?_, fun hno => ?_, h.nodup, fun c hc => (h.inRange c hc).1, fun hres c hc => ?_⟩
  · rcases h.result with ⟨_, hall⟩ | ⟨c', hres, _, hc', _⟩
    · exact absurd hc (hall c hc.isClass (movesTo_le hc.isClass cur)).2
    · exact ⟨c', hc', hres⟩
  · rcases h.result with ⟨hres, _⟩ | ⟨c, _, _, hc, _⟩
    · exact hres
    · exact absurd ⟨c, hc⟩ hno
  · rcases h.result with ⟨_, hall⟩ | ⟨c', hres', _⟩
    · exact (hall c hc (movesTo_le hc cur)).1
    · omega

/-! ## The moves that are asked for -/

/-- Calls of `do_slabs_reassign`, between which the classes gain and lose pages, and the end of
a move. -/
inductive ReassignStep (powerLargest : Nat) (r : ReassignStatics) : Option (Int × Int) → ReassignStatics → Prop where
  | call (s : Slabs) (src dst : Int) : s.powerLargest = powerLargest →
      ReassignStep powerLargest r (some (src, dst)) (s.doSlabsReassign r src dst).2
  | rebalanced : ReassignStep powerLargest r none { r with slabRebalanceSignal := 0 }

variable {r : ReassignStatics} {src : Int}

/-- A request that is taken is for classes that `slab_rebalance_start` does not refuse. -/
theorem requestMove_ok (h : (s.requestMove r src dst).1 = .OK) (hne : src ≠ dst) : ∃ c d : Nat, src = c ∧ dst = d ∧
    s.Spare dst c ∧ s.IsClass d ∧
    (s.requestMove r src dst).2 = { r with sClsid := c, dClsid := d, slabRebalanceSignal := 1 } := by
  unfold requestMove at h ⊢
  split at h
  · cases h
  · rename_i hrange
    rw [if_neg hrange]
    simp only [POWER_SMALLEST] at hrange
    split at h
    · cases h
    · rename_i hpages
      rw [if_neg hpages]
      obtain ⟨c, rfl⟩ := Int.eq_ofNat_of_zero_le (a := src) (by omega)
      obtain ⟨d, rfl⟩ := Int.eq_ofNat_of_zero_le (a := dst) (by omega)
      refine ⟨c, d, rfl, rfl, ⟨⟨by simp only [POWER_SMALLEST]; omega, by omega⟩, hne, ?_⟩,
        ⟨by simp only [POWER_SMALLEST]; omega, by omega⟩, rfl⟩
      rw [Int.toNat_natCast, UInt32.lt_iff_toNat_lt] at hpages
      rw [UInt32.lt_iff_toNat_lt]
      exact Nat.not_lt.mp hpages

/-- Whatever the request was, a move that is asked for can be made. -/
theorem doSlabsReassign_ok (h : (s.doSlabsReassign r src dst).1 = .OK) : ∃ c d : Nat, dst = d ∧
    s.Spare dst c ∧ s.IsClass d ∧ (s.doSlabsReassign r src dst).2.sClsid = c ∧ (s.doSlabsReassign r src dst).2.dClsid = d ∧
    (src = c ∨ src = -1) := by
  unfold doSlabsReassign at h ⊢
  by_cases hidle : r.slabRebalanceSignal ≠ 0
  · rw [if_pos hidle] at h
    cases h
  rw [if_neg hidle] at h ⊢
  by_cases hsame : src = dst
  · rw [if_pos hsame] at h
    cases h
  rw [if_neg hsame] at h ⊢
  by_cases hany : src = -1
  · rw [if_pos hany] at h ⊢
    have hne : (s.slabsReassignPickAny dst r.cur).result ≠ dst := by
      rcases (slabsReassignPickAny_ok s dst r.cur).result with ⟨hres, _⟩ | ⟨c, hres, _, hc, _⟩
      · rw [hres, ← hany]
        exact hsame
      · rw [hres]
        exact hc.other
    obtain ⟨c, d, _, hd, hc, hdc, hr⟩ := requestMove_ok h hne
    exact ⟨c, d, hd, hc, hdc, by rw [hr], by rw [hr], .inr hany⟩
  · rw [if_neg hany] at h ⊢
    obtain ⟨c, d, hs, hd, hc, hdc, hr⟩ := requestMove_ok h hsame
    exact ⟨c, d, hd, hc, hdc, by rw [hr], by rw [hr], .inl hs⟩

theorem requestMove_spare {d : Nat} (hd : s.IsClass d) (hc : s.Spare d c) : (s.requestMove r c d).1 = .OK := by
  obtain ⟨⟨hc1, hc2⟩, _, hpages⟩ := hc
  obtain ⟨hd1, hd2⟩ := hd
  simp only [POWER_SMALLEST] at hc1 hd1
  have hrange : ¬((c : Int) < POWER_SMALLEST ∨ (s.powerLargest : Int) < c ∨ (d : Int) < POWER_SMALLEST ∨
      (s.powerLargest : Int) < d) := by
    simp only [POWER_SMALLEST]
    omega
  have hslabs : ¬(s.slabclass (c : Int).toNat).slabs < 2 := by
    rw [Int.toNat_natCast, UInt32.lt_iff_toNat_lt]
    rw [UInt32.lt_iff_toNat_lt] at hpages
    exact Nat.not_lt.mpr hpages
  rw [requestMove, if_neg hrange, if_neg hslabs]

@[simp] theorem requestMove_cur : (s.requestMove r src dst).2.cur = r.cur := by
  unfold requestMove
  split
  · rfl
  · split <;> rfl

theorem ReassignStep.cur_le {n : Nat} {e : Option (Int × Int)} {r' : ReassignStatics} (hs : ReassignStep n r e r')
    (h : r.cur ≤ n) : r'.cur ≤ n := by
  cases hs with
  | rebalanced => exact h
  | call s src dst hn =>
    unfold doSlabsReassign
    split
    · exact h
    split
    · exact h
    split
    · rw [requestMove_cur, ← hn]
      exact pickTries_cur (by simp [POWER_SMALLEST]) (hn ▸ h)
    · rw [requestMove_cur]
      exact h

/-- The static `cur` starts below the classes and never leaves them at the other end, so that an
`int` has room for it. -/
theorem cur_le_of_run {n : Nat} {es : List (Option (Int × Int))}
    (hr : Run (ReassignStep n) ⟨0, 0, 0, POWER_SMALLEST - 1⟩ es r) : r.cur ≤ n :=
  hr.invariant (I := fun r => r.cur ≤ n) (fun _ _ _ hi hs => hs.cur_le hi) (Nat.zero_le n)

/-- A page from any class is refused only where no class has one to spare. -/
theorem doSlabsReassign_any (hidle : r.slabRebalanceSignal = 0) {d : Nat} (hd : s.IsClass d) :
    ((∃ c, s.Spare d c) → (s.doSlabsReassign r (-1) d).1 = .OK) ∧
      ((¬∃ c, s.Spare d c) → (s.doSlabsReassign r (-1) d).1 = .BADCLASS) := by
  have hsame : ¬(-1 : Int) = d := by omega
  rw [doSlabsReassign, if_neg (not_not.mpr hidle), if_neg hsame, if_pos rfl]
  dsimp only
  rcases (slabsReassignPickAny_ok s d r.cur).result with ⟨hres, hall⟩ | ⟨c, hres, _, hc, _⟩
  · refine ⟨fun ⟨c, hc⟩ => absurd hc (hall c hc.isClass (movesTo_le hc.isClass r.cur)).2, fun _ => ?_⟩
    rw [hres, requestMove, if_pos (.inl (by decide))]
  · refine ⟨fun _ => ?_, fun hno => absurd ⟨c, hc⟩ hno⟩
    rw [hres]
    exact requestMove_spare hd hc

end Slabs
end RamCube
