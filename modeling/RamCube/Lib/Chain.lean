import Mathlib.Data.List.Basic
import Mathlib.Logic.Function.Basic
import Mathlib.Tactic.Common

/-! # Singly linked lists

A memory maps addresses to cells, where there are any, and each cell holds a link to the
next. `Chain` relates the first address to the cells in order, up to a null link. A chain
that ends has every cell once (`nodup`), so a cell that is chained to the last one, or a
new one anywhere else, leaves the others where they are. -/
namespace RamCube

variable {ι α : Type}

/-- The cells from `first` on, with their addresses. -/
def Chain (mem : ι → Option α) (link : α → Option ι) : Option ι → List (ι × α) → Prop
  | first, [] => first = none
  | first, (a, x) :: rest => first = some a ∧ mem a = some x ∧ Chain mem link (link x) rest

namespace Chain

variable {mem mem' : ι → Option α} {link : α → Option ι} {first : Option ι} {cs ds : List (ι × α)} {a : ι} {x : α}

theorem mem_eq (h : Chain mem link first cs) (hc : (a, x) ∈ cs) : mem a = some x := by
  induction cs generalizing first with
  | nil => cases hc
  | cons c cs ih =>
    obtain ⟨-, hx, hrest⟩ := h
    obtain rfl | hc := List.mem_cons.mp hc
    · exact hx
    · exact ih hrest hc

/-- A memory has one chain from an address. -/
theorem unique (h : Chain mem link first cs) (h' : Chain mem link first ds) : cs = ds := by
  induction cs generalizing first ds with
  | nil =>
    cases ds with
    | nil => rfl
    | cons d ds =>
      have hnone : first = none := h
      rw [hnone] at h'
      cases h'.1
  | cons c cs ih =>
    obtain ⟨hf, hx, hrest⟩ := h
    cases ds with
    | nil =>
      have hnone : first = none := h'
      rw [hnone] at hf
      cases hf
    | cons d ds =>
      obtain ⟨hf', hx', hrest'⟩ := h'
      have ha : c.1 = d.1 := Option.some.inj (hf.symm.trans hf')
      have hcell : c.2 = d.2 := Option.some.inj (hx.symm.trans (ha ▸ hx'))
      rw [← hcell] at hrest'
      rw [ih hrest hrest', Prod.ext ha hcell]

theorem suffix (h : Chain mem link first (cs ++ ds)) : ∃ mid, Chain mem link mid ds := by
  induction cs generalizing first with
  | nil => exact ⟨first, h⟩
  | cons c cs ih => exact ih h.2.2

/-- A cell that came up twice would be followed by itself over and over. -/
theorem nodup (h : Chain mem link first cs) : (cs.map Prod.fst).Nodup := by
  induction cs generalizing first with
  | nil => exact List.nodup_nil
  | cons c cs ih =>
    refine List.nodup_cons.mpr ⟨fun hc => ?_, ih h.2.2⟩
    obtain ⟨d, hd, hdc⟩ := List.mem_map.mp hc
    obtain ⟨as, bs, rfl⟩ := List.mem_iff_append.mp hd
    obtain ⟨-, hx, hrest⟩ := h
    obtain ⟨mid, hmid⟩ := hrest.suffix
    have hcell : d.2 = c.2 := Option.some.inj (hmid.2.1.symm.trans (hdc ▸ hx))
    have htail : Chain mem link (link c.2) bs := hcell ▸ hmid.2.2
    have hlen := congrArg List.length (hrest.unique htail)
    simp only [List.length_append, List.length_cons] at hlen
    omega

theorem congr (h : Chain mem link first cs) (hmem : ∀ c ∈ cs, mem' c.1 = mem c.1) : Chain mem' link first cs := by
  induction cs generalizing first with
  | nil => exact h
  | cons c cs ih =>
    obtain ⟨hf, hx, hrest⟩ := h
    exact ⟨hf, (hmem c List.mem_cons_self).trans hx, ih hrest fun d hd => hmem d (List.mem_cons_of_mem c hd)⟩

theorem fresh (h : Chain mem link first cs) (ha : mem a = none) : ∀ c ∈ cs, c.1 ≠ a := by
  intro c hc he
  have hx := h.mem_eq (a := c.1) (x := c.2) hc
  rw [he, ha] at hx
  cases hx

theorem last_link (h : Chain mem link first (cs ++ [(a, x)])) : link x = none := by
  obtain ⟨mid, hmid⟩ := h.suffix
  exact hmid.2.2

theorem getLast_link (h : Chain mem link first cs) : ∀ c ∈ cs.getLast?, link c.2 = none := by
  intro c hc
  obtain ⟨ds, rfl⟩ := List.getLast?_eq_some_iff.mp hc
  exact h.last_link

variable [DecidableEq ι]

/-- A write to an address that is not in the chain. -/
theorem write (h : Chain mem link first cs) (ha : ∀ c ∈ cs, c.1 ≠ a) (y : Option α) :
    Chain (Function.update mem a y) link first cs :=
  h.congr fun c hc => Function.update_of_ne (ha c hc) ..

/-- The last cell is linked to one that stands alone. -/
theorem link_last {b : ι} {x' y : α} (h : Chain mem link first (cs ++ [(a, x)])) (hb : ∀ c ∈ cs ++ [(a, x)], c.1 ≠ b)
    (hcell : mem b = some y) (hx : link x' = some b) (hy : link y = none) :
    Chain (Function.update mem a (some x')) link first (cs ++ [(a, x'), (b, y)]) := by
  have hnodup := h.nodup
  induction cs generalizing first with
  | nil =>
    obtain ⟨hf, -, -⟩ := h
    have hab : b ≠ a := fun he => hb (a, x) (by simp) he.symm
    refine ⟨hf, Function.update_self .., hx, ?_, hy⟩
    rw [Function.update_of_ne hab]
    exact hcell
  | cons c cs ih =>
    obtain ⟨hf, hc, hrest⟩ := h
    obtain ⟨hnot, hnodup⟩ := List.nodup_cons.mp hnodup
    have hca : c.1 ≠ a := fun he => hnot (by simp [he])
    refine ⟨hf, ?_, ih hrest (fun d hd => hb d (List.mem_cons_of_mem c hd)) hnodup⟩
    rw [Function.update_of_ne hca]
    exact hc

/-- A new cell behind the last. -/
theorem concat {b : ι} {x' y : α} (h : Chain mem link first (cs ++ [(a, x)])) (hb : mem b = none) (hx : link x' = some b)
    (hy : link y = none) :
    Chain (Function.update (Function.update mem b (some y)) a (some x')) link first (cs ++ [(a, x'), (b, y)]) :=
  (h.write (h.fresh hb) (some y)).link_last (h.fresh hb) (Function.update_self ..) hx hy

end Chain

/-! ## Walking -/

/-- The cells that a loop over the links meets in `fuel` turns, if it comes to the end. -/
def walk (mem : ι → Option α) (link : α → Option ι) : Nat → Option ι → Option (List (ι × α))
  | 0, _ => none
  | _ + 1, none => some []
  | fuel + 1, some a => do
    let x ← mem a
    let rest ← walk mem link fuel (link x)
    some ((a, x) :: rest)

variable {mem : ι → Option α} {link : α → Option ι} {first : Option ι} {cs : List (ι × α)} {fuel : Nat}

/-- A chain is walked with a turn for each cell and one for the end. -/
theorem walk_chain (h : Chain mem link first cs) (hfuel : cs.length < fuel) : walk mem link fuel first = some cs := by
  induction cs generalizing first fuel with
  | nil =>
    obtain ⟨n, rfl⟩ := Nat.exists_eq_add_of_lt hfuel
    have hnone : first = none := h
    rw [hnone]
    simp [walk]
  | cons c cs ih =>
    obtain ⟨hf, hx, hrest⟩ := h
    rw [List.length_cons] at hfuel
    obtain ⟨n, rfl⟩ : ∃ n, fuel = n + 1 := ⟨fuel - 1, by omega⟩
    rw [hf, walk, hx]
    simp [ih hrest (show cs.length < n by omega)]

end RamCube
