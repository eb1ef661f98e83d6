import Mathlib.Tactic.Common
import Mathlib.Logic.Function.Basic
import Mathlib.Data.List.Basic
import Mathlib.Data.List.Nodup

/-! # Doubly linked lists

Nodes of any type carry a `next` and a `prev` link, `none` being the null
pointer. `Seg` relates a stretch of linked nodes to the list of its nodes in
order; a whole list is a stretch entered and left through null (`DList`). The
two operations are the usual pointer surgery: a node put in front, and a node
cut out by redirecting its two neighbours. -/
namespace RamCube

variable {α : Type}

/-- The nodes of `l` in order: `first` names the first one, whose `prev` link is
`before`; `last` names the last one, whose `next` link is `after`. An empty
stretch passes both links through. -/
def Seg (next prev : α → Option α) :
    (before first : Option α) → List α → (last after : Option α) → Prop
  | before, first, [], last, after => first = after ∧ last = before
  | before, first, p :: ps, last, after =>
    first = some p ∧ prev p = before ∧ Seg next prev (some p) (next p) ps last after

/-- A list with its two end pointers. No node occurs twice in it. -/
structure DList (next prev : α → Option α) (head tail : Option α) (l : List α) : Prop where
  seg : Seg next prev none head l tail none
  nodup : l.Nodup

/-- Writing a link of the node a pointer names; a null pointer names none. -/
def setLink [DecidableEq α] (f : α → Option α) (node link : Option α) : α → Option α :=
  match node with
  | none => f
  | some p => Function.update f p link

section

variable {next prev next' prev' : α → Option α} {before first last after : Option α}
  {l l₁ l₂ : List α} {p : α}

theorem seg_append : Seg next prev before first (l₁ ++ l₂) last after ↔
    ∃ last₁ first₂, Seg next prev before first l₁ last₁ first₂ ∧
      Seg next prev last₁ first₂ l₂ last after := by
  induction l₁ generalizing before first with
  | nil =>
    simp only [List.nil_append, Seg]
    constructor
    · intro h
      exact ⟨before, first, ⟨rfl, rfl⟩, h⟩
    · rintro ⟨_, _, ⟨rfl, rfl⟩, h⟩
      exact h
  | cons q qs ih =>
    simp only [List.cons_append, Seg, ih]
    constructor
    · rintro ⟨h1, h2, m, n, h3, h4⟩
      exact ⟨m, n, ⟨h1, h2, h3⟩, h4⟩
    · rintro ⟨m, n, ⟨h1, h2, h3⟩, h4⟩
      exact ⟨h1, h2, m, n, h3, h4⟩

/-- A stretch reads the links of its own nodes only. -/
theorem Seg.congr (h : Seg next prev before first l last after)
    (hn : ∀ q ∈ l, next' q = next q) (hp : ∀ q ∈ l, prev' q = prev q) :
    Seg next' prev' before first l last after := by
  induction l generalizing before first with
  | nil => exact h
  | cons q qs ih =>
    obtain ⟨h1, h2, h3⟩ := h
    refine ⟨h1, (hp q (by simp)).trans h2, ?_⟩
    rw [hn q (by simp)]
    exact ih h3 (fun r hr => hn r (by simp [hr])) (fun r hr => hp r (by simp [hr]))

theorem Seg.first_eq (h : Seg next prev before first l last after) :
    first = (l.head?).or after := by
  cases l with
  | nil => simpa using h.1
  | cons q qs => simpa using h.1

theorem Seg.last_eq (h : Seg next prev before first l last after) :
    last = (l.getLast?).or before := by
  induction l generalizing before first with
  | nil => simpa using h.2
  | cons q qs ih =>
    rw [ih h.2.2]
    cases qs with
    | nil => simp
    | cons r rs => simp [List.getLast?_cons]

theorem DList.head_eq (h : DList next prev first last l) : first = l.head? := by
  simpa using h.seg.first_eq

theorem DList.tail_eq (h : DList next prev first last l) : last = l.getLast? := by
  simpa using h.seg.last_eq

/-- The two end pointers are null together. -/
theorem DList.head_none_iff (h : DList next prev first last l) : first = none ↔ last = none := by
  rw [h.head_eq, h.tail_eq]
  simp

theorem DList.congr (h : DList next prev first last l) (hn : ∀ q ∈ l, next' q = next q)
    (hp : ∀ q ∈ l, prev' q = prev q) : DList next' prev' first last l :=
  ⟨h.seg.congr hn hp, h.nodup⟩

theorem Seg.unique {last' : Option α} (h : Seg next prev before first l₁ last none)
    (h' : Seg next prev before first l₂ last' none) : l₁ = l₂ := by
  induction l₁ generalizing before first l₂ with
  | nil =>
    cases l₂ with
    | nil => rfl
    | cons q qs =>
      rw [h.1] at h'
      cases h'.1
  | cons p ps ih =>
    cases l₂ with
    | nil =>
      rw [h'.1] at h
      cases h.1
    | cons q qs =>
      obtain ⟨h1, _, h3⟩ := h
      obtain ⟨h1', _, h3'⟩ := h'
      rw [h1, Option.some.injEq] at h1'
      subst h1'
      rw [ih h3 h3']

/-- The links determine the list. -/
theorem DList.unique (h : DList next prev first last l₁) (h' : DList next prev first last l₂) :
    l₁ = l₂ :=
  h.seg.unique h'.seg

/-- The links of a node lead to its neighbours in the list. -/
theorem DList.links (h : DList next prev first last (l₁ ++ p :: l₂)) :
    next p = l₂.head? ∧ prev p = l₁.getLast? := by
  obtain ⟨m, n, h1, h2, h3, h4⟩ := seg_append.mp h.seg
  constructor
  · simpa using h4.first_eq
  · simpa using h3.trans h1.last_eq

theorem DList.next_mem (h : DList next prev first last l) (hp : p ∈ l) {q : α}
    (hq : next p = some q) : q ∈ l := by
  obtain ⟨l₁, l₂, rfl⟩ := List.append_of_mem hp
  have hm := List.mem_of_mem_head? (h.links.1.symm.trans hq)
  simp [hm]

theorem DList.prev_mem (h : DList next prev first last l) (hp : p ∈ l) {q : α}
    (hq : prev p = some q) : q ∈ l := by
  obtain ⟨l₁, l₂, rfl⟩ := List.append_of_mem hp
  have hm := List.mem_of_getLast? (h.links.2.symm.trans hq)
  simp [hm]

end

section

variable [DecidableEq α] {next prev : α → Option α} {before first last after : Option α}
  {l l₁ l₂ : List α} {p : α}

theorem setLink_of_ne {f : α → Option α} {node link : Option α} {q : α} (h : node ≠ some q) :
    setLink f node link q = f q := by
  cases node with
  | none => rfl
  | some r => exact Function.update_of_ne (fun he => h (by rw [he])) _ _

/-- Enter a stretch from another node: only the first `prev` link changes. -/
theorem Seg.set_before (h : Seg next prev before first l last none) (hd : l.Nodup)
    (before' : Option α) :
    Seg next (setLink prev first before') before' first l ((l.getLast?).or before') none := by
  cases l with
  | nil =>
    obtain ⟨rfl, _⟩ := h
    exact ⟨rfl, by simp⟩
  | cons q qs =>
    obtain ⟨rfl, _, h3⟩ := h
    have hq : q ∉ qs := (List.nodup_cons.mp hd).1
    refine ⟨rfl, by simp [setLink], ?_⟩
    have hl : ((q :: qs).getLast?).or before' = last := by
      rw [h3.last_eq]
      cases qs <;> simp [List.getLast?_cons]
    rw [hl]
    refine h3.congr (fun _ _ => rfl) fun r hr => setLink_of_ne ?_
    intro he
    cases he
    exact hq hr

/-- Leave a stretch to another node: only the last `next` link changes. -/
theorem Seg.set_after (h : Seg next prev before first l last after) (hd : l.Nodup)
    (after' : Option α) :
    Seg (setLink next last after') prev before ((l.head?).or after') l last after' := by
  induction l generalizing before first with
  | nil => exact ⟨by simp, h.2⟩
  | cons q qs ih =>
    obtain ⟨_, h2, h3⟩ := h
    obtain ⟨hq, hqs⟩ := List.nodup_cons.mp hd
    refine ⟨by simp, h2, ?_⟩
    cases qs with
    | nil =>
      obtain ⟨_, rfl⟩ := h3
      exact ⟨by simp [setLink], rfl⟩
    | cons r rs =>
      have hi := ih h3 hqs
      have hne : last ≠ some q := by
        rw [h3.last_eq]
        intro he
        have hm : q ∈ (r :: rs) := by
          apply List.mem_of_getLast?
          simpa [List.getLast?_cons] using he
        exact hq hm
      rw [setLink_of_ne hne, h3.1]
      simpa using hi

/-- A node put in front of a list that does not hold it. -/
theorem DList.push (h : DList next prev first last l) (hp : p ∉ l) :
    DList (Function.update next p first)
      (setLink (Function.update prev p none) first (some p)) (some p)
      (if last = none then some p else last) (p :: l) := by
  refine ⟨⟨rfl, ?_, ?_⟩, List.nodup_cons.mpr ⟨hp, h.nodup⟩⟩
  · rw [setLink_of_ne, Function.update_self]
    intro he
    have hm := List.mem_of_mem_head? (h.head_eq.symm.trans he)
    exact hp hm
  · rw [Function.update_self]
    have hs : Seg (Function.update next p first) (Function.update prev p none) none first l
        last none := by
      refine h.seg.congr ?_ ?_ <;> intro q hq <;> rw [Function.update_of_ne]
      · rintro rfl; exact hp hq
      · rintro rfl; exact hp hq
    have hb := hs.set_before h.nodup (some p)
    have hl : (l.getLast?).or (some p) = if last = none then some p else last := by
      rw [h.tail_eq]
      cases l.getLast? <;> simp
    rw [← hl]
    exact hb

/-- A node cut out of a list: its neighbours are linked to each other. -/
theorem DList.cut (h : DList next prev first last (l₁ ++ p :: l₂)) :
    DList (setLink next (prev p) (next p)) (setLink prev (next p) (prev p))
      (if first = some p then next p else first) (if last = some p then prev p else last)
      (l₁ ++ l₂) := by
  obtain ⟨hn, hp⟩ := h.links
  have hhead := h.head_eq
  have htail := h.tail_eq
  obtain ⟨m, n, h1, h2, h3, h4⟩ := seg_append.mp h.seg
  have hd := h.nodup
  rw [List.nodup_append] at hd
  obtain ⟨hd1, hd2, hdis⟩ := hd
  obtain ⟨hp2, hd2⟩ := List.nodup_cons.mp hd2
  have hp1 : p ∉ l₁ := fun hm => hdis p hm p (by simp) rfl
  have hfirst : (if first = some p then next p else first) = (l₁.head?).or (next p) := by
    rw [hhead]
    cases l₁ with
    | nil => simp
    | cons q qs =>
      have : q ≠ p := fun he => hp1 (by simp [he])
      simp [this]
  have hlast : (if last = some p then prev p else last) = (l₂.getLast?).or (prev p) := by
    rw [htail]
    cases hl : l₂.getLast? with
    | none =>
      rw [List.getLast?_eq_none_iff] at hl
      simp [hl]
    | some q =>
      have hq := List.mem_of_getLast? hl
      have : q ≠ p := by rintro rfl; exact hp2 hq
      simp [List.getLast?_append, List.getLast?_cons, hl, this]
  rw [hfirst, hlast]
  refine ⟨seg_append.mpr ⟨prev p, next p, ?_, ?_⟩, ?_⟩
  · have ha := h1.set_after hd1 (next p)
    rw [← h3] at ha
    refine ha.congr (fun _ _ => rfl) fun q hq => setLink_of_ne ?_
    intro he
    have hm := List.mem_of_mem_head? (hn.symm.trans he)
    exact hdis q hq q (by simp [hm]) rfl
  · have hb := h4.set_before hd2 (prev p)
    refine hb.congr (fun q hq => setLink_of_ne ?_) fun _ _ => rfl
    intro he
    have hm := List.mem_of_getLast? (hp.symm.trans he)
    exact hdis q hm q (by simp [hq]) rfl
  · rw [List.nodup_append]
    exact ⟨hd1, hd2, fun a ha b hb => hdis a ha b (by simp [hb])⟩

end
end RamCube
