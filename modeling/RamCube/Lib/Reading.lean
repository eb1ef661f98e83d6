import Mathlib.Data.List.Forall2
import Mathlib.Data.List.TakeWhile

/-! # Reading streams

A reader takes a text off the front of a stream. What it takes is read alike whatever follows,
so that texts written one after the other are read one after the other. -/
namespace RamCube

abbrev Reader (τ α : Type) := StateT (List τ) Option α

namespace Reader

variable {τ α β : Type} {p : Reader τ α} {f : α → Reader τ β} {a a' : α} {b : β} {text text' : List τ} {as as' : List α}

/-- `text` is read as `a`, whatever follows it. -/
def Takes (p : Reader τ α) (text : List τ) (a : α) : Prop := ∀ rest, p.run (text ++ rest) = some (a, rest)

theorem takes_pure (a : α) : Takes (pure a : Reader τ α) [] a := fun _ => rfl

theorem Takes.bind (h : p.Takes text a) (h' : (f a).Takes text' b) : (p >>= f).Takes (text ++ text') b := by
  intro rest
  rw [StateT.run_bind, List.append_assoc, h, Option.bind_eq_bind, Option.bind_some]
  exact h' rest

/-- Its last step takes nothing. -/
theorem Takes.last (h : p.Takes text a) (h' : (f a).Takes [] b) : (p >>= f).Takes text b :=
  List.append_nil text ▸ h.bind h'

/-- No text that is read begins another one. -/
theorem Takes.unique (h : p.Takes text a) (h' : p.Takes text' a') (hp : text <+: text') : text = text' ∧ a = a' := by
  obtain ⟨rest, rfl⟩ := hp
  have hshort := h rest
  have hlong := h' []
  rw [List.append_nil, hshort] at hlong
  simp only [Option.some.injEq, Prod.mk.injEq] at hlong
  rw [hlong.2, List.append_nil]
  exact ⟨rfl, hlong.1⟩

/-! ## Pieces -/

def exactly (n : Nat) : Reader τ (List τ) := fun s => if n ≤ s.length then some (s.take n, s.drop n) else none

theorem takes_exactly {n : Nat} (h : text.length = n) : (exactly n).Takes text text := by
  intro rest
  have hle : n ≤ (text ++ rest).length := by
    rw [List.length_append]
    omega
  exact (if_pos hle).trans (by rw [List.take_left' h, List.drop_left' h])

variable [DecidableEq τ]

/-- A text that is always the same. -/
def literal (text : List τ) : Reader τ Unit := fun s =>
  if s.take text.length = text then some ((), s.drop text.length) else none

theorem takes_literal (text : List τ) : (literal text).Takes text () := fun _ =>
  (if_pos (List.take_left' rfl)).trans (by rw [List.drop_left' rfl])

/-- What stands before `stop`, which is taken too. -/
def upTo (stop : τ) : Reader τ (List τ) := fun s =>
  match s.dropWhile (· != stop) with
  | [] => none
  | _ :: rest => some (s.takeWhile (· != stop), rest)

theorem takes_upTo {stop : τ} (h : stop ∉ text) : (upTo stop).Takes (text ++ [stop]) text := by
  intro rest
  have hbefore : ∀ x ∈ text, (x != stop) = true := fun x hx => bne_iff_ne.mpr fun he => h (he ▸ hx)
  have hdrop : (text ++ [stop] ++ rest).dropWhile (· != stop) = stop :: rest := by
    rw [List.append_assoc, List.dropWhile_append_of_pos hbefore]
    simp
  have htake : (text ++ [stop] ++ rest).takeWhile (· != stop) = text := by
    rw [List.append_assoc, List.takeWhile_append_of_pos hbefore]
    simp
  unfold upTo
  simp only [StateT.run, hdrop, htake]

/-- What `p` reads, unless the stream goes on with `stop`, which is taken. -/
def orStop (stop : List τ) (p : Reader τ α) : Reader τ (Option α) := fun s =>
  if s.take stop.length = stop then some (none, s.drop stop.length) else (p.run s).map fun r => (some r.1, r.2)

theorem takes_stop (stop : List τ) (p : Reader τ α) : (p.orStop stop).Takes stop none := fun _ =>
  (if_pos (List.take_left' rfl)).trans (by rw [List.drop_left' rfl])

theorem Takes.orStop {x y : τ} {stop : List τ} (h : p.Takes (x :: text) a) (hne : x ≠ y) :
    (p.orStop (y :: stop)).Takes (x :: text) (some a) := by
  intro rest
  have hgo : (x :: text ++ rest).take (y :: stop).length ≠ y :: stop := by
    intro he
    exact hne (List.cons.inj he).1
  exact (if_neg hgo).trans (congrArg (Option.map fun r => (some r.1, r.2)) (h rest))

end Reader

/-! ## Series -/

namespace Reader

variable {τ α : Type} {p : Reader τ α} {q : Reader τ (Option α)} {a : α} {text text' last : List τ} {as as' : List α}

/-- `text` is what is read as each of `as`, one after the other. -/
def Series (p : Reader τ α) (text : List τ) (as : List α) : Prop :=
  ∃ texts, List.Forall₂ p.Takes texts as ∧ text = texts.flatten

theorem series_nil (p : Reader τ α) : p.Series [] [] := ⟨[], .nil, rfl⟩

theorem Takes.series (h : p.Takes text a) : p.Series text [a] := ⟨[text], .cons h .nil, by simp⟩

theorem Series.append (h : p.Series text as) (h' : p.Series text' as') : p.Series (text ++ text') (as ++ as') := by
  obtain ⟨texts, htexts, rfl⟩ := h
  obtain ⟨texts', htexts', rfl⟩ := h'
  exact ⟨texts ++ texts', List.rel_append htexts htexts', List.flatten_append.symm⟩

/-- What is read until nothing is left of a stream, `fuel` times at most. -/
def untilEnd (p : Reader τ α) : Nat → List τ → Option (List α)
  | _, [] => some []
  | 0, _ :: _ => none
  | fuel + 1, s => do
    let (a, rest) ← p.run s
    return a :: (← untilEnd p fuel rest)

/-- A stream has no more texts than it is long. -/
def readAll (p : Reader τ α) (s : List τ) : Option (List α) := untilEnd p s.length s

/-- A series is read in one way only. -/
theorem Series.readAll (h : p.Series text as) (hne : ∀ a, ¬p.Takes [] a) : p.readAll text = some as := by
  obtain ⟨texts, htexts, rfl⟩ := h
  have hread : ∀ fuel, texts.flatten.length ≤ fuel → untilEnd p fuel texts.flatten = some as := by
    intro fuel hf
    induction htexts generalizing fuel with
    | nil => cases fuel <;> rfl
    | @cons t a texts as ht _ ih =>
      have htext : t ≠ [] := by
        rintro rfl
        exact hne a ht
      obtain ⟨x, t', rfl⟩ := List.exists_cons_of_ne_nil htext
      have htake := ht texts.flatten
      rw [List.flatten_cons, List.cons_append] at hf ⊢
      rw [List.cons_append] at htake
      rw [List.length_cons, List.length_append] at hf
      obtain ⟨fuel, rfl⟩ := Nat.exists_eq_succ_of_ne_zero (Nat.ne_of_gt (Nat.zero_lt_of_lt hf))
      have hrest := ih fuel (by omega)
      simp only [untilEnd, htake, hrest, Option.bind_eq_bind, Option.bind_some, Option.pure_def]
  exact hread _ (Nat.le_refl _)

/-- What is read until there is no more, `fuel` times at most. -/
def untilNone (q : Reader τ (Option α)) : Nat → Reader τ (List α)
  | 0 => failure
  | fuel + 1 => do
    match ← q with
    | none => return []
    | some a => return a :: (← untilNone q fuel)

/-- A stream has no more texts than it is long. -/
def many (q : Reader τ (Option α)) : Reader τ (List α) := fun s => (untilNone q (s.length + 1)).run s

theorem takes_many {texts : List (List τ)} (h : List.Forall₂ (fun t a => q.Takes t (some a)) texts as)
    (hlast : q.Takes last none) : (many q).Takes (texts.flatten ++ last) as := by
  intro rest
  have huntil : ∀ fuel, as.length < fuel → (untilNone q fuel).run (texts.flatten ++ last ++ rest) = some (as, rest) := by
    intro fuel hf
    induction h generalizing fuel with
    | nil =>
      obtain ⟨fuel, rfl⟩ := Nat.exists_eq_succ_of_ne_zero (Nat.ne_of_gt hf)
      simp [untilNone, hlast rest]
    | @cons t a texts as ht _ ih =>
      obtain ⟨fuel, rfl⟩ := Nat.exists_eq_succ_of_ne_zero (Nat.ne_of_gt (Nat.zero_lt_of_lt hf))
      have hread := ht (texts.flatten ++ last ++ rest)
      simp only [List.flatten_cons, List.append_assoc] at hread ⊢
      have hrest := ih fuel (Nat.lt_of_succ_lt_succ hf)
      rw [List.append_assoc] at hrest
      simp [untilNone, hread, hrest]
  refine huntil _ (Nat.lt_succ_of_le ?_)
  -- a text that is no text would be read both as one more and as the last
  have hlen : as.length ≤ texts.flatten.length := by
    clear huntil
    induction h with
    | nil => exact Nat.zero_le _
    | @cons t a texts as ht _ ih =>
      have hpos : 0 < t.length := by
        refine List.length_pos_iff.mpr ?_
        rintro rfl
        cases (ht.unique hlast (List.nil_prefix)).2
      rw [List.flatten_cons, List.length_append, List.length_cons]
      omega
  rw [List.length_append, List.length_append]
  omega

end Reader
end RamCube
