import Mathlib.Logic.Equiv.Basic
import RamCube.Store.Hash

/-! # Mixing is reversible (hash.c)

Each line of `mix` and of `final` can be undone, so the internal state that a key leaves tells any
two keys apart that differ in one block only. -/
namespace RamCube

theorem xor_cancel (x y : UInt32) : x ^^^ y ^^^ y = x := by
  rw [UInt32.xor_assoc, UInt32.xor_self, UInt32.xor_zero]

/-- One line of `mix`, with the variables turned for the next one. -/
def mixTurn (k : UInt32) : Abc ≃ Abc where
  toFun s := ⟨s.b, s.c + s.b, (s.a - s.c) ^^^ rot s.c k⟩
  invFun t := ⟨(t.c ^^^ rot (t.b - t.a) k) + (t.b - t.a), t.a, t.b - t.a⟩
  left_inv s := by simp only [UInt32.add_sub_cancel, xor_cancel, UInt32.sub_add_cancel]
  right_inv t := by simp only [UInt32.sub_add_cancel, UInt32.add_sub_cancel, xor_cancel]

/-- One line of `final`, with the variables turned for the next one. -/
def finalTurn (k : UInt32) : Abc ≃ Abc where
  toFun s := ⟨s.b, (s.c ^^^ s.b) - rot s.b k, s.a⟩
  invFun t := ⟨t.c, t.a, (t.b + rot t.a k) ^^^ t.a⟩
  left_inv s := by simp only [UInt32.sub_add_cancel, xor_cancel]
  right_inv t := by simp only [xor_cancel, UInt32.add_sub_cancel]

/-- The names after one turn. -/
def turnBack : Abc ≃ Abc where
  toFun t := ⟨t.c, t.a, t.b⟩
  invFun s := ⟨s.b, s.c, s.a⟩
  left_inv _ := rfl
  right_inv _ := rfl

theorem mix_turns : mix = (mixTurn 4).trans ((mixTurn 6).trans ((mixTurn 8).trans ((mixTurn 16).trans
    ((mixTurn 19).trans (mixTurn 4))))) := rfl

theorem final_turns : final = (finalTurn 14).trans ((finalTurn 11).trans ((finalTurn 25).trans ((finalTurn 16).trans
    ((finalTurn 4).trans ((finalTurn 14).trans ((finalTurn 24).trans turnBack)))))) := rfl

theorem mix_bijective : Function.Bijective mix := by
  rw [mix_turns]
  exact Equiv.bijective _

theorem final_bijective : Function.Bijective final := by
  rw [final_turns]
  exact Equiv.bijective _

/-! ## The state that a key leaves -/

section

variable (word : UInt8 → UInt8 → UInt8 → UInt8 → UInt32)

/-- The internal state where `hash` returns `c`. -/
def hashState (key : List UInt8) (s : Abc) : Abc :=
  let added := addBlock word (fun i => key.getD i 0) s
  if 12 < key.length then hashState (key.drop 12) (mix added)
  else if key.length = 0 then s
  else final added
termination_by key.length

theorem hashState_block {key : List UInt8} (h : 12 < key.length) (s : Abc) :
    hashState word key s = hashState word (key.drop 12) (mix (addBlock word (fun i => key.getD i 0) s)) := by
  rw [hashState, if_pos h]

theorem hashState_last {key : List UInt8} (h : key.length ≤ 12) (h0 : key.length ≠ 0) (s : Abc) :
    hashState word key s = final (addBlock word (fun i => key.getD i 0) s) := by
  rw [hashState, if_neg (by omega), if_neg h0]

theorem hashState_none {key : List UInt8} (h : key.length = 0) (s : Abc) : hashState word key s = s := by
  rw [hashState, if_neg (by omega), if_pos h]

theorem hashWords_hashState (key : List UInt8) (s : Abc) : hashWords word key s = (hashState word key s).c := by
  induction key, s using hashState.induct word with
  | case1 key s added hlt ih =>
    rw [hashWords, if_pos hlt, hashState_block word hlt]
    exact ih
  | case2 key s hle h0 => rw [hashWords, if_neg hle, if_pos h0, hashState_none word h0]
  | case3 key s hle h0 => rw [hashWords, if_neg hle, if_neg h0, hashState_last word (by omega) h0]

variable {word}

theorem addBlock_state {g : Nat → UInt8} {s s' : Abc} (h : addBlock word g s = addBlock word g s') : s = s' := by
  obtain ⟨ha, hb, hc⟩ := Abc.mk.inj h
  exact Abc.ext ((UInt32.add_left_inj _).mp ha) ((UInt32.add_left_inj _).mp hb) ((UInt32.add_left_inj _).mp hc)

/-- The same bytes keep two states apart. -/
theorem hashState_state (key : List UInt8) (s : Abc) :
    ∀ s', hashState word key s = hashState word key s' → s = s' := by
  induction key, s using hashState.induct word with
  | case1 key s added hlt ih =>
    intro s' h
    rw [hashState_block word hlt s, hashState_block word hlt s'] at h
    exact addBlock_state (mix_bijective.1 (ih _ h))
  | case2 key s hle h0 =>
    intro s' h
    rw [hashState_none word h0, hashState_none word h0] at h
    exact h
  | case3 key s hle h0 =>
    intro s' h
    have h12 : key.length ≤ 12 := by omega
    rw [hashState_last word h12 h0 s, hashState_last word h12 h0 s'] at h
    exact addBlock_state (final_bijective.1 h)

/-- A word of four bytes says which they are. -/
def TellsApart (word : UInt8 → UInt8 → UInt8 → UInt8 → UInt32) : Prop :=
  ∀ b₀ b₁ b₂ b₃ c₀ c₁ c₂ c₃, word b₀ b₁ b₂ b₃ = word c₀ c₁ c₂ c₃ → b₀ = c₀ ∧ b₁ = c₁ ∧ b₂ = c₂ ∧ b₃ = c₃

theorem tellsApart_le32 : TellsApart le32 := by
  intro b₀ b₁ b₂ b₃ c₀ c₁ c₂ c₃ h
  have hnat := congrArg UInt32.toNat h
  rw [toNat_le32, toNat_le32] at hnat
  have := b₀.toNat_lt
  have := b₁.toNat_lt
  have := b₂.toNat_lt
  have := c₀.toNat_lt
  have := c₁.toNat_lt
  have := c₂.toNat_lt
  refine ⟨UInt8.toNat_inj.mp ?_, UInt8.toNat_inj.mp ?_, UInt8.toNat_inj.mp ?_, UInt8.toNat_inj.mp ?_⟩ <;> omega

theorem tellsApart_be32 : TellsApart be32 := by
  intro b₀ b₁ b₂ b₃ c₀ c₁ c₂ c₃ h
  obtain ⟨h3, h2, h1, h0⟩ := tellsApart_le32 _ _ _ _ _ _ _ _ h
  exact ⟨h0, h1, h2, h3⟩

theorem addBlock_bytes (hw : TellsApart word) {g g' : Nat → UInt8} {s : Abc} (h : addBlock word g s = addBlock word g' s) :
    ∀ i, i < 12 → g i = g' i := by
  obtain ⟨ha, hb, hc⟩ := Abc.mk.inj h
  obtain ⟨h0, h1, h2, h3⟩ := hw _ _ _ _ _ _ _ _ ((UInt32.add_right_inj _).mp ha)
  obtain ⟨h4, h5, h6, h7⟩ := hw _ _ _ _ _ _ _ _ ((UInt32.add_right_inj _).mp hb)
  obtain ⟨h8, h9, h10, h11⟩ := hw _ _ _ _ _ _ _ _ ((UInt32.add_right_inj _).mp hc)
  intro i hi
  interval_cases i <;> assumption

/-- Lists of one length that agree as blocks. -/
theorem eq_of_getD {xs ys : List UInt8} (hlen : xs.length = ys.length) (h : ∀ i, i < xs.length → xs.getD i 0 = ys.getD i 0) :
    xs = ys := by
  apply List.ext_getElem hlen
  intro i hx hy
  have hi := h i hx
  rwa [List.getD_eq_getElem _ _ hx, List.getD_eq_getElem _ _ hy] at hi

/-- The first block of a key, before the last bytes or as the last bytes. -/
theorem hashState_first (hw : TellsApart word) {blk blk' : List UInt8} (rest : List UInt8) (s : Abc)
    (hlen : blk.length = blk'.length) (h12 : blk.length ≤ 12) (hrest : rest = [] ∨ blk.length = 12)
    (h : hashState word (blk ++ rest) s = hashState word (blk' ++ rest) s) : blk = blk' := by
  have hbytes : addBlock word (fun i => (blk ++ rest).getD i 0) s = addBlock word (fun i => (blk' ++ rest).getD i 0) s := by
    by_cases hlong : 12 < (blk ++ rest).length
    · have hfull : blk.length = 12 := by
        rcases hrest with rfl | hfull
        · rw [List.append_nil] at hlong
          omega
        · exact hfull
      have hlong' : 12 < (blk' ++ rest).length := by rwa [List.length_append, ← hlen, ← List.length_append]
      rw [hashState_block word hlong, hashState_block word hlong', List.drop_left' hfull, List.drop_left' (hlen ▸ hfull)] at h
      exact mix_bijective.1 (hashState_state rest _ _ h)
    · have hlen' : (blk ++ rest).length = (blk' ++ rest).length := by rw [List.length_append, hlen, List.length_append]
      by_cases h0 : (blk ++ rest).length = 0
      · rw [List.eq_nil_of_length_eq_zero h0, List.eq_nil_of_length_eq_zero (hlen'.symm.trans h0)]
      · rw [hashState_last word (by omega) h0, hashState_last word (by omega) (by omega)] at h
        exact final_bijective.1 h
  apply eq_of_getD hlen
  intro i hi
  have hget := addBlock_bytes hw hbytes i (by omega)
  rwa [List.getD_append _ _ _ _ hi, List.getD_append _ _ _ _ (hlen ▸ hi)] at hget

/-- Blocks before. -/
theorem hashState_between (hw : TellsApart word) {blk blk' : List UInt8} (rest : List UInt8) (hlen : blk.length = blk'.length)
    (h12 : blk.length ≤ 12) (hrest : rest = [] ∨ blk.length = 12) (n : Nat) :
    ∀ pre s, pre.length = 12 * n → hashState word (pre ++ blk ++ rest) s = hashState word (pre ++ blk' ++ rest) s → blk = blk' := by
  induction n with
  | zero =>
    intro pre s hpre h
    rw [List.length_eq_zero_iff.mp hpre] at h
    exact hashState_first hw rest s hlen h12 hrest h
  | succ n ih =>
    intro pre s hpre h
    by_cases hempty : blk.length = 0
    · rw [List.eq_nil_of_length_eq_zero hempty, List.eq_nil_of_length_eq_zero (hlen.symm.trans hempty)]
    have hstep : ∀ b : List UInt8, 0 < b.length → hashState word (pre ++ b ++ rest) s =
        hashState word (pre.drop 12 ++ b ++ rest) (mix (addBlock word (fun i => pre.getD i 0) s)) := by
      intro b hb
      have hlong : 12 < (pre ++ b ++ rest).length := by
        rw [List.length_append, List.length_append]
        omega
      have hget : addBlock word (fun i => (pre ++ b ++ rest).getD i 0) s = addBlock word (fun i => pre.getD i 0) s := by
        have hi : ∀ i, i < 12 → (pre ++ b ++ rest).getD i 0 = pre.getD i 0 := by
          intro i hi
          rw [List.append_assoc, List.getD_append _ _ _ _ (by omega)]
        simp only [addBlock, hi, Nat.reduceLT]
      rw [hashState_block word hlong, hget, List.drop_append_of_le_length (by rw [List.length_append]; omega),
        List.drop_append_of_le_length (by omega)]
    rw [hstep blk (by omega), hstep blk' (by omega)] at h
    exact ih (pre.drop 12) _ (by rw [List.length_drop]; omega) h

/-- `mix` and `final` can be undone, so the state in which `hash` returns `c` keeps what each block of the key says: two
keys that differ in one block, the last one or not, leave different states. -/
theorem hash_keeps_blocks (n : Nat) (pre blk blk' rest : List UInt8) (initval : UInt32) (hpre : pre.length = 12 * n)
    (hlen : blk.length = blk'.length) (h12 : blk.length ≤ 12) (hrest : rest = [] ∨ blk.length = 12) (hne : blk ≠ blk') :
    let start := hashStart (pre ++ blk ++ rest).length initval
    (hashState le32 (pre ++ blk ++ rest) start ≠ hashState le32 (pre ++ blk' ++ rest) start ∧
      hashKey le32 (pre ++ blk ++ rest) initval = (hashState le32 (pre ++ blk ++ rest) start).c ∧
      hashKey le32 (pre ++ blk' ++ rest) initval = (hashState le32 (pre ++ blk' ++ rest) start).c) ∧
    (hashState be32 (pre ++ blk ++ rest) start ≠ hashState be32 (pre ++ blk' ++ rest) start ∧
      hashKey be32 (pre ++ blk ++ rest) initval = (hashState be32 (pre ++ blk ++ rest) start).c ∧
      hashKey be32 (pre ++ blk' ++ rest) initval = (hashState be32 (pre ++ blk' ++ rest) start).c) := by
  intro start
  have hstart : hashStart (pre ++ blk' ++ rest).length initval = start := by
    rw [List.length_append, List.length_append, ← hlen, ← List.length_append, ← List.length_append]
  have hkeeps : ∀ word, TellsApart word → hashState word (pre ++ blk ++ rest) start ≠ hashState word (pre ++ blk' ++ rest) start ∧
      hashKey word (pre ++ blk ++ rest) initval = (hashState word (pre ++ blk ++ rest) start).c ∧
      hashKey word (pre ++ blk' ++ rest) initval = (hashState word (pre ++ blk' ++ rest) start).c := by
    intro word hw
    refine ⟨fun h => hne (hashState_between hw rest hlen h12 hrest n pre start hpre h), hashWords_hashState .., ?_⟩
    rw [hashKey, hstart, hashWords_hashState]
  exact ⟨hkeeps le32 tellsApart_le32, hkeeps be32 tellsApart_be32⟩

end

/-- Two keys of two bytes. -/
theorem hash_keeps_blocks_two : hashState le32 [97, 98] (hashStart 2 0) ≠ hashState le32 [98, 97] (hashStart 2 0) :=
  (hash_keeps_blocks 0 [] [97, 98] [98, 97] [] 0 rfl rfl (by decide) (.inl rfl) (by decide)).1.1

end RamCube
