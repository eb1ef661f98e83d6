import Mathlib.Tactic.IntervalCases
import RamCube.Lib.Words

/-! # The hash function (hash.c)

The key is read by words of four bytes where its address allows it, else by two bytes or byte by
byte, and the last words may reach behind the key. Whatever its address and what comes behind it,
the value is that of its bytes, filled up with zeros. -/
namespace RamCube

/-- The internal state. -/
@[ext]
structure Abc where
  a : UInt32
  b : UInt32
  c : UInt32
deriving DecidableEq

def rot (x k : UInt32) : UInt32 := (x <<< k) ^^^ (x >>> (32 - k))

def mix (s : Abc) : Abc :=
  let ⟨a, b, c⟩ := s
  let a := a - c; let a := a ^^^ rot c 4; let c := c + b
  let b := b - a; let b := b ^^^ rot a 6; let a := a + c
  let c := c - b; let c := c ^^^ rot b 8; let b := b + a
  let a := a - c; let a := a ^^^ rot c 16; let c := c + b
  let b := b - a; let b := b ^^^ rot a 19; let a := a + c
  let c := c - b; let c := c ^^^ rot b 4; let b := b + a
  ⟨a, b, c⟩

def final (s : Abc) : Abc :=
  let ⟨a, b, c⟩ := s
  let c := c ^^^ b; let c := c - rot b 14
  let a := a ^^^ c; let a := a - rot c 11
  let b := b ^^^ a; let b := b - rot a 25
  let c := c ^^^ b; let c := c - rot b 16
  let a := a ^^^ c; let a := a - rot c 4
  let b := b ^^^ a; let b := b - rot a 14
  let c := c ^^^ b; let c := c - rot b 24
  ⟨a, b, c⟩

namespace Abc

def addA (x : UInt32) (s : Abc) : Abc := { s with a := s.a + x }

def addB (x : UInt32) (s : Abc) : Abc := { s with b := s.b + x }

def addC (x : UInt32) (s : Abc) : Abc := { s with c := s.c + x }

end Abc

/-! ## The switch on the length of the last block -/

/-- `case label: body`, with or without a `break` behind it. -/
structure Case where
  label : Nat
  body : Abc → Option Abc
  breaks : Bool

/-- From a case on, as far as a `break`. -/
def runCases : List Case → Abc → Option Abc
  | [], s => some s
  | c :: cs, s => do
    let s ← c.body s
    if c.breaks then some s else runCases cs s

def switch (cases : List Case) (v : Nat) (s : Abc) : Option Abc :=
  runCases (cases.dropWhile fun c => c.label != v) s

section

variable (m : Mem) (k : Nat)

/-- `a`, `b` and `c` with words from `k` on added, the last through a mask. -/
def addWords (word : UInt8 → UInt8 → UInt8 → UInt8 → UInt32) (n : Nat) (mask : UInt32) (s : Abc) : Option Abc := do
  if n = 1 then
    return s.addA ((← m.read32 k word) &&& mask)
  let s := s.addA (← m.read32 k word)
  if n = 2 then
    return s.addB ((← m.read32 (k + 4) word) &&& mask)
  let s := s.addB (← m.read32 (k + 4) word)
  return s.addC ((← m.read32 (k + 8) word) &&& mask)

/-- The switch of the path with words of four bytes, with the masks of one, two and three bytes. -/
def wordCases (word : UInt8 → UInt8 → UInt8 → UInt8 → UInt32) (m1 m2 m3 : UInt32) : List Case :=
  [⟨12, addWords m k word 3 0xffffffff, true⟩, ⟨11, addWords m k word 3 m3, true⟩, ⟨10, addWords m k word 3 m2, true⟩,
    ⟨9, addWords m k word 3 m1, true⟩, ⟨8, addWords m k word 2 0xffffffff, true⟩, ⟨7, addWords m k word 2 m3, true⟩,
    ⟨6, addWords m k word 2 m2, true⟩, ⟨5, addWords m k word 2 m1, true⟩, ⟨4, addWords m k word 1 0xffffffff, true⟩,
    ⟨3, addWords m k word 1 m3, true⟩, ⟨2, addWords m k word 1 m2, true⟩, ⟨1, addWords m k word 1 m1, true⟩]

/-- `c += ((uint32_t)k8[i]) << shift`, and the same for the others. -/
def addByte (add : UInt32 → Abc → Abc) (i : Nat) (shift : UInt32) (s : Abc) : Option Abc := do
  return add ((← m.read8 (k + i)) <<< shift) s

/-- The switch of that path in a build with `VALGRIND`: the shifts of the first three bytes of a word. -/
def valgrindCases (word : UInt8 → UInt8 → UInt8 → UInt8 → UInt32) (s0 s1 s2 : UInt32) : List Case :=
  [⟨12, addWords m k word 3 0xffffffff, true⟩, ⟨11, addByte m k .addC 10 s2, false⟩, ⟨10, addByte m k .addC 9 s1, false⟩,
    ⟨9, addByte m k .addC 8 s0, false⟩, ⟨8, addWords m k word 2 0xffffffff, true⟩, ⟨7, addByte m k .addB 6 s2, false⟩,
    ⟨6, addByte m k .addB 5 s1, false⟩, ⟨5, addByte m k .addB 4 s0, false⟩, ⟨4, addWords m k word 1 0xffffffff, true⟩,
    ⟨3, addByte m k .addA 2 s2, false⟩, ⟨2, addByte m k .addA 1 s1, false⟩, ⟨1, addByte m k .addA 0 s0, true⟩]

/-- The switch of the path byte by byte: the shifts of the four bytes of a word. -/
def byteCases (s0 s1 s2 s3 : UInt32) : List Case :=
  [⟨12, addByte m k .addC 11 s3, false⟩, ⟨11, addByte m k .addC 10 s2, false⟩, ⟨10, addByte m k .addC 9 s1, false⟩,
    ⟨9, addByte m k .addC 8 s0, false⟩, ⟨8, addByte m k .addB 7 s3, false⟩, ⟨7, addByte m k .addB 6 s2, false⟩,
    ⟨6, addByte m k .addB 5 s1, false⟩, ⟨5, addByte m k .addB 4 s0, false⟩, ⟨4, addByte m k .addA 3 s3, false⟩,
    ⟨3, addByte m k .addA 2 s2, false⟩, ⟨2, addByte m k .addA 1 s1, false⟩, ⟨1, addByte m k .addA 0 s0, true⟩]

/-- `k[i] + (((uint32_t)k[i + 1]) << 16)`, of words of two bytes at the address. -/
def readHalves (p : Nat) : Option UInt32 := do
  return (← m.read16 p) + (← m.read16 (p + 2)) <<< 16

/-- `a` and perhaps `b` with pairs of words of two bytes added. -/
def addHalves (n : Nat) (s : Abc) : Option Abc := do
  let s := s.addA (← readHalves m k)
  if n = 1 then
    return s
  let s := s.addB (← readHalves m (k + 4))
  if n = 2 then
    return s
  return s.addC (← readHalves m (k + 8))

/-- One word of two bytes, before `n` pairs. -/
def addHalf (add : UInt32 → Abc → Abc) (i n : Nat) (s : Abc) : Option Abc := do
  let s := add (← m.read16 (k + i)) s
  if n = 0 then
    return s
  addHalves m k n s

/-- The switch of the path with words of two bytes. -/
def halfCases : List Case :=
  [⟨12, addHalves m k 3, true⟩, ⟨11, addByte m k .addC 10 16, false⟩, ⟨10, addHalf m k .addC 8 2, true⟩,
    ⟨9, addByte m k .addC 8 0, false⟩, ⟨8, addHalves m k 2, true⟩, ⟨7, addByte m k .addB 6 16, false⟩,
    ⟨6, addHalf m k .addB 4 1, true⟩, ⟨5, addByte m k .addB 4 0, false⟩, ⟨4, addHalves m k 1, true⟩,
    ⟨3, addByte m k .addA 2 16, false⟩, ⟨2, addHalf m k .addA 0 0, true⟩, ⟨1, addByte m k .addA 0 0, true⟩]

/-- The twelve bytes of a block one by one. -/
def addBytes (s0 s1 s2 s3 : UInt32) (s : Abc) : Option Abc := do
  let s ← addByte m k .addA 0 s0 s
  let s ← addByte m k .addA 1 s1 s
  let s ← addByte m k .addA 2 s2 s
  let s ← addByte m k .addA 3 s3 s
  let s ← addByte m k .addB 4 s0 s
  let s ← addByte m k .addB 5 s1 s
  let s ← addByte m k .addB 6 s2 s
  let s ← addByte m k .addB 7 s3 s
  let s ← addByte m k .addC 8 s0 s
  let s ← addByte m k .addC 9 s1 s
  let s ← addByte m k .addC 10 s2 s
  addByte m k .addC 11 s3 s

end

/-! ## The paths -/

/-- A way to read the key: all but the last block, and the switch for the last one. -/
structure HashPath where
  block : Nat → Abc → Option Abc
  cases : Nat → List Case

/-- `while (length > 12)`, and the last block. A key of no bytes needs no mixing. -/
def HashPath.run (path : HashPath) (k length : Nat) (s : Abc) : Option UInt32 :=
  if 12 < length then do
    let s ← path.block k s
    path.run (k + 12) (length - 12) (mix s)
  else if length = 0 then some s.c
  else do
    let s ← switch (path.cases k) length s
    some (final s).c
termination_by length

def hashStart (length : Nat) (initval : UInt32) : Abc :=
  let x := 0xdeadbeef + UInt32.ofNat length + initval
  ⟨x, x, x⟩

section

variable (valgrind : Bool) (m : Mem) (key length : Nat) (initval : UInt32)

/-- The path that `hash` takes where `HASH_LITTLE_ENDIAN` is set. -/
def littlePath : HashPath :=
  if key % 4 = 0 then
    ⟨fun k => addWords m k le32 3 0xffffffff,
      fun k => if valgrind then valgrindCases m k le32 0 8 16 else wordCases m k le32 0xff 0xffff 0xffffff⟩
  else if key % 2 = 0 then ⟨fun k => addHalves m k 3, fun k => halfCases m k⟩
  else ⟨fun k => addBytes m k 0 8 16 24, fun k => byteCases m k 0 8 16 24⟩

/-- The path that `hash` takes where `HASH_BIG_ENDIAN` is set. -/
def bigPath : HashPath :=
  if key % 4 = 0 then
    ⟨fun k => addWords m k be32 3 0xffffffff,
      fun k => if valgrind then valgrindCases m k be32 24 16 8 else wordCases m k be32 0xff000000 0xffff0000 0xffffff00⟩
  else ⟨fun k => addBytes m k 24 16 8 0, fun k => byteCases m k 24 16 8 0⟩

/-- `hash` where `HASH_LITTLE_ENDIAN` is set. -/
def hashLittle : Option UInt32 := (littlePath valgrind m key).run key length (hashStart length initval)

/-- `hash` where `HASH_BIG_ENDIAN` is set. -/
def hashBig : Option UInt32 := (bigPath valgrind m key).run key length (hashStart length initval)

end


/-! ## The value of a key -/

/-- The bytes of a block added to the state, by words of four. -/
def addBlock (word : UInt8 → UInt8 → UInt8 → UInt8 → UInt32) (g : Nat → UInt8) (s : Abc) : Abc where
  a := s.a + word (g 0) (g 1) (g 2) (g 3)
  b := s.b + word (g 4) (g 5) (g 6) (g 7)
  c := s.c + word (g 8) (g 9) (g 10) (g 11)

/-- The hash of a list of bytes, filled up with zeros to blocks of twelve. -/
def hashWords (word : UInt8 → UInt8 → UInt8 → UInt8 → UInt32) (key : List UInt8) (s : Abc) : UInt32 :=
  let added := addBlock word (fun i => key.getD i 0) s
  if 12 < key.length then hashWords word (key.drop 12) (mix added)
  else if key.length = 0 then s.c
  else (final added).c
termination_by key.length

def hashKey (word : UInt8 → UInt8 → UInt8 → UInt8 → UInt32) (key : List UInt8) (initval : UInt32) : UInt32 :=
  hashWords word key (hashStart key.length initval)

/-- `n` bytes of a block are in memory, and the block has zeros behind them. -/
structure BlockAt (m : Mem) (k n : Nat) (g : Nat → UInt8) : Prop where
  byte : ∀ i, i < n → m (k + i) = some (g i)
  zero : ∀ i, n ≤ i → g i = 0

/-- The whole words of four that the bytes begin are mapped. -/
def WordsMapped (m : Mem) (k n : Nat) : Prop := ∀ i, i < (n + 3) / 4 * 4 → ∃ b, m (k + i) = some b

/-- A word through a mask is the word of its first bytes. -/
structure MasksOf (word : UInt8 → UInt8 → UInt8 → UInt8 → UInt32) (m1 m2 m3 : UInt32) : Prop where
  one : ∀ b₀ b₁ b₂ b₃, word b₀ b₁ b₂ b₃ &&& m1 = word b₀ 0 0 0
  two : ∀ b₀ b₁ b₂ b₃, word b₀ b₁ b₂ b₃ &&& m2 = word b₀ b₁ 0 0
  three : ∀ b₀ b₁ b₂ b₃, word b₀ b₁ b₂ b₃ &&& m3 = word b₀ b₁ b₂ 0

/-- A word is the sum of its bytes, each shifted to its place. -/
def ShiftsOf (word : UInt8 → UInt8 → UInt8 → UInt8 → UInt32) (s0 s1 s2 s3 : UInt32) : Prop :=
  ∀ b₀ b₁ b₂ b₃, word b₀ b₁ b₂ b₃ = b₀.toUInt32 <<< s0 + b₁.toUInt32 <<< s1 + b₂.toUInt32 <<< s2 + b₃.toUInt32 <<< s3

theorem masksOf_le32 : MasksOf le32 0xff 0xffff 0xffffff := ⟨le32_and_ff, le32_and_ffff, le32_and_ffffff⟩

theorem masksOf_be32 : MasksOf be32 0xff000000 0xffff0000 0xffffff00 := ⟨be32_and_ff, be32_and_ffff, be32_and_ffffff⟩

theorem shiftsOf_le32 : ShiftsOf le32 0 8 16 24 := by
  intro b₀ b₁ b₂ b₃
  rw [le32, UInt32.shiftLeft_zero]

theorem add_reverse (a b c d : UInt32) : a + b + c + d = d + c + b + a := by
  rw [UInt32.add_comm (a + b + c) d, UInt32.add_comm (a + b) c, UInt32.add_comm a b, UInt32.add_assoc d c, UInt32.add_assoc d,
    UInt32.add_assoc c]

theorem shiftsOf_be32 : ShiftsOf be32 24 16 8 0 := by
  intro b₀ b₁ b₂ b₃
  rw [be32, le32, UInt32.shiftLeft_zero]
  exact add_reverse ..

section

variable {m : Mem} {k n : Nat} {g : Nat → UInt8} {s : Abc} {word : UInt8 → UInt8 → UInt8 → UInt8 → UInt32}
  {m1 m2 m3 s0 s1 s2 s3 : UInt32}

theorem and_all (x : UInt32) : x &&& 0xffffffff = x := by
  rw [← UInt32.toNat_inj, and_low 32 rfl, Nat.mod_eq_of_lt x.toNat_lt]

theorem ShiftsOf.zero (h : ShiftsOf word s0 s1 s2 s3) : word 0 0 0 0 = 0 := by
  rw [h]
  simp

theorem read32_some {p : Nat} {b₀ b₁ b₂ b₃ : UInt8} (h0 : m p = some b₀) (h1 : m (p + 1) = some b₁)
    (h2 : m (p + 2) = some b₂) (h3 : m (p + 3) = some b₃) : m.read32 p word = some (word b₀ b₁ b₂ b₃) := by
  simp only [Mem.read32, h0, h1, h2, h3]
  rfl

variable (word) in
/-- A whole word of the block. -/
theorem BlockAt.wholeWord (h : BlockAt m k n g) {j : Nat} (hj : j + 4 ≤ n) :
    m.read32 (k + j) word = some (word (g j) (g (j + 1)) (g (j + 2)) (g (j + 3))) :=
  read32_some (h.byte j (by omega)) (h.byte (j + 1) (by omega)) (h.byte (j + 2) (by omega)) (h.byte (j + 3) (by omega))

/-- The word that the last bytes of the block begin, through the mask of their number. -/
theorem BlockAt.lastWord (h : BlockAt m k n g) (hw : WordsMapped m k n) (hm : MasksOf word m1 m2 m3) {j : Nat} (hj : j % 4 = 0)
    (hlt : j < n) (hle : n ≤ j + 4) : ∃ x, m.read32 (k + j) word = some x ∧
      x &&& (if n = j + 1 then m1 else if n = j + 2 then m2 else if n = j + 3 then m3 else 0xffffffff) =
        word (g j) (g (j + 1)) (g (j + 2)) (g (j + 3)) := by
  obtain ⟨b1, h1⟩ := hw (j + 1) (by omega)
  obtain ⟨b2, h2⟩ := hw (j + 2) (by omega)
  obtain ⟨b3, h3⟩ := hw (j + 3) (by omega)
  refine ⟨_, read32_some (h.byte j hlt) h1 h2 h3, ?_⟩
  have hbyte : ∀ {i b}, m (k + i) = some b → i < n → b = g i := fun hb hi => Option.some.inj (hb.symm.trans (h.byte _ hi))
  rcases (by omega : n = j + 1 ∨ n = j + 2 ∨ n = j + 3 ∨ n = j + 4) with hn | hn | hn | hn
  · rw [if_pos hn, hm.one, h.zero (j + 1) (by omega), h.zero (j + 2) (by omega), h.zero (j + 3) (by omega)]
  · rw [if_neg (by omega), if_pos hn, hm.two, hbyte h1 (by omega), h.zero (j + 2) (by omega), h.zero (j + 3) (by omega)]
  · rw [if_neg (by omega), if_neg (by omega), if_pos hn, hm.three, hbyte h1 (by omega), hbyte h2 (by omega),
      h.zero (j + 3) (by omega)]
  · rw [if_neg (by omega), if_neg (by omega), if_neg (by omega), and_all, hbyte h1 (by omega), hbyte h2 (by omega),
      hbyte h3 (by omega)]

theorem addWords_one {x mask : UInt32} (h : m.read32 k word = some x) :
    addWords m k word 1 mask s = some { s with a := s.a + (x &&& mask) } := by
  simp only [addWords, h]
  rfl

theorem addWords_two {x y mask : UInt32} (h : m.read32 k word = some x) (h' : m.read32 (k + 4) word = some y) :
    addWords m k word 2 mask s = some { s with a := s.a + x, b := s.b + (y &&& mask) } := by
  simp only [addWords, h, h']
  rfl

theorem addWords_three {x y z mask : UInt32} (h : m.read32 k word = some x) (h' : m.read32 (k + 4) word = some y)
    (h'' : m.read32 (k + 8) word = some z) :
    addWords m k word 3 mask s = some ⟨s.a + x, s.b + y, s.c + (z &&& mask)⟩ := by
  simp only [addWords, h, h', h'']
  rfl

/-- The words of a block that holds nothing. -/
theorem BlockAt.zeroWord (h : BlockAt m k n g) (hz : word 0 0 0 0 = 0) {j : Nat} (hj : n ≤ j) :
    word (g j) (g (j + 1)) (g (j + 2)) (g (j + 3)) = 0 := by
  rw [h.zero j hj, h.zero (j + 1) (by omega), h.zero (j + 2) (by omega), h.zero (j + 3) (by omega), hz]

/-- The last block read by words of four. -/
theorem switch_wordCases (h : BlockAt m k n g) (hw : WordsMapped m k n) (hm : MasksOf word m1 m2 m3) (hz : word 0 0 0 0 = 0)
    (h0 : 0 < n) (h12 : n ≤ 12) : switch (wordCases m k word m1 m2 m3) n s = some (addBlock word g s) := by
  rcases (by omega : n ≤ 4 ∨ 4 < n ∧ n ≤ 8 ∨ 8 < n) with hn | ⟨hn, hn'⟩ | hn
  · obtain ⟨x, hx, he⟩ := h.lastWord hw hm (j := 0) rfl h0 (by omega)
    have hb := h.zeroWord hz (j := 4) (by omega)
    have hc := h.zeroWord hz (j := 8) (by omega)
    rw [addBlock, hb, hc, ← he, UInt32.add_zero, UInt32.add_zero]
    interval_cases n <;> exact congrArg (Option.bind · _) (addWords_one hx)
  · have hx := h.wholeWord word (j := 0) (by omega)
    obtain ⟨y, hy, he⟩ := h.lastWord hw hm (j := 4) rfl hn (by omega)
    have hc := h.zeroWord hz (j := 8) (by omega)
    rw [addBlock, hc, ← he, UInt32.add_zero]
    interval_cases n <;> exact congrArg (Option.bind · _) (addWords_two hx hy)
  · have hx := h.wholeWord word (j := 0) (by omega)
    have hy := h.wholeWord word (j := 4) (by omega)
    obtain ⟨z, hz, he⟩ := h.lastWord hw hm (j := 8) rfl hn (by omega)
    rw [addBlock, ← he]
    interval_cases n <;> exact congrArg (Option.bind · _) (addWords_three hx hy hz)

/-- Bytes from the last to the first. -/
theorem add_two (x a b : UInt32) : x + (a + b) = x + b + a := by
  rw [UInt32.add_assoc, UInt32.add_comm b]

theorem addByte_some {add : UInt32 → Abc → Abc} {i : Nat} {shift : UInt32} (h : BlockAt m k n g) (hi : i < n) :
    addByte m k add i shift s = some (add ((g i).toUInt32 <<< shift) s) := by
  simp only [addByte, Mem.read8, h.byte i hi, Option.map_some]
  rfl

/-- The last block read byte by byte. -/
theorem switch_byteCases (h : BlockAt m k n g) (hs : ShiftsOf word s0 s1 s2 s3) (h0 : 0 < n) (h12 : n ≤ 12) :
    switch (byteCases m k s0 s1 s2 s3) n s = some (addBlock word g s) := by
  have hb : ∀ (add : UInt32 → Abc → Abc) i shift s, i < n → addByte m k add i shift s = some (add ((g i).toUInt32 <<< shift) s) :=
    fun _ _ _ _ hi => addByte_some h hi
  have hg : ∀ i, n ≤ i → (g i).toUInt32 = 0 := fun i hi => by rw [h.zero i hi]; rfl
  have hw : ∀ b₀ b₁ b₂ b₃, word b₀ b₁ b₂ b₃ = _ := hs
  simp only [addBlock, hw]
  interval_cases n <;>
    simp [switch, byteCases, List.dropWhile, runCases, hb, hg, Abc.addA, Abc.addB, Abc.addC, add_two]


/-! ### Whole blocks -/

theorem addWords_block (h : BlockAt m k 12 g) : addWords m k word 3 0xffffffff s = some (addBlock word g s) := by
  have h0 := h.wholeWord word (j := 0) (by omega)
  have h4 := h.wholeWord word (j := 4) (by omega)
  have h8 := h.wholeWord word (j := 8) (by omega)
  rw [Nat.add_zero] at h0
  rw [addWords_three h0 h4 h8, and_all]
  rfl

theorem addBytes_block (h : BlockAt m k 12 g) (hs : ShiftsOf word s0 s1 s2 s3) :
    addBytes m k s0 s1 s2 s3 s = some (addBlock word g s) := by
  have hb : ∀ (add : UInt32 → Abc → Abc) i shift s, i < 12 → addByte m k add i shift s = some (add ((g i).toUInt32 <<< shift) s) :=
    fun _ _ _ _ hi => addByte_some h hi
  have hw : ∀ b₀ b₁ b₂ b₃, word b₀ b₁ b₂ b₃ = _ := hs
  simp [addBytes, addBlock, hw, hb, Abc.addA, Abc.addB, Abc.addC, UInt32.add_assoc]

/-! ### Words of two bytes -/

theorem le16_pair (b₀ b₁ b₂ b₃ : UInt8) : le16 b₀ b₁ + le16 b₂ b₃ <<< 16 = le32 b₀ b₁ b₂ b₃ := by
  have h0 := b₀.toNat_lt
  have h1 := b₁.toNat_lt
  have h2 := b₂.toNat_lt
  have h3 := b₃.toNat_lt
  rw [← UInt32.toNat_inj, toNat_le32]
  simp only [le16, UInt32.toNat_add, UInt32.toNat_shiftLeft, UInt8.toNat_toUInt32, Nat.shiftLeft_eq]
  simp only [UInt32.reduceToNat, Nat.reduceMod, Nat.reducePow]
  omega

theorem BlockAt.half (h : BlockAt m k n g) {j : Nat} (hj : j + 2 ≤ n) : m.read16 (k + j) = some (le16 (g j) (g (j + 1))) := by
  have h0 := h.byte j (by omega)
  have h1 := h.byte (j + 1) (by omega)
  rw [← Nat.add_assoc] at h1
  simp only [Mem.read16, h0, h1]
  rfl

theorem BlockAt.halves (h : BlockAt m k n g) {j : Nat} (hj : j + 4 ≤ n) :
    readHalves m (k + j) = some (le32 (g j) (g (j + 1)) (g (j + 2)) (g (j + 3))) := by
  have h0 := h.half (j := j) (by omega)
  have h2 := h.half (j := j + 2) (by omega)
  rw [← Nat.add_assoc] at h2
  rw [← le16_pair]
  simp only [readHalves, h0, h2]
  rfl

theorem addHalves_one (h : BlockAt m k n g) (hn : 4 ≤ n) :
    addHalves m k 1 s = some (s.addA (le32 (g 0) (g 1) (g 2) (g 3))) := by
  have h0 := h.halves (j := 0) hn
  rw [Nat.add_zero] at h0
  simp [addHalves, h0]

theorem addHalves_two (h : BlockAt m k n g) (hn : 8 ≤ n) :
    addHalves m k 2 s = some ((s.addA (le32 (g 0) (g 1) (g 2) (g 3))).addB (le32 (g 4) (g 5) (g 6) (g 7))) := by
  have h0 := h.halves (j := 0) (by omega)
  have h4 := h.halves (j := 4) hn
  rw [Nat.add_zero] at h0
  simp [addHalves, h0, h4]

theorem addHalves_block (h : BlockAt m k n g) (hn : 12 ≤ n) : addHalves m k 3 s = some (addBlock le32 g s) := by
  have h0 := h.halves (j := 0) (by omega)
  have h4 := h.halves (j := 4) (by omega)
  have h8 := h.halves (j := 8) hn
  rw [Nat.add_zero] at h0
  simp [addHalves, h0, h4, h8, addBlock, Abc.addA, Abc.addB, Abc.addC]

/-- The last block read by words of two. -/
theorem switch_halfCases (h : BlockAt m k n g) (h0 : 0 < n) (h12 : n ≤ 12) :
    switch (halfCases m k) n s = some (addBlock le32 g s) := by
  have hb : ∀ (add : UInt32 → Abc → Abc) i shift s, i < n → addByte m k add i shift s = some (add ((g i).toUInt32 <<< shift) s) :=
    fun _ _ _ _ hi => addByte_some h hi
  have hg : ∀ i, n ≤ i → (g i).toUInt32 = 0 := fun i hi => by rw [h.zero i hi]; rfl
  have hh : ∀ j, j + 2 ≤ n → m.read16 (k + j) = some (le16 (g j) (g (j + 1))) := fun j hj => h.half hj
  have hz : 2 ≤ n → m.read16 k = some (le16 (g 0) (g 1)) := fun hn => h.half (j := 0) hn
  have h4 : 4 ≤ n → ∀ s, addHalves m k 1 s = _ := fun hn _ => addHalves_one h hn
  have h8 : 8 ≤ n → ∀ s, addHalves m k 2 s = _ := fun hn _ => addHalves_two h hn
  have hblock : 12 ≤ n → ∀ s, addHalves m k 3 s = _ := fun hn _ => addHalves_block h hn
  clear h
  interval_cases n <;>
    simp [switch, halfCases, List.dropWhile, runCases, hb, hg, addHalf, hh, hz, h4, h8, hblock, addBlock, le16, le32,
      Abc.addA, Abc.addB, Abc.addC, add_two]

/-- The last block where the bytes behind the key are not read. -/
theorem switch_valgrindCases (h : BlockAt m k n g) (hs : ShiftsOf word s0 s1 s2 s3) (h0 : 0 < n) (h12 : n ≤ 12) :
    switch (valgrindCases m k word s0 s1 s2) n s = some (addBlock word g s) := by
  have hb : ∀ (add : UInt32 → Abc → Abc) i shift s, i < n → addByte m k add i shift s = some (add ((g i).toUInt32 <<< shift) s) :=
    fun _ _ _ _ hi => addByte_some h hi
  have hg : ∀ i, n ≤ i → (g i).toUInt32 = 0 := fun i hi => by rw [h.zero i hi]; rfl
  have h4 : 4 ≤ n → ∀ s, addWords m k word 1 0xffffffff s = _ := fun hn _ => addWords_one (h.wholeWord word (j := 0) hn)
  have h8 : 8 ≤ n → ∀ s, addWords m k word 2 0xffffffff s = _ := fun hn _ =>
    addWords_two (h.wholeWord word (j := 0) (by omega)) (h.wholeWord word (j := 4) hn)
  have hblock : 12 ≤ n → ∀ s, addWords m k word 3 0xffffffff s = _ := fun hn _ =>
    addWords_three (h.wholeWord word (j := 0) (by omega)) (h.wholeWord word (j := 4) (by omega)) (h.wholeWord word (j := 8) hn)
  have hw : ∀ b₀ b₁ b₂ b₃, word b₀ b₁ b₂ b₃ = _ := hs
  clear h
  interval_cases n <;>
    simp [switch, valgrindCases, List.dropWhile, runCases, hb, hg, h4, h8, hblock, and_all, addBlock, hw,
      Abc.addA, Abc.addB, Abc.addC, add_two]

end

/-! ## Every path reads the bytes of the key -/

/-- Where a byte is mapped, the whole word of four that it lies in is. -/
def Mem.WordProtected (m : Mem) : Prop := ∀ p q b, m p = some b → q / 4 = p / 4 → ∃ b', m q = some b'

/-- A path adds each block of a key at the address by words of four. -/
structure HashPath.Adds (path : HashPath) (m : Mem) (key : Nat) (word : UInt8 → UInt8 → UInt8 → UInt8 → UInt32) : Prop where
  block : ∀ k g s, BlockAt m k 12 g → path.block k s = some (addBlock word g s)
  last : ∀ k n g s, k % 4 = key % 4 → 0 < n → n ≤ 12 → BlockAt m k n g → switch (path.cases k) n s = some (addBlock word g s)

section

variable {m : Mem} {key : Nat} {bs : List UInt8} {word : UInt8 → UInt8 → UInt8 → UInt8 → UInt32} {valgrind : Bool}

theorem Mem.Holds.block {k : Nat} (h : m.Holds k bs) (hn : 12 ≤ bs.length) :
    BlockAt m k 12 (fun i => if i < 12 then bs.getD i 0 else 0) where
  byte i hi := by rw [if_pos hi, h.get (by omega)]
  zero i hi := by rw [if_neg (by omega)]

theorem Mem.Holds.last {k : Nat} (h : m.Holds k bs) : BlockAt m k bs.length (fun i => bs.getD i 0) where
  byte i hi := h.get hi
  zero i hi := by rw [List.getD_eq_getElem?_getD, List.getElem?_eq_none hi, Option.getD_none]

/-- The words that the last bytes begin lie in words with bytes of the key. -/
theorem Mem.WordProtected.mapped {k n : Nat} {g : Nat → UInt8} (hp : m.WordProtected) (hk : k % 4 = 0) (h : BlockAt m k n g) :
    WordsMapped m k n := by
  intro i hi
  have hbyte := h.byte (i / 4 * 4) (by omega)
  exact hp _ (k + i) _ hbyte (by omega)

theorem HashPath.Adds.run {path : HashPath} (h : path.Adds m key word) (bs : List UInt8) (s : Abc) :
    ∀ k, k % 4 = key % 4 → m.Holds k bs → path.run k bs.length s = some (hashWords word bs s) := by
  induction bs, s using hashWords.induct word with
  | case1 bs s added hlt ih =>
    intro k hk hm
    have hadd : addBlock word (fun i => if i < 12 then bs.getD i 0 else 0) s = added := rfl
    rw [HashPath.run, hashWords, if_pos hlt, if_pos hlt, h.block k _ s (hm.block hlt.le), hadd]
    have hrun := ih (k + 12) (by omega) (hm.drop 12)
    rw [List.length_drop] at hrun
    exact hrun
  | case2 bs s hle h0 =>
    intro k _ _
    rw [HashPath.run, hashWords, if_neg hle, if_neg hle, if_pos h0, if_pos h0]
  | case3 bs s hle h0 =>
    intro k hk hm
    have hlast := h.last k bs.length _ s hk (by omega) (by omega) hm.last
    rw [HashPath.run, hashWords, if_neg hle, if_neg hle, if_neg h0, if_neg h0, hlast]
    rfl

/-- The path with words of four, in both builds. -/
theorem adds_words {m1 m2 m3 s0 s1 s2 s3 : UInt32} (hp : valgrind = true ∨ m.WordProtected) (hkey : key % 4 = 0)
    (hm : MasksOf word m1 m2 m3) (hs : ShiftsOf word s0 s1 s2 s3) :
    HashPath.Adds ⟨fun k => addWords m k word 3 0xffffffff,
      fun k => if valgrind then valgrindCases m k word s0 s1 s2 else wordCases m k word m1 m2 m3⟩ m key word where
  block k g s h := addWords_block h
  last k n g s hk h0 h12 h := by
    cases valgrind with
    | true => exact switch_valgrindCases h hs h0 h12
    | false =>
      have hword := hp.resolve_left Bool.false_ne_true
      exact switch_wordCases h (hword.mapped (hk.trans hkey) h) hm hs.zero h0 h12

theorem littlePath_adds (hp : valgrind = true ∨ m.WordProtected) : (littlePath valgrind m key).Adds m key le32 := by
  unfold littlePath
  split
  · next hkey => exact adds_words hp hkey masksOf_le32 shiftsOf_le32
  · split
    · exact ⟨fun k g s h => addHalves_block h le_rfl, fun k n g s _ h0 h12 h => switch_halfCases h h0 h12⟩
    · exact ⟨fun k g s h => addBytes_block h shiftsOf_le32, fun k n g s _ h0 h12 h => switch_byteCases h shiftsOf_le32 h0 h12⟩

theorem bigPath_adds (hp : valgrind = true ∨ m.WordProtected) : (bigPath valgrind m key).Adds m key be32 := by
  unfold bigPath
  split
  · next hkey => exact adds_words hp hkey masksOf_be32 shiftsOf_be32
  · exact ⟨fun k g s h => addBytes_block h shiftsOf_be32, fun k n g s _ h0 h12 h => switch_byteCases h shiftsOf_be32 h0 h12⟩

/-- `hash` of a key is the value of its bytes, at every address and in every build: neither the words it is read by
nor the bytes behind the key are seen. Reads of whole words behind the key stay in words that the key lies in. -/
theorem hash_reads_key (valgrind : Bool) (m : Mem) (key : Nat) (bs : List UInt8) (initval : UInt32)
    (hm : m.Holds key bs) (hp : valgrind = true ∨ m.WordProtected) :
    hashLittle valgrind m key bs.length initval = some (hashKey le32 bs initval) ∧
      hashBig valgrind m key bs.length initval = some (hashKey be32 bs initval) :=
  ⟨(littlePath_adds hp).run bs _ key rfl hm, (bigPath_adds hp).run bs _ key rfl hm⟩

end

/-- Seven bytes at an even address. -/
theorem hash_reads_key_even :
    hashLittle false (fun p => if p < 4096 then some p.toUInt8 else none) 4086 7 0 =
      some (hashKey le32 [246, 247, 248, 249, 250, 251, 252] 0) := by
  refine (hash_reads_key false _ 4086 [246, 247, 248, 249, 250, 251, 252] 0 ?_ (.inr ?_)).1
  · intro i hi
    have hi7 : i < 7 := hi
    interval_cases i <;> rfl
  · intro p q b hp hq
    simp only [Option.ite_none_right_eq_some] at hp
    exact ⟨_, if_pos (by omega)⟩

end RamCube
