import RamCube.Store.Commands
import RamCube.Backup.Replay

/-! # Command lines and their numbers (memcached.c, util.c)

A command line is cut into words, and the words that are numbers are read by the
`strtol` family. These calls leave their mark in `errno`, which other commands look at;
`Scanned` keeps apart the failures that set it. -/
namespace RamCube

/-- The array `tokens`, without its terminal token, and the value of that one: what
`tokenize_command` left unread. -/
structure Tokens where
  tokens : List Bytes
  rest : Option Bytes
deriving DecidableEq

namespace Tokens

def ntokens (t : Tokens) : Nat := t.tokens.length + 1

/-- The C string `tokens[i].value` of a word. -/
def value (t : Tokens) (i : Nat) : Bytes := t.tokens.getD i []

end Tokens

def MAX_TOKENS : Nat := 8

/-- The loop of `tokenize_command`: `word` is the text between `s` and `e`, and the scan
ends with the word number `room` from here. -/
def tokenizeFrom (room : Nat) (word : Bytes) : Bytes → Tokens
  | [] => ⟨if word = [] then [] else [word], none⟩
  | b :: bs =>
    if b = space then
      if word = [] then tokenizeFrom room [] bs
      else if room = 1 then ⟨[word], if bs = [] then none else some bs⟩
      else
        let t := tokenizeFrom (room - 1) [] bs
        { t with tokens := word :: t.tokens }
    else tokenizeFrom room (word ++ [b]) bs

theorem tokenizeFrom_word {w rest : Bytes} (room : Nat) (acc : Bytes) (hw : space ∉ w) :
    tokenizeFrom room acc (w ++ rest) = tokenizeFrom room (acc ++ w) rest := by
  induction w generalizing acc with
  | nil => simp
  | cons b w ih =>
    simp only [List.mem_cons, not_or] at hw
    rw [List.cons_append, tokenizeFrom, if_neg (Ne.symm hw.1), ih (acc ++ [b]) hw.2, List.append_assoc]
    rfl

/-- `tokenize_command` of a C string. -/
def tokenizeCommand (command : Bytes) : Tokens := tokenizeFrom (MAX_TOKENS - 1) [] command

/-- The C string at the start of a text. -/
def cText (bs : Bytes) : Bytes := bs.takeWhile (· != 0)

theorem cText_eq {bs : Bytes} (h : ∀ b ∈ bs, b ≠ 0) : cText bs = bs := by
  unfold cText
  rw [List.takeWhile_eq_self_iff]
  simpa using h

/-! ## Numbers -/

/-- What a call of the `safe_strto..` family says: a number, or a failure with `errno`
set to `ERANGE` or without. -/
inductive Scanned (α : Type) where
  | ok (value : α)
  | bad
  | range
deriving DecidableEq

namespace Scanned

variable {α β : Type}

/-- `errno == ERANGE` after the call. -/
def erange : Scanned α → Bool
  | .range => true
  | _ => false

/-- `&&` of two calls: the second is made if the first succeeds. -/
def and : Scanned α → Scanned β → Scanned (α × β)
  | .ok a, .ok b => .ok (a, b)
  | .ok _, .range => .range
  | .ok _, .bad => .bad
  | .range, _ => .range
  | .bad, _ => .bad

end Scanned

def strtoDigits (bs : Bytes) : Bytes := (strtoullSplit bs).2.takeWhile isDigit

/-- The number without its sign. -/
def strtoMagnitude (bs : Bytes) : Nat := readDigits 0 (strtoDigits bs)

/-- `strtoul` and `strtoull` overflow. -/
def strtoulErange (bs : Bytes) : Bool := 2 ^ 64 ≤ strtoMagnitude bs

/-- `strtol` and `strtoll` overflow. -/
def strtolErange (bs : Bytes) : Bool :=
  if (strtoullSplit bs).1 then 2 ^ 63 < strtoMagnitude bs else 2 ^ 63 ≤ strtoMagnitude bs

/-- `strtoul` of a text: the wrapped number, `ULONG_MAX` when it overflows. -/
def strtoul (bs : Bytes) : UInt64 :=
  if strtoulErange bs then UInt64.ofNat (2 ^ 64 - 1)
  else if (strtoullSplit bs).1 then 0 - UInt64.ofNat (strtoMagnitude bs)
  else UInt64.ofNat (strtoMagnitude bs)

/-- `strtol` of a text, held at the bounds of a `long`. -/
def strtolClamped (bs : Bytes) : Int :=
  if strtolErange bs then (if (strtoullSplit bs).1 then -2 ^ 63 else 2 ^ 63 - 1)
  else if (strtoullSplit bs).1 then -(strtoMagnitude bs : Int) else strtoMagnitude bs

/-- Digits were read, and a blank or the end of the string follows them. -/
def strtoEnds (bs : Bytes) : Bool :=
  strtoDigits bs ≠ [] && ((strtoullSplit bs).2.dropWhile isDigit).head?.all isSpace

/-- The value of an `int` that is given a wider number. -/
def asInt (n : Int) : Int := n.bmod (2 ^ 32)

/-- `atoi` -/
def atoi (str : Bytes) : Int := asInt (strtolClamped str)

theorem strtolClamped_decimal {n : Nat} (h : n < 2 ^ 63) : strtolClamped (decimal n) = n := by
  have hsplit : strtoullSplit (decimal n) = (false, decimal n) := by simpa using strtoullSplit_decimal n []
  have hdigits : strtoDigits (decimal n) = decimal n := by
    rw [strtoDigits, hsplit, List.takeWhile_eq_self_iff]
    exact fun b hb => mem_decimal hb
  have hmagnitude : strtoMagnitude (decimal n) = n := by
    rw [strtoMagnitude, hdigits]
    simpa using readDigits_decimal n [] nofun
  have hrange : strtolErange (decimal n) = false := by
    rw [strtolErange, hsplit, hmagnitude]
    simpa using h
  rw [strtolClamped, hrange, hsplit, hmagnitude]
  rfl

theorem atoi_decimal {n : Nat} (h : n < 2 ^ 31) : atoi (decimal n) = n := by
  rw [atoi, strtolClamped_decimal (Nat.lt_trans h (by decide)), asInt]
  exact Int.bmod_eq_of_le (by omega) (by omega)

/-- `safe_strtoull` with its `errno`. -/
def scanStrtoull (bs : Bytes) : Scanned UInt64 :=
  if strtoulErange bs then .range
  else match safeStrtoull bs with
    | none => .bad
    | some ull => .ok ull

/-- `safe_strtoul`: as for 64 bits, and the low 32 bits are kept. -/
def safeStrtoul (bs : Bytes) : Scanned UInt32 :=
  if strtoulErange bs then .range
  else match safeStrtoull bs with
    | none => .bad
    | some ul => .ok ul.toUInt32

/-- `safe_strtol`: a `long`, of which the low 32 bits are kept. -/
def safeStrtol (bs : Bytes) : Scanned Int :=
  if strtolErange bs then .range
  else if strtoEnds bs then .ok (asInt (strtolClamped bs))
  else .bad

theorem asInt_bounds (n : Int) : -2 ^ 31 ≤ asInt n ∧ asInt n < 2 ^ 31 := by
  unfold asInt
  have h1 := Int.le_bmod (x := n) (m := 2 ^ 32) (by decide)
  have h2 := Int.bmod_lt (x := n) (m := 2 ^ 32) (by decide)
  constructor
  · simpa using h1
  · simpa using h2

theorem asInt_sub (n : Int) : asInt (n - 2 ^ 32) = asInt n := by
  unfold asInt
  rw [show (2 : Int) ^ 32 = ((2 ^ 32 : Nat) : Int) from rfl, Int.sub_bmod_right]

theorem asInt_of_bounds {n : Int} (h1 : -2 ^ 31 ≤ n) (h2 : n < 2 ^ 31) : asInt n = n := by
  unfold asInt
  exact Int.bmod_eq_of_le (by simpa using h1) (by simpa using h2)

end RamCube
