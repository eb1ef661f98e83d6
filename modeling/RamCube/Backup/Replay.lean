import Mathlib.Logic.Function.Basic
import RamCube.Backup.Message

/-! # Records and their replay

A record is the storage command `set key 0 0 n` with its data block. Replaying a text
runs the storage commands in it as the ASCII protocol reads them: a text of records is
read back as these records (`storageCommands_records`). -/
namespace RamCube

def space : UInt8 := 32

/-- `KEY_MAX_LENGTH` -/
def KEY_MAX_LENGTH : Nat := 250

/-- `setCommandServer` (Object.c), of the C strings `key` and `data`: `none` where the
number overruns `str[10]` or the command `buf[2048]`. -/
def setCommandServer (key data : Bytes) (nbyte : Int) : Option Bytes :=
  let str := decimalInt nbyte
  let buf := ascii "set " ++ key ++ ascii " 0 0 " ++ str ++ [CR, LF] ++ data
  if str.length < 10 ∧ buf.length < 2048 then some buf else none

/-! ## Reading storage commands -/

/-- The words of a text, as `tokenize_command` and `strtok` cut it at separators. -/
def tokens (sep : UInt8 → Bool) (bs : Bytes) : List Bytes := (bs.splitOnP sep).filter fun t => !t.isEmpty

/-- The carriage return before the line feed belongs to the line end. -/
def chopLine (line : Bytes) : Bytes :=
  if 1 < line.length ∧ line.getLast? = some CR then line.dropLast else line

/-- The key and the length of the data block of a `set` line. -/
def setLine (line : Bytes) : Option (Bytes × Nat) :=
  match tokens (· == space) (chopLine line) with
  | [comm, key, _, _, vlen] =>
    if comm = ascii "set" ∧ key.length ≤ KEY_MAX_LENGTH ∧ 0 ≤ strtol vlen then
      some (key, (strtol vlen).toNat)
    else none
  | _ => none

/-- The storage commands in a text: line after line, the data block of a `set` line
skipped with it. A line that is no `set` is answered with an error. -/
def storageCommands : Nat → Bytes → List (Bytes × Bytes)
  | 0, _ => []
  | fuel + 1, bs =>
    match bs.dropWhile (· != LF) with
    | [] => []
    | _ :: rest =>
      match setLine (bs.takeWhile (· != LF)) with
      | none => storageCommands fuel rest
      | some (key, vlen) =>
        if (rest.drop vlen).take 2 = [CR, LF] then
          (key, rest.take vlen) :: storageCommands fuel (rest.drop (vlen + 2))
        else storageCommands fuel (rest.drop (vlen + 2))

/-- The commands of a whole text. -/
def replayed (bs : Bytes) : List (Bytes × Bytes) := storageCommands bs.length bs

/-- The map that storage commands leave behind. -/
def replay (cs : List (Bytes × Bytes)) : Bytes → Option Bytes :=
  cs.foldl (fun m c => Function.update m c.1 (some c.2)) fun _ => none

/-- The value of the last command for a key. -/
def lastValue (cs : List (Bytes × Bytes)) (key : Bytes) : Option Bytes :=
  (cs.filter fun c => c.1 = key).getLast?.map Prod.snd

theorem replay_eq_lastValue (cs : List (Bytes × Bytes)) : replay cs = lastValue cs := by
  funext key
  induction cs using List.reverseRecOn with
  | nil => rfl
  | append_singleton cs c ih =>
    unfold replay lastValue at ih ⊢
    rw [List.foldl_append, List.filter_append]
    by_cases hk : c.1 = key
    · subst hk
      simp
    · simpa [Function.update_of_ne (Ne.symm hk), hk] using ih

/-! ## Words -/

section

variable {sep : UInt8 → Bool} {w rest : Bytes} {b : UInt8}

theorem tokens_cons (hw : ∀ b ∈ w, sep b = false) (hne : w ≠ []) (hb : sep b = true) :
    tokens sep (w ++ b :: rest) = w :: tokens sep rest := by
  unfold tokens
  rw [List.splitOnP_append_cons _ _ hb, List.splitOnP_eq_singleton hw]
  simp [hne]

theorem tokens_skip (hb : sep b = true) : tokens sep (b :: rest) = tokens sep rest := by
  simpa [tokens] using congrArg (List.filter fun t => !t.isEmpty) (List.splitOnP_append_cons [] rest hb)

theorem tokens_last (hw : ∀ b ∈ w, sep b = false) (hne : w ≠ []) : tokens sep w = [w] := by
  unfold tokens
  rw [List.splitOnP_eq_singleton hw]
  simp [hne]

/-- A word is not empty and has bytes of the text only, none of them a separator. -/
theorem mem_tokens {bs : Bytes} (h : w ∈ tokens sep bs) : w ≠ [] ∧ ∀ b ∈ w, sep b = false ∧ b ∈ bs := by
  obtain ⟨hsplit, hne⟩ := List.mem_filter.mp h
  refine ⟨by simpa using hne, ?_⟩
  clear h hne
  induction bs generalizing w with
  | nil =>
    obtain rfl : w = [] := by simpa using hsplit
    exact nofun
  | cons x bs ih =>
    have hlater : ∀ v ∈ bs.splitOnP sep, ∀ b ∈ v, sep b = false ∧ b ∈ x :: bs := fun v hv b hb =>
      ⟨(ih hv b hb).1, List.mem_cons_of_mem x (ih hv b hb).2⟩
    rw [List.splitOnP_cons_eq_if_modifyHead] at hsplit
    by_cases hx : sep x = true
    · rw [if_pos hx, List.mem_cons] at hsplit
      obtain rfl | hsplit := hsplit
      · exact nofun
      · exact hlater w hsplit
    · rw [if_neg hx] at hsplit
      cases hs : bs.splitOnP sep with
      | nil => exact absurd hs (List.splitOnP_ne_nil sep bs)
      | cons v vs =>
        rw [hs, List.modifyHead_cons, List.mem_cons] at hsplit
        rw [hs] at hlater
        obtain rfl | hsplit := hsplit
        · intro b hb
          obtain rfl | hb := List.mem_cons.mp hb
          · exact ⟨by simpa using hx, List.mem_cons_self⟩
          · exact hlater v List.mem_cons_self b hb
        · exact hlater w (List.mem_cons_of_mem v hsplit)

end

/-- The words of the line that `setCommandServer` writes. -/
theorem tokens_commandLine {key : Bytes} (hkey : ∀ b ∈ key, b ≠ space) (hne : key ≠ []) (n : Nat) :
    tokens (· == space) (ascii "set " ++ key ++ ascii " 0 0 " ++ decimal n) =
      [ascii "set", key, ascii "0", ascii "0", decimal n] := by
  have hset : (∀ b ∈ ascii "set", (b == space) = false) ∧ ascii "set" ≠ [] := by decide +kernel
  have hzero : (∀ b ∈ ascii "0", (b == space) = false) ∧ ascii "0" ≠ [] := by decide +kernel
  have hword : ∀ b ∈ key, (b == space) = false := fun b hb => by simpa using hkey b hb
  have hnum : ∀ b ∈ decimal n, (b == space) = false := fun b hb => by
    simpa using show b ≠ space from (digit_ne (mem_decimal hb)).2.2.2.2.2
  have hsplit : ascii "set " ++ key ++ ascii " 0 0 " ++ decimal n = ascii "set" ++ space :: (key ++ space ::
      (ascii "0" ++ space :: (ascii "0" ++ space :: decimal n))) := by
    simp [ascii, space]
  rw [hsplit, tokens_cons hset.1 hset.2 rfl, tokens_cons hword hne rfl, tokens_cons hzero.1 hzero.2 rfl,
    tokens_cons hzero.1 hzero.2 rfl, tokens_last hnum (decimal_ne_nil _)]

/-! ## Records -/

/-- A key and a value that make a record. -/
structure SetCommand where
  key : Bytes
  value : Bytes
  key_ok : ∀ b ∈ key, b ≠ 0 ∧ b ≠ LF ∧ b ≠ space
  key_ne : key ≠ []
  key_length : key.length ≤ KEY_MAX_LENGTH
  value_ok : ∀ b ∈ value, b ≠ 0 ∧ b ≠ LF

theorem SetCommand.eq_iff {a b : SetCommand} : (a.key = b.key ∧ a.value = b.value) ↔ a = b := by
  cases a
  cases b
  simp

instance : DecidableEq SetCommand := fun _ _ => decidable_of_iff _ SetCommand.eq_iff

namespace SetCommand

variable (c : SetCommand)

def pair : Bytes × Bytes := (c.key, c.value)

/-- The command line, without its end. -/
def line : Bytes := ascii "set " ++ c.key ++ ascii " 0 0 " ++ decimal c.value.length

theorem line_ok {b : UInt8} (h : b ∈ c.line) : b ≠ 0 ∧ b ≠ LF := by
  simp only [line, List.mem_append] at h
  obtain ((h | h) | h) | h := h
  · revert b
    decide +kernel
  · exact ⟨(c.key_ok b h).1, (c.key_ok b h).2.1⟩
  · revert b
    decide +kernel
  · exact ⟨(digit_ne (mem_decimal h)).1, (digit_ne (mem_decimal h)).2.1⟩

def record : Record where
  line := c.line ++ [CR]
  data := c.value ++ [CR]
  line_ok b hb := by
    obtain hb | hb := List.mem_append.mp hb
    · exact c.line_ok hb
    · rw [List.mem_singleton.mp hb]
      decide
  data_ok b hb := by
    obtain hb | hb := List.mem_append.mp hb
    · exact c.value_ok b hb
    · rw [List.mem_singleton.mp hb]
      decide

theorem record_text : c.record.text = c.line ++ CR :: LF :: (c.value ++ [CR, LF]) := by
  simp [record, Record.text]

theorem setLine_line : setLine (c.line ++ [CR]) = some (c.key, c.value.length) := by
  have hchop : chopLine (c.line ++ [CR]) = c.line := by
    have hne : c.line ≠ [] := by simp [line, c.key_ne]
    simp [chopLine, hne]
  have htokens : tokens (· == space) c.line =
      [ascii "set", c.key, ascii "0", ascii "0", decimal c.value.length] :=
    tokens_commandLine (fun b hb => (c.key_ok b hb).2.2) c.key_ne c.value.length
  have hlen : strtol (decimal c.value.length) = c.value.length := by
    simpa using strtol_decimal c.value.length [] nofun
  simp only [setLine, hchop, htokens, hlen, c.key_length]
  simp

/-- The first record of a text is read back. -/
theorem storageCommands_record (fuel : Nat) (rest : Bytes) :
    storageCommands (fuel + 1) (c.record.text ++ rest) = c.pair :: storageCommands fuel rest := by
  have hline : ∀ b ∈ c.line ++ [CR], (b != LF) = true := fun b hb => by simpa using (c.record.line_ok b hb).2
  have hsplit : c.record.text ++ rest = (c.line ++ [CR]) ++ LF :: (c.value ++ (CR :: LF :: rest)) := by
    simp [record_text]
  have hdrop : (c.value ++ CR :: LF :: rest).drop (c.value.length + 2) = rest := by
    rw [← List.drop_drop]
    simp
  rw [hsplit, storageCommands, List.dropWhile_append_of_pos hline, List.dropWhile_cons_of_neg (by simp),
    List.takeWhile_append_of_pos hline, List.takeWhile_cons_of_neg (by simp), List.append_nil]
  simp only [c.setLine_line, hdrop]
  simp [pair]

end SetCommand

/-- A text of records is read back, and so is what follows. -/
theorem storageCommands_records (cs : List SetCommand) (fuel : Nat) (rest : Bytes) :
    storageCommands (cs.length + fuel) ((cs.flatMap fun c => c.record.text) ++ rest) =
      cs.map SetCommand.pair ++ storageCommands fuel rest := by
  induction cs with
  | nil => simp
  | cons c cs ih =>
    rw [List.length_cons, Nat.add_right_comm, List.flatMap_cons, List.append_assoc,
      c.storageCommands_record, ih]
    rfl

end RamCube
