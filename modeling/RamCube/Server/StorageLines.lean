import RamCube.Server.DataBlock
import RamCube.Server.Numbers
import RamCube.Server.Retrieval

/-! # Which lines are storage commands (memcached.c)

The protocol gives storage commands a fixed form. `process_command` counts the words it
has cut, at most seven, and `process_update_command` looks at the last of them for
noreply and reads the numbers; `storage_line_iff` says for which lines this comes to the
same. -/
namespace RamCube

variable {cfg : Config} {env : Env} {c : Conn} {g : Globals} {t : Tokens} {line leftCom : Bytes}
  {ws : List Bytes} {comm : NRead} {handleCas : Bool}

/-! ## The form of a storage command -/

/-- The number of words without `noreply`. -/
def storageWords (handleCas : Bool) : Nat := if handleCas then 6 else 5

/-- The words start like those of a storage command: a name, a key and enough others. -/
structure StorageHead (ws : List Bytes) (comm : NRead) (handleCas : Bool) : Prop where
  name : if handleCas then ws.getD 0 [] = ascii "cas" ∧ comm = .cas else updateComm (ws.getD 0 []) = some comm
  key : (ws.getD 1 []).length ≤ KEY_MAX_LENGTH
  enough : storageWords handleCas ≤ ws.length

/-- Flags, exptime, bytes and the cas unique are numbers in their range. The bytes and
the line end are counted in an `int`. -/
structure NumbersFit (ws : List Bytes) (handleCas : Bool) : Prop where
  flags : ∃ n, Numeral (ws.getD 2 []) n ∧ 0 ≤ n ∧ n < 2 ^ 32
  exptime : ∃ n, Numeral (ws.getD 3 []) n ∧ -2 ^ 31 ≤ n ∧ n < 2 ^ 31
  bytes : ∃ n, Numeral (ws.getD 4 []) n ∧ 0 ≤ n ∧ n < 2 ^ 31 - 2
  cas : handleCas = true → ∃ n, Numeral (ws.getD 5 []) n ∧ 0 ≤ n ∧ n < 2 ^ 64

def EndsNoreply (ws : List Bytes) : Prop := ws.getLast? = some (ascii "noreply")

/-- Nothing but `noreply` stands behind the arguments. -/
def NoExtraWords (ws : List Bytes) (handleCas : Bool) : Prop :=
  ws.length = storageWords handleCas ∨ ws.length = storageWords handleCas + 1 ∧ EndsNoreply ws

/-- `<command name> <key> <flags> <exptime> <bytes> [noreply]` or
`cas <key> <flags> <exptime> <bytes> <cas unique> [noreply]`, up to runs of spaces. -/
def StorageCommand (line : Bytes) : Prop :=
  ∃ comm handleCas, StorageHead (lineWords line) comm handleCas ∧ NoExtraWords (lineWords line) handleCas ∧
    NumbersFit (lineWords line) handleCas

/-! ## What the code does -/

/-- `process_command` hands the line to `process_update_command`, and that accepts it. -/
def ExecutesStorage (line : Bytes) : Prop :=
  ∃ comm handleCas flags exptime n reqCas,
    StorageLine (tokenizeCommand line) comm handleCas flags exptime n reqCas

/-- The reply to the line is suppressed. -/
def SuppressesReply (c : Conn) (line : Bytes) : Prop := (setNoreplyMaybe c (tokenizeCommand line)).noreply = true

/-- Exactly the storage commands are executed as such, and without a reply exactly those
that end in `noreply`. -/
structure StorageFaithful (c : Conn) (line : Bytes) : Prop where
  executes : ExecutesStorage line ↔ StorageCommand line
  noreply : ExecutesStorage line → (SuppressesReply c line ↔ EndsNoreply (lineWords line))

/-! ## Where they differ -/

/-- The numbers that pass: those of 64 bits, the unsigned ones wrapped around, of which
flags, exptime and bytes keep the low 32 bits. -/
structure NumbersPass (ws : List Bytes) (handleCas : Bool) : Prop where
  flags : ∃ n, Numeral (ws.getD 2 []) n ∧ UnsignedPasses (ws.getD 2 []) n
  exptime : ∃ n, Numeral (ws.getD 3 []) n ∧ -2 ^ 63 ≤ n ∧ n < 2 ^ 63
  bytes : ∃ n, Numeral (ws.getD 4 []) n ∧ (-2 ^ 63 ≤ n ∧ n < 2 ^ 63) ∧ 0 ≤ asInt n ∧ asInt n < 2 ^ 31 - 2
  cas : handleCas = true → ∃ n, Numeral (ws.getD 5 []) n ∧ UnsignedPasses (ws.getD 5 []) n

/-- A line that starts like a storage command, has no word too many unless it is `cas`,
and whose numbers pass, is one of the protocol, and says so itself if it wants no reply.
And a `cas` unique from `2 ^ 63` on has no minus sign behind it. -/
structure StorageRegular (c : Conn) (ws : List Bytes) (handleCas : Bool) : Prop where
  passed : (handleCas = true ∨ ws.length ≤ 6) → NumbersPass ws handleCas →
    NoExtraWords ws handleCas ∧ NumbersFit ws handleCas ∧ (c.noreply = true → EndsNoreply ws)
  unique : handleCas = true → NoExtraWords ws handleCas → NumbersFit ws handleCas →
    ∀ n, Numeral (ws.getD 5 []) n → 2 ^ 63 ≤ n → 45 ∉ ws.getD 5 []

/-! ## The words in the array -/

section

variable (line)

theorem value_eq {i : Nat} (hi : i < MAX_TOKENS - 1) : (tokenizeCommand line).value i = (lineWords line).getD i [] := by
  rw [Tokens.value, tokenizeCommand_tokens, List.getD_eq_getElem?_getD, List.getD_eq_getElem?_getD,
    List.getElem?_take_of_lt hi]

theorem ntokens_eq : (tokenizeCommand line).ntokens = min 7 (lineWords line).length + 1 := by
  rw [Tokens.ntokens, tokenizeCommand_tokens, List.length_take]
  rfl

/-- The word that is looked at for `noreply`. -/
theorem last_value (h : (lineWords line).length ≤ 7) :
    (tokenizeCommand line).value ((tokenizeCommand line).tokens.length - 1) = ascii "noreply" ↔
      EndsNoreply (lineWords line) := by
  have htokens : (tokenizeCommand line).tokens = lineWords line := by
    rw [tokenizeCommand_tokens, List.take_of_length_le (show _ ≤ MAX_TOKENS - 1 from h)]
  have hne : ([] : Bytes) ≠ ascii "noreply" := by decide +kernel
  rw [Tokens.value, htokens, EndsNoreply, List.getLast?_eq_getElem?, List.getD_eq_getElem?_getD]
  cases (lineWords line)[(lineWords line).length - 1]? with
  | none => simp [hne]
  | some w => simp

end

theorem suppressesReply_iff (h : (lineWords line).length ≤ 7) :
    SuppressesReply c line ↔ c.noreply = true ∨ EndsNoreply (lineWords line) := by
  unfold SuppressesReply setNoreplyMaybe
  rw [← last_value line h]
  split
  · rename_i hends
    simp [hends]
  · rename_i hends
    simp [hends]

theorem ite_ne_of_ne {α : Type} {p : Prop} [Decidable p] {x y z : α} (hx : x ≠ z) (hy : y ≠ z) :
    (if p then x else y) ≠ z := by
  split <;> assumption

/-- The lines that `process_update_command` is given. -/
theorem handlerOf_update_iff : handlerOf t = .update comm handleCas ↔
    ((t.ntokens = 6 ∨ t.ntokens = 7) ∧ updateComm (t.value 0) = some comm ∧ handleCas = false) ∨
      ((t.ntokens = 7 ∨ t.ntokens = 8) ∧ t.value 0 = ascii "cas" ∧ comm = .cas ∧ handleCas = true) := by
  have hname : updateComm (ascii "get") = none ∧ updateComm (ascii "bget") = none ∧ updateComm (ascii "cas") = none ∧
      ascii "get" ≠ ascii "cas" ∧ ascii "bget" ≠ ascii "cas" := by decide +kernel
  unfold handlerOf
  dsimp only
  by_cases hget : 3 ≤ t.ntokens ∧ (t.value 0 = ascii "get" ∨ t.value 0 = ascii "bget")
  · rw [if_pos hget]
    obtain ⟨_, h | h⟩ := hget <;> simp [h, hname]
  rw [if_neg hget]
  by_cases hupdate : (t.ntokens = 6 ∨ t.ntokens = 7) ∧ updateComm (t.value 0) ≠ none
  · obtain ⟨hn, hu⟩ := hupdate
    obtain ⟨comm', hcomm⟩ := Option.ne_none_iff_exists'.mp hu
    have hcas : t.value 0 ≠ ascii "cas" := fun h => hu (h ▸ hname.2.2.1)
    rw [if_pos hn, hcomm]
    simp only [hn, hcas, false_and, and_false, or_false, true_and, Handler.update.injEq, Option.some.injEq]
    exact and_congr Iff.rfl eq_comm
  · have hnone : (if t.ntokens = 6 ∨ t.ntokens = 7 then updateComm (t.value 0) else none) = none := by
      split
      · rename_i hn
        exact not_not.mp fun hu => hupdate ⟨hn, hu⟩
      · rfl
    have hleft : ¬((t.ntokens = 6 ∨ t.ntokens = 7) ∧ updateComm (t.value 0) = some comm ∧ handleCas = false) :=
      fun h => hupdate ⟨h.1, by simp [h.2.1]⟩
    rw [hnone]
    simp only [hleft, false_or]
    by_cases hcas : (t.ntokens = 7 ∨ t.ntokens = 8) ∧ t.value 0 = ascii "cas"
    · rw [if_pos hcas]
      simp only [hcas, true_and, Handler.update.injEq]
      exact and_congr eq_comm eq_comm
    · rw [if_neg hcas]
      refine iff_of_false ?_ fun h => hcas ⟨h.1, h.2.1⟩
      repeat' apply ite_ne_of_ne
      all_goals nofun

theorem scanned_and_ok {α β : Type} {x : Scanned α} {y : Scanned β} {a : α} {b : β} :
    x.and y = .ok (a, b) ↔ x = .ok a ∧ y = .ok b := by
  refine ⟨and_ok, ?_⟩
  rintro ⟨rfl, rfl⟩
  rfl

theorem head_iff : handlerOf (tokenizeCommand line) = .update comm handleCas ∧
      ((tokenizeCommand line).value 1).length ≤ KEY_MAX_LENGTH ↔
    StorageHead (lineWords line) comm handleCas ∧ (handleCas = true ∨ (lineWords line).length ≤ 6) := by
  rw [handlerOf_update_iff, value_eq line (i := 0) (by decide), value_eq line (i := 1) (by decide), ntokens_eq]
  constructor
  · rintro ⟨⟨hn, hname, rfl⟩ | ⟨hn, hname, hcomm, rfl⟩, hkey⟩
    · exact ⟨⟨hname, hkey, show 5 ≤ _ by omega⟩, .inr (by omega)⟩
    · exact ⟨⟨⟨hname, hcomm⟩, hkey, show 6 ≤ _ by omega⟩, .inl rfl⟩
  · rintro ⟨⟨hname, hkey, henough⟩, hcount⟩
    cases handleCas with
    | false =>
      have h6 : (lineWords line).length ≤ 6 := hcount.resolve_left Bool.false_ne_true
      have h5 : 5 ≤ (lineWords line).length := henough
      exact ⟨.inl ⟨by omega, hname, rfl⟩, hkey⟩
    | true =>
      have h6 : 6 ≤ (lineWords line).length := henough
      exact ⟨.inr ⟨by omega, hname.1, hname.2, rfl⟩, hkey⟩

/-- The numbers that the calls of the `safe_strto` family and the tests behind them let
pass. -/
theorem numbersPass_iff : (∃ flags exptime n, updateArgs (tokenizeCommand line) = .ok ((flags, exptime), n) ∧
        0 ≤ asInt (n + 2) ∧ 0 ≤ asInt (asInt (n + 2) - 2)) ∧
      (∃ reqCas, (if handleCas then scanStrtoull ((tokenizeCommand line).value 5) else .ok 0) = .ok reqCas) ↔
    NumbersPass (lineWords line) handleCas := by
  have hcas : (∃ reqCas, (if handleCas then scanStrtoull ((tokenizeCommand line).value 5) else .ok 0) = .ok reqCas) ↔
      (handleCas = true → ∃ n, Numeral ((lineWords line).getD 5 []) n ∧ UnsignedPasses ((lineWords line).getD 5 []) n) := by
    rw [value_eq line (i := 5) (by decide), ← scanStrtoull_ok_iff]
    cases handleCas <;> simp
  rw [hcas]
  simp only [updateArgs, scanned_and_ok, value_eq line (i := 2) (by decide), value_eq line (i := 3) (by decide),
    value_eq line (i := 4) (by decide)]
  constructor
  · rintro ⟨⟨flags, exptime, n, ⟨⟨hf, he⟩, hn⟩, hpos⟩, hcas⟩
    obtain ⟨h1, h2⟩ := safeStrtol_bounds hn
    obtain ⟨m, hm, hr, rfl⟩ := safeStrtol_ok_iff.mp hn
    obtain ⟨k, hk, hkr, _⟩ := safeStrtol_ok_iff.mp he
    exact ⟨safeStrtoul_ok_iff.mp ⟨flags, hf⟩, ⟨k, hk, hkr⟩, ⟨m, hm, hr, (bytes_pass_iff h1 h2).mp hpos⟩, hcas⟩
  · rintro ⟨hf, ⟨k, hk, hkr⟩, ⟨m, hm, hr, hpos⟩, hcas⟩
    obtain ⟨flags, hf⟩ := safeStrtoul_ok_iff.mpr hf
    obtain ⟨h1, h2⟩ := asInt_bounds m
    exact ⟨⟨flags, asInt k, asInt m, ⟨⟨hf, safeStrtol_ok_iff.mpr ⟨k, hk, hkr, rfl⟩⟩,
      safeStrtol_ok_iff.mpr ⟨m, hm, hr, rfl⟩⟩, (bytes_pass_iff h1 h2).mpr hpos⟩, hcas⟩

/-- The code accepts the lines that start like a storage command and whose numbers pass. -/
theorem executesStorage_iff : ExecutesStorage line ↔ ∃ comm handleCas,
    StorageHead (lineWords line) comm handleCas ∧ (handleCas = true ∨ (lineWords line).length ≤ 6) ∧
      NumbersPass (lineWords line) handleCas := by
  unfold ExecutesStorage
  refine exists_congr fun comm => exists_congr fun handleCas => ?_
  rw [← numbersPass_iff, ← and_assoc, ← head_iff]
  constructor
  · rintro ⟨flags, exptime, n, reqCas, hl⟩
    exact ⟨⟨hl.handler, hl.key⟩, ⟨flags, exptime, n, hl.args, hl.bytes⟩, reqCas, hl.cas⟩
  · rintro ⟨⟨hh, hk⟩, ⟨flags, exptime, n, ha, hb⟩, reqCas, hcas⟩
    exact ⟨flags, exptime, n, reqCas, hh, hk, ha, hcas, hb⟩

/-- An accepted line goes on to its item. -/
theorem ExecutesStorage.runs (h : ExecutesStorage line) (cfg : Config) (env : Env) (c : Conn) (g : Globals)
    (leftCom : Bytes) : ∃ comm flags exptime n reqCas, processCommand cfg env c g line leftCom =
      returnZero (startUpdate cfg env (setNoreplyMaybe c (tokenizeCommand line)) { g with erange := false } comm
        ((tokenizeCommand line).value 1) flags exptime n reqCas) := by
  obtain ⟨comm, handleCas, flags, exptime, n, reqCas, hl⟩ := h
  refine ⟨comm, asInt flags.toNat, if exptime < 0 then REALTIME_MAXDELTA + 1 else exptime, n + 2, reqCas, ?_⟩
  unfold processCommand
  dsimp only
  rw [hl.handler, ← processUpdateCommand_eq hl]

/-- One that is not accepted is answered by another command, or with an error. -/
theorem not_executesStorage (h : ¬ExecutesStorage line) (cfg : Config) (env : Env) (c : Conn) (g : Globals)
    (leftCom : Bytes) : (∀ comm handleCas, handlerOf (tokenizeCommand line) ≠ .update comm handleCas) ∨
      ∃ erange, processCommand cfg env c g line leftCom =
        returnZero (outString (setNoreplyMaybe c (tokenizeCommand line)) badFormat, { g with erange := erange }) := by
  by_cases hhandler : ∃ comm handleCas, handlerOf (tokenizeCommand line) = .update comm handleCas
  swap
  · exact .inl fun comm handleCas hh => hhandler ⟨comm, handleCas, hh⟩
  obtain ⟨comm, handleCas, hh⟩ := hhandler
  refine .inr ?_
  unfold processCommand
  dsimp only
  rw [hh]
  dsimp only [processUpdateCommand]
  by_cases hkey : KEY_MAX_LENGTH < ((tokenizeCommand line).value 1).length
  · rw [if_pos hkey]
    exact ⟨g.erange, rfl⟩
  rw [if_neg hkey]
  cases hargs : updateArgs (tokenizeCommand line) with
  | bad => exact ⟨_, rfl⟩
  | range => exact ⟨_, rfl⟩
  | ok args =>
    obtain ⟨⟨flags, exptime⟩, n⟩ := args
    dsimp only
    cases hcas : (if handleCas then scanStrtoull ((tokenizeCommand line).value 5) else .ok 0) with
    | bad =>
      cases handleCas <;> exact ⟨_, rfl⟩
    | range =>
      cases handleCas <;> exact ⟨_, rfl⟩
    | ok reqCas =>
      have hneg : asInt (n + 2) < 0 ∨ asInt (asInt (n + 2) - 2) < 0 := by
        by_contra hpos
        exact h ⟨comm, handleCas, flags, exptime, n, reqCas, hh, Nat.not_lt.mp hkey, hargs, hcas,
          Int.not_lt.mp fun hlt => hpos (.inl hlt), Int.not_lt.mp fun hlt => hpos (.inr hlt)⟩
      dsimp only
      rw [if_pos hneg]
      cases handleCas <;> exact ⟨_, rfl⟩

theorem StorageHead.unique {comm' : NRead} {handleCas' : Bool} (h : StorageHead ws comm handleCas)
    (h' : StorageHead ws comm' handleCas') : comm = comm' ∧ handleCas = handleCas' := by
  have hcas : updateComm (ascii "cas") = none := by decide +kernel
  have hname := h.name
  have hname' := h'.name
  cases handleCas <;> cases handleCas' <;>
    simp only [Bool.false_eq_true, if_true, if_false] at hname hname'
  · exact ⟨Option.some.inj (hname.symm.trans hname'), rfl⟩
  · rw [hname'.1, hcas] at hname
    cases hname
  · rw [hname.1, hcas] at hname'
    cases hname'
  · exact ⟨hname.2.trans hname'.2.symm, rfl⟩

theorem NoExtraWords.count (h : NoExtraWords ws handleCas) :
    (handleCas = true ∨ ws.length ≤ 6) ∧ ws.length ≤ 7 := by
  unfold NoExtraWords storageWords at h
  cases handleCas <;> simp only [Bool.false_eq_true, if_true, if_false] at h
  · exact ⟨.inr (by omega), by omega⟩
  · exact ⟨.inl rfl, by omega⟩

/-- Numbers in range pass, if no minus sign stands behind a large `cas` unique. -/
theorem NumbersFit.pass (h : NumbersFit ws handleCas)
    (hcas : handleCas = true → ∀ n, Numeral (ws.getD 5 []) n → 2 ^ 63 ≤ n → 45 ∉ ws.getD 5 []) :
    NumbersPass ws handleCas := by
  obtain ⟨⟨f, hf, hf1, hf2⟩, ⟨e, he, he1, he2⟩, ⟨b, hb, hb1, hb2⟩, hu⟩ := h
  have hint : asInt b = b := asInt_of_bounds (by omega) (by omega)
  refine ⟨⟨f, hf, .inr (.inl (by omega))⟩, ⟨e, he, by omega⟩, ⟨b, hb, by omega, by omega⟩, fun hc => ?_⟩
  obtain ⟨u, hu, hu1, hu2⟩ := hu hc
  refine ⟨u, hu, .inr ?_⟩
  obtain hlt | hge := Int.lt_or_le u (2 ^ 63)
  · exact .inl ⟨hu1, hlt⟩
  · exact .inr ⟨hge, hu2, hcas hc u hu hge⟩

/-- A large `cas` unique that passes has no minus sign behind it. -/
theorem NumbersPass.unique (h : NumbersPass ws handleCas) (hc : handleCas = true) {n : Int}
    (hn : Numeral (ws.getD 5 []) n) (hge : 2 ^ 63 ≤ n) : 45 ∉ ws.getD 5 [] := by
  obtain ⟨u, hu, hp⟩ := h.cas hc
  obtain rfl := hn.unique hu
  obtain hp | hp | hp := hp
  · omega
  · omega
  · exact hp.2.2

/-- Exactly the storage commands of the protocol are executed as such, and without a reply
exactly those that end in `noreply`, if and only if the line, where it starts like a
storage command, is regular. -/
theorem storage_line_iff (c : Conn) (line : Bytes) : StorageFaithful c line ↔
    ∀ comm handleCas, StorageHead (lineWords line) comm handleCas →
      StorageRegular c (lineWords line) handleCas := by
  by_cases hhead : ∃ comm handleCas, StorageHead (lineWords line) comm handleCas
  swap
  · have hexec : ¬ExecutesStorage line := fun h => by
      obtain ⟨comm, handleCas, hh, _⟩ := executesStorage_iff.mp h
      exact hhead ⟨comm, handleCas, hh⟩
    have hcomm : ¬StorageCommand line := fun ⟨comm, handleCas, hh, _⟩ => hhead ⟨comm, handleCas, hh⟩
    exact iff_of_true ⟨iff_of_false hexec hcomm, fun h => absurd h hexec⟩
      fun comm handleCas hh => absurd ⟨comm, handleCas, hh⟩ hhead
  obtain ⟨comm, handleCas, hhead⟩ := hhead
  have hexec : ExecutesStorage line ↔
      (handleCas = true ∨ (lineWords line).length ≤ 6) ∧ NumbersPass (lineWords line) handleCas := by
    rw [executesStorage_iff]
    constructor
    · rintro ⟨comm', handleCas', hh, hrest⟩
      obtain ⟨_, rfl⟩ := hh.unique hhead
      exact hrest
    · exact fun hrest => ⟨comm, handleCas, hhead, hrest⟩
  have hcomm : StorageCommand line ↔ NoExtraWords (lineWords line) handleCas ∧ NumbersFit (lineWords line) handleCas := by
    constructor
    · rintro ⟨comm', handleCas', hh, hrest⟩
      obtain ⟨_, rfl⟩ := hh.unique hhead
      exact hrest
    · exact fun hrest => ⟨comm, handleCas, hhead, hrest⟩
  constructor
  · rintro ⟨hiff, hno⟩ comm' handleCas' hh
    obtain ⟨_, rfl⟩ := hh.unique hhead
    constructor
    · intro hcount hpass
      have he := hexec.mpr ⟨hcount, hpass⟩
      obtain ⟨hextra, hfit⟩ := hcomm.mp (hiff.mp he)
      refine ⟨hextra, hfit, fun hn => (hno he).mp ?_⟩
      exact (suppressesReply_iff hextra.count.2).mpr (.inl hn)
    · intro hc hextra hfit n hn hge
      exact (hexec.mp (hiff.mpr (hcomm.mpr ⟨hextra, hfit⟩))).2.unique hc hn hge
  · intro hreg
    obtain ⟨hpassed, hunique⟩ := hreg comm handleCas hhead
    constructor
    · constructor
      · intro he
        obtain ⟨hcount, hpass⟩ := hexec.mp he
        obtain ⟨hextra, hfit, _⟩ := hpassed hcount hpass
        exact hcomm.mpr ⟨hextra, hfit⟩
      · intro hs
        obtain ⟨hextra, hfit⟩ := hcomm.mp hs
        exact hexec.mpr ⟨hextra.count.1, hfit.pass fun hc n hn hge => hunique hc hextra hfit n hn hge⟩
    · intro he
      obtain ⟨hcount, hpass⟩ := hexec.mp he
      obtain ⟨hextra, _, hends⟩ := hpassed hcount hpass
      rw [suppressesReply_iff hextra.count.2]
      exact or_iff_right_of_imp hends

/-- A SET with a word behind its arguments, which is not looked at. -/
def setExtra : Bytes := ascii "set k 0 0 5 now"

theorem extra_word_executed : ¬∀ (c : Conn) (line : Bytes), c.noreply = false → StorageFaithful c line := by
  intro h
  have hwords : lineWords setExtra = [ascii "set", ascii "k", ascii "0", ascii "0", ascii "5", ascii "now"] ∧
      updateComm (ascii "set") = some .set ∧ (ascii "k").length ≤ KEY_MAX_LENGTH ∧ ascii "now" ≠ ascii "noreply" ∧
      (strtoEnds (ascii "0") = true ∧ 0 = strtoNumber (ascii "0")) ∧
      (strtoEnds (ascii "5") = true ∧ 5 = strtoNumber (ascii "5")) := by
    decide +kernel
  obtain ⟨hline, hname, hkey, hne, hzero, hfive⟩ := hwords
  have hreg := (storage_line_iff _ setExtra).mp
    (h (connNew smallServer 4096 .read .tcp) setExtra rfl) .set false ⟨by rw [hline]; exact hname, by rw [hline]; exact hkey,
      by rw [hline]; exact Nat.le_succ 5⟩
  have h5 : asInt 5 = 5 := asInt_of_bounds (by omega) (by omega)
  have hpass : NumbersPass (lineWords setExtra) false := by
    rw [hline]
    refine ⟨⟨0, numeral_iff.mpr hzero, .inr (.inl (by omega))⟩, ⟨0, numeral_iff.mpr hzero, by omega⟩,
      ⟨5, numeral_iff.mpr hfive, by omega, by omega⟩, nofun⟩
  obtain ⟨hextra, _⟩ := hreg.passed (.inr (by rw [hline]; exact Nat.le_refl 6)) hpass
  rw [hline] at hextra
  obtain hlen | ⟨_, hends⟩ := hextra
  · cases hlen
  · exact hne (Option.some.inj hends)

end RamCube
