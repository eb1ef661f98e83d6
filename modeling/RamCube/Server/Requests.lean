import RamCube.Server.Serving

/-! # How much of the stream a binary request takes

`dispatch_bin_command` checks each opcode its own way. What it accepts is owed from then
on (`Dispatched.owes`): the whole body for most opcodes, but only the key of a
STAT and only the key and four bytes of extras of a TOUCH or GAT. -/
namespace RamCube

variable {cfg : Config} {env : Env} {c : Conn} {s s' : Session} {h : BinaryHeader}

/-! ## Headers -/

/-- The command that an opcode is handled as. -/
def effective (h : BinaryHeader) : Int := (quietOf h.opcode.toNat).getD h.opcode.toNat

def updateCmds : List Int := [CMD_SET, CMD_ADD, CMD_REPLACE]
def appendCmds : List Int := [CMD_APPEND, CMD_PREPEND]
def saslCmds : List Int := [CMD_SASL_AUTH, CMD_SASL_STEP]
def touchCmds : List Int := [CMD_TOUCH, CMD_GAT, CMD_GATQ, CMD_GATK, CMD_GATKQ]

/-- The commands without a value. -/
def keyCmds : List Int :=
  [CMD_VERSION, CMD_FLUSH, CMD_NOOP, CMD_GETQ, CMD_GET, CMD_GETKQ, CMD_GETK, CMD_DELETE, CMD_INCREMENT,
    CMD_DECREMENT, CMD_STAT, CMD_QUIT, CMD_SASL_LIST_MECHS]

/-- The commands with a value. -/
def valueCmds : List Int := updateCmds ++ appendCmds ++ saslCmds

/-- How much of the body of an accepted request the server takes. -/
def taken (cmd : Int) (h : BinaryHeader) : Int :=
  if cmd = CMD_STAT then h.keylen.toNat
  else if cmd ∈ touchCmds then h.keylen.toNat + 4
  else h.bodylen.toNat

/-- The lengths of the value of a request, and that of an item for it, are numbers an
`int` can hold. -/
def LengthsFit (cmd : Int) (h : BinaryHeader) : Prop :=
  if cmd ∈ updateCmds then h.bodylen.toNat - h.keylen.toNat - 8 + 2 < 2 ^ 31
  else if cmd ∈ appendCmds then
    h.keylen.toNat ≤ h.bodylen.toNat ∧ h.bodylen.toNat - h.keylen.toNat + 2 < 2 ^ 31
  else if cmd ∈ saslCmds then h.keylen.toNat ≤ h.bodylen.toNat ∧ h.bodylen.toNat - h.keylen.toNat < 2 ^ 31
  else if cmd ∈ touchCmds ∨ cmd ∈ keyCmds then True
  else h.bodylen.toNat < 2 ^ 31

/-- The request is accepted with an empty value, and the value may be swallowed
nevertheless. -/
def EmptyValue (cfg : Config) (cmd : Int) (h : BinaryHeader) : Prop :=
  h.keylen.toNat ≠ 0 ∧
    (cmd ∈ updateCmds ∧ h.extlen.toNat = 8 ∧ h.bodylen.toNat = h.keylen.toNat + 8 ∨
      (cmd ∈ appendCmds ∨ cmd ∈ saslCmds ∧ cfg.sasl = true) ∧ h.extlen.toNat = 0 ∧
        h.bodylen.toNat = h.keylen.toNat)

/-! ## What an accepted request owes -/

/-- Extras and key are read next. -/
theorem binReadKey_owes {next : BinSubstate} {extra : Nat} {m : Int} (hb : c.protocol = .binary)
    (hm : m = valueLength (binReadKey c next extra)) (h0 : 0 ≤ m)
    (hroom : next = .readingSetHeader → m + 2 < 2 ^ 31)
    (hs : next = .readingSetHeader ∨ next = .readingSaslAuth ∧ cfg.sasl = true → m = 0 → c.sbytes = 0)
    (hsub : next ∉ [.noState, .readSetValue, .readingSaslAuthData])
    (hk : next = .readingSetHeader → c.cmd ∈ [CMD_SET, CMD_ADD, CMD_REPLACE, CMD_APPEND, CMD_PREPEND]) :
    Owes cfg (binReadKey c next extra) (c.keylen + extra + m) := by
  refine (Owes.of_nread rfl).mpr ⟨?_, .inr ⟨⟨[], rfl⟩, hb, ?_, ?_, ?_, ?_, hsub, hk⟩⟩
  · exact Int.add_nonneg (Int.natCast_nonneg _) (Int.natCast_nonneg _)
  all_goals
    have hrest : (c.keylen + extra + m : Int) - (binReadKey c next extra).rlbytes = m := by
      simp only [binReadKey]
      omega
    rw [hrest]
  · exact hm
  · exact h0
  · exact hroom
  · exact hs

/-- A request without a value: only extras and key are read. -/
theorem binReadKey_noValue {next : BinSubstate} {extra : Nat} (hb : c.protocol = .binary) (hn : NoValue next) :
    Owes cfg (binReadKey c next extra) (c.keylen + extra) := by
  have h0 : valueLength (binReadKey c next extra) = 0 := by
    simp only [NoValue, List.mem_cons, List.not_mem_nil, or_false] at hn
    rcases hn with hn | hn | hn | hn | hn | hn <;> rw [hn] <;> rfl
  have hne : next ≠ .readingSetHeader ∧ next ≠ .readingSaslAuth ∧
      next ∉ [.noState, .readSetValue, .readingSaslAuthData] := by
    simp only [NoValue, List.mem_cons, List.not_mem_nil, or_false] at hn
    rcases hn with hn | hn | hn | hn | hn | hn <;> rw [hn] <;> decide
  have howes : Owes cfg (binReadKey c next extra) (c.keylen + extra + 0) := binReadKey_owes hb h0.symm
    (Int.le_refl 0) (fun hr => absurd hr hne.1) (fun hr => (hr.elim (absurd · hne.1) fun hr => absurd hr.1 hne.2.1)) hne.2.2
    (fun hr => absurd hr hne.1)
  rwa [Int.add_zero] at howes

theorem taken_of_mem {l : List Int} {cmd : Int} (hc : cmd ∈ l) (hl : ∀ x ∈ l, x ≠ CMD_STAT ∧ x ∉ touchCmds) :
    taken cmd h = h.bodylen.toNat := by
  obtain ⟨h1, h2⟩ := hl cmd hc
  rw [taken, if_neg h1, if_neg h2]

theorem lengthsFit_update {cmd : Int} (hc : cmd ∈ updateCmds) (hf : LengthsFit cmd h) :
    h.bodylen.toNat - h.keylen.toNat - 8 + 2 < 2 ^ 31 := by
  rwa [LengthsFit, if_pos hc] at hf

theorem lengthsFit_append {cmd : Int} (hc : cmd ∈ appendCmds) (hf : LengthsFit cmd h) :
    h.keylen.toNat ≤ h.bodylen.toNat ∧ h.bodylen.toNat - h.keylen.toNat + 2 < 2 ^ 31 := by
  have hne : ∀ x ∈ appendCmds, x ∉ updateCmds := by decide
  rwa [LengthsFit, if_neg (hne cmd hc), if_pos hc] at hf

theorem lengthsFit_sasl {cmd : Int} (hc : cmd ∈ saslCmds) (hf : LengthsFit cmd h) :
    h.keylen.toNat ≤ h.bodylen.toNat ∧ h.bodylen.toNat - h.keylen.toNat < 2 ^ 31 := by
  have hne : ∀ x ∈ saslCmds, x ∉ updateCmds ∧ x ∉ appendCmds := by decide
  rwa [LengthsFit, if_neg (hne cmd hc).1, if_neg (hne cmd hc).2, if_pos hc] at hf

/-- The header is that of the connection. -/
structure Started (c : Conn) : Prop where
  binary : c.protocol = .binary
  keylen : c.keylen = c.binaryHeader.keylen.toNat

/-- The part of an update request behind the key. -/
theorem update_owes (hc : Started c) (hcmd : c.cmd ∈ updateCmds) (hf : LengthsFit c.cmd c.binaryHeader)
    (he : c.binaryHeader.extlen.toNat = 8) (hk : c.binaryHeader.keylen.toNat ≠ 0)
    (hl : c.binaryHeader.keylen.toNat + 8 ≤ c.binaryHeader.bodylen.toNat)
    (hs : EmptyValue cfg c.cmd c.binaryHeader → c.sbytes = 0) :
    Owes cfg (binReadKey c .readingSetHeader 8) (taken c.cmd c.binaryHeader) := by
  have hroom := lengthsFit_update hcmd hf
  have hv : updateVlen c.binaryHeader = c.binaryHeader.bodylen.toNat - c.binaryHeader.keylen.toNat - 8 := by
    unfold updateVlen
    rw [asInt_of_bounds (by omega) (by omega)]
    omega
  have hlen : valueLength (binReadKey c .readingSetHeader 8) = updateVlen c.binaryHeader := by
    have hne : ∀ x ∈ updateCmds, ¬(x = CMD_APPEND ∨ x = CMD_PREPEND) := by decide
    exact if_neg (hne c.cmd hcmd)
  have htaken : taken c.cmd c.binaryHeader = c.keylen + (8 : Nat) + updateVlen c.binaryHeader := by
    rw [taken_of_mem hcmd (by decide), hv, hc.keylen]
    omega
  rw [htaken]
  refine binReadKey_owes hc.binary hlen.symm (by omega) (fun _ => by omega) (fun _ hz => hs ?_) (by decide)
    (fun _ => ?_)
  · exact ⟨hk, .inl ⟨hcmd, he, by omega⟩⟩
  · exact List.mem_append_left [CMD_APPEND, CMD_PREPEND] hcmd

/-- The part of an APPEND or PREPEND behind the key. -/
theorem append_owes (hc : Started c) (hcmd : c.cmd ∈ appendCmds) (hf : LengthsFit c.cmd c.binaryHeader)
    (he : c.binaryHeader.extlen.toNat = 0) (hk : c.binaryHeader.keylen.toNat ≠ 0)
    (hs : EmptyValue cfg c.cmd c.binaryHeader → c.sbytes = 0) :
    Owes cfg (binReadKey c .readingSetHeader 0) (taken c.cmd c.binaryHeader) := by
  obtain ⟨hle, hroom⟩ := lengthsFit_append hcmd hf
  have hv : keyedVlen c.binaryHeader = c.binaryHeader.bodylen.toNat - c.binaryHeader.keylen.toNat :=
    asInt_of_bounds (by omega) (by omega)
  have hlen : valueLength (binReadKey c .readingSetHeader 0) = keyedVlen c.binaryHeader := by
    have hor : c.cmd = CMD_APPEND ∨ c.cmd = CMD_PREPEND := by simpa [appendCmds] using hcmd
    exact if_pos hor
  have htaken : taken c.cmd c.binaryHeader = c.keylen + (0 : Nat) + keyedVlen c.binaryHeader := by
    rw [taken_of_mem hcmd (by decide), hv, hc.keylen]
    omega
  rw [htaken]
  refine binReadKey_owes hc.binary hlen.symm (by omega) (fun _ => by omega) (fun _ hz => hs ?_) (by decide)
    (fun _ => ?_)
  · exact ⟨hk, .inr ⟨.inl hcmd, he, by omega⟩⟩
  · exact List.mem_append_right [CMD_SET, CMD_ADD, CMD_REPLACE] hcmd

/-- The part of a SASL request behind the name of the mechanism. -/
theorem sasl_owes (hc : Started c) (hcmd : c.cmd ∈ saslCmds) (hf : LengthsFit c.cmd c.binaryHeader)
    (he : c.binaryHeader.extlen.toNat = 0) (hk : c.binaryHeader.keylen.toNat ≠ 0)
    (hs : EmptyValue cfg c.cmd c.binaryHeader → c.sbytes = 0) :
    Owes cfg (binReadKey c .readingSaslAuth 0) (taken c.cmd c.binaryHeader) := by
  obtain ⟨hle, hroom⟩ := lengthsFit_sasl hcmd hf
  have hv : keyedVlen c.binaryHeader = c.binaryHeader.bodylen.toNat - c.binaryHeader.keylen.toNat :=
    asInt_of_bounds (by omega) (by omega)
  have htaken : taken c.cmd c.binaryHeader = c.keylen + (0 : Nat) + keyedVlen c.binaryHeader := by
    rw [taken_of_mem hcmd (by decide), hv, hc.keylen]
    omega
  rw [htaken]
  refine binReadKey_owes hc.binary rfl (by omega) nofun (fun h hz => hs ?_) (by decide) nofun
  rcases h with h | ⟨_, hsasl⟩
  · cases h
  · exact ⟨hk, .inr ⟨.inr ⟨hcmd, hsasl⟩, he, by omega⟩⟩

theorem quit_follows : let c₁ := { writeBinResponse c [] 0 0 with writeAndGo := .closing }
    let c' := if c₁.noreply then { c₁ with state := .closing } else c₁
    Follows c c' ∧ (c'.state = .closing ∨ c'.state = .mwrite ∧ c'.writeAndGo = .closing) := by
  intro c₁ c'
  have hf : Follows c (writeBinResponse c [] 0 0) := .of_core (core_writeBinResponse ..)
  have hs : (writeBinResponse c [] 0 0).sbytes = c.sbytes ∧ (writeBinResponse c [] 0 0).noreply = c.noreply := by
    unfold writeBinResponse
    split <;> exact ⟨rfl, rfl⟩
  by_cases hn : c.noreply = true
  · have hc' : c' = { c₁ with state := .closing } := if_pos (hs.2.trans hn)
    rw [hc']
    exact ⟨⟨hf.rbuf, hf.transport, hf.protocol, .inl hs.1⟩, .inl rfl⟩
  · have hc' : c' = c₁ := if_neg (by rw [show c₁.noreply = c.noreply from hs.2]; exact hn)
    rw [hc']
    exact ⟨⟨hf.rbuf, hf.transport, hf.protocol, .inl hs.1⟩, .inr ⟨by simp [c₁, writeBinResponse, hn], rfl⟩⟩

theorem binListSaslMechs_finishes (h0 : c.binaryHeader.bodylen.toNat = 0) (hk : c.binaryHeader.keylen.toNat = 0) :
    Finishes c (binListSaslMechs cfg c) := by
  unfold binListSaslMechs
  split
  · rw [h0, hk]
    exact .of_core (core_writeBinError ..) (settled_writeBinError _)
  · obtain ⟨hf, hs⟩ := initSaslConn_follows cfg c
    dsimp only
    split
    · exact ⟨hf.trans (.of_core (core_writeBinError ..)) hs, settled_writeBinError _⟩
    · exact ⟨hf.trans (.of_core (core_writeBinResponse ..)) hs, settled_writeBinResponse ..⟩

theorem binReadKey_follows (next : BinSubstate) (extra : Nat) : Follows c (binReadKey c next extra) :=
  ⟨rfl, rfl, rfl, .inl rfl⟩

/-- What an accepted request leads to. -/
inductive Dispatched (c : Conn) : Conn → Prop where
  | key (next : BinSubstate) (extra : Nat) (hn : NoValue next) (hx : extra = c.binaryHeader.extlen.toNat)
      (hc : c.cmd ∈ touchCmds ∨ c.cmd ∈ keyCmds)
      (ht : taken c.cmd c.binaryHeader = c.binaryHeader.keylen.toNat + extra) : Dispatched c (binReadKey c next extra)
  | update (hc : c.cmd ∈ updateCmds) (he : c.binaryHeader.extlen.toNat = 8) (hk : c.binaryHeader.keylen.toNat ≠ 0)
      (hl : c.binaryHeader.keylen.toNat + 8 ≤ c.binaryHeader.bodylen.toNat) :
      Dispatched c (binReadKey c .readingSetHeader 8)
  | append (hc : c.cmd ∈ appendCmds) (he : c.binaryHeader.extlen.toNat = 0)
      (hk : c.binaryHeader.keylen.toNat ≠ 0) : Dispatched c (binReadKey c .readingSetHeader 0)
  | sasl (hc : c.cmd ∈ saslCmds) (he : c.binaryHeader.extlen.toNat = 0) (hk : c.binaryHeader.keylen.toNat ≠ 0) :
      Dispatched c (binReadKey c .readingSaslAuth 0)
  /-- the request has no body and is answered at once -/
  | answered (c' : Conn) (hf : Finishes c c') (ht : taken c.cmd c.binaryHeader = 0) : Dispatched c c'
  | quit (c' : Conn) (hf : Follows c c')
      (hs : c'.state = .closing ∨ c'.state = .mwrite ∧ c'.writeAndGo = .closing) : Dispatched c c'
  /-- an opcode nobody knows: the body is swallowed -/
  | unknown (hc : c.cmd ∉ valueCmds) (ht : c.cmd ∉ touchCmds) (hk : c.cmd ∉ keyCmds) :
      Dispatched c (writeBinError c .UNKNOWN_COMMAND (asInt c.binaryHeader.bodylen.toNat))

/-- The checks of `dispatch_bin_command`. -/
theorem dispatchBinOpcode_cases {c' : Conn} (hd : dispatchBinOpcode cfg c = some c') : Dispatched c c' := by
  have hall : ∀ {cmd : Int}, c.cmd = cmd → c.cmd ∈ [cmd] := by simp
  have hsub : ∀ {l : List Int}, c.cmd ∈ l → (∀ x ∈ l, x ∈ touchCmds ∨ x ∈ keyCmds) →
      c.cmd ∈ touchCmds ∨ c.cmd ∈ keyCmds := fun h hl => hl _ h
  unfold dispatchBinOpcode at hd
  extract_lets extlen keylen bodylen at hd
  by_cases h1 : c.cmd = CMD_VERSION
  · rw [if_pos h1] at hd
    split at hd <;> cases hd
    refine .answered _ (.of_core (core_writeBinResponse ..) (settled_writeBinResponse ..)) ?_
    rw [taken_of_mem (hall h1) (by decide)]
    omega
  rw [if_neg h1] at hd
  by_cases h2 : c.cmd = CMD_FLUSH
  · rw [if_pos h2] at hd
    split at hd <;> cases hd
    refine .key _ _ (by decide) rfl (hsub (hall h2) (by decide)) ?_
    rw [taken_of_mem (hall h2) (by decide)]
    omega
  rw [if_neg h2] at hd
  by_cases h3 : c.cmd = CMD_NOOP
  · rw [if_pos h3] at hd
    split at hd <;> cases hd
    refine .answered _ (.of_core (core_writeBinResponse ..) (settled_writeBinResponse ..)) ?_
    rw [taken_of_mem (hall h3) (by decide)]
    omega
  rw [if_neg h3] at hd
  by_cases h4 : c.cmd ∈ [CMD_SET, CMD_ADD, CMD_REPLACE]
  · rw [if_pos h4] at hd
    split at hd <;> cases hd
    rename_i h
    exact .update h4 h.1 h.2.1 h.2.2
  rw [if_neg h4] at hd
  by_cases h5 : c.cmd ∈ [CMD_GETQ, CMD_GET, CMD_GETKQ, CMD_GETK]
  · rw [if_pos h5] at hd
    split at hd <;> cases hd
    rename_i h
    refine .key _ _ (by decide) h.1.symm (hsub h5 (by decide)) ?_
    rw [taken_of_mem h5 (by decide)]
    omega
  rw [if_neg h5] at hd
  by_cases h6 : c.cmd = CMD_DELETE
  · rw [if_pos h6] at hd
    split at hd <;> cases hd
    refine .key _ _ (by decide) rfl (hsub (hall h6) (by decide)) ?_
    rw [taken_of_mem (hall h6) (by decide)]
    omega
  rw [if_neg h6] at hd
  by_cases h7 : c.cmd ∈ [CMD_INCREMENT, CMD_DECREMENT]
  · rw [if_pos h7] at hd
    split at hd <;> cases hd
    rename_i h
    refine .key _ _ (by decide) h.2.1.symm (hsub h7 (by decide)) ?_
    rw [taken_of_mem h7 (by decide)]
    omega
  rw [if_neg h7] at hd
  by_cases h8 : c.cmd ∈ [CMD_APPEND, CMD_PREPEND]
  · rw [if_pos h8] at hd
    split at hd <;> cases hd
    rename_i h
    exact .append h8 h.2 (Nat.ne_of_gt h.1)
  rw [if_neg h8] at hd
  by_cases h9 : c.cmd = CMD_STAT
  · rw [if_pos h9] at hd
    split at hd <;> cases hd
    rename_i h
    refine .key _ _ (by decide) h.symm (hsub (hall h9) (by decide)) ?_
    rw [taken, if_pos h9]
    rfl
  rw [if_neg h9] at hd
  by_cases h10 : c.cmd = CMD_QUIT
  · rw [if_pos h10] at hd
    split at hd <;> cases hd
    obtain ⟨hf, hs⟩ := @quit_follows c
    exact .quit _ hf hs
  rw [if_neg h10] at hd
  by_cases h11 : c.cmd = CMD_SASL_LIST_MECHS
  · rw [if_pos h11] at hd
    split at hd <;> cases hd
    rename_i h
    refine .answered _ (binListSaslMechs_finishes h.2.2 h.2.1) ?_
    rw [taken_of_mem (hall h11) (by decide)]
    omega
  rw [if_neg h11] at hd
  by_cases h12 : c.cmd ∈ [CMD_SASL_AUTH, CMD_SASL_STEP]
  · rw [if_pos h12] at hd
    split at hd <;> cases hd
    rename_i h
    exact .sasl h12 h.1 h.2
  rw [if_neg h12] at hd
  by_cases h13 : c.cmd ∈ [CMD_TOUCH, CMD_GAT, CMD_GATQ, CMD_GATK, CMD_GATKQ]
  · rw [if_pos h13] at hd
    split at hd <;> cases hd
    rename_i h
    refine .key _ _ (by decide) h.1.symm (.inl h13) ?_
    rw [taken, if_neg h9, if_pos (show c.cmd ∈ touchCmds from h13)]
    rfl
  rw [if_neg h13] at hd
  rw [← Option.some.inj hd]
  refine .unknown ?_ h13 ?_
  · simp only [valueCmds, List.mem_append, not_or]
    exact ⟨⟨h4, h8⟩, h12⟩
  · simp only [List.mem_cons, List.not_mem_nil, or_false, not_or] at h5 h7
    simp [keyCmds, h1, h2, h3, h5, h6, h7, h9, h10, h11]

theorem Dispatched.follows {c' : Conn} (hd : Dispatched c c') : Follows c c' := by
  cases hd with
  | key next extra _ _ _ _ => exact binReadKey_follows next extra
  | update | append | sasl => exact binReadKey_follows ..
  | answered c' hf _ => exact hf.toFollows
  | quit c' hf _ => exact hf
  | unknown => exact writeBinError_follows ..

theorem lengthsFit_unknown {cmd : Int} (hc : cmd ∉ valueCmds) (ht : cmd ∉ touchCmds) (hk : cmd ∉ keyCmds) :
    LengthsFit cmd h ↔ h.bodylen.toNat < 2 ^ 31 := by
  simp only [valueCmds, List.mem_append, not_or] at hc
  rw [LengthsFit, if_neg hc.1.1, if_neg hc.1.2, if_neg hc.2, if_neg (not_or.mpr ⟨ht, hk⟩)]

theorem taken_unknown {cmd : Int} (ht : cmd ∉ touchCmds) (hk : cmd ∉ keyCmds) :
    taken cmd h = h.bodylen.toNat := by
  have hstat : cmd ≠ CMD_STAT := by
    rintro rfl
    exact hk (by decide)
  rw [taken, if_neg hstat, if_neg ht]

/-- A request that `dispatch_bin_command` accepts owes what is taken of its body. -/
theorem Dispatched.owes {c' : Conn} (hd : Dispatched c c') (hc : Started c) (hf : LengthsFit c.cmd c.binaryHeader)
    (hs : EmptyValue cfg c.cmd c.binaryHeader → c.sbytes = 0) : Owes cfg c' (taken c.cmd c.binaryHeader) := by
  cases hd with
  | key next extra hn _ _ ht =>
    rw [ht, ← hc.keylen]
    exact binReadKey_noValue hc.binary hn
  | update hcmd he hk hl => exact update_owes hc hcmd hf he hk hl hs
  | append hcmd he hk => exact append_owes hc hcmd hf he hk hs
  | sasl hcmd he hk => exact sasl_owes hc hcmd hf he hk hs
  | answered c' hf ht =>
    rw [ht]
    exact hf.settled.owes
  | quit c' hf hs =>
    rcases hs with hs | ⟨hs, hg⟩
    · exact .gone (.inl hs)
    · have hnext : c'.next = .closing := by
        unfold Conn.next
        rw [if_neg (fun h => h.2 (hf.protocol.trans hc.binary)), hg]
      rw [Owes.of_write (.inr hs), hnext]
      trivial
  | unknown hcmd ht hk =>
    have hlt := (lengthsFit_unknown hcmd ht hk).mp hf
    rw [taken_unknown ht hk, asInt_of_bounds (by omega) (by omega)]
    exact writeBinError_owes hc.binary (Int.natCast_nonneg _)

/-- A request that is turned down: the connection is closed once that is said. -/
theorem handleBinaryProtocolError_owes (n : Int) (hb : c.protocol = .binary) :
    Follows c (handleBinaryProtocolError c) ∧ Owes cfg (handleBinaryProtocolError c) n := by
  obtain ⟨hr, ht, hp⟩ := writeBinError_same c .EINVAL 0
  have hstate : (handleBinaryProtocolError c).state = .mwrite := rfl
  refine ⟨⟨hr, ht, hp, .inl rfl⟩, ?_⟩
  rw [Owes.of_write (.inr hstate)]
  have hnext : (handleBinaryProtocolError c).next = .closing := by
    unfold Conn.next
    rw [if_neg (fun h => h.2 (hp.trans hb))]
    rfl
  rw [hnext]
  trivial

/-- A request within its rights, with a key of allowed length, is handled as its
effective command, with a response or without. -/
theorem dispatchBinCommand_eq (hcmd : c.cmd = c.binaryHeader.opcode.toNat)
    (hauth : ¬(cfg.sasl = true ∧ authenticated cfg c = false))
    (hkey : c.binaryHeader.keylen.toNat ≤ KEY_MAX_LENGTH) :
    ∃ noreply, dispatchBinCommand cfg c =
      (dispatchBinOpcode cfg { c with noreply := noreply, cmd := effective c.binaryHeader }).getD
        (handleBinaryProtocolError { c with noreply := noreply, cmd := effective c.binaryHeader }) := by
  unfold dispatchBinCommand
  rw [if_neg hauth, if_neg (Nat.not_lt.mpr hkey)]
  cases hq : quietOf c.cmd with
  | none =>
    have heff : effective c.binaryHeader = c.cmd := by rw [effective, ← hcmd, hq]; rfl
    exact ⟨false, by rw [heff]⟩
  | some cmd =>
    have heff : effective c.binaryHeader = cmd := by rw [effective, ← hcmd, hq]; rfl
    exact ⟨true, by rw [heff]⟩

/-- What is owed for a request: what is taken of its body, or anything if it is turned
down and the connection closed. -/
theorem dispatchBinCommand_owes {n : Int} (hc : Started c) (hcmd : c.cmd = c.binaryHeader.opcode.toNat)
    (hf : LengthsFit (effective c.binaryHeader) c.binaryHeader)
    (hs : EmptyValue cfg (effective c.binaryHeader) c.binaryHeader → c.sbytes = 0)
    (hn : ∀ noreply c', dispatchBinOpcode cfg { c with noreply := noreply, cmd := effective c.binaryHeader } = some c' →
      n = taken (effective c.binaryHeader) c.binaryHeader) :
    Follows c (dispatchBinCommand cfg c) ∧ Owes cfg (dispatchBinCommand cfg c) n := by
  by_cases hauth : cfg.sasl = true ∧ authenticated cfg c = false
  · unfold dispatchBinCommand
    rw [if_pos hauth]
    refine ⟨⟨rfl, rfl, rfl, .inl rfl⟩, (Owes.of_write (.inr rfl)).mpr ?_⟩
    have hnext : { writeBinError c .AUTH_ERROR 0 with writeAndGo := ConnState.closing }.next = .closing := by
      unfold Conn.next
      rw [if_neg (fun h => h.2 hc.binary)]
    rw [hnext]
    trivial
  by_cases hkey : c.binaryHeader.keylen.toNat ≤ KEY_MAX_LENGTH
  · obtain ⟨noreply, heq⟩ := dispatchBinCommand_eq hcmd hauth hkey
    rw [heq]
    have hc1 : Started { c with noreply := noreply, cmd := effective c.binaryHeader } := ⟨hc.binary, hc.keylen⟩
    cases hd : dispatchBinOpcode cfg { c with noreply := noreply, cmd := effective c.binaryHeader } with
    | none =>
      obtain ⟨hf, ho⟩ := handleBinaryProtocolError_owes n hc1.binary
      exact ⟨⟨hf.rbuf, hf.transport, hf.protocol, hf.sbytes⟩, ho⟩
    | some c' =>
      have hcases := dispatchBinOpcode_cases hd
      have hf := hcases.follows
      have ho := hcases.owes hc1 ‹_› hs
      rw [hn noreply c' hd]
      exact ⟨⟨hf.rbuf, hf.transport, hf.protocol, hf.sbytes⟩, ho⟩
  · unfold dispatchBinCommand
    rw [if_neg hauth, if_pos (Nat.not_le.mp hkey)]
    obtain ⟨hf, ho⟩ := handleBinaryProtocolError_owes n (show { c with noreply := true }.protocol = .binary from hc.binary)
    exact ⟨⟨hf.rbuf, hf.transport, hf.protocol, hf.sbytes⟩, ho⟩

/-! ## Requests on a connection -/

/-- The next turn parses a request with this header. -/
structure RequestNext (cfg : Config) (s : Session) (h : BinaryHeader) : Prop where
  running : s.stop = false
  count : 0 < cfg.reqsPerEvent
  state : s.c.state = .parseCmd
  binary : (negotiate s.c).protocol = .binary
  size : HEADER_SIZE ≤ s.c.rbuf.length
  header : parseHeader (s.c.rbuf.take HEADER_SIZE) = h
  magic : h.magic = 0x80

/-- The request is dispatched. -/
def begun (cfg : Config) (s : Session) (h : BinaryHeader) : Session :=
  let c := dispatchBinCommand cfg (startRequest (negotiate s.c) h)
  { s with
    c := { c with rbuf := c.rbuf.drop HEADER_SIZE }
    executed := s.executed ++ [.request h] }

theorem negotiate_same (c : Conn) : (negotiate c).rbuf = c.rbuf ∧ (negotiate c).transport = c.transport ∧
    (negotiate c).sbytes = c.sbytes := by
  unfold negotiate
  split <;> exact ⟨rfl, rfl, rfl⟩

theorem tryReadBinary_eq (g : Globals) (hs : HEADER_SIZE ≤ c.rbuf.length)
    (hh : parseHeader (c.rbuf.take HEADER_SIZE) = h) (hm : h.magic = 0x80) : tryReadBinary cfg c g =
      let c := dispatchBinCommand cfg (startRequest c h)
      ⟨{ c with rbuf := c.rbuf.drop HEADER_SIZE }, g, false, [.request h]⟩ := by
  unfold tryReadBinary
  rw [if_neg (Nat.not_lt.mpr hs), hh]
  exact if_neg (not_not.mpr hm)

theorem request_turn (hn : RequestNext cfg s h) : s.turn cfg env .go = some (begun cfg s h) := by
  obtain ⟨hr, _⟩ := negotiate_same s.c
  unfold Session.turn
  rw [hn.running, hn.state]
  simp only [Bool.false_eq_true, if_false, Session.parseTurn, tryReadCommand, if_pos hn.binary]
  rw [tryReadBinary_eq s.g (by rw [hr]; exact hn.size) (by rw [hr]; exact hn.header) hn.magic]
  rfl

theorem started_startRequest (hb : c.protocol = .binary) : Started (startRequest c h) := ⟨hb, rfl⟩

/-- What is owed once a request is dispatched. -/
theorem begun_owes {n : Int} (hn : RequestNext cfg s h) (hf : LengthsFit (effective h) h)
    (hs : EmptyValue cfg (effective h) h → s.c.sbytes = 0)
    (ht : ∀ noreply c', dispatchBinOpcode cfg
        { startRequest (negotiate s.c) h with noreply := noreply, cmd := effective h } = some c' →
      n = taken (effective h) h) :
    Owes cfg (begun cfg s h).c n ∧ (begun cfg s h).position = s.position + HEADER_SIZE ∧
      (begun cfg s h).c.transport = s.c.transport ∧ (begun cfg s h).c.protocol = .binary := by
  obtain ⟨hr, htr, hsb⟩ := negotiate_same s.c
  obtain ⟨hfollows, howes⟩ := dispatchBinCommand_owes (started_startRequest (h := h) hn.binary) rfl hf
    (fun he => hsb.trans (hs he)) ht
  refine ⟨howes.buffers _ _, ?_, hfollows.transport.trans htr, hfollows.protocol.trans hn.binary⟩
  have hsize := hn.size
  have hrbuf : (dispatchBinCommand cfg (startRequest (negotiate s.c) h)).rbuf = s.c.rbuf := hfollows.rbuf.trans hr
  simp only [Session.position, begun, hrbuf, List.length_drop]
  omega

/-! ## The commands that leave a part of the body -/

theorem dispatchBinOpcode_stat (hcmd : c.cmd = CMD_STAT) : dispatchBinOpcode cfg c =
    if c.binaryHeader.extlen.toNat = 0 then some (binReadKey c .readingStat 0) else none := by
  unfold dispatchBinOpcode
  simp only [hcmd]
  rfl

theorem dispatchBinOpcode_touch (hcmd : c.cmd ∈ touchCmds) : dispatchBinOpcode cfg c =
    if c.binaryHeader.extlen.toNat = 4 ∧ c.binaryHeader.keylen.toNat ≠ 0 then
      some (binReadKey c .readingTouchKey 4)
    else none := by
  unfold dispatchBinOpcode
  simp only [touchCmds, List.mem_cons, List.not_mem_nil, or_false] at hcmd
  rcases hcmd with hcmd | hcmd | hcmd | hcmd | hcmd <;> simp only [hcmd] <;> rfl

theorem dispatchBinOpcode_update (hcmd : c.cmd ∈ updateCmds) : dispatchBinOpcode cfg c =
    if c.binaryHeader.extlen.toNat = 8 ∧ c.binaryHeader.keylen.toNat ≠ 0 ∧
        c.binaryHeader.keylen.toNat + 8 ≤ c.binaryHeader.bodylen.toNat then
      some (binReadKey c .readingSetHeader 8)
    else none := by
  unfold dispatchBinOpcode
  simp only [updateCmds, List.mem_cons, List.not_mem_nil, or_false] at hcmd
  rcases hcmd with hcmd | hcmd | hcmd <;> simp only [hcmd] <;> rfl

theorem dispatchBinOpcode_append (hcmd : c.cmd ∈ appendCmds) : dispatchBinOpcode cfg c =
    if 0 < c.binaryHeader.keylen.toNat ∧ c.binaryHeader.extlen.toNat = 0 then
      some (binReadKey c .readingSetHeader 0)
    else none := by
  unfold dispatchBinOpcode
  simp only [appendCmds, List.mem_cons, List.not_mem_nil, or_false] at hcmd
  rcases hcmd with hcmd | hcmd <;> simp only [hcmd] <;> rfl

theorem dispatchBinOpcode_sasl (hcmd : c.cmd ∈ saslCmds) : dispatchBinOpcode cfg c =
    if c.binaryHeader.extlen.toNat = 0 ∧ c.binaryHeader.keylen.toNat ≠ 0 then
      some (binReadKey c .readingSaslAuth 0)
    else none := by
  unfold dispatchBinOpcode
  simp only [saslCmds, List.mem_cons, List.not_mem_nil, or_false] at hcmd
  rcases hcmd with hcmd | hcmd <;> simp only [hcmd] <;> rfl

/-! ## An empty value that is not stored -/

/-- Nothing is left to allocate. -/
def exhausted (env : Env) : Env := { env with alloc := fun _ => ⟨fun _ => true, none⟩ }

/-- Other threads have left the store empty. -/
def emptied (g : Globals) : Globals := { g with store := storeInit 16 }

theorem itemAlloc_exhausted (cfg : Settings) (env : Env) (key : Bytes) (flags : Int) (exptime : UInt32) {nbytes : Int}
    (h0 : 0 ≤ nbytes) :
    itemAlloc cfg ((exhausted env).alloc (storeInit 16)) (storeInit 16) key flags exptime nbytes =
      some (storeInit 16, none) := by
  unfold itemAlloc
  rw [if_pos h0]
  unfold doItemAlloc
  dsimp only
  split
  · rfl
  · simp [allocChunk, allocSearch, storeInit, slabsAlloc, exhausted]

section

variable {g : Globals}

theorem processBinUpdate_exhausted (hv : updateVlen c.binaryHeader = 0) : ∃ err g',
    processBinUpdate cfg (exhausted env) c (emptied g) = some (binErrorSwallow c err 0, g') := by
  have halloc := itemAlloc_exhausted cfg.toSettings env c.binKey (asInt (c.bodyField 0 4))
    (realtime cfg.processStarted (emptied g).store (c.bodyField 4 4)) (show 0 ≤ asInt (0 + 2) by decide)
  unfold processBinUpdate
  simp only [hv, Option.bind_eq_bind]
  rw [show (emptied g).store = storeInit 16 from rfl] at halloc ⊢
  rw [halloc]
  exact ⟨_, _, rfl⟩

theorem processBinAppendPrepend_exhausted (hv : keyedVlen c.binaryHeader = 0) : ∃ err g',
    processBinAppendPrepend cfg (exhausted env) c (emptied g) = some (binErrorSwallow c err 0, g') := by
  have halloc := itemAlloc_exhausted cfg.toSettings env c.binKey 0 0 (show 0 ≤ asInt (0 + 2) by decide)
  unfold processBinAppendPrepend
  simp only [hv, Option.bind_eq_bind]
  rw [show (emptied g).store = storeInit 16 from rfl, halloc]
  exact ⟨_, _, rfl⟩

theorem processBinSaslAuth_exhausted (hsasl : cfg.sasl = true) (hv : keyedVlen c.binaryHeader = 0) : ∃ err g',
    processBinSaslAuth cfg (exhausted env) c (emptied g) = some (binErrorSwallow c err 0, g') := by
  have halloc := itemAlloc_exhausted cfg.toSettings env c.binKey 0 0 (Int.le_refl 0)
  unfold processBinSaslAuth
  simp only [hsasl, hv, Bool.true_eq_false, if_false, Option.bind_eq_bind]
  rw [show (emptied g).store = storeInit 16 from rfl, halloc]
  split
  · exact ⟨_, _, rfl⟩
  · exact ⟨_, _, rfl⟩

/-- What is known of a connection that waits for the key of a request with an empty
value. -/
structure AwaitsKey (h : BinaryHeader) (sbytes : Int) (c : Conn) : Prop where
  packet : ∃ got, c.ritem = .packet got
  binary : c.protocol = .binary
  cmd : c.cmd = effective h
  header : c.binaryHeader = h
  sbytes : c.sbytes = sbytes
  substate : c.substate = if effective h ∈ saslCmds then .readingSaslAuth else .readingSetHeader

theorem AwaitsKey.receive {sbytes : Int} (bs rest : Bytes) (ha : AwaitsKey h sbytes c) :
    AwaitsKey h sbytes { (receive c g bs).1 with rbuf := rest } := by
  obtain ⟨⟨got, hri⟩, hb, hc, hh, hs, hsub⟩ := ha
  simp only [RamCube.receive, hri]
  exact ⟨⟨got ++ bs, rfl⟩, hb, hc, hh, hs, hsub⟩

/-- The key is there, the value is empty, and there is no room for an item. -/
theorem AwaitsKey.complete {sbytes : Int} (env : Env) (g : Globals) (ha : AwaitsKey h sbytes c) (he : EmptyValue cfg (effective h) h) :
    ∃ err g', completeNreadConn cfg (exhausted env) c (emptied g) = some (binErrorSwallow c err 0, g') := by
  unfold completeNreadConn completeNreadBinary
  rw [if_pos ha.binary, ha.substate, ha.cmd]
  obtain ⟨_, ⟨hcmd, hext, hbody⟩ | ⟨hcmd | ⟨hcmd, hsasl⟩, hext, hbody⟩⟩ := he
  · have hne : ∀ x ∈ updateCmds, x ∉ saslCmds ∧ ¬(x = CMD_APPEND ∨ x = CMD_PREPEND) := by decide
    have hv : updateVlen c.binaryHeader = 0 := by
      unfold updateVlen
      rw [ha.header, asInt_of_bounds] <;> omega
    rw [if_neg (hne _ hcmd).1]
    simp only [if_neg (hne _ hcmd).2]
    exact processBinUpdate_exhausted hv
  · have hne : ∀ x ∈ appendCmds, x ∉ saslCmds ∧ (x = CMD_APPEND ∨ x = CMD_PREPEND) := by decide
    have hv : keyedVlen c.binaryHeader = 0 := by
      unfold keyedVlen
      rw [ha.header, asInt_of_bounds] <;> omega
    rw [if_neg (hne _ hcmd).1]
    simp only [if_pos (hne _ hcmd).2]
    exact processBinAppendPrepend_exhausted hv
  · have hv : keyedVlen c.binaryHeader = 0 := by
      unfold keyedVlen
      rw [ha.header, asInt_of_bounds] <;> omega
    rw [if_pos hcmd]
    exact processBinSaslAuth_exhausted hsasl hv

end

/-- The bytes of extras that a request with a value has. -/
def valueExtras (h : BinaryHeader) : Nat := if effective h ∈ updateCmds then 8 else 0

theorem dispatch_emptyValue (hcmd : c.cmd = c.binaryHeader.opcode.toNat)
    (hauth : ¬(cfg.sasl = true ∧ authenticated cfg c = false)) (hkey : c.binaryHeader.keylen.toNat ≤ KEY_MAX_LENGTH)
    (he : EmptyValue cfg (effective c.binaryHeader) c.binaryHeader) : ∃ noreply, dispatchBinCommand cfg c =
      binReadKey { c with noreply := noreply, cmd := effective c.binaryHeader }
        (if effective c.binaryHeader ∈ saslCmds then .readingSaslAuth else .readingSetHeader)
        (valueExtras c.binaryHeader) := by
  obtain ⟨noreply, heq⟩ := dispatchBinCommand_eq hcmd hauth hkey
  refine ⟨noreply, heq.trans ?_⟩
  unfold valueExtras
  obtain ⟨hk, ⟨hcmd, hext, hbody⟩ | ⟨hcmd | ⟨hcmd, hsasl⟩, hext, hbody⟩⟩ := he
  · have hne : ∀ x ∈ updateCmds, x ∉ saslCmds := by decide
    rw [dispatchBinOpcode_update (c := { c with noreply := noreply, cmd := effective c.binaryHeader }) hcmd,
      if_pos ⟨hext, hk, by dsimp only; omega⟩, if_neg (hne _ hcmd), if_pos hcmd]
    rfl
  · have hne : ∀ x ∈ appendCmds, x ∉ saslCmds ∧ x ∉ updateCmds := by decide
    rw [dispatchBinOpcode_append (c := { c with noreply := noreply, cmd := effective c.binaryHeader }) hcmd,
      if_pos ⟨Nat.pos_of_ne_zero hk, hext⟩, if_neg (hne _ hcmd).1, if_neg (hne _ hcmd).2]
    rfl
  · have hne : ∀ x ∈ saslCmds, x ∉ updateCmds := by decide
    rw [dispatchBinOpcode_sasl (c := { c with noreply := noreply, cmd := effective c.binaryHeader }) hcmd,
      if_pos ⟨hext, hk⟩, if_pos hcmd, if_neg (hne _ hcmd)]
    rfl

/-- An empty value that cannot be stored: the connection goes on to swallow whatever
`sbytes` says, which was set for an earlier request. -/
theorem leads_stale (env : Env) (hn : RequestNext cfg s h)
    (hauth : ¬(cfg.sasl = true ∧ authenticated cfg (startRequest (negotiate s.c) h) = false))
    (hkey : h.keylen.toNat ≤ KEY_MAX_LENGTH) (he : EmptyValue cfg (effective h) h) :
    Leads cfg (fun s' => s'.stop = false ∧ s'.c.state = .mwrite ∧ s'.c.writeAndGo = .swallow ∧
      s'.c.sbytes = s.c.sbytes ∧ s'.c.protocol = .binary ∧ s'.c.transport = s.c.transport ∧
      s'.position = s.position + (HEADER_SIZE + h.bodylen.toNat)) (begun cfg s h) := by
  obtain ⟨hr, htr, hsb⟩ := negotiate_same s.c
  obtain ⟨noreply, hd⟩ := dispatch_emptyValue (c := startRequest (negotiate s.c) h) rfl hauth hkey he
  have hbody : (h.bodylen.toNat : Int) = h.keylen.toNat + valueExtras h := by
    obtain ⟨_, ⟨hcmd, _, hbody⟩ | ⟨hcmd | ⟨hcmd, _⟩, _, hbody⟩⟩ := he
    · rw [valueExtras, if_pos hcmd, hbody]
      rfl
    · have hne : ∀ x ∈ appendCmds, x ∉ updateCmds := by decide
      rw [valueExtras, if_neg (hne _ hcmd), hbody]
      rfl
    · have hne : ∀ x ∈ saslCmds, x ∉ updateCmds := by decide
      rw [valueExtras, if_neg (hne _ hcmd), hbody]
      rfl
  have hpos : (begun cfg s h).position = s.position + HEADER_SIZE := by
    have hsize := hn.size
    have hrbuf : (begun cfg s h).c.rbuf = s.c.rbuf.drop HEADER_SIZE := by
      simp only [begun, hd]
      rw [← hr]
      rfl
    rw [Session.position, Session.position, hrbuf, List.length_drop, show (begun cfg s h).input = s.input from rfl]
    omega
  have hrl : (begun cfg s h).c.rlbytes = h.keylen.toNat + valueExtras h := by
    simp only [begun, hd]
    rfl
  refine leads_receive (K := fun c => AwaitsKey h s.c.sbytes c ∧ c.transport = s.c.transport) env ?_ ?_ ?_ ?_ ?_
  · simp only [begun, hd]
    rfl
  · rw [hrl]
    omega
  · simp only [begun, hd]
    exact ⟨⟨⟨[], rfl⟩, hn.binary, rfl, rfl, hsb, rfl⟩, htr⟩
  · rintro c g bs rest ⟨ha, ht⟩
    exact ⟨ha.receive bs rest, (receive_same bs).1.1.trans ht⟩
  · rintro s' hs hz ⟨ha, ht⟩ hst hp
    obtain ⟨err, g', hc⟩ := ha.complete env s'.g he
    have hothers : Happens cfg s' (.others (emptied s'.g)) { s' with g := emptied s'.g } := rfl
    refine .step (not_atCommand_of_nread hs) hothers
      (.turn (not_atCommand_of_nread hs) (complete_turn hs hz hst hc) (.here ?_))
    obtain ⟨hr', htr', hp'⟩ := writeBinError_same s'.c err 0
    refine ⟨hst, writeBinError_state s'.c err 0, rfl, ha.sbytes, hp'.trans ha.binary, htr'.trans ht, ?_⟩
    have hkeep : (binErrorSwallow s'.c err 0).rbuf = s'.c.rbuf := hr'
    simp only [Session.position, hkeep] at hp hpos ⊢
    omega

/-! ## Whole requests -/

/-- From the request to the next command exactly its header and its body are taken from
the stream, and nothing on the way is undefined. -/
def TakesBody (cfg : Config) (s : Session) (h : BinaryHeader) : Prop :=
  ∀ env s₁, s.turn cfg env .go = some s₁ → ∀ es s', Serves cfg s₁ es s' →
    (AtCommand s' → s'.position = s.position + (HEADER_SIZE + h.bodylen.toNat)) ∧
    (¬AtCommand s' → ∀ env inp, (s'.turn cfg env inp).isSome)

/-- A STAT has only a key, a TOUCH or GAT only a key and four bytes of extras, and no
count of bytes to swallow is left over when an empty value is sent. -/
structure BodyTaken (cfg : Config) (c : Conn) (h : BinaryHeader) : Prop where
  stat : effective h = CMD_STAT → h.extlen.toNat = 0 → h.bodylen.toNat = h.keylen.toNat
  touch : effective h ∈ touchCmds → h.extlen.toNat = 4 → h.keylen.toNat ≠ 0 →
    h.bodylen.toNat = h.keylen.toNat + 4
  stale : EmptyValue cfg (effective h) h → c.sbytes = 0

theorem BodyTaken.taken_eq {c c' : Conn} (hb : BodyTaken cfg c h) {c₁ : Conn} (hcmd : c₁.cmd = effective h)
    (hh : c₁.binaryHeader = h) (hd : dispatchBinOpcode cfg c₁ = some c') :
    (h.bodylen.toNat : Int) = taken (effective h) h := by
  unfold taken
  split
  · rename_i hstat
    rw [dispatchBinOpcode_stat (hcmd.trans hstat), hh] at hd
    split at hd
    · rename_i hext
      rw [hb.stat hstat hext]
    · cases hd
  split
  · rename_i htouch
    rw [dispatchBinOpcode_touch (hcmd ▸ htouch), hh] at hd
    split at hd
    · rename_i hext
      rw [hb.touch htouch hext.1 hext.2]
      rfl
    · cases hd
  · rfl

theorem lengthsFit_of_lt {cmd : Int} (hlen : h.keylen.toNat + h.extlen.toNat ≤ h.bodylen.toNat)
    (hbody : h.bodylen.toNat < 2 ^ 31 - 2) : LengthsFit cmd h := by
  unfold LengthsFit
  split_ifs <;> first | trivial | omega

theorem BodyTaken.takes (hb : BodyTaken cfg s.c h) (hn : RequestNext cfg s h) (hu : s.c.transport ≠ .udp)
    (hlen : h.keylen.toNat + h.extlen.toNat ≤ h.bodylen.toNat) (hbody : h.bodylen.toNat < 2 ^ 31 - 2) :
    TakesBody cfg s h := by
  intro env s₁ ht es s' hr
  rw [request_turn hn] at ht
  cases ht
  obtain ⟨howes, hpos, htr, hbin⟩ := begun_owes hn (lengthsFit_of_lt hlen hbody) hb.stale
    fun noreply c' hd => hb.taken_eq rfl rfl hd
  constructor
  · intro hat
    rw [howes.paid hr (htr ▸ hu) hat, hpos]
    omega
  · intro hbusy env inp
    exact howes.run_isSome env inp hr hbusy (.inl hbin)

/-- The key is read and no more: the request takes what is taken of its body. -/
theorem TakesBody.taken (ht : TakesBody cfg s h) (hn : RequestNext cfg s h) (hu : s.c.transport ≠ .udp)
    (hf : LengthsFit (effective h) h) (hs : EmptyValue cfg (effective h) h → s.c.sbytes = 0)
    (hk : (begun cfg s h).c.state = .nread) : (h.bodylen.toNat : Int) = taken (effective h) h := by
  obtain ⟨howes, hpos, htr, hbin⟩ := begun_owes hn hf hs fun _ _ _ => rfl
  have hopen : StaysOpen (begun cfg s h).c := by
    unfold StaysOpen
    rw [hk]
    trivial
  obtain ⟨es, s', hr, hat⟩ :=
    howes.reaches default hn.count hopen (.inl hbin)
  have h1 := howes.paid hr (htr ▸ hu) hat
  have h2 := (ht default _ (request_turn hn) es s' hr).1 hat
  omega

theorem begun_nread (hsasl : cfg.sasl = false)
    (hkey : h.keylen.toNat ≤ KEY_MAX_LENGTH)
    (hd : ∀ noreply, ∃ next extra, dispatchBinOpcode cfg
      { startRequest (negotiate s.c) h with noreply := noreply, cmd := effective h } = some (binReadKey
        { startRequest (negotiate s.c) h with noreply := noreply, cmd := effective h } next extra)) :
    (begun cfg s h).c.state = .nread := by
  have hauth : ¬(cfg.sasl = true ∧ authenticated cfg (startRequest (negotiate s.c) h) = false) := by simp [hsasl]
  obtain ⟨noreply, heq⟩ := dispatchBinCommand_eq rfl hauth hkey
  obtain ⟨next, extra, hd⟩ := hd noreply
  show (dispatchBinCommand cfg (startRequest (negotiate s.c) h)).state = .nread
  rw [heq]
  erw [hd]
  rfl

/-- Exactly the header and the body of a request are taken, unless the connection is
closed, if and only if no part of the body is one its handler does not know of and no
stale count is swallowed in place of an empty value. -/
theorem request_takes_body_iff (hn : RequestNext cfg s h) (hu : s.c.transport ≠ .udp) (hsasl : cfg.sasl = false)
    (hkey : h.keylen.toNat ≤ KEY_MAX_LENGTH) (hlen : h.keylen.toNat + h.extlen.toNat ≤ h.bodylen.toNat)
    (hbody : h.bodylen.toNat < 2 ^ 31 - 2) : TakesBody cfg s h ↔ BodyTaken cfg s.c h := by
  have hf : LengthsFit (effective h) h := lengthsFit_of_lt hlen hbody
  refine ⟨fun ht => ⟨fun hstat hext => ?_, fun htouch hext hk => ?_, fun he => ?_⟩,
    fun hb => hb.takes hn hu hlen hbody⟩
  · have hno : ¬EmptyValue cfg (effective h) h := by
      rintro ⟨_, ⟨hcmd, _⟩ | ⟨hcmd | ⟨hcmd, _⟩, _⟩⟩ <;> rw [hstat] at hcmd <;> revert hcmd <;> decide
    have htaken := ht.taken hn hu hf (fun he => absurd he hno) (begun_nread hsasl hkey fun noreply =>
      ⟨_, _, (dispatchBinOpcode_stat hstat).trans (if_pos hext)⟩)
    rw [taken, if_pos hstat] at htaken
    exact Int.ofNat.inj htaken
  · have hno : ¬EmptyValue cfg (effective h) h := by
      rintro ⟨_, ⟨_, hext', _⟩ | ⟨_, hext', _⟩⟩ <;> omega
    have htaken := ht.taken hn hu hf (fun he => absurd he hno) (begun_nread hsasl hkey fun noreply =>
      ⟨_, _, (dispatchBinOpcode_touch htouch).trans (if_pos ⟨hext, hk⟩)⟩)
    have hne : ∀ x ∈ touchCmds, x ≠ CMD_STAT := by decide
    rw [taken, if_neg (hne _ htouch), if_pos htouch] at htaken
    omega
  · by_contra hz
    obtain ⟨es, s₂, hr, hst, hstate, hgo, hsb, hbin, htr, hpos⟩ :=
      leads_stale default hn (by simp [hsasl]) hkey he
    have hnext : s₂.c.next = .swallow := by
      unfold Conn.next
      rw [if_neg (fun h => h.2 hbin), hgo]
    rcases Int.lt_or_lt_of_ne hz with hneg | hpos'
    · -- a negative count is no count to read
      obtain ⟨es', s₃, hr', hbusy, inp, hnone⟩ : Leads cfg
          (fun s => ¬AtCommand s ∧ ∃ inp, s.turn cfg default inp = none) s₂ := by
        refine leads_sent default (.inr hstate) fun s₃ hs3 hsb3 hst3 => .here ?_
        rw [hnext] at hs3
        rw [hsb] at hsb3
        refine ⟨by simp [AtCommand, hs3], ?_⟩
        by_cases hrb : s₃.c.rbuf = []
        · exact ⟨.data [0], by simp [Session.turn, hst3, hs3, Session.swallowTurn, hsb3, hrb, hneg, hz]⟩
        · exact ⟨.go, by simp [Session.turn, hst3, hs3, Session.swallowTurn, hsb3, hrb, hneg, hz]⟩
      have hsome := (ht default _ (request_turn hn) _ _ (hr.append hr')).2 hbusy default inp
      rw [hnone] at hsome
      cases hsome
    · have howes : Owes cfg s₂.c s.c.sbytes := by
        rw [Owes.of_write (.inr hstate), hnext]
        exact ⟨hsb, Int.le_of_lt hpos'⟩
      have hopen : StaysOpen s₂.c := by simp [StaysOpen, hstate, hnext]
      obtain ⟨es', s₃, hr', hat⟩ := howes.reaches default hn.count hopen (.inl hbin)
      have h1 := howes.paid hr' (htr ▸ hu) hat
      have h2 := (ht default _ (request_turn hn) _ _ (hr.append hr')).1 hat
      omega

/-- A STAT without a key, and a body of five bytes. -/
def statWithBody : Bytes :=
  [0x80, 0x10, 0, 0, 0, 0, 0, 0, 0, 0, 0, 5, 0, 0, 0, 0, 0, 0, 0, 0, 0, 0, 0, 0] ++ ascii "hello"

/-- A SET of the key `k` to an empty value. -/
def setEmpty : Bytes :=
  [0x80, 0x01, 0, 1, 8, 0, 0, 0, 0, 0, 0, 9, 0, 0, 0, 0, 0, 0, 0, 0, 0, 0, 0, 0] ++
    [0, 0, 0, 0, 0, 0, 0, 0] ++ ascii "k"

theorem requestNext_hasRead {bs : Bytes} (hb : bs.getD 0 0 = 0x80) (hs : HEADER_SIZE ≤ bs.length)
    (hm : (parseHeader (bs.take HEADER_SIZE)).magic = 0x80) :
    RequestNext smallServer (hasRead bs) (parseHeader (bs.take HEADER_SIZE)) where
  running := rfl
  count := by decide
  state := rfl
  binary := by
    have hb' : (hasRead bs).c.rbuf0 = 0x80 := hb
    unfold negotiate
    rw [if_pos (.inl rfl)]
    exact if_pos hb'
  size := hs
  header := rfl
  magic := hm

theorem request_takes_body_iff_set : TakesBody smallServer (hasRead setEmpty) (parseHeader (setEmpty.take HEADER_SIZE)) ↔
    BodyTaken smallServer (hasRead setEmpty).c (parseHeader (setEmpty.take HEADER_SIZE)) :=
  request_takes_body_iff (requestNext_hasRead (by decide) (by decide) (by decide)) (by decide) rfl (by decide)
    (by decide) (by decide)

/-- The five bytes behind the header of the STAT are left for the next command. -/
theorem request_leaves_body : ∃ cfg s h, RequestNext cfg s h ∧ s.c.transport ≠ .udp ∧ cfg.sasl = false ∧
    h.keylen.toNat ≤ KEY_MAX_LENGTH ∧ h.keylen.toNat + h.extlen.toNat ≤ h.bodylen.toNat ∧
    h.bodylen.toNat < 2 ^ 31 - 2 ∧ ¬TakesBody cfg s h := by
  let h := parseHeader (statWithBody.take HEADER_SIZE)
  have hn : RequestNext smallServer (hasRead statWithBody) h :=
    requestNext_hasRead (by decide) (by decide) (by decide)
  have hf : LengthsFit (effective h) h := lengthsFit_of_lt (by decide) (by decide)
  have hno : ¬EmptyValue smallServer (effective h) h := by
    rintro ⟨hk, _⟩
    exact hk (by decide)
  refine ⟨smallServer, hasRead statWithBody, h, hn, by decide, rfl, by decide, by decide, by decide, fun ht => ?_⟩
  have hstat : effective h = CMD_STAT := by decide
  have hext : h.extlen.toNat = 0 := by decide
  have htaken := ht.taken hn (by decide) hf (fun he => absurd he hno) (begun_nread rfl (by decide) fun noreply =>
    ⟨_, _, (dispatchBinOpcode_stat hstat).trans (if_pos hext)⟩)
  revert htaken
  decide

end RamCube
