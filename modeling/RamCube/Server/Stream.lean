import RamCube.Server.Machine
import RamCube.Store.ItemsOk

/-! # How much of the stream a command takes

Between two commands a connection owes the stream a number of bytes: those it will still
read, or swallow, before it looks for the next command. `Owes` says so of a connection
in any state, and a turn pays off what it takes (`Owes.turn`). -/
namespace RamCube

variable {cfg : Config} {env : Env} {c : Conn} {g : Globals} {n : Int} {s s' : Session}

/-! ## Bytes owed -/

/-- The state after the answer that is being written. -/
def Conn.next (c : Conn) : ConnState :=
  if c.state = .mwrite ∧ c.protocol ≠ .binary then .newCmd else c.writeAndGo

/-- The bytes owed on the way to a state where nothing is read to a place. -/
def OwesTo (c : Conn) (n : Int) : ConnState → Prop
  | .closing | .closed => True
  | .swallow => c.sbytes = n ∧ 0 ≤ n
  | .newCmd | .waiting | .read | .parseCmd => n = 0
  | .nread | .write | .mwrite => False

/-- A value is read to the item in `c->item`, and what is done with it is known. -/
def ValueOwed (c : Conn) : Prop :=
  (∃ it off, c.ritem = .item it off ∧ c.item = some it) ∧
    if c.protocol = .binary then
      c.substate = .readSetValue ∧ (nreadOfCmd c.cmd).isSome ∨ c.substate = .readingSaslAuthData
    else (nreadOfCmd c.cmd).isSome

/-- The bytes owed behind the extras and the key of a request. -/
def valueLength (c : Conn) : Int :=
  match c.substate with
  | .readingSetHeader =>
    if c.cmd = CMD_APPEND ∨ c.cmd = CMD_PREPEND then keyedVlen c.binaryHeader
    else updateVlen c.binaryHeader
  | .readingSaslAuth => keyedVlen c.binaryHeader
  | _ => 0

/-- Extras and key of a request are read, and `m` bytes are owed behind them. In place of
an empty value whatever `sbytes` says may be swallowed. -/
structure KeyOwed (cfg : Config) (c : Conn) (m : Int) : Prop where
  packet : ∃ got, c.ritem = .packet got
  binary : c.protocol = .binary
  length : m = valueLength c
  nonneg : 0 ≤ m
  room : c.substate = .readingSetHeader → m + 2 < 2 ^ 31
  sbytes : c.substate = .readingSetHeader ∨ c.substate = .readingSaslAuth ∧ cfg.sasl = true →
    m = 0 → c.sbytes = 0
  substate : c.substate ∉ [.noState, .readSetValue, .readingSaslAuthData]
  known : c.substate = .readingSetHeader →
    c.cmd ∈ [CMD_SET, CMD_ADD, CMD_REPLACE, CMD_APPEND, CMD_PREPEND]

/-- The connection takes `n` more bytes of the stream before it parses the next command. -/
def Owes (cfg : Config) (c : Conn) (n : Int) : Prop :=
  match c.state with
  | .nread => 0 ≤ c.rlbytes ∧ (ValueOwed c ∧ c.rlbytes = n ∨ KeyOwed cfg c (n - c.rlbytes))
  | .write | .mwrite => OwesTo c n c.next
  | state => OwesTo c n state

/-- The states in which nothing is owed. -/
def Idle (state : ConnState) : Prop := state ∈ [.newCmd, .waiting, .read, .parseCmd]

theorem Owes.idle (hs : Idle c.state) : Owes cfg c n ↔ n = 0 := by
  simp only [Idle, List.mem_cons, List.not_mem_nil, or_false] at hs
  unfold Owes
  rcases hs with hs | hs | hs | hs <;> rw [hs] <;> rfl

/-- A connection about to be closed owes whatever it is asked for. -/
theorem Owes.gone (hs : c.state = .closing ∨ c.state = .closed) : Owes cfg c n := by
  unfold Owes
  rcases hs with hs | hs <;> rw [hs] <;> trivial

theorem Owes.of_swallow (hs : c.state = .swallow) : Owes cfg c n ↔ c.sbytes = n ∧ 0 ≤ n := by
  unfold Owes
  rw [hs]
  rfl

theorem Owes.of_write (hs : c.state = .write ∨ c.state = .mwrite) : Owes cfg c n ↔ OwesTo c n c.next := by
  unfold Owes
  rcases hs with hs | hs <;> simp [hs]

theorem Owes.of_nread (hs : c.state = .nread) : Owes cfg c n ↔
    0 ≤ c.rlbytes ∧ (ValueOwed c ∧ c.rlbytes = n ∨ KeyOwed cfg c (n - c.rlbytes)) := by
  unfold Owes
  rw [hs]

/-- What is owed does not depend on the bytes in the buffers. -/
theorem Owes.buffers (h : Owes cfg c n) (rbuf out : Bytes) : Owes cfg { c with rbuf := rbuf, out := out } n := by
  by_cases hs : c.state = .nread
  · obtain ⟨h0, hv | hk⟩ := (Owes.of_nread hs).mp h
    · exact (Owes.of_nread (c := { c with rbuf := rbuf, out := out }) hs).mpr ⟨h0, .inl hv⟩
    · refine (Owes.of_nread (c := { c with rbuf := rbuf, out := out }) hs).mpr ⟨h0, .inr ?_⟩
      exact ⟨hk.packet, hk.binary, hk.length, hk.nonneg, hk.room, hk.sbytes, hk.substate, hk.known⟩
  · have hto : ∀ state, OwesTo { c with rbuf := rbuf, out := out } n state = OwesTo c n state := by
      intro state
      cases state <;> rfl
    have hnext : { c with rbuf := rbuf, out := out }.next = c.next := rfl
    unfold Owes at h ⊢
    simp only [hto, hnext]
    cases hst : c.state with
    | nread => exact absurd hst hs
    | newCmd | waiting | read | parseCmd | write | swallow | closing | mwrite | closed =>
      rw [hst] at h
      exact h

/-! ## Handlers that answer -/

/-- The next command follows, after the answer if there is one. -/
def Settled (c : Conn) : Prop :=
  c.state = .newCmd ∨ (c.state = .write ∨ c.state = .mwrite) ∧ c.writeAndGo = .newCmd

theorem Settled.owes (h : Settled c) : Owes cfg c 0 := by
  rcases h with h | ⟨hs, hg⟩
  · exact (Owes.idle (by simp [Idle, h])).mpr rfl
  · rw [Owes.of_write hs]
    unfold Conn.next
    split
    · rfl
    · rw [hg]
      rfl

theorem settled_outString (str : Bytes) : Settled (outString c str) :=
  (outString_next c str).imp id fun h => ⟨.inl h.1, h.2⟩

theorem settled_writeBinResponse (d : Bytes) (hlen keylen : Nat) :
    Settled (writeBinResponse c d hlen keylen) :=
  (writeBinResponse_next c d hlen keylen).imp id fun h => ⟨.inr h.1, h.2⟩

theorem settled_writeBinError (err : BinStatus) : Settled (writeBinError c err 0) :=
  .inr ⟨.inr (writeBinError_state c err 0), (writeBinError_zero c err (Int.le_refl 0)).1⟩

theorem settled_missResponse (withKey : Bool) : Settled (missResponse c withKey) := by
  unfold missResponse
  split
  · exact .inl rfl
  · split
    · exact .inr ⟨.inr rfl, rfl⟩
    · exact settled_writeBinError _

/-- What a handler leaves alone. It gives a number of bytes to swallow only on the way to
swallowing them. -/
structure Follows (c c' : Conn) : Prop where
  rbuf : c'.rbuf = c.rbuf
  transport : c'.transport = c.transport
  protocol : c'.protocol = c.protocol
  sbytes : c'.sbytes = c.sbytes ∨ c'.state = .mwrite ∧ c'.writeAndGo = .swallow

theorem Follows.of_core {c' : Conn} (h : c'.core = c.core) : Follows c c' :=
  ⟨core_field Conn.rbuf (fun _ => rfl) h, core_field Conn.transport (fun _ => rfl) h,
    core_field Conn.protocol (fun _ => rfl) h, .inl (core_field Conn.sbytes (fun _ => rfl) h)⟩

theorem Follows.trans {c₁ c' : Conn} (h : Follows c c₁) (h' : Follows c₁ c') (hs : c₁.sbytes = c.sbytes) :
    Follows c c' :=
  ⟨h'.rbuf.trans h.rbuf, h'.transport.trans h.transport, h'.protocol.trans h.protocol,
    h'.sbytes.imp (fun h => h.trans hs) id⟩

/-- The connection `c'` has read no more than `c`, and the next command follows. -/
structure Finishes (c c' : Conn) : Prop extends Follows c c' where
  settled : Settled c'

theorem Finishes.of_core {c' : Conn} (hc : c'.core = c.core) (h : Settled c') : Finishes c c' :=
  ⟨.of_core hc, h⟩

theorem Finishes.dropItem {c' : Conn} (hc : c'.core = c.core) (h : Settled c') :
    Finishes c { c' with item := none } :=
  ⟨⟨(Follows.of_core hc).rbuf, (Follows.of_core hc).transport, (Follows.of_core hc).protocol,
    (Follows.of_core hc).sbytes⟩, h⟩

/-- The connection is not on its way to being closed. -/
def StaysOpen (c : Conn) : Prop :=
  match c.state with
  | .closing | .closed => False
  | .write | .mwrite => c.next ≠ .closing ∧ c.next ≠ .closed
  | _ => True

theorem Settled.staysOpen (h : Settled c) : StaysOpen c := by
  unfold StaysOpen
  rcases h with h | ⟨hs, hg⟩
  · rw [h]
    trivial
  · rcases hs with hs | hs
    · simp [hs, Conn.next, hg]
    · by_cases hb : c.protocol = .binary <;> simp [hs, Conn.next, hg]

/-- The connection `c'` has read no more than `c` and owes the stream `m` bytes. -/
structure Pays (cfg : Config) (c c' : Conn) (m : Int) : Prop extends Follows c c' where
  owes : Owes cfg c' m
  staysOpen : StaysOpen c'
  value : c'.state = .nread → ValueOwed c'

theorem Finishes.pays {c' : Conn} (h : Finishes c c') : Pays cfg c c' 0 := by
  refine ⟨h.toFollows, h.settled.owes, h.settled.staysOpen, fun hs => ?_⟩
  rcases h.settled with h | ⟨h | h, _⟩ <;> rw [hs] at h <;> cases h

theorem core_storeItem (it : Ptr) (comm : NRead) : (storeItem cfg env c g it comm).1.core = c.core := rfl

theorem missResponse_finishes (withKey : Bool) : Finishes c (missResponse c withKey) := by
  refine .of_core ?_ (settled_missResponse withKey)
  unfold missResponse
  split
  · rfl
  · split
    · rfl
    · exact core_writeBinError ..

/-- What is answered to a stored data block. -/
theorem storeReply_finishes {c' : Conn} {g' : Globals} {it : Ptr} {ret : StoreItemType}
    (h : storeReply cfg c g it ret = some (c', g')) : c'.core = c.core ∧ Settled c' := by
  unfold storeReply at h
  cases ret with
  | STORED =>
    cases hr : cfg.ramcube with
    | none =>
      rw [hr] at h
      cases h
      exact ⟨core_outString .., settled_outString _⟩
    | some rc =>
      rw [hr] at h
      obtain ⟨⟨g1, rtn⟩, _, h⟩ := Option.map_eq_some_iff.mp h
      dsimp only at h
      split at h
      · cases h
        exact ⟨rfl, .inl rfl⟩
      · cases h
        exact ⟨core_outString .., settled_outString _⟩
  | NOT_STORED | EXISTS | NOT_FOUND =>
    cases h
    exact ⟨core_outString .., settled_outString _⟩

theorem completeNreadAscii_finishes {c' : Conn} {g' : Globals}
    (h : completeNreadAscii cfg env c g = some (c', g')) : Finishes c c' := by
  simp only [completeNreadAscii, Option.bind_eq_bind, Option.bind_eq_some_iff] at h
  obtain ⟨it, _, ⟨c1, g1⟩, h1, h2⟩ := h
  cases h2
  unfold storeBlock at h1
  split at h1
  · obtain ⟨comm, _, h1⟩ := Option.bind_eq_some_iff.mp h1
    obtain ⟨hcore, hs⟩ := storeReply_finishes h1
    exact .dropItem (hcore.trans (core_storeItem it comm)) hs
  · cases h1
    exact .dropItem (core_outString ..) (settled_outString _)

theorem completeUpdateBin_finishes {c' : Conn} {g' : Globals}
    (h : completeUpdateBin cfg env c g = some (c', g')) : Finishes c c' := by
  simp only [completeUpdateBin, Option.bind_eq_bind, Option.bind_eq_some_iff] at h
  obtain ⟨it, _, comm, _, h⟩ := h
  cases h
  have hcore : ∀ g it, (storeItem cfg env c g it comm).1.core = c.core := fun _ _ => rfl
  split
  · exact .dropItem ((core_writeBinResponse ..).trans (hcore _ _)) (settled_writeBinResponse ..)
  · exact .dropItem ((core_writeBinError ..).trans (hcore _ _)) (settled_writeBinError _)
  · exact .dropItem ((core_writeBinError ..).trans (hcore _ _)) (settled_writeBinError _)
  · exact .dropItem ((core_writeBinError ..).trans (hcore _ _)) (settled_writeBinError _)

theorem initSaslConn_follows (cfg : Config) (c : Conn) : Follows c (initSaslConn cfg c) ∧
    (initSaslConn cfg c).sbytes = c.sbytes := by
  unfold initSaslConn
  split
  · exact ⟨.of_core rfl, rfl⟩
  · split
    · exact ⟨.of_core rfl, rfl⟩
    · split <;> exact ⟨⟨rfl, rfl, rfl, .inl rfl⟩, rfl⟩

theorem processBinCompleteSaslAuth_finishes {c' : Conn} {g' : Globals}
    (h : processBinCompleteSaslAuth cfg c g = some (c', g')) : Finishes c c' := by
  simp only [processBinCompleteSaslAuth, Option.bind_eq_bind, Option.bind_eq_some_iff] at h
  obtain ⟨it, _, h⟩ := h
  obtain ⟨hf, hs⟩ := initSaslConn_follows cfg c
  generalize initSaslConn cfg c = c1 at h hf hs
  -- the calls made are recorded before the answer is written
  have hf1 : ∀ calls, Follows c { c1 with sasl := calls } := fun calls => ⟨hf.rbuf, hf.transport, hf.protocol, .inl hs⟩
  split at h
  · cases h
    exact ⟨(hf1 _).trans (.of_core (core_writeBinResponse ..)) hs, settled_writeBinResponse ..⟩
  · cases h
    exact ⟨⟨hf.rbuf, hf.transport, hf.protocol, .inl hs⟩, .inr ⟨.inr rfl, rfl⟩⟩
  · cases h
    exact ⟨(hf1 _).trans (.of_core (core_writeBinError ..)) hs, settled_writeBinError _⟩

/-! ## Requests whose key has arrived -/

theorem processBinGet_finishes : Finishes c (processBinGet cfg c g).1 := by
  unfold processBinGet
  split
  · exact ⟨⟨rfl, rfl, rfl, .inl rfl⟩, .inr ⟨.inr rfl, rfl⟩⟩
  · exact missResponse_finishes _

theorem processBinTouch_finishes : Finishes c (processBinTouch cfg c g).1 := by
  unfold processBinTouch
  dsimp only
  split
  · exact ⟨⟨rfl, rfl, rfl, .inl rfl⟩, .inr ⟨.inr rfl, rfl⟩⟩
  · exact missResponse_finishes _

theorem processBinDelete_finishes : Finishes c (processBinDelete cfg c g).1 := by
  unfold processBinDelete
  split
  · exact .of_core (core_writeBinResponse ..) (settled_writeBinResponse ..)
  · exact .of_core (core_writeBinError ..) (settled_writeBinError _)
  · exact .of_core (core_writeBinError ..) (settled_writeBinError _)

theorem processBinFlush_finishes : Finishes c (processBinFlush cfg c g).1 :=
  .of_core (core_writeBinResponse ..) (settled_writeBinResponse ..)

theorem processBinStat_finishes : Finishes c (processBinStat env c g).1 := by
  have hfree : Finishes c (writeAndFree c env.stats) := .of_core rfl (.inr ⟨.inl rfl, rfl⟩)
  have herr : Finishes c (writeBinError c .KEY_ENOENT 0) :=
    .of_core (core_writeBinError ..) (settled_writeBinError _)
  unfold processBinStat
  split_ifs <;> first | exact hfree | exact herr

theorem incrInitial_finishes (initial expiration : Nat) :
    Finishes c (incrInitial cfg env c g initial expiration).1 := by
  unfold incrInitial
  split
  · exact .of_core (core_writeBinError ..) (settled_writeBinError _)
  · split
    · exact .of_core (core_writeBinError ..) (settled_writeBinError _)
    · dsimp only
      split
      · exact .of_core (core_writeBinError ..) (settled_writeBinError _)
      · exact .of_core (core_writeBinResponse ..) (settled_writeBinResponse ..)

theorem completeIncrBin_finishes : Finishes c (completeIncrBin cfg env c g).1 := by
  unfold completeIncrBin
  dsimp only
  split
  · split
    · exact .of_core (core_writeBinResponse ..) (settled_writeBinResponse ..)
    · exact .of_core (core_writeBinResponse ..) (settled_writeBinResponse ..)
  · exact .of_core (core_writeBinError ..) (settled_writeBinError _)
  · exact .of_core (core_writeBinError ..) (settled_writeBinError _)
  · exact incrInitial_finishes _ _
  · exact .of_core (core_writeBinError ..) (settled_writeBinError _)

theorem readValue_owed {it : Ptr} {m : Int} {next : BinSubstate} (hb : c.protocol = .binary)
    (hn : next = .readSetValue ∧ (nreadOfCmd c.cmd).isSome ∨ next = .readingSaslAuthData) :
    ValueOwed (readValue c it m next) := by
  refine ⟨⟨it, 0, rfl, rfl⟩, ?_⟩
  rw [if_pos (show (readValue c it m next).protocol = .binary from hb)]
  exact hn

/-- An error, and the value is swallowed. -/
theorem binErrorSwallow_follows (err : BinStatus) (m : Int) : Follows c (binErrorSwallow c err m) := by
  obtain ⟨hr, ht, hp⟩ := writeBinError_same c err m
  exact ⟨hr, ht, hp, .inr ⟨writeBinError_state c err m, rfl⟩⟩

/-- A length of 0 leaves `sbytes` alone. -/
theorem binErrorSwallow_owes {err : BinStatus} {m : Int} (hb : c.protocol = .binary) (h0 : 0 ≤ m)
    (hs : m = 0 → c.sbytes = 0) : Owes cfg (binErrorSwallow c err m) m := by
  have hstate : (binErrorSwallow c err m).state = .mwrite := writeBinError_state c err m
  have hprot : (binErrorSwallow c err m).protocol = .binary :=
    (writeBinError_same c err m).2.2.trans hb
  have hnext : (binErrorSwallow c err m).next = .swallow := by
    unfold Conn.next
    rw [hstate, hprot]
    rfl
  rw [Owes.of_write (.inr hstate), hnext]
  refine ⟨?_, h0⟩
  by_cases hm : m = 0
  · exact ((writeBinError_zero c err (Int.le_of_eq hm)).2.trans (hs hm)).trans hm.symm
  · exact (writeBinError_swallow c err (by omega)).2

theorem writeBinError_follows (err : BinStatus) (m : Int) : Follows c (writeBinError c err m) := by
  obtain ⟨hr, ht, hp⟩ := writeBinError_same c err m
  by_cases hm : 0 < m
  · exact ⟨hr, ht, hp, .inr ⟨writeBinError_state c err m, (writeBinError_swallow c err hm).1⟩⟩
  · exact ⟨hr, ht, hp, .inl (writeBinError_zero c err (Int.not_lt.mp hm)).2⟩

theorem writeBinError_owes {err : BinStatus} {m : Int} (hb : c.protocol = .binary) (h0 : 0 ≤ m) :
    Owes cfg (writeBinError c err m) m := by
  rcases Int.lt_or_eq_of_le h0 with hpos | hz
  · -- the error says itself that its value is swallowed
    have heq : binErrorSwallow c err m = writeBinError c err m := by
      unfold binErrorSwallow
      rw [← (writeBinError_swallow c err hpos).1]
    rw [← heq]
    exact binErrorSwallow_owes hb h0 (by omega)
  · rw [← hz]
    exact (settled_writeBinError err).owes

theorem updateCmd_isSome {cmd : Int} (cas : UInt64) (h : cmd ∈ [CMD_SET, CMD_ADD, CMD_REPLACE]) :
    (nreadOfCmd (updateCmd cmd cas)).isSome := by
  unfold updateCmd
  split
  · rfl
  · simp only [List.mem_cons, List.not_mem_nil, or_false] at h
    rcases h with rfl | rfl | rfl <;> rfl

theorem appendCmd_isSome {cmd : Int} (h : cmd = CMD_APPEND ∨ cmd = CMD_PREPEND) :
    (nreadOfCmd (appendCmd cmd)).isSome := by
  rcases h with rfl | rfl <;> rfl

/-- What follows the key of a request with a value of `m` bytes: the value is read to an
item, or it is swallowed. If the command is `known`, so is what is done with the value. -/
inductive ValueNext (cfg : Config) (c : Conn) (m : Int) (next : BinSubstate) (known : Prop) :
    Conn → Globals → Prop where
  | read (cmd : Int) (it : Ptr) (g : Globals) (hcmd : known → next = .readSetValue → (nreadOfCmd cmd).isSome)
      (hsize : ((g.store.mem it).nbytes : Int) = if next = .readSetValue then asInt (m + 2) else m) :
      ValueNext cfg c m next known (readValue { c with cmd := cmd } it m next) g
  | swallow (err : BinStatus) (g : Globals) (hsasl : next = .readingSaslAuthData → cfg.sasl = true) :
      ValueNext cfg c m next known (binErrorSwallow c err m) g
  | unknown (g : Globals) : ValueNext cfg c m next known (writeBinError c .UNKNOWN_COMMAND m) g

section

variable {c' : Conn} {g' : Globals} {m : Int} {next : BinSubstate} {known : Prop}

theorem ValueNext.follows (h : ValueNext cfg c m next known c' g') : Follows c c' := by
  cases h with
  | read cmd it g _ _ => exact ⟨rfl, rfl, rfl, .inl rfl⟩
  | swallow err g hsasl => exact binErrorSwallow_follows err m
  | unknown g => exact writeBinError_follows .UNKNOWN_COMMAND m

theorem ValueNext.value (h : ValueNext cfg c m next known c' g') (hk : known) (hb : c.protocol = .binary)
    (hn : next = .readSetValue ∨ next = .readingSaslAuthData) (hs : c'.state = .nread) : ValueOwed c' := by
  cases h with
  | read cmd it g hcmd _ =>
    refine readValue_owed hb ?_
    rcases hn with hn | hn
    · exact .inl ⟨hn, hcmd hk hn⟩
    · exact .inr hn
  | swallow err g hsasl => exact absurd ((writeBinError_state c err m).symm.trans hs) nofun
  | unknown g => exact absurd ((writeBinError_state c .UNKNOWN_COMMAND m).symm.trans hs) nofun

theorem ValueNext.owes (h : ValueNext cfg c m next known c' g') (hk : known) (hb : c.protocol = .binary) (h0 : 0 ≤ m)
    (hs : (next = .readingSaslAuthData → cfg.sasl = true) → m = 0 → c.sbytes = 0)
    (hn : next = .readSetValue ∨ next = .readingSaslAuthData) : Owes cfg c' m := by
  have hvalue := h.value hk hb hn
  cases h with
  | read cmd it g hcmd _ => exact (Owes.of_nread rfl).mpr ⟨h0, .inl ⟨hvalue rfl, rfl⟩⟩
  | swallow err g hsasl => exact binErrorSwallow_owes hb h0 (hs hsasl)
  | unknown g => exact writeBinError_owes hb h0

theorem ValueNext.staysOpen (h : ValueNext cfg c m next known c' g') (hb : c.protocol = .binary) : StaysOpen c' := by
  have hswallow : ∀ c' : Conn, c'.state = .mwrite → c'.protocol = .binary →
      c'.writeAndGo = .swallow ∨ c'.writeAndGo = .newCmd → StaysOpen c' := by
    intro c' hs hb hg
    rcases hg with hg | hg <;> simp [StaysOpen, Conn.next, hs, hb, hg]
  cases h with
  | read cmd it g _ _ => trivial
  | swallow err g hsasl =>
    exact hswallow _ (writeBinError_state c err m) ((writeBinError_same c err m).2.2.trans hb) (.inl rfl)
  | unknown g =>
    refine hswallow _ (writeBinError_state ..) ((writeBinError_same ..).2.2.trans hb) ?_
    by_cases hm : 0 < m
    · exact .inl (writeBinError_swallow c .UNKNOWN_COMMAND hm).1
    · exact .inr (writeBinError_zero c .UNKNOWN_COMMAND (Int.not_lt.mp hm)).1

theorem itemAlloc_some {alloc : AllocEnv} {s s' : Store} {key : Bytes} {flags : Int} {exptime : UInt32} {nbytes : Int}
    {it : Ptr} (h : itemAlloc cfg.toSettings alloc s key flags exptime nbytes = some (s', some it)) :
    0 ≤ nbytes ∧ doItemAlloc cfg.toSettings alloc s key flags exptime nbytes.toNat 0 = (s', some it) := by
  unfold itemAlloc at h
  split at h
  · exact ⟨‹_›, Option.some.inj h⟩
  · split at h <;> cases h

/-- The item has room for as many bytes as were asked for. -/
theorem itemAlloc_nbytes {alloc : AllocEnv} {s s' : Store} {key : Bytes} {flags : Int} {exptime : UInt32}
    {nbytes : Int} {it : Ptr}
    (h : itemAlloc cfg.toSettings alloc s key flags exptime nbytes = some (s', some it)) :
    ((s'.mem it).nbytes : Int) = nbytes := by
  unfold itemAlloc at h
  split at h
  · rename_i h0
    unfold doItemAlloc at h
    dsimp only at h
    split at h
    · cases h
    · split at h
      · cases h
      · cases h
        rw [modify_mem_self]
        exact Int.toNat_of_nonneg h0
  · split at h <;> cases h

theorem nbytes_setCas (s : Store) (it : Ptr) (cas : UInt64) :
    ((s.modify it fun i => itemSetCas i cas).mem it).nbytes = (s.mem it).nbytes := by
  rw [modify_mem_self]
  exact itemSetCas_field Item.nbytes (fun _ _ => rfl) _ cas

theorem processBinUpdate_next (h : processBinUpdate cfg env c g = some (c', g')) :
    ValueNext cfg c (updateVlen c.binaryHeader) .readSetValue (c.cmd ∈ [CMD_SET, CMD_ADD, CMD_REPLACE]) c' g' := by
  simp only [processBinUpdate, Option.bind_eq_bind, Option.bind_eq_some_iff] at h
  obtain ⟨⟨s, r⟩, ha, h⟩ := h
  cases r with
  | none =>
    cases h
    exact .swallow _ _ nofun
  | some it =>
    cases h
    refine .read _ it _ (fun hc _ => updateCmd_isSome _ hc) ?_
    rw [nbytes_setCas, itemAlloc_nbytes ha]
    rfl

theorem processBinAppendPrepend_next (h : processBinAppendPrepend cfg env c g = some (c', g')) :
    ValueNext cfg c (keyedVlen c.binaryHeader) .readSetValue (c.cmd = CMD_APPEND ∨ c.cmd = CMD_PREPEND) c' g' := by
  simp only [processBinAppendPrepend, Option.bind_eq_bind, Option.bind_eq_some_iff] at h
  obtain ⟨⟨s, r⟩, ha, h⟩ := h
  cases r with
  | none =>
    cases h
    exact .swallow _ _ nofun
  | some it =>
    cases h
    refine .read _ it _ (fun hc _ => appendCmd_isSome hc) ?_
    rw [nbytes_setCas, itemAlloc_nbytes ha]
    rfl

theorem processBinSaslAuth_next (h : processBinSaslAuth cfg env c g = some (c', g')) :
    ValueNext cfg c (keyedVlen c.binaryHeader) .readingSaslAuthData True c' g' := by
  unfold processBinSaslAuth at h
  dsimp only at h
  split at h
  · cases h
    exact .unknown _
  · rename_i hsasl
    have hsasl : cfg.sasl = true := by simpa using hsasl
    split at h
    · cases h
      exact .swallow _ _ fun _ => hsasl
    · obtain ⟨⟨s, r⟩, ha, h⟩ := Option.bind_eq_some_iff.mp h
      cases r with
      | none =>
        cases h
        exact .swallow _ _ fun _ => hsasl
      | some it =>
        cases h
        exact .read c.cmd it _ nofun (itemAlloc_nbytes ha)

end

/-- The requests that have no value. -/
def NoValue (substate : BinSubstate) : Prop :=
  substate ∈ [.readingGetKey, .readingTouchKey, .readingStat, .readingDelHeader, .readingIncrHeader,
    .readFlushExptime]

instance (substate : BinSubstate) : Decidable (NoValue substate) := inferInstanceAs (Decidable (_ ∈ _))

theorem completeNreadBinary_noValue {c' : Conn} {g' : Globals} (hs : NoValue c.substate)
    (h : completeNreadBinary cfg env c g = some (c', g')) : Finishes c c' := by
  unfold completeNreadBinary at h
  simp only [NoValue, List.mem_cons, List.not_mem_nil, or_false] at hs
  rcases hs with hs | hs | hs | hs | hs | hs
  · rw [hs] at h
    have hp : Finishes c (processBinGet cfg c g).1 := processBinGet_finishes
    rwa [Option.some.inj h] at hp
  · rw [hs] at h
    have hp : Finishes c (processBinTouch cfg c g).1 := processBinTouch_finishes
    rwa [Option.some.inj h] at hp
  · rw [hs] at h
    have hp : Finishes c (processBinStat env c g).1 := processBinStat_finishes
    rwa [Option.some.inj h] at hp
  · rw [hs] at h
    have hp : Finishes c (processBinDelete cfg c g).1 := processBinDelete_finishes
    rwa [Option.some.inj h] at hp
  · rw [hs] at h
    have hp : Finishes c (completeIncrBin cfg env c g).1 := completeIncrBin_finishes
    rwa [Option.some.inj h] at hp
  · rw [hs] at h
    have hp : Finishes c (processBinFlush cfg c g).1 := processBinFlush_finishes
    rwa [Option.some.inj h] at hp

/-- What is read in the substate after that of the key. -/
inductive ValueState : BinSubstate → BinSubstate → Prop where
  | set : ValueState .readingSetHeader .readSetValue
  | sasl : ValueState .readingSaslAuth .readingSaslAuthData

theorem ValueState.next {sub next : BinSubstate} (h : ValueState sub next) :
    next = .readSetValue ∨ next = .readingSaslAuthData := by
  cases h with
  | set => exact .inl rfl
  | sasl => exact .inr rfl

/-- The key of a request is there: it is answered, or a value follows. -/
theorem KeyOwed.next {c' : Conn} {g' : Globals} {m : Int} (hk : KeyOwed cfg c m)
    (h : completeNreadBinary cfg env c g = some (c', g')) :
    m = 0 ∧ Finishes c c' ∨ ∃ next known, known ∧ ValueState c.substate next ∧
      ValueNext cfg c m next known c' g' ∧
      ((next = .readingSaslAuthData → cfg.sasl = true) → m = 0 → c.sbytes = 0) ∧
      (next = .readSetValue → m + 2 < 2 ^ 31) := by
  have hlen := hk.length
  cases hst : c.substate with
  | noState | readSetValue | readingSaslAuthData => exact absurd hk.substate (by simp [hst])
  | readingSetHeader =>
    have hmem := hk.known hst
    have hs := hk.sbytes (.inl hst)
    simp only [completeNreadBinary, hst] at h
    simp only [valueLength, hst] at hlen
    by_cases hc : c.cmd = CMD_APPEND ∨ c.cmd = CMD_PREPEND
    · rw [if_pos hc] at h hlen
      have hnext := processBinAppendPrepend_next h
      rw [← hlen] at hnext
      exact .inr ⟨_, _, hc, .set, hnext, fun _ => hs, fun _ => hk.room hst⟩
    · rw [if_neg hc] at h hlen
      have hnext := processBinUpdate_next h
      rw [← hlen] at hnext
      refine .inr ⟨_, _, ?_, .set, hnext, fun _ => hs, fun _ => hk.room hst⟩
      simp only [List.mem_cons, List.not_mem_nil, or_false] at hmem ⊢
      tauto
  | readingSaslAuth =>
    simp only [completeNreadBinary, hst] at h
    simp only [valueLength, hst] at hlen
    have hnext := processBinSaslAuth_next h
    rw [← hlen] at hnext
    exact .inr ⟨_, _, trivial, .sasl, hnext, fun hsasl => hk.sbytes (.inr ⟨hst, hsasl rfl⟩), nofun⟩
  | readingGetKey | readingTouchKey | readingStat | readingDelHeader | readingIncrHeader | readFlushExptime =>
    have hm : m = 0 := by simpa only [valueLength, hst] using hlen
    exact .inl ⟨hm, completeNreadBinary_noValue (by simp [NoValue, hst]) h⟩

theorem completeNreadBinary_key {c' : Conn} {g' : Globals} {m : Int} (hk : KeyOwed cfg c m)
    (h : completeNreadBinary cfg env c g = some (c', g')) : Pays cfg c c' m := by
  rcases hk.next h with ⟨hm, hf⟩ | ⟨next, known, hknown, hn, hnext, hs, _⟩
  · rw [hm]
    exact hf.pays
  · exact ⟨hnext.follows, hnext.owes hknown hk.binary hk.nonneg hs hn.next, hnext.staysOpen hk.binary,
      hnext.value hknown hk.binary hn.next⟩

/-- What is done when all bytes of a value are there. -/
theorem ValueOwed.complete {c' : Conn} {g' : Globals} (h : ValueOwed c)
    (hc : completeNreadConn cfg env c g = some (c', g')) : Finishes c c' := by
  obtain ⟨_, hnext⟩ := h
  unfold completeNreadConn at hc
  by_cases hb : c.protocol = .binary
  · rw [if_pos hb] at hc hnext
    unfold completeNreadBinary at hc
    rcases hnext with ⟨hsub, _⟩ | hsub
    · rw [hsub] at hc
      exact completeUpdateBin_finishes hc
    · rw [hsub] at hc
      exact processBinCompleteSaslAuth_finishes hc
  · rw [if_neg hb] at hc
    exact completeNreadAscii_finishes hc

/-- What is done when all bytes of a block are there pays for them. -/
theorem Owes.complete {c' : Conn} {g' : Globals} (h : Owes cfg c n) (hs : c.state = .nread) (h0 : c.rlbytes = 0)
    (hc : completeNreadConn cfg env c g = some (c', g')) : Pays cfg c c' n := by
  obtain ⟨_, hval | hkey⟩ := (Owes.of_nread hs).mp h
  · rw [← hval.2, h0]
    exact (hval.1.complete hc).pays
  · rw [h0, Int.sub_zero] at hkey
    unfold completeNreadConn at hc
    rw [if_pos hkey.binary] at hc
    exact completeNreadBinary_key hkey hc

/-! ## Turns -/

/-- The states between two commands. -/
def AtCommand (s : Session) : Prop := s.c.state ∈ [.waiting, .read, .parseCmd]

/-- The bytes `bs` come from the read buffer, which is left with `rest`, or, when that is
empty, from the socket. -/
def Taken (s : Session) (bs rest input : Bytes) : Prop :=
  s.c.rbuf = bs ++ rest ∧ input = s.input ∨ s.c.rbuf = [] ∧ rest = [] ∧ input = s.input ++ bs

/-- What a turn does when no command is looked for. -/
inductive BusyTurn (cfg : Config) (env : Env) (s : Session) : Session → Prop where
  /-- nothing, a yield, or a part of the answer is sent -/
  | same (out sent : Bytes) (stop : Bool) (nreqs : Int) (erange : Bool) : BusyTurn cfg env s
      { s with c := { s.c with out := out }, g := { s.g with erange := erange }, sent := sent, stop := stop, nreqs := nreqs }
  | reset (nreqs : Int) (hs : s.c.state = .newCmd) : BusyTurn cfg env s
      { s with
        c := (resetCmdHandler cfg.toSettings s.c s.g).1
        g := (resetCmdHandler cfg.toSettings s.c s.g).2
        nreqs := nreqs }
  | closing (stop : Bool) (erange : Bool) : BusyTurn cfg env s
      { s with c := { s.c with state := .closing }, g := { s.g with erange := erange }, stop := stop }
  /-- an answer that a UDP socket does not take -/
  | dropped (erange : Bool) (hu : s.c.transport = .udp) : BusyTurn cfg env s
      { s with c := { s.c with state := .read }, g := { s.g with erange := erange } }
  | closed (hs : s.c.state = .closing) : BusyTurn cfg env s
      (let (c, g) := if s.c.transport = .udp then connCleanup cfg.toSettings s.c s.g
        else connClose cfg.toSettings s.c s.g
      { s with c := c, g := g, stop := true })
  | received (bs rest input : Bytes) (hs : s.c.state = .nread) (hl : bs.length ≤ s.c.rlbytes)
      (ht : Taken s bs rest input) : BusyTurn cfg env s
      { s with
        c := { (receive s.c s.g bs).1 with rbuf := rest }
        g := (receive s.c s.g bs).2
        input := input }
  | completed (c' : Conn) (g' : Globals) (hs : s.c.state = .nread) (hz : s.c.rlbytes = 0)
      (hc : completeNreadConn cfg env s.c s.g = some (c', g')) : BusyTurn cfg env s
      { s with c := c', g := g', executed := s.executed ++ [.block (receivedBlock s.c s.g)] }
  | swallowed (bs rest input : Bytes) (hs : s.c.state = .swallow) (hl : bs.length ≤ s.c.sbytes)
      (ht : Taken s bs rest input) : BusyTurn cfg env s
      { s with c := { s.c with sbytes := s.c.sbytes - bs.length, rbuf := rest }, input := input }
  | swallowDone (hs : s.c.state = .swallow) (hz : s.c.sbytes = 0) : BusyTurn cfg env s (s.setState .newCmd)
  | sent (hs : s.c.state = .write ∨ s.c.state = .mwrite) (ho : s.c.out = []) : BusyTurn cfg env s
      (s.transmitComplete cfg)

theorem BusyTurn.refl (cfg : Config) (env : Env) (s : Session) : BusyTurn cfg env s s :=
  .same s.c.out s.sent s.stop s.nreqs s.g.erange

theorem newCmdTurn_busy {inp : Input} (hs : s.c.state = .newCmd) (ht : s.newCmdTurn cfg inp = some s') :
    BusyTurn cfg env s s' := by
  cases inp with
  | go =>
    simp only [Session.newCmdTurn] at ht
    split at ht
    · cases ht
      exact .reset _ hs
    · cases ht
      exact .same s.c.out s.sent true _ s.g.erange
  | eventFailed =>
    simp only [Session.newCmdTurn] at ht
    split at ht
    · cases ht
      exact .closing true s.g.erange
    · cases ht
      exact .refl cfg env s
  | event | data _ | wrote _ | again | error | noMemory =>
    cases ht
    exact .refl cfg env s

/-- The bytes that are in the read buffer already. -/
theorem taken_rbuf (s : Session) (n : Nat) : Taken s (s.c.rbuf.take n) (s.c.rbuf.drop n) s.input :=
  .inl ⟨(List.take_append_drop n s.c.rbuf).symm, rfl⟩

theorem nreadTurn_busy {inp : Input} (hs : s.c.state = .nread) (ht : s.nreadTurn cfg env inp = some s') :
    BusyTurn cfg env s s' := by
  cases inp with
  | go =>
    simp only [Session.nreadTurn] at ht
    split_ifs at ht with hz hr hneg
    · obtain ⟨⟨c, g⟩, hc, ht⟩ := Option.map_eq_some_iff.mp ht
      cases ht
      exact .completed c g hs hz hc
    · cases ht
      exact .refl cfg env s
    · cases ht
      refine .received _ _ _ hs ?_ (taken_rbuf s s.c.rlbytes.toNat)
      rw [List.length_take]
      omega
  | data bs =>
    simp only [Session.nreadTurn] at ht
    split_ifs at ht with hz hb hneg hl
    · cases ht
      exact .refl cfg env s
    · cases ht
      exact .closing s.stop s.g.erange
    · cases ht
      exact .refl cfg env s
    · cases ht
      have hrb : s.c.rbuf = [] := by simpa using (not_or.mp hz).2
      have hrest : (receive s.c s.g bs).1 = { (receive s.c s.g bs).1 with rbuf := [] } := by
        cases hri : s.c.ritem <;> simp [receive, hri, hrb]
      have hturn := @BusyTurn.received cfg env s bs [] (s.input ++ bs) hs (by omega) (.inr ⟨hrb, rfl, rfl⟩)
      rw [← hrest] at hturn
      exact hturn
  | again =>
    simp only [Session.nreadTurn] at ht
    split at ht <;> cases ht
    · exact .refl cfg env s
    · exact .same s.c.out s.sent true s.nreqs false
  | error =>
    simp only [Session.nreadTurn] at ht
    split at ht <;> cases ht
    · exact .refl cfg env s
    · exact .closing s.stop false
  | eventFailed =>
    simp only [Session.nreadTurn] at ht
    split at ht <;> cases ht
    · exact .refl cfg env s
    · exact .closing s.stop s.g.erange
  | event | wrote _ | noMemory =>
    cases ht
    exact .refl cfg env s

theorem swallowTurn_busy {inp : Input} (hs : s.c.state = .swallow) (ht : s.swallowTurn inp = some s') :
    BusyTurn cfg env s s' := by
  cases inp with
  | go =>
    simp only [Session.swallowTurn] at ht
    split_ifs at ht with hz hr hneg
    · cases ht
      exact .swallowDone hs hz
    · cases ht
      exact .refl cfg env s
    · cases ht
      refine .swallowed _ _ _ hs ?_ (taken_rbuf s s.c.sbytes.toNat)
      rw [List.length_take]
      omega
  | data bs =>
    simp only [Session.swallowTurn] at ht
    split_ifs at ht with hz hb hneg hl
    · cases ht
      exact .refl cfg env s
    · cases ht
      exact .closing s.stop s.g.erange
    · cases ht
      exact .refl cfg env s
    · cases ht
      have hrb : s.c.rbuf = [] := by simpa using (not_or.mp hz).2
      have hturn := @BusyTurn.swallowed cfg env s bs [] (s.input ++ bs) hs (by omega) (.inr ⟨hrb, rfl, rfl⟩)
      rw [← hrb] at hturn
      exact hturn
  | again =>
    simp only [Session.swallowTurn] at ht
    split at ht <;> cases ht
    · exact .refl cfg env s
    · exact .same s.c.out s.sent true s.nreqs false
  | error =>
    simp only [Session.swallowTurn] at ht
    split at ht <;> cases ht
    · exact .refl cfg env s
    · exact .closing s.stop false
  | eventFailed =>
    simp only [Session.swallowTurn] at ht
    split at ht <;> cases ht
    · exact .refl cfg env s
    · exact .closing s.stop s.g.erange
  | event | wrote _ | noMemory =>
    cases ht
    exact .refl cfg env s

theorem writeTurn_busy {inp : Input} (hs : s.c.state = .write ∨ s.c.state = .mwrite)
    (ht : s.writeTurn cfg inp = some s') : BusyTurn cfg env s s' := by
  cases inp with
  | go =>
    simp only [Session.writeTurn] at ht
    split at ht <;> cases ht
    · exact .sent hs ‹_›
    · exact .refl cfg env s
  | wrote k =>
    simp only [Session.writeTurn] at ht
    split at ht <;> cases ht
    · exact .refl cfg env s
    · exact .same _ _ s.stop s.nreqs s.g.erange
  | again =>
    simp only [Session.writeTurn] at ht
    split at ht <;> cases ht
    · exact .refl cfg env s
    · exact .same s.c.out s.sent true s.nreqs false
  | eventFailed =>
    simp only [Session.writeTurn] at ht
    split at ht <;> cases ht
    · exact .refl cfg env s
    · exact .closing s.stop s.g.erange
  | error =>
    simp only [Session.writeTurn] at ht
    split at ht <;> cases ht
    · exact .refl cfg env s
    · by_cases hu : s.c.transport = .udp
      · simp only [if_pos hu]
        exact .dropped false hu
      · simp only [if_neg hu]
        exact .closing s.stop false
  | event | data _ | noMemory =>
    cases ht
    exact .refl cfg env s

/-- What a turn can do, whatever the result of its system call. -/
theorem turn_busy {inp : Input} (hs : ¬AtCommand s) (ht : s.turn cfg env inp = some s') : BusyTurn cfg env s s' := by
  unfold Session.turn at ht
  split at ht
  · cases inp with
    | event =>
      cases ht
      exact .same s.c.out s.sent false cfg.reqsPerEvent s.g.erange
    | go | data _ | wrote _ | again | error | noMemory | eventFailed =>
      cases ht
      exact .refl cfg env s
  · cases hst : s.c.state with
    | newCmd => exact newCmdTurn_busy hst (by rwa [hst] at ht)
    | nread => exact nreadTurn_busy hst (by rwa [hst] at ht)
    | swallow => exact swallowTurn_busy hst (by rwa [hst] at ht)
    | write => exact writeTurn_busy (.inl hst) (by rwa [hst] at ht)
    | mwrite => exact writeTurn_busy (.inr hst) (by rwa [hst] at ht)
    | closing =>
      rw [hst] at ht
      cases inp with
      | go =>
        cases ht
        exact .closed hst
      | event | data _ | wrote _ | again | error | noMemory | eventFailed =>
        cases ht
        exact .refl cfg env s
    | closed =>
      rw [hst] at ht
      cases ht
      exact .refl cfg env s
    | waiting | read | parseCmd => simp [AtCommand, hst] at hs

/-! ## What a turn pays -/

/-- `s'` comes after `s` in the stream of a connection that owes it `n` bytes. -/
structure TurnPays (cfg : Config) (s s' : Session) (n : Int) : Prop where
  same : s'.c.transport = s.c.transport ∧ s'.c.protocol = s.c.protocol
  owes : ∃ n', Owes cfg s'.c n' ∧ (s.c.transport ≠ .udp → s'.position + n' = s.position + n)

theorem TurnPays.of_same (ht : s'.c.transport = s.c.transport ∧ s'.c.protocol = s.c.protocol)
    (hp : s'.position = s.position) (h : Owes cfg s'.c n) : TurnPays cfg s s' n := ⟨ht, n, h, fun _ => by rw [hp]⟩

/-- A connection about to be closed owes whatever it is asked for. -/
theorem TurnPays.closing (ht : s'.c.transport = s.c.transport ∧ s'.c.protocol = s.c.protocol)
    (hs : s'.c.state = .closing ∨ s'.c.state = .closed) : TurnPays cfg s s' n :=
  ⟨ht, s.position + n - s'.position, .gone hs, fun _ => by omega⟩

/-- Bytes for a block arrive, and the read buffer is left with `rest`. -/
theorem receive_value (bs rest : Bytes) (h : ValueOwed c) : ValueOwed { (receive c g bs).1 with rbuf := rest } := by
  obtain ⟨⟨it, off, hri, hit⟩, hnext⟩ := h
  simp only [receive, hri]
  exact ⟨⟨it, off + bs.length, rfl, hit⟩, hnext⟩

theorem receive_key {m : Int} (bs rest : Bytes) (h : KeyOwed cfg c m) :
    KeyOwed cfg { (receive c g bs).1 with rbuf := rest } m := by
  obtain ⟨⟨got, hri⟩, hb, hlen, h0, hroom, hs, hsub, hk⟩ := h
  simp only [receive, hri]
  exact ⟨⟨got ++ bs, rfl⟩, hb, hlen, h0, hroom, hs, hsub, hk⟩

theorem receive_same (bs : Bytes) : ((receive c g bs).1.transport = c.transport ∧
    (receive c g bs).1.protocol = c.protocol) ∧ (receive c g bs).1.rbuf = c.rbuf ∧
      (receive c g bs).1.state = c.state ∧ (receive c g bs).1.rlbytes = c.rlbytes - bs.length := by
  cases hri : c.ritem <;> simp [receive, hri]

theorem receive_owes {bs : Bytes} (rest : Bytes) (h : Owes cfg c n) (hs : c.state = .nread)
    (hl : bs.length ≤ c.rlbytes) : Owes cfg { (receive c g bs).1 with rbuf := rest } (n - bs.length) := by
  obtain ⟨h0, h⟩ := (Owes.of_nread hs).mp h
  obtain ⟨_, _, hst, hrl⟩ := receive_same (c := c) (g := g) bs
  refine (Owes.of_nread (c := { (receive c g bs).1 with rbuf := rest }) (hst.trans hs)).mpr ⟨?_, ?_⟩
  · simp only [hrl]
    omega
  rcases h with ⟨hval, hn⟩ | hkey
  · exact .inl ⟨receive_value bs rest hval, by simp only [hrl]; omega⟩
  · have hm : n - bs.length - (receive c g bs).1.rlbytes = n - c.rlbytes := by omega
    have hkey' := receive_key (g := g) bs rest hkey
    rw [← hm] at hkey'
    exact .inr hkey'

/-- The turn took `bs` from the read buffer or from the socket. -/
theorem TurnPays.took {bs rest input : Bytes} (ht : s'.c.transport = s.c.transport ∧ s'.c.protocol = s.c.protocol)
    (hk : Taken s bs rest input) (hr : s'.c.rbuf = rest) (hi : s'.input = input)
    (h : Owes cfg s'.c (n - bs.length)) : TurnPays cfg s s' n := by
  have hpos : s'.position = s.position + bs.length := by
    rw [Session.position, Session.position, hr, hi]
    rcases hk with ⟨hb, hin⟩ | ⟨hb, hrest, hin⟩
    · rw [hb, hin, List.length_append]
      omega
    · rw [hb, hrest, hin, List.length_append]
      simp only [List.length_nil]
      omega
  exact ⟨ht, n - bs.length, h, fun _ => by omega⟩

/-- The state that follows an answer owes what the answer did. -/
theorem OwesTo.owes {c' : Conn} (h : OwesTo c n c.next) (hs : c'.state = c.next) (hb : c'.sbytes = c.sbytes) :
    Owes cfg c' n := by
  generalize c.next = state at h hs
  cases state with
  | nread | write | mwrite => exact h.elim
  | swallow => exact (Owes.of_swallow hs).mpr ⟨hb.trans h.1, h.2⟩
  | closing => exact .gone (.inl hs)
  | closed => exact .gone (.inr hs)
  | newCmd | waiting | read | parseCmd => exact (Owes.idle (by simp [Idle, hs])).mpr h

/-- What is left when an answer is sent. -/
theorem transmitComplete_same (hs : s.c.state = .write ∨ s.c.state = .mwrite) :
    (s.transmitComplete cfg).c.state = s.c.next ∧ (s.transmitComplete cfg).c.sbytes = s.c.sbytes ∧
      (s.transmitComplete cfg).c.transport = s.c.transport ∧ (s.transmitComplete cfg).c.protocol = s.c.protocol ∧
      (s.transmitComplete cfg).position = s.position := by
  unfold Session.transmitComplete Conn.next
  rcases hs with hs | hs
  · simp [Session.setState, Session.position, hs]
  · by_cases hb : s.c.protocol = .binary <;> simp [hs, hb, Conn.dropIlist, Session.position]

theorem resetCmdHandler_same (cfg : Settings) (c : Conn) (g : Globals) :
    (resetCmdHandler cfg c g).1.rbuf = c.rbuf ∧ (resetCmdHandler cfg c g).1.transport = c.transport ∧
      (resetCmdHandler cfg c g).1.protocol = c.protocol ∧
      ((resetCmdHandler cfg c g).1.state = .parseCmd ∨
        (resetCmdHandler cfg c g).1.state = .waiting ∧ c.rbuf = []) := by
  unfold resetCmdHandler Conn.dropItem
  cases hi : c.item <;> cases hr : c.rbuf <;> simp

theorem connCleanup_same (cfg : Settings) (c : Conn) (g : Globals) :
    ((connCleanup cfg c g).1.transport = c.transport ∧ (connCleanup cfg c g).1.protocol = c.protocol) ∧
      (c.transport = .udp → (connCleanup cfg c g).1.state = .read) := by
  unfold connCleanup Conn.dropItem
  cases c.item with
  | none =>
    by_cases hu : c.transport = .udp <;> simp [Conn.dropIlist, hu]
  | some it =>
    by_cases hu : c.transport = .udp <;> simp [Conn.dropIlist, hu]

/-- A turn pays off what it takes. -/
theorem BusyTurn.pays (ht : BusyTurn cfg env s s') (h : Owes cfg s.c n) : TurnPays cfg s s' n := by
  cases ht with
  | same out sent stop nreqs erange =>
    refine .of_same ⟨rfl, rfl⟩ rfl ?_
    exact h.buffers s.c.rbuf out
  | reset nreqs hs =>
    have hn : n = 0 := (Owes.idle (by simp [Idle, hs])).mp h
    obtain ⟨hr, htr, hp, hst⟩ := resetCmdHandler_same cfg.toSettings s.c s.g
    refine .of_same ⟨htr, hp⟩ (by simp only [Session.position, hr]) ((Owes.idle ?_).mpr hn)
    rcases hst with hst | ⟨hst, _⟩ <;> simp [Idle, hst]
  | closing stop erange => exact .closing ⟨rfl, rfl⟩ (.inl rfl)
  | dropped erange hu =>
    exact ⟨⟨rfl, rfl⟩, 0, (Owes.idle (by simp [Idle])).mpr rfl, fun hne => absurd hu hne⟩
  | closed hs =>
    obtain ⟨htr, hread⟩ := connCleanup_same cfg.toSettings s.c s.g
    by_cases hu : s.c.transport = .udp
    · simp only [if_pos hu]
      exact ⟨htr, 0, (Owes.idle (by simp [Idle, hread hu])).mpr rfl, fun hne => absurd hu hne⟩
    · simp only [if_neg hu]
      exact .closing htr (.inr rfl)
  | received bs rest input hs hl ht => exact .took (receive_same bs).1 ht rfl rfl (receive_owes rest h hs hl)
  | completed c' g' hs hz hc =>
    have hp := h.complete hs hz hc
    exact .of_same ⟨hp.transport, hp.protocol⟩ (by simp only [Session.position, hp.rbuf]) hp.owes
  | swallowed bs rest input hs hl ht =>
    obtain ⟨hn, h0⟩ := (Owes.of_swallow hs).mp h
    refine .took ⟨rfl, rfl⟩ ht rfl rfl ?_
    exact (Owes.of_swallow (c := { s.c with sbytes := s.c.sbytes - bs.length, rbuf := rest }) hs).mpr
      ⟨by rw [hn], by omega⟩
  | swallowDone hs hz =>
    have hn : n = 0 := ((Owes.of_swallow hs).mp h).1.symm.trans hz
    exact .of_same ⟨rfl, rfl⟩ rfl ((Owes.idle (by simp [Idle, Session.setState])).mpr hn)
  | sent hs ho =>
    obtain ⟨hst, hsb, htr, hp, hpos⟩ := transmitComplete_same hs
    exact .of_same ⟨htr, hp⟩ hpos (((Owes.of_write hs).mp h).owes hst hsb)

theorem Owes.turn {inp : Input} (h : Owes cfg s.c n) (hs : ¬AtCommand s) (ht : s.turn cfg env inp = some s') :
    TurnPays cfg s s' n := (turn_busy hs ht).pays h

/-! ## Turns are defined -/

/-- A length that is not negative is one the allocator can be asked for. -/
theorem itemAlloc_isSome (cfg : Config) (env : Env) (s : Store) (key : Bytes) (flags : Int) (exptime : UInt32) {nbytes : Int}
    (h : 0 ≤ nbytes) : ∃ s' it, itemAlloc cfg.toSettings (env.alloc s) s key flags exptime nbytes = some (s', it) := by
  unfold itemAlloc
  rw [if_pos h]
  exact ⟨_, _, rfl⟩

theorem processBinUpdate_isSome (h0 : 0 ≤ updateVlen c.binaryHeader) (h2 : updateVlen c.binaryHeader + 2 < 2 ^ 31) :
    (processBinUpdate cfg env c g).isSome := by
  have hlen : asInt (updateVlen c.binaryHeader + 2) = updateVlen c.binaryHeader + 2 :=
    asInt_of_bounds (by omega) h2
  obtain ⟨s', it, ha⟩ := itemAlloc_isSome cfg env g.store c.binKey (asInt (c.bodyField 0 4))
    (realtime cfg.processStarted g.store (c.bodyField 4 4))
    (show 0 ≤ asInt (updateVlen c.binaryHeader + 2) by omega)
  unfold processBinUpdate
  simp only [ha, Option.bind_eq_bind, Option.bind_some]
  cases it <;> rfl

theorem processBinAppendPrepend_isSome (h0 : 0 ≤ keyedVlen c.binaryHeader)
    (h2 : keyedVlen c.binaryHeader + 2 < 2 ^ 31) : (processBinAppendPrepend cfg env c g).isSome := by
  have hlen : asInt (keyedVlen c.binaryHeader + 2) = keyedVlen c.binaryHeader + 2 :=
    asInt_of_bounds (by omega) h2
  obtain ⟨s', it, ha⟩ := itemAlloc_isSome cfg env g.store c.binKey 0 0
    (show 0 ≤ asInt (keyedVlen c.binaryHeader + 2) by omega)
  unfold processBinAppendPrepend
  simp only [ha, Option.bind_eq_bind, Option.bind_some]
  cases it <;> rfl

theorem processBinSaslAuth_isSome (h0 : 0 ≤ keyedVlen c.binaryHeader) :
    (processBinSaslAuth cfg env c g).isSome := by
  obtain ⟨s', it, ha⟩ := itemAlloc_isSome cfg env g.store c.binKey 0 0 h0
  unfold processBinSaslAuth
  simp only [ha, Option.bind_eq_bind, Option.bind_some]
  split
  · rfl
  · split
    · rfl
    · cases it <;> rfl

theorem completeNreadBinary_isSome {m : Int} (hk : KeyOwed cfg c m) : (completeNreadBinary cfg env c g).isSome := by
  have h0 := hk.nonneg
  have hlen := hk.length
  cases hst : c.substate with
  | noState | readSetValue | readingSaslAuthData => exact absurd hk.substate (by simp [hst])
  | readingSetHeader =>
    have h2 := hk.room hst
    simp only [completeNreadBinary, hst]
    simp only [valueLength, hst] at hlen
    by_cases hc : c.cmd = CMD_APPEND ∨ c.cmd = CMD_PREPEND
    · rw [if_pos hc] at hlen ⊢
      exact processBinAppendPrepend_isSome (by omega) (by omega)
    · rw [if_neg hc] at hlen ⊢
      exact processBinUpdate_isSome (by omega) (by omega)
  | readingSaslAuth =>
    simp only [completeNreadBinary, hst]
    simp only [valueLength, hst] at hlen
    exact processBinSaslAuth_isSome (by omega)
  | readingGetKey | readingTouchKey | readingStat | readingDelHeader | readingIncrHeader | readFlushExptime =>
    simp [completeNreadBinary, hst]

/-- Without ramcube a storage command can be answered whatever it did. -/
theorem completeNreadAscii_isSome {it : Ptr} (hr : cfg.ramcube = none) (hi : c.item = some it)
    (hc : (nreadOfCmd c.cmd).isSome) : (completeNreadAscii cfg env c g).isSome := by
  obtain ⟨comm, hcomm⟩ := Option.isSome_iff_exists.mp hc
  have hreply : ∀ (c : Conn) (g : Globals) ret, ∃ r, storeReply cfg c g it ret = some r := by
    intro c g ret
    cases ret <;> simp [storeReply, hr]
  have hblock : ∃ r, storeBlock cfg env c g it = some r := by
    unfold storeBlock
    split
    · rw [hcomm]
      exact hreply ..
    · exact ⟨_, rfl⟩
  obtain ⟨r, hb⟩ := hblock
  simp [completeNreadAscii, hi, hb]

theorem Owes.complete_isSome (env : Env) (g : Globals) (h : Owes cfg c n) (hs : c.state = .nread)
    (hr : c.protocol = .binary ∨ cfg.ramcube = none) : (completeNreadConn cfg env c g).isSome := by
  unfold completeNreadConn
  obtain ⟨_, hval | hkey⟩ := (Owes.of_nread hs).mp h
  · obtain ⟨⟨⟨it, off, _, hit⟩, hnext⟩, _⟩ := hval
    by_cases hb : c.protocol = .binary
    · rw [if_pos hb] at hnext ⊢
      rcases hnext with ⟨hsub, hcmd⟩ | hsub
      · obtain ⟨comm, hcomm⟩ := Option.isSome_iff_exists.mp hcmd
        simp [completeNreadBinary, hsub, completeUpdateBin, hit, hcomm]
      · simp only [completeNreadBinary, hsub, processBinCompleteSaslAuth, hit, Option.bind_eq_bind, Option.bind_some]
        split <;> rfl
    · rw [if_neg hb] at hnext ⊢
      exact completeNreadAscii_isSome (hr.resolve_left hb) hit hnext
  · rw [if_pos hkey.binary]
    exact completeNreadBinary_isSome hkey

/-- A connection that knows what it owes does nothing the source leaves undefined. -/
theorem Owes.isSome (inp : Input) (h : Owes cfg s.c n) (hs : ¬AtCommand s)
    (hr : s.c.protocol = .binary ∨ cfg.ramcube = none) : (s.turn cfg env inp).isSome := by
  unfold Session.turn
  split
  · cases inp <;> rfl
  · cases hst : s.c.state with
    | newCmd =>
      cases inp with
      | go | eventFailed =>
        simp only [Session.newCmdTurn]
        split <;> rfl
      | event | data _ | wrote _ | again | error | noMemory => rfl
    | nread =>
      have h0 : ¬ s.c.rlbytes < 0 := Int.not_lt.mpr ((Owes.of_nread hst).mp h).1
      cases inp with
      | go =>
        simp only [Session.nreadTurn, if_neg h0]
        split
        · obtain ⟨r, hc⟩ := Option.isSome_iff_exists.mp (h.complete_isSome env s.g hst hr)
          simp [hc]
        · split <;> rfl
      | data bs =>
        simp only [Session.nreadTurn, if_neg h0]
        split_ifs <;> rfl
      | again | error | eventFailed =>
        simp only [Session.nreadTurn]
        split <;> rfl
      | event | wrote _ | noMemory => rfl
    | swallow =>
      have h0 : ¬ s.c.sbytes < 0 := by
        obtain ⟨hn, h0⟩ := (Owes.of_swallow hst).mp h
        omega
      cases inp with
      | go | data bs =>
        simp only [Session.swallowTurn, if_neg h0]
        split_ifs <;> rfl
      | again | error | eventFailed =>
        simp only [Session.swallowTurn]
        split <;> rfl
      | event | wrote _ | noMemory => rfl
    | write | mwrite =>
      cases inp with
      | go | wrote _ | again | error | eventFailed =>
        simp only [Session.writeTurn]
        split <;> rfl
      | event | data _ | noMemory => rfl
    | closing => cases inp <;> rfl
    | closed => rfl
    | waiting | read | parseCmd => simp [AtCommand, hst] at hs

end RamCube
