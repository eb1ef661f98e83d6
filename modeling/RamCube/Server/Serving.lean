import RamCube.Server.Stream

/-! # A connection until its next command

The turns of a connection and the steps of other threads make a run. Until the
connection looks for the next command a run pays what is owed (`Owes.run`), and there
always is one that gets that far (`Owes.reaches`). -/
namespace RamCube

variable {cfg : Config} {env : Env} {n : Int} {s s' : Session}

/-! ## Runs -/

/-- A turn, or steps of other threads, which change what is shared. -/
inductive ServerEvent where
  | turn (env : Env) (inp : Input)
  | others (g : Globals)

def Happens (cfg : Config) (s : Session) : ServerEvent → Session → Prop
  | .turn env inp, s' => s.turn cfg env inp = some s'
  | .others g, s' => s' = { s with g := g }

def Busy (s : Session) (_ : ServerEvent) : Prop := ¬AtCommand s

/-- A run until the next command is looked for. -/
def Serves (cfg : Config) : Session → List ServerEvent → Session → Prop :=
  Run (Guarded Busy (Happens cfg))

theorem Owes.happens {e : ServerEvent} (h : Owes cfg s.c n) (hs : ¬AtCommand s) (ht : Happens cfg s e s') :
    TurnPays cfg s s' n := by
  cases e with
  | turn env inp => exact h.turn hs ht
  | others g =>
    cases ht
    exact .of_same ⟨rfl, rfl⟩ rfl h

theorem Owes.run {es : List ServerEvent} (h : Owes cfg s.c n) (hr : Serves cfg s es s') :
    (s'.c.transport = s.c.transport ∧ s'.c.protocol = s.c.protocol) ∧
      ∃ n', Owes cfg s'.c n' ∧ (s.c.transport ≠ .udp → s'.position + n' = s.position + n) := by
  unfold Serves at hr
  induction hr generalizing n with
  | nil s => exact ⟨⟨rfl, rfl⟩, n, h, fun _ => rfl⟩
  | cons hs _ ih =>
    obtain ⟨hsame, n1, h1, hp1⟩ := h.happens hs.1 hs.2
    obtain ⟨hsame', n2, h2, hp2⟩ := ih h1
    exact ⟨⟨hsame'.1.trans hsame.1, hsame'.2.trans hsame.2⟩, n2, h2,
      fun hu => (hp2 (by rwa [hsame.1])).trans (hp1 hu)⟩

/-- When the next command is looked for, all is paid. -/
theorem Owes.paid {es : List ServerEvent} (h : Owes cfg s.c n) (hr : Serves cfg s es s') (hu : s.c.transport ≠ .udp)
    (hs : AtCommand s') : s'.position = s.position + n := by
  obtain ⟨_, n', h', hp⟩ := h.run hr
  have hidle : Idle s'.c.state := by
    simp only [AtCommand, List.mem_cons, List.not_mem_nil, or_false] at hs
    rcases hs with hs | hs | hs <;> simp [Idle, hs]
  have hn : n' = 0 := (Owes.idle hidle).mp h'
  have := hp hu
  omega

/-- All turns on the way are defined. -/
theorem Owes.run_isSome {es : List ServerEvent} (env : Env) (inp : Input) (h : Owes cfg s.c n) (hr : Serves cfg s es s')
    (hs : ¬AtCommand s') (hb : s.c.protocol = .binary ∨ cfg.ramcube = none) : (s'.turn cfg env inp).isSome := by
  obtain ⟨⟨_, hprot⟩, n', h', _⟩ := h.run hr
  exact h'.isSome inp hs (by rwa [hprot])

/-! ## The way to the next command -/

/-- Some run of the busy connection gets to a state with the property. -/
def Leads (cfg : Config) (P : Session → Prop) (s : Session) : Prop := ∃ es s', Serves cfg s es s' ∧ P s'

variable {P : Session → Prop}

theorem Leads.here (h : P s) : Leads cfg P s := ⟨[], s, .nil s, h⟩

theorem Leads.step {e : ServerEvent} (hs : ¬AtCommand s) (ht : Happens cfg s e s') (h : Leads cfg P s') :
    Leads cfg P s := by
  obtain ⟨es, t, hr, hp⟩ := h
  exact ⟨e :: es, t, .cons ⟨hs, ht⟩ hr, hp⟩

theorem Leads.turn {inp : Input} (hs : ¬AtCommand s) (ht : s.turn cfg env inp = some s') (h : Leads cfg P s') :
    Leads cfg P s := .step hs (e := .turn env inp) ht h

theorem not_atCommand_of_nread (hs : s.c.state = .nread) : ¬AtCommand s := by simp [AtCommand, hs]

/-- There is a run to where the next command is looked for. -/
def Reaches (cfg : Config) (s : Session) : Prop := Leads cfg AtCommand s

theorem Reaches.here (h : AtCommand s) : Reaches cfg s := Leads.here h

theorem Reaches.turn {inp : Input} (ht : s.turn cfg env inp = some s') (h : Reaches cfg s') : Reaches cfg s := by
  by_cases hs : AtCommand s
  · exact .here hs
  · exact Leads.turn hs ht h

/-- The machine runs, with a count of requests left. -/
def Session.awake (s : Session) (nreqs : Int) : Session := { s with stop := false, nreqs := nreqs }

theorem turn_event (hs : s.stop = true) : s.turn cfg env .event = some (s.awake cfg.reqsPerEvent) := by
  simp [Session.turn, hs, Session.awake]

/-- A machine that has returned is called again. -/
theorem Leads.awake (env : Env) (hs : ¬AtCommand s) (h : ∀ k, Leads cfg P (s.awake k)) : Leads cfg P s := by
  cases hst : s.stop with
  | true =>
    have hcall : s.turn cfg env .event = some (s.awake cfg.reqsPerEvent) := turn_event hst
    exact .turn hs hcall (h cfg.reqsPerEvent)
  | false =>
    have heq : s.awake s.nreqs = s := by simp [Session.awake, ← hst]
    rw [← heq]
    exact h s.nreqs

theorem Reaches.awake (env : Env) (h : ∀ k, Reaches cfg (s.awake k)) : Reaches cfg s := by
  by_cases hs : AtCommand s
  · exact .here hs
  · exact Leads.awake env hs h

/-- What is left of an answer is sent. -/
theorem leads_sent (env : Env) (hs : s.c.state = .write ∨ s.c.state = .mwrite)
    (h : ∀ s' : Session, s'.c.state = s.c.next → s'.c.sbytes = s.c.sbytes → s'.stop = false → Leads cfg P s') :
    Leads cfg P s := by
  have hbusy : ∀ s : Session, s.c.state = .write ∨ s.c.state = .mwrite → ¬AtCommand s := by
    intro s hs
    rcases hs with hs | hs <;> simp [AtCommand, hs]
  have hsent : ∀ k, (s.awake k).turn cfg env (.wrote s.c.out.length) = some
      { s.awake k with c := { s.c with out := [] }, sent := s.sent ++ s.c.out } := by
    intro k
    rcases hs with hs | hs <;> simp [Session.turn, Session.awake, hs, Session.writeTurn]
  have hdone : ∀ s : Session, s.c.state = .write ∨ s.c.state = .mwrite → s.c.out = [] → s.stop = false →
      s.turn cfg env .go = some (s.transmitComplete cfg) := by
    intro s hs ho hst
    rcases hs with hs | hs <;> simp [Session.turn, hst, hs, Session.writeTurn, ho]
  refine .awake env (hbusy s hs) fun k =>
    .turn (hbusy (s.awake k) hs) (hsent k) (.turn (hbusy _ hs) (hdone _ hs rfl rfl) ?_)
  refine h _ ?_ ?_ ?_
  all_goals
    unfold Session.transmitComplete
    rcases hs with hs | hs
  · simp [Session.setState, Conn.next, Session.awake, hs]
  · by_cases hb : s.c.protocol = .binary <;> simp [Conn.next, Session.awake, hs, hb, Conn.dropIlist]
  · simp [Session.setState, Session.awake, hs]
  · simp [Session.awake, hs, Conn.dropIlist]
  · simp [Session.setState, Session.awake, hs]
  · simp [Session.awake, hs]

/-- What is done when all bytes of a block are there is the next turn. -/
theorem complete_turn {c' : Conn} {g' : Globals} (hs : s.c.state = .nread) (hz : s.c.rlbytes = 0)
    (ha : s.stop = false) (hc : completeNreadConn cfg env s.c s.g = some (c', g')) :
    s.turn cfg env .go =
      some { s with c := c', g := g', executed := s.executed ++ [.block (receivedBlock s.c s.g)] } := by
  simp [Session.turn, ha, hs, Session.nreadTurn, hz, hc]

/-- Whatever is read next arrives, and keeps what the bytes of a block keep. -/
theorem leads_receive {K : Conn → Prop} (env : Env) (hs : s.c.state = .nread) (h0 : 0 ≤ s.c.rlbytes) (hk : K s.c)
    (hK : ∀ c g bs rest, K c → K { (receive c g bs).1 with rbuf := rest })
    (hdone : ∀ s' : Session, s'.c.state = .nread → s'.c.rlbytes = 0 → K s'.c → s'.stop = false →
      s'.position = s.position + s.c.rlbytes → Leads cfg P s') : Leads cfg P s := by
  have hrecv : ∀ (c : Conn) (g : Globals) bs, (receive c g bs).1.state = c.state ∧
      (receive c g bs).1.rlbytes = c.rlbytes - bs.length ∧ (receive c g bs).1.rbuf = c.rbuf := by
    intro c g bs
    cases hri : c.ritem <;> simp [receive, hri]
  have hempty : ∀ (t : Session) k, t.c.state = .nread → 0 ≤ t.c.rlbytes → t.c.rbuf = [] → K t.c →
      t.position + t.c.rlbytes = s.position + s.c.rlbytes → Leads cfg P (t.awake k) := by
    intro t k hs h0 hr hk hpos
    by_cases hz : t.c.rlbytes = 0
    · refine hdone _ hs hz hk rfl ?_
      rw [hz, Int.add_zero] at hpos
      exact hpos
    · let bs : Bytes := List.replicate t.c.rlbytes.toNat 0
      have hlen : (bs.length : Int) = t.c.rlbytes := by
        rw [List.length_replicate]
        omega
      have hne : bs ≠ [] := by
        intro h
        rw [h] at hlen
        exact hz hlen.symm
      obtain ⟨h1, h2, h3⟩ := hrecv t.c t.g bs
      have hturn : (t.awake k).turn cfg env (.data bs) = some { t.awake k with
          c := (receive t.c t.g bs).1, g := (receive t.c t.g bs).2, input := t.input ++ bs } := by
        simp [Session.turn, Session.awake, hs, Session.nreadTurn, hz, hr, hne, Int.not_lt.mpr h0, hlen]
      refine .turn (not_atCommand_of_nread hs) hturn
        (hdone _ (h1.trans hs) (by rw [h2, hlen, Int.sub_self]) ?_ rfl ?_)
      · exact hK t.c t.g bs (receive t.c t.g bs).1.rbuf hk
      · rw [← hpos, ← hlen]
        simp only [Session.position, h3, List.length_append]
        omega
  refine .awake env (not_atCommand_of_nread hs) fun k => ?_
  by_cases hr : s.c.rbuf = []
  · exact hempty s k hs h0 hr hk rfl
  by_cases hz : s.c.rlbytes = 0
  · refine hdone _ hs hz hk rfl ?_
    rw [hz, Int.add_zero]
    rfl
  · let bs : Bytes := s.c.rbuf.take s.c.rlbytes.toNat
    obtain ⟨h1, h2, h3⟩ := hrecv s.c s.g bs
    have hlen : bs.length = min s.c.rlbytes.toNat s.c.rbuf.length := List.length_take
    have hturn : (s.awake k).turn cfg env .go = some { s.awake k with
        c := { (receive s.c s.g bs).1 with rbuf := s.c.rbuf.drop s.c.rlbytes.toNat }
        g := (receive s.c s.g bs).2 } := by
      simp [Session.turn, Session.awake, hs, Session.nreadTurn, hz, hr, Int.not_lt.mpr h0, bs]
    refine .turn (not_atCommand_of_nread hs) hturn ?_
    have hk1 := hK s.c s.g bs (s.c.rbuf.drop s.c.rlbytes.toNat) hk
    by_cases hle : s.c.rbuf.length ≤ s.c.rlbytes.toNat
    · refine hempty { s with c := _, g := _ } k (h1.trans hs) ?_ (List.drop_eq_nil_of_le hle) hk1 ?_
      · simp only [h2]
        omega
      · simp only [Session.position, h2, List.length_drop]
        omega
    · refine hdone _ (h1.trans hs) ?_ hk1 rfl ?_
      · simp only [h2]
        omega
      · simp only [Session.position, Session.awake, List.length_drop]
        omega

section

variable (env) (hreq : 0 < cfg.reqsPerEvent)
include env hreq

theorem reaches_newCmd (hs : s.c.state = .newCmd) : Reaches cfg s := by
  have hgo : ∀ k, 0 < k → Reaches cfg (s.awake k) := by
    intro k hk
    have hk' : 1 ≤ k := hk
    have hturn : (s.awake k).turn cfg env .go = some { s.awake (k - 1) with
        c := (resetCmdHandler cfg.toSettings s.c s.g).1
        g := (resetCmdHandler cfg.toSettings s.c s.g).2 } := by
      simp [Session.turn, Session.awake, hs, Session.newCmdTurn, hk']
    refine .turn hturn (.here ?_)
    by_cases hl : 0 < s.c.rbuf.length <;> cases hi : s.c.item <;>
      simp [AtCommand, resetCmdHandler, Conn.dropItem, hl, hi]
  refine .awake env fun k => ?_
  by_cases hk : 0 < k
  · exact hgo k hk
  · -- the turn yields, and the next call starts with a full count
    have hk' : k < 1 := by omega
    have hyield : (s.awake k).turn cfg env .go = some { s with stop := true, nreqs := k - 1 } := by
      simp [Session.turn, Session.awake, hs, Session.newCmdTurn, Int.not_le.mpr hk']
    have hcall : { s with stop := true, nreqs := k - 1 }.turn cfg env .event = some (s.awake cfg.reqsPerEvent) :=
      turn_event rfl
    exact .turn hyield (.turn hcall (hgo cfg.reqsPerEvent hreq))

theorem reaches_swallow (hs : s.c.state = .swallow) (h0 : 0 ≤ s.c.sbytes) : Reaches cfg s := by
  have hzero : ∀ (s : Session) k, s.c.state = .swallow → s.c.sbytes = 0 → Reaches cfg (s.awake k) := by
    intro s k hs hz
    have hturn : (s.awake k).turn cfg env .go = some ((s.awake k).setState .newCmd) := by
      simp [Session.turn, Session.awake, hs, Session.swallowTurn, hz]
    exact .turn hturn (reaches_newCmd env hreq rfl)
  have hempty : ∀ (s : Session) k, s.c.state = .swallow → 0 ≤ s.c.sbytes → s.c.rbuf = [] →
      Reaches cfg (s.awake k) := by
    intro s k hs h0 hr
    by_cases hz : s.c.sbytes = 0
    · exact hzero s k hs hz
    · let bs : Bytes := List.replicate s.c.sbytes.toNat 0
      have hlen : (bs.length : Int) = s.c.sbytes := by
        rw [List.length_replicate]
        omega
      have hne : bs ≠ [] := by
        intro h
        rw [h] at hlen
        exact hz hlen.symm
      have hturn : (s.awake k).turn cfg env (.data bs) = some
          { s.awake k with c := { s.c with sbytes := s.c.sbytes - bs.length }, input := s.input ++ bs } := by
        simp [Session.turn, Session.awake, hs, Session.swallowTurn, hz, hr, hne, Int.not_lt.mpr h0, hlen]
      exact .turn hturn (hzero { s with c := _, input := s.input ++ bs } k hs (by simp [hlen]))
  refine .awake env fun k => ?_
  by_cases hr : s.c.rbuf = []
  · exact hempty s k hs h0 hr
  by_cases hz : s.c.sbytes = 0
  · exact hzero s k hs hz
  · -- what is in the buffer first
    let taken := (s.c.rbuf.take s.c.sbytes.toNat).length
    have hturn : (s.awake k).turn cfg env .go = some { s.awake k with
        c := { s.c with sbytes := s.c.sbytes - taken, rbuf := s.c.rbuf.drop s.c.sbytes.toNat } } := by
      simp [Session.turn, Session.awake, hs, Session.swallowTurn, hz, hr, Int.not_lt.mpr h0, taken]
    have htaken : taken = min s.c.sbytes.toNat s.c.rbuf.length := List.length_take
    refine .turn hturn ?_
    by_cases hle : s.c.rbuf.length ≤ s.c.sbytes.toNat
    · refine hempty { s with c := _ } k hs ?_ (List.drop_eq_nil_of_le hle)
      simp only
      omega
    · refine hzero { s with c := _ } k hs ?_
      simp only
      omega

/-- From an answer on. -/
theorem reaches_write (hs : s.c.state = .write ∨ s.c.state = .mwrite) (h : Owes cfg s.c n) (hk : StaysOpen s.c) :
    Reaches cfg s := by
  have hto := (Owes.of_write hs).mp h
  have hnext : s.c.next ≠ .closing ∧ s.c.next ≠ .closed := by
    rcases hs with hs | hs <;> simpa only [StaysOpen, hs] using hk
  refine leads_sent env hs fun s' hstate hsb _ => ?_
  generalize s.c.next = state at hto hnext hstate
  cases state with
  | nread | write | mwrite => exact hto.elim
  | closing => exact absurd rfl hnext.1
  | closed => exact absurd rfl hnext.2
  | newCmd => exact reaches_newCmd env hreq hstate
  | swallow =>
    refine reaches_swallow env hreq hstate ?_
    rw [hsb, hto.1]
    exact hto.2
  | waiting | read | parseCmd => exact Reaches.here (by simp [AtCommand, hstate])

theorem reaches_settled (hs : Settled s.c) : Reaches cfg s := by
  rcases hs with h | ⟨h, hg⟩
  · exact reaches_newCmd env hreq h
  · exact reaches_write env hreq h (Settled.owes (.inr ⟨h, hg⟩)) (Settled.staysOpen (.inr ⟨h, hg⟩))

theorem reaches_value (hs : s.c.state = .nread) (h0 : 0 ≤ s.c.rlbytes) (hv : ValueOwed s.c)
    (hr : s.c.protocol = .binary ∨ cfg.ramcube = none) : Reaches cfg s := by
  refine leads_receive (K := fun c => ValueOwed c ∧ (c.protocol = .binary ∨ cfg.ramcube = none)) env hs h0
    ⟨hv, hr⟩ ?_ ?_
  · intro c g bs rest ⟨hv, hr⟩
    refine ⟨receive_value bs rest hv, ?_⟩
    rw [(receive_same bs).1.2]
    exact hr
  · intro s' hs hz ⟨hv, hr⟩ ha _
    have howes : Owes cfg s'.c 0 := (Owes.of_nread hs).mpr ⟨by omega, .inl ⟨hv, hz⟩⟩
    obtain ⟨⟨c', g'⟩, hc⟩ := Option.isSome_iff_exists.mp (howes.complete_isSome env s'.g hs hr)
    exact Reaches.turn (complete_turn hs hz ha hc) (reaches_settled env hreq (hv.complete hc).settled)

/-- From everywhere but the key of a request. -/
theorem reaches_of_value (h : Owes cfg s.c n) (hk : StaysOpen s.c) (hr : s.c.protocol = .binary ∨ cfg.ramcube = none)
    (hv : s.c.state = .nread → ValueOwed s.c) : Reaches cfg s := by
  cases hs : s.c.state with
  | newCmd => exact reaches_newCmd env hreq hs
  | waiting | read | parseCmd => exact .here (by simp [AtCommand, hs])
  | write => exact reaches_write env hreq (.inl hs) h hk
  | mwrite => exact reaches_write env hreq (.inr hs) h hk
  | closing | closed => simp [StaysOpen, hs] at hk
  | swallow =>
    obtain ⟨hn, h0⟩ := (Owes.of_swallow hs).mp h
    exact reaches_swallow env hreq hs (by omega)
  | nread => exact reaches_value env hreq hs ((Owes.of_nread hs).mp h).1 (hv hs) hr

/-- A connection that knows what it owes can always be brought to its next command, if
it is not to be closed. -/
theorem Owes.reaches (h : Owes cfg s.c n) (hk : StaysOpen s.c) (hr : s.c.protocol = .binary ∨ cfg.ramcube = none) :
    Reaches cfg s := by
  by_cases hs : s.c.state = .nread
  · obtain ⟨h0, hv | hkey⟩ := (Owes.of_nread hs).mp h
    · exact reaches_value env hreq hs h0 hv.1 hr
    · refine leads_receive (K := fun c => KeyOwed cfg c (n - s.c.rlbytes)) env hs h0 hkey
        (fun c g bs rest => receive_key bs rest) ?_
      intro s' hs hz hkey ha _
      obtain ⟨⟨c', g'⟩, hc⟩ :=
        Option.isSome_iff_exists.mp (completeNreadBinary_isSome (g := s'.g) hkey)
      have hp := completeNreadBinary_key hkey hc
      have hturn := complete_turn hs hz ha (show completeNreadConn cfg env s'.c s'.g = some (c', g') by
        unfold completeNreadConn
        rw [if_pos hkey.binary, hc])
      exact Reaches.turn hturn (reaches_of_value env hreq hp.owes hp.staysOpen (.inl (hp.protocol.trans hkey.binary)) hp.value)
  · exact reaches_of_value env hreq h hk hr fun h => absurd h hs

end

/-! ## The count of requests in an event -/

/-- A TCP connection that has not got past `conn_new_cmd`. -/
structure Stuck (s : Session) : Prop where
  transport : s.c.transport ≠ .udp
  state : s.c.state ∈ [.newCmd, .closing, .closed]
  left : s.stop = false → s.nreqs ≤ 0

theorem Stuck.turn {inp : Input} (hc : cfg.reqsPerEvent ≤ 0) (h : Stuck s) (ht : s.turn cfg env inp = some s') :
    Stuck s' := by
  obtain ⟨hu, hstate, hleft⟩ := h
  unfold Session.turn at ht
  cases hst : s.stop with
  | true =>
    rw [hst, if_pos rfl] at ht
    cases inp with
    | event =>
      cases ht
      exact ⟨hu, hstate, fun _ => hc⟩
    | go | data _ | wrote _ | again | error | noMemory | eventFailed =>
      cases ht
      exact ⟨hu, hstate, hleft⟩
  | false =>
    rw [hst, if_neg (by decide)] at ht
    have hleft := hleft hst
    simp only [List.mem_cons, List.not_mem_nil, or_false] at hstate
    rcases hstate with hs | hs | hs
    · rw [hs] at ht
      cases inp with
      | go =>
        have hneg : ¬0 ≤ s.nreqs - 1 := by omega
        simp only [Session.newCmdTurn, if_neg hneg] at ht
        cases ht
        exact ⟨hu, by simp [hs], by simp⟩
      | eventFailed =>
        simp only [Session.newCmdTurn] at ht
        split at ht <;> cases ht
        · exact ⟨hu, by simp [Session.setState], by simp⟩
        · exact ⟨hu, by simp [hs], fun _ => hleft⟩
      | event | data _ | wrote _ | again | error | noMemory =>
        cases ht
        exact ⟨hu, by simp [hs], fun _ => hleft⟩
    · rw [hs] at ht
      cases inp with
      | go =>
        simp only [Session.closingTurn, if_neg hu] at ht
        cases ht
        exact ⟨(connCleanup_same cfg.toSettings s.c s.g).1.1 ▸ hu, by simp [connClose], by simp⟩
      | event | data _ | wrote _ | again | error | noMemory | eventFailed =>
        cases ht
        exact ⟨hu, by simp [hs], fun _ => hleft⟩
    · rw [hs] at ht
      cases ht
      exact ⟨hu, by simp [hs], fun _ => hleft⟩

/-- A TCP connection that parses commands has a positive count for each event. -/
theorem count_of_parseCmd {c : Conn} {g : Globals} {es : List ServerEvent} (hc : c.state = .newCmd)
    (hu : c.transport ≠ .udp) (hr : Run (Happens cfg) (connSession c g) es s) (hs : s.c.state = .parseCmd) :
    0 < cfg.reqsPerEvent := by
  by_contra hcount
  have hstuck : Stuck s := by
    refine hr.invariant (fun s e s' h ht => ?_) ⟨hu, by simp [connSession, hc], nofun⟩
    cases e with
    | turn env inp => exact h.turn (Int.not_lt.mp hcount) ht
    | others g =>
      cases ht
      exact ⟨h.transport, h.state, h.left⟩
  have hstate := hstuck.state
  rw [hs] at hstate
  exact absurd hstate (by decide)

end RamCube
