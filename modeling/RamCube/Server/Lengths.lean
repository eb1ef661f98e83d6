import RamCube.Server.Requests

/-! # The lengths a binary request is handled with

The lengths are computed in an `int` from unsigned fields, and each opcode is checked its
own way. `HandledExactly` says that they are what the fields say, as whole numbers, on
the way of the request to its end. -/
namespace RamCube

variable {cfg : Config} {env : Env} {c : Conn} {s s' : Session} {h : BinaryHeader}

/-! ## What the lengths should be -/

/-- The bytes of the body that are read to an item, or swallowed. -/
def rest (h : BinaryHeader) : Int :=
  if effective h ∈ valueCmds then h.bodylen.toNat - h.keylen.toNat - h.extlen.toNat else h.bodylen.toNat

/-- The `int vlen`, or the `swallow` of an unknown command. -/
def vlen (h : BinaryHeader) : Int :=
  if effective h ∈ updateCmds then updateVlen h
  else if effective h ∈ valueCmds then keyedVlen h
  else asInt h.bodylen.toNat

/-- The numbers in the code are the differences of the fields. -/
structure LengthsExact (h : BinaryHeader) : Prop where
  nonneg : 0 ≤ rest h
  value : vlen h = rest h
  nbytes : effective h ∈ updateCmds ++ appendCmds → asInt (vlen h + 2) = rest h + 2

/-- The counts of a connection on its way through the request. -/
def CountsExact (h : BinaryHeader) (c : Conn) : Prop :=
  match c.state with
  | .nread => 0 ≤ c.rlbytes ∧ match c.ritem with
    | .packet got => (got.length : Int) + c.rlbytes = h.keylen.toNat + h.extlen.toNat
    | .item _ off => (off : Int) + c.rlbytes = rest h
  | .swallow => 0 ≤ c.sbytes ∧ c.sbytes ≤ rest h
  | .write | .mwrite => c.writeAndGo = .swallow → c.sbytes = rest h
  | _ => True

/-- An item that the turn begins to read to has room for the value, and for a line end
if it is to be stored. -/
def ItemFits (h : BinaryHeader) (s s' : Session) : Prop :=
  ∀ got it off, s.c.ritem = .packet got → s'.c.state = .nread → s'.c.ritem = .item it off → off = 0 ∧
    ((s'.g.store.mem it).nbytes : Int) = rest h + if effective h ∈ saslCmds then 0 else 2

/-- On every run from the request to the next command the counts are exact, the turns are
defined and the items have the right size. -/
structure HandledExactly (cfg : Config) (s : Session) (h : BinaryHeader) : Prop where
  lengths : effective h ∉ touchCmds → effective h ∉ keyCmds → LengthsExact h
  run : ∀ env s₁, s.turn cfg env .go = some s₁ → ∀ es s', Serves cfg s₁ es s' → CountsExact h s'.c ∧
    (¬AtCommand s' → ∀ env inp, ∃ s'', s'.turn cfg env inp = some s'' ∧ ItemFits h s' s'')

/-! ## Along a request -/

/-- What the rest of a request relies on. -/
structure InRequest (cfg : Config) (h : BinaryHeader) (c : Conn) : Prop where
  owes : ∃ n, Owes cfg c n
  counts : CountsExact h c
  key : c.state = .nread → (∃ got, c.ritem = .packet got) → NoValue c.substate ∨
    effective h ∈ valueCmds ∧ valueLength c = rest h ∧
      (c.substate = .readingSaslAuth ↔ effective h ∈ saslCmds)

theorem CountsExact.of_idle (hs : c.state ∉ [.nread, .swallow, .write, .mwrite]) : CountsExact h c := by
  unfold CountsExact
  cases hst : c.state <;> first | trivial | exact absurd hs (by simp [hst])

theorem CountsExact.of_settled (hs : Settled c) : CountsExact h c := by
  unfold CountsExact
  rcases hs with hs | ⟨hs | hs, hg⟩ <;> rw [hs]
  · trivial
  · exact fun hw => absurd (hg.symm.trans hw) nofun
  · exact fun hw => absurd (hg.symm.trans hw) nofun

/-- A value that follows the key, of the length it should have. -/
theorem ValueNext.counts {c' : Conn} {g' : Globals} {m : Int} {next : BinSubstate} {known : Prop}
    (hv : ValueNext cfg c m next known c' g') (hm : m = rest h) (h0 : 0 ≤ m)
    (hs : (next = .readingSaslAuthData → cfg.sasl = true) → m = 0 → c.sbytes = 0) : CountsExact h c' := by
  cases hv with
  | read cmd it g _ _ => exact ⟨h0, by simp [readValue, hm]⟩
  | swallow err g hsasl =>
    have hst : (binErrorSwallow c err m).state = .mwrite := writeBinError_state c err m
    unfold CountsExact
    rw [hst]
    intro _
    by_cases hz : m = 0
    · have hsb : (binErrorSwallow c err m).sbytes = c.sbytes := (writeBinError_zero c err (Int.le_of_eq hz)).2
      rw [hsb, hs hsasl hz, ← hm, hz]
    · exact (writeBinError_swallow c err (by omega)).2.trans hm
  | unknown g =>
    have hst : (writeBinError c .UNKNOWN_COMMAND m).state = .mwrite := writeBinError_state ..
    unfold CountsExact
    rw [hst]
    intro hw
    by_cases hz : m = 0
    · have hg := (writeBinError_zero c .UNKNOWN_COMMAND (Int.le_of_eq hz)).1
      exact absurd (hg.symm.trans hw) nofun
    · exact (writeBinError_swallow c .UNKNOWN_COMMAND (by omega)).2.trans hm

theorem ItemFits.of_ritem (hr : s'.c.ritem = s.c.ritem) : ItemFits h s s' := by
  intro got it off h1 _ h2
  rw [hr, h1] at h2
  cases h2

theorem ItemFits.of_state (hs : s'.c.state ≠ .nread) : ItemFits h s s' :=
  fun _ _ _ _ h1 _ => absurd h1 hs

theorem InRequest.of_idle {n : Int} (ho : Owes cfg c n) (hs : c.state ∉ [.nread, .swallow, .write, .mwrite]) :
    InRequest cfg h c :=
  ⟨⟨n, ho⟩, .of_idle hs, fun hn => absurd hs (by simp [hn])⟩

theorem settled_ne_nread (hs : Settled c) : c.state ≠ .nread := by
  rcases hs with hs | ⟨hs | hs, _⟩ <;> rw [hs] <;> exact nofun

/-- Bytes of a block arrive. -/
theorem InRequest.received {g : Globals} {bs : Bytes} (rest : Bytes) (hi : InRequest cfg h c) (hs : c.state = .nread)
    (hl : bs.length ≤ c.rlbytes) : InRequest cfg h { (receive c g bs).1 with rbuf := rest } := by
  obtain ⟨⟨n, ho⟩, hcounts, hkey⟩ := hi
  have ho' := receive_owes (g := g) rest ho hs hl
  have h0 : 0 ≤ c.rlbytes - bs.length := by omega
  unfold CountsExact at hcounts
  rw [hs] at hcounts
  cases hri : c.ritem with
  | packet got =>
    have hkey' := hkey hs ⟨got, hri⟩
    simp only [hri] at hcounts
    simp only [receive, hri] at ho' ⊢
    refine ⟨⟨_, ho'⟩, ?_, fun _ _ => hkey'⟩
    simp only [CountsExact, hs, List.length_append, Nat.cast_add]
    exact ⟨h0, by omega⟩
  | item it off =>
    simp only [hri] at hcounts
    simp only [receive, hri] at ho' ⊢
    refine ⟨⟨_, ho'⟩, ?_, by rintro _ ⟨_, hg⟩; cases hg⟩
    simp only [CountsExact, hs, Nat.cast_add]
    exact ⟨h0, by omega⟩

/-- The bytes of a block are complete. -/
theorem InRequest.completed {c' : Conn} {g' : Globals} (hi : InRequest cfg h s.c) (hs : s.c.state = .nread)
    (hz : s.c.rlbytes = 0) (hc : completeNreadConn cfg env s.c s.g = some (c', g')) : InRequest cfg h c' ∧
      (s'.c = c' → s'.g = g' → ItemFits h s s') := by
  obtain ⟨⟨n, ho⟩, _, hkey⟩ := hi
  have hpays := ho.complete hs hz hc
  have hdone : Settled c' → InRequest cfg h c' ∧ (s'.c = c' → s'.g = g' → ItemFits h s s') := by
    intro hset
    refine ⟨⟨⟨n, hpays.owes⟩, .of_settled hset, fun hn => absurd hn (settled_ne_nread hset)⟩, fun hc _ => ?_⟩
    exact .of_state (by rw [hc]; exact settled_ne_nread hset)
  obtain ⟨_, hval | hk⟩ := (Owes.of_nread hs).mp ho
  · exact hdone (hval.1.complete hc).settled
  rw [hz, Int.sub_zero] at hk
  unfold completeNreadConn at hc
  rw [if_pos hk.binary] at hc
  rcases hk.next hc with ⟨_, hf⟩ | ⟨next, known, _, hn, hv, hsb, hroom⟩
  · exact hdone hf.settled
  -- a value follows
  have hnot : ¬NoValue s.c.substate := by
    generalize s.c.substate = sub at hn
    cases hn <;> decide
  obtain ⟨hvalue, hlen, hiff⟩ := (hkey hs hk.packet).resolve_left hnot
  have hm : n = rest h := hk.length.trans hlen
  have hcounts := hv.counts hm hk.nonneg hsb
  cases hv with
  | read cmd it g _ hsize =>
    refine ⟨⟨⟨n, hpays.owes⟩, hcounts, fun _ ⟨_, hg⟩ => by cases hg⟩, ?_⟩
    intro hc' hg' got it' off _ _ hri
    rw [hc'] at hri
    cases hri
    rw [hg', hsize]
    refine ⟨rfl, ?_⟩
    cases hsub : s.c.substate <;> rw [hsub] at hn hiff <;> cases hn
    · have hno : effective h ∉ saslCmds := fun hc => by cases hiff.mpr hc
      rw [if_pos rfl, if_neg hno, ← hm]
      exact asInt_of_bounds (by have := hk.nonneg; omega) (hroom rfl)
    · rw [if_neg nofun, if_pos (hiff.mp rfl), ← hm, Int.add_zero]
  | swallow err g _ =>
    have hne : (binErrorSwallow s.c err n).state ≠ .nread := by
      rw [show (binErrorSwallow s.c err n).state = .mwrite from writeBinError_state s.c err n]
      exact nofun
    exact ⟨⟨⟨n, hpays.owes⟩, hcounts, fun hst => absurd hst hne⟩, fun hc' _ => .of_state (by rwa [hc'])⟩
  | unknown g =>
    have hne : (writeBinError s.c .UNKNOWN_COMMAND n).state ≠ .nread := by
      rw [writeBinError_state]
      exact nofun
    exact ⟨⟨⟨n, hpays.owes⟩, hcounts, fun hst => absurd hst hne⟩, fun hc' _ => .of_state (by rwa [hc'])⟩

/-- Turns keep what the request relies on. -/
theorem InRequest.turn (hi : InRequest cfg h s.c) (ht : BusyTurn cfg env s s') :
    InRequest cfg h s'.c ∧ ItemFits h s s' := by
  obtain ⟨n, ho⟩ := hi.owes
  obtain ⟨_, n', ho', _⟩ := ht.pays ho
  cases ht with
  | same out sent stop nreqs erange =>
    refine ⟨⟨⟨n', ho'⟩, ?_, hi.key⟩, .of_ritem rfl⟩
    exact hi.counts
  | reset nreqs hs =>
    obtain ⟨_, _, _, hst⟩ := resetCmdHandler_same cfg.toSettings s.c s.g
    have hidle : (resetCmdHandler cfg.toSettings s.c s.g).1.state ∉ [.nread, .swallow, .write, .mwrite] := by
      rcases hst with hst | hst <;> simp [hst]
    exact ⟨.of_idle ho' hidle, .of_state (by rcases hst with hst | hst <;> simp [hst])⟩
  | closing stop erange => exact ⟨.of_idle ho' (by simp), .of_state (by simp)⟩
  | dropped erange hu => exact ⟨.of_idle ho' (by simp), .of_state (by simp)⟩
  | closed hs =>
    by_cases hu : s.c.transport = .udp
    · have hst := (connCleanup_same cfg.toSettings s.c s.g).2 hu
      simp only [if_pos hu] at ho' ⊢
      exact ⟨.of_idle ho' (by simp [hst]), .of_state (by simp [hst])⟩
    · simp only [if_neg hu] at ho' ⊢
      exact ⟨.of_idle ho' (by simp [connClose]), .of_state (by simp [connClose])⟩
  | received bs rest input hs hl ht =>
    refine ⟨hi.received rest hs hl, ?_⟩
    intro got it off h1 _ h2
    simp only [receive, h1] at h2
    cases h2
  | completed c' g' hs hz hc =>
    obtain ⟨h1, h2⟩ := hi.completed hs hz hc
    exact ⟨h1, h2 rfl rfl⟩
  | swallowed bs rest input hs hl ht =>
    have hcounts := hi.counts
    unfold CountsExact at hcounts
    rw [hs] at hcounts
    refine ⟨⟨⟨n', ho'⟩, ?_, fun hn => absurd (hs.symm.trans hn) (by simp)⟩, .of_ritem rfl⟩
    simp only [CountsExact, hs]
    omega
  | swallowDone hs hz => exact ⟨.of_idle ho' (by simp [Session.setState]), .of_state (by simp [Session.setState])⟩
  | sent hs hout =>
    obtain ⟨hst, hsb, _⟩ := @transmitComplete_same cfg s hs
    have hto := (Owes.of_write hs).mp ho
    have hcounts : s.c.writeAndGo = .swallow → s.c.sbytes = rest h := by
      have hc := hi.counts
      unfold CountsExact at hc
      rcases hs with hs | hs <;> rwa [hs] at hc
    have hgo : s.c.next = .swallow → s.c.writeAndGo = .swallow := by
      unfold Conn.next
      split
      · simp
      · exact id
    generalize s.c.next = state at hto hst hgo
    cases state with
    | nread | write | mwrite => exact hto.elim
    | swallow =>
      refine ⟨⟨⟨n', ho'⟩, ?_, fun hn => absurd (hst.symm.trans hn) (by simp)⟩, .of_state (by simp [hst])⟩
      simp only [CountsExact, hst, hsb, hcounts (hgo rfl)]
      have h0 := hto.2
      rw [← hto.1, hcounts (hgo rfl)] at h0
      exact ⟨h0, Int.le_refl _⟩
    | newCmd | waiting | read | parseCmd | closing | closed =>
      exact ⟨.of_idle ho' (by simp [hst]), .of_state (by simp [hst])⟩

theorem InRequest.serves {es : List ServerEvent} (hi : InRequest cfg h s.c) (hr : Serves cfg s es s') :
    InRequest cfg h s'.c := by
  refine hr.invariant (I := fun s => InRequest cfg h s.c) (fun s e t hi hs => ?_) hi
  obtain ⟨hbusy, hstep⟩ := hs
  cases e with
  | turn env inp => exact (hi.turn (turn_busy hbusy hstep)).1
  | others g =>
    cases hstep
    exact hi

/-! ## Accepted requests -/

/-- `dispatch_bin_command` does not turn the request down. -/
structure Accepted (cfg : Config) (s : Session) (h : BinaryHeader) : Prop where
  auth : ¬(cfg.sasl = true ∧ authenticated cfg (startRequest (negotiate s.c) h) = false)
  keylen : h.keylen.toNat ≤ KEY_MAX_LENGTH
  opcode : ∃ noreply, (dispatchBinOpcode cfg
    { startRequest (negotiate s.c) h with noreply := noreply, cmd := effective h }).isSome

theorem Accepted.update (ha : Accepted cfg s h) (hc : effective h ∈ updateCmds) :
    h.extlen.toNat = 8 ∧ h.keylen.toNat ≠ 0 ∧ h.keylen.toNat + 8 ≤ h.bodylen.toNat := by
  obtain ⟨noreply, ho⟩ := ha.opcode
  by_contra hno
  erw [dispatchBinOpcode_update hc, if_neg hno] at ho
  cases ho

theorem Accepted.append (ha : Accepted cfg s h) (hc : effective h ∈ appendCmds) :
    0 < h.keylen.toNat ∧ h.extlen.toNat = 0 := by
  obtain ⟨noreply, ho⟩ := ha.opcode
  by_contra hno
  erw [dispatchBinOpcode_append hc, if_neg hno] at ho
  cases ho

theorem Accepted.sasl (ha : Accepted cfg s h) (hc : effective h ∈ saslCmds) :
    h.extlen.toNat = 0 ∧ h.keylen.toNat ≠ 0 := by
  obtain ⟨noreply, ho⟩ := ha.opcode
  by_contra hno
  erw [dispatchBinOpcode_sasl hc, if_neg hno] at ho
  cases ho

theorem mem_valueCmds {cmd : Int} : cmd ∈ valueCmds ↔ cmd ∈ updateCmds ∨ cmd ∈ appendCmds ∨ cmd ∈ saslCmds := by
  simp only [valueCmds, List.mem_append, or_assoc]

theorem valueCmds_disjoint {cmd : Int} (hc : cmd ∈ valueCmds) : cmd ∉ touchCmds ∧ cmd ∉ keyCmds := by
  have hall : ∀ x ∈ valueCmds, x ∉ touchCmds ∧ x ∉ keyCmds := by decide
  exact hall cmd hc

/-- The lengths are exact just when they fit. -/
theorem lengthsExact_iff (ha : Accepted cfg s h) :
    (effective h ∉ touchCmds → effective h ∉ keyCmds → LengthsExact h) ↔ LengthsFit (effective h) h := by
  by_cases hval : effective h ∈ valueCmds
  · obtain ⟨ht, hk⟩ := valueCmds_disjoint hval
    have hrest : rest h = h.bodylen.toNat - h.keylen.toNat - h.extlen.toNat := if_pos hval
    have hbound := asInt_bounds (vlen h + 2)
    rcases mem_valueCmds.mp hval with hc | hc | hc
    · obtain ⟨he, _, hl⟩ := ha.update hc
      have hv : vlen h = asInt (h.bodylen.toNat - (h.keylen.toNat + h.extlen.toNat)) := if_pos hc
      rw [LengthsFit, if_pos hc]
      constructor
      · intro hx
        have hn := (hx ht hk).nbytes (List.mem_append_left _ hc)
        omega
      · intro hf _ _
        have hvlen : vlen h = rest h := by
          rw [hv, hrest, asInt_of_bounds] <;> omega
        exact ⟨by omega, hvlen, fun _ => by rw [hvlen, asInt_of_bounds] <;> omega⟩
    · obtain ⟨_, he⟩ := ha.append hc
      have hne : ∀ x ∈ appendCmds, x ∉ updateCmds := by decide
      have hv : vlen h = asInt (h.bodylen.toNat - h.keylen.toNat) := (if_neg (hne _ hc)).trans (if_pos hval)
      rw [LengthsFit, if_neg (hne _ hc), if_pos hc]
      constructor
      · intro hx
        have hn := (hx ht hk).nbytes (List.mem_append_right _ hc)
        have h0 := (hx ht hk).nonneg
        omega
      · intro hf _ _
        have hvlen : vlen h = rest h := by
          rw [hv, hrest, asInt_of_bounds] <;> omega
        exact ⟨by omega, hvlen, fun _ => by rw [hvlen, asInt_of_bounds] <;> omega⟩
    · obtain ⟨he, _⟩ := ha.sasl hc
      have hne : ∀ x ∈ saslCmds, x ∉ updateCmds ∧ x ∉ appendCmds := by decide
      have hv : vlen h = asInt (h.bodylen.toNat - h.keylen.toNat) := (if_neg (hne _ hc).1).trans (if_pos hval)
      have hb := asInt_bounds (h.bodylen.toNat - h.keylen.toNat)
      rw [LengthsFit, if_neg (hne _ hc).1, if_neg (hne _ hc).2, if_pos hc]
      constructor
      · intro hx
        have h0 := (hx ht hk).nonneg
        have hvr := (hx ht hk).value
        omega
      · intro hf _ _
        have hvlen : vlen h = rest h := by
          rw [hv, hrest, asInt_of_bounds] <;> omega
        refine ⟨by omega, hvlen, fun hmem => ?_⟩
        rcases List.mem_append.mp hmem with hmem | hmem
        · exact absurd hmem (hne _ hc).1
        · exact absurd hmem (hne _ hc).2
  · by_cases hknown : effective h ∈ touchCmds ∨ effective h ∈ keyCmds
    · have hno := fun hc => hval (mem_valueCmds.mpr hc)
      rw [LengthsFit, if_neg (fun hc => hno (.inl hc)), if_neg (fun hc => hno (.inr (.inl hc))),
        if_neg (fun hc => hno (.inr (.inr hc))), if_pos hknown]
      exact ⟨fun _ => trivial, fun _ ht hk => (hknown.elim ht hk).elim⟩
    · obtain ⟨ht, hk⟩ := not_or.mp hknown
      have hrest : rest h = h.bodylen.toNat := if_neg hval
      have hnu : effective h ∉ updateCmds := fun hc => hval (mem_valueCmds.mpr (.inl hc))
      have hv : vlen h = asInt h.bodylen.toNat := (if_neg hnu).trans (if_neg hval)
      have hb := asInt_bounds h.bodylen.toNat
      rw [lengthsFit_unknown hval ht hk]
      constructor
      · intro hx
        have hvr := (hx ht hk).value
        omega
      · intro hf _ _
        refine ⟨by omega, by rw [hv, hrest, asInt_of_bounds] <;> omega, fun hmem => ?_⟩
        rcases List.mem_append.mp hmem with hmem | hmem
        · exact absurd (mem_valueCmds.mpr (.inl hmem)) hval
        · exact absurd (mem_valueCmds.mpr (.inr (.inl hmem))) hval

/-! ## From the header to the next command -/

/-- Extras and key of a request are read first. -/
theorem CountsExact.of_key {next : BinSubstate} (hc : Started c) (hh : c.binaryHeader = h) :
    CountsExact h (binReadKey c next h.extlen.toNat) := by
  have hk := hc.keylen
  rw [hh] at hk
  simp only [CountsExact, binReadKey, List.length_nil, hk]
  omega

theorem CountsExact.of_closing (hs : c.state = .closing ∨ c.state = .mwrite ∧ c.writeAndGo = .closing) :
    CountsExact h c := by
  unfold CountsExact
  rcases hs with hs | ⟨hs, hg⟩ <;> rw [hs]
  · trivial
  · exact fun hw => absurd (hg.symm.trans hw) nofun

theorem Dispatched.inRequest {c' : Conn} {n : Int} (hd : Dispatched c c') (hc : Started c)
    (hcmd : c.cmd = effective h) (hh : c.binaryHeader = h) (ho : Owes cfg c' n)
    (hl : effective h ∉ touchCmds → effective h ∉ keyCmds → LengthsExact h) : InRequest cfg h c' := by
  have hvalue : ∀ {next : BinSubstate}, effective h ∈ valueCmds →
      valueLength (binReadKey c next h.extlen.toNat) = vlen h →
      (next = .readingSaslAuth ↔ effective h ∈ saslCmds) → Owes cfg (binReadKey c next h.extlen.toNat) n →
      InRequest cfg h (binReadKey c next h.extlen.toNat) := by
    intro next hv hlen hiff ho
    obtain ⟨ht, hk⟩ := valueCmds_disjoint hv
    exact ⟨⟨n, ho⟩, .of_key hc hh, fun _ _ => .inr ⟨hv, hlen.trans (hl ht hk).value, hiff⟩⟩
  cases hd with
  | key next extra hn hx _ _ =>
    rw [hx, hh] at ho ⊢
    exact ⟨⟨n, ho⟩, .of_key hc hh, fun _ _ => .inl hn⟩
  | update hu he _ _ =>
    rw [hcmd] at hu
    rw [hh] at he
    have hne : ∀ x ∈ updateCmds, x ∉ saslCmds ∧ ¬(x = CMD_APPEND ∨ x = CMD_PREPEND) := by decide
    rw [← he] at ho ⊢
    refine hvalue (mem_valueCmds.mpr (.inl hu)) ?_ (by simp [(hne _ hu).1]) ho
    rw [vlen, if_pos hu, ← hh]
    simp only [valueLength, binReadKey, hcmd]
    exact if_neg (hne _ hu).2
  | append hu he _ =>
    rw [hcmd] at hu
    rw [hh] at he
    have hne : ∀ x ∈ appendCmds, x ∉ saslCmds ∧ x ∉ updateCmds ∧ (x = CMD_APPEND ∨ x = CMD_PREPEND) := by decide
    have hv := mem_valueCmds.mpr (.inr (.inl hu))
    rw [← he] at ho ⊢
    refine hvalue hv ?_ (by simp [(hne _ hu).1]) ho
    rw [vlen, if_neg (hne _ hu).2.1, if_pos hv, ← hh]
    simp only [valueLength, binReadKey, hcmd]
    exact if_pos (hne _ hu).2.2
  | sasl hu he _ =>
    rw [hcmd] at hu
    rw [hh] at he
    have hne : ∀ x ∈ saslCmds, x ∉ updateCmds := by decide
    have hv := mem_valueCmds.mpr (.inr (.inr hu))
    rw [← he] at ho ⊢
    refine hvalue hv ?_ (by simp [hu]) ho
    rw [vlen, if_neg (hne _ hu), if_pos hv, ← hh]
    rfl
  | answered c' hf _ =>
    exact ⟨⟨n, ho⟩, .of_settled hf.settled, fun hs => absurd hs (settled_ne_nread hf.settled)⟩
  | quit c' hf hs =>
    refine ⟨⟨n, ho⟩, .of_closing hs, fun hn => ?_⟩
    rcases hs with hs | ⟨hs, _⟩ <;> exact absurd (hs.symm.trans hn) (by simp)
  | unknown hv ht hk =>
    rw [hcmd] at hv ht hk
    rw [hh] at ho ⊢
    have hnu : effective h ∉ updateCmds := fun hc => hv (mem_valueCmds.mpr (.inl hc))
    have hvlen : asInt h.bodylen.toNat = rest h := by
      rw [← (hl ht hk).value, vlen, if_neg hnu, if_neg hv]
    rw [hvlen] at ho ⊢
    have hstate := writeBinError_state c .UNKNOWN_COMMAND (rest h)
    refine ⟨⟨n, ho⟩, ?_, fun hn => absurd (hstate.symm.trans hn) (by simp)⟩
    unfold CountsExact
    rw [hstate]
    intro hw
    by_cases hpos : 0 < rest h
    · exact (writeBinError_swallow c .UNKNOWN_COMMAND hpos).2
    · have hg := (writeBinError_zero c .UNKNOWN_COMMAND (Int.not_lt.mp hpos)).1
      exact absurd (hg.symm.trans hw) (by simp)

theorem InRequest.rbuf (hi : InRequest cfg h c) (rbuf : Bytes) : InRequest cfg h { c with rbuf := rbuf } := by
  obtain ⟨⟨n, ho⟩, hcounts, hkey⟩ := hi
  exact ⟨⟨n, ho.buffers rbuf c.out⟩, hcounts, hkey⟩

theorem begun_inRequest (hn : RequestNext cfg s h) (ha : Accepted cfg s h) (hf : LengthsFit (effective h) h)
    (hs : EmptyValue cfg (effective h) h → s.c.sbytes = 0) : InRequest cfg h (begun cfg s h).c := by
  refine InRequest.rbuf (c := dispatchBinCommand cfg (startRequest (negotiate s.c) h)) ?_ _
  obtain ⟨_, _, hsb⟩ := negotiate_same s.c
  obtain ⟨noreply, heq⟩ := dispatchBinCommand_eq (c := startRequest (negotiate s.c) h) rfl ha.auth ha.keylen
  have hc : Started { startRequest (negotiate s.c) h with noreply := noreply, cmd := effective h } :=
    ⟨hn.binary, rfl⟩
  rw [heq]
  cases hd : dispatchBinOpcode cfg { startRequest (negotiate s.c) h with noreply := noreply, cmd := effective h } with
  | none =>
    erw [hd]
    obtain ⟨_, ho⟩ := handleBinaryProtocolError_owes 0 hc.binary
    exact ⟨⟨0, ho⟩, .of_closing (.inr ⟨rfl, rfl⟩), nofun⟩
  | some c' =>
    erw [hd]
    have hcases := dispatchBinOpcode_cases hd
    have ho := hcases.owes hc hf fun he => hsb.trans (hs he)
    exact hcases.inRequest hc rfl rfl ho ((lengthsExact_iff ha).mpr hf)

/-- An accepted request is handled with exact lengths if and only if its lengths fit, and
no stale count is swallowed in place of an empty value. -/
theorem handledExactly_iff (hn : RequestNext cfg s h) (ha : Accepted cfg s h) : HandledExactly cfg s h ↔
    LengthsFit (effective h) h ∧ (EmptyValue cfg (effective h) h → s.c.sbytes = 0) := by
  constructor
  · intro hx
    refine ⟨(lengthsExact_iff ha).mp hx.lengths, fun he => ?_⟩
    obtain ⟨es, s', hr, _, hstate, hgo, hsb, _⟩ := leads_stale default hn ha.auth ha.keylen he
    have hcounts := (hx.run default _ (request_turn hn) es s' hr).1
    unfold CountsExact at hcounts
    rw [hstate] at hcounts
    have hrest := hcounts hgo
    rw [hsb] at hrest
    rw [hrest, rest]
    obtain ⟨_, ⟨hc, hx, hb⟩ | ⟨hc | ⟨hc, _⟩, hx, hb⟩⟩ := he
    · rw [if_pos (mem_valueCmds.mpr (.inl hc))]
      omega
    · rw [if_pos (mem_valueCmds.mpr (.inr (.inl hc)))]
      omega
    · rw [if_pos (mem_valueCmds.mpr (.inr (.inr hc)))]
      omega
  · rintro ⟨hf, hs⟩
    refine ⟨(lengthsExact_iff ha).mpr hf, fun env s₁ ht es s' hr => ?_⟩
    rw [request_turn hn] at ht
    cases ht
    have hi := (begun_inRequest hn ha hf hs).serves hr
    refine ⟨hi.counts, fun hbusy env inp => ?_⟩
    obtain ⟨n, ho⟩ := hi.owes
    obtain ⟨howes, _, _, hbin⟩ := begun_owes hn hf hs fun _ _ _ => rfl
    obtain ⟨t, ht⟩ := Option.isSome_iff_exists.mp (howes.run_isSome env inp hr hbusy (.inl hbin))
    exact ⟨t, ht, (hi.turn (turn_busy hbusy ht)).2⟩

/-- An APPEND to a key of five bytes, with a body of three. -/
def shortAppend : Bytes :=
  [0x80, 0x0e, 0, 5, 0, 0, 0, 0, 0, 0, 0, 3, 0, 0, 0, 0, 0, 0, 0, 0, 0, 0, 0, 0] ++ ascii "hello"

theorem accepted_hasRead {bs : Bytes} {h : BinaryHeader} (hk : h.keylen.toNat ≤ KEY_MAX_LENGTH)
    (ho : (dispatchBinOpcode smallServer
      { startRequest (negotiate (hasRead bs).c) h with noreply := false, cmd := effective h }).isSome) :
    Accepted smallServer (hasRead bs) h where
  auth := by simp [smallServer]
  keylen := hk
  opcode := ⟨false, ho⟩

theorem handledExactly_iff_set :
    HandledExactly smallServer (hasRead setEmpty) (parseHeader (setEmpty.take HEADER_SIZE)) ↔
      LengthsFit (effective (parseHeader (setEmpty.take HEADER_SIZE))) (parseHeader (setEmpty.take HEADER_SIZE)) ∧
        (EmptyValue smallServer (effective (parseHeader (setEmpty.take HEADER_SIZE)))
          (parseHeader (setEmpty.take HEADER_SIZE)) → (hasRead setEmpty).c.sbytes = 0) :=
  handledExactly_iff (requestNext_hasRead (by decide) (by decide) (by decide))
    (accepted_hasRead (by decide) (by decide))

/-- The length of the value is taken to be -2. -/
theorem append_negative_length : ∃ cfg s h, RequestNext cfg s h ∧ Accepted cfg s h ∧ ¬HandledExactly cfg s h := by
  let h := parseHeader (shortAppend.take HEADER_SIZE)
  have ha : Accepted smallServer (hasRead shortAppend) h := accepted_hasRead (by decide) (by decide)
  refine ⟨smallServer, hasRead shortAppend, h, requestNext_hasRead (by decide) (by decide) (by decide), ha, fun hx => ?_⟩
  have hlen := hx.lengths (by decide) (by decide)
  have hneg : rest h = -2 := by decide
  have hpos := hlen.nonneg
  omega

end RamCube
