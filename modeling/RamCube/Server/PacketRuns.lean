import RamCube.Server.HandlerFrames
import RamCube.Server.Packets
import RamCube.Server.Serving

/-! # The packets of a connection (memcached.c)

Over a run of a TCP connection that talks the binary protocol, with the other threads in between,
what it has sent and what it is about to send is a series of whole packets, which answer its
requests in order. -/
namespace RamCube

variable {cfg : Config} {env : Env} {g : Globals} {s s' : Session} {packets : List Packet}

/-- The requests among what was executed. -/
def requestsOf (executed : List Executed) : List BinaryHeader :=
  executed.filterMap fun
    | .request h => some h
    | _ => none

/-- What has been sent and what is to be sent. -/
def Session.written (s : Session) : Bytes := s.sent ++ s.c.out

/-- A request is at work, and nothing has been written for it. -/
structure AtWork (c : Conn) : Prop extends Current c where
  binary : c.protocol = .binary
  stat : c.substate = .readingStat → c.binaryHeader.opcode = statOpcode

/-- The requests that have no answer: the one that is at work, or one that was when the connection was to be closed. -/
def Outstanding (c : Conn) (pending : List BinaryHeader) : Prop :=
  if c.state = .nread then pending = [c.binaryHeader] ∧ AtWork c
  else pending = [] ∨ c.state ∈ [.closing, .closed] ∧ pending.length = 1

/-- What has been written answers the requests in order. -/
structure Framed (s : Session) : Prop where
  tcp : s.c.transport ≠ .udp
  answers : s.c.protocol ≠ .ascii → ∃ packets answered pending, readPacket.Series s.written packets ∧
    requestsOf s.executed = answered ++ pending ∧ AnswersInOrder answered packets ∧ Outstanding s.c pending
  silent : s.c.protocol ≠ .ascii → s.c.state ∉ [.write, .mwrite, .closing, .closed] → s.c.out = []

/-- The statistics of a request, as they are appended for it. -/
def StatsOf (c : Conn) (stats : Bytes) : Prop :=
  ∃ calls : List StatCall, (∀ call ∈ calls, Readable .binary call) ∧
    stats = calls.flatMap (statWire .binary c.reqOpaque) ++ endWire .binary c.reqOpaque

/-- There is memory to read to, the fields of the items are within their types, and the statistics are those of the request. -/
def Answerable (s : Session) : ServerEvent → Prop
  | .turn env inp => inp ≠ .noMemory ∧ (∀ p, FieldsFit (s.g.store.mem p)) ∧
      (s.c.state = .nread → s.c.substate = .readingStat → StatsOf s.c env.stats)
  | .others _ => True

/-! ## Turns that answer nothing -/

theorem Outstanding.one {c : Conn} {pending : List BinaryHeader} (h : Outstanding c pending) :
    pending = [] ∨ c.state ∈ [.nread, .closing, .closed] ∧ pending.length = 1 := by
  unfold Outstanding at h
  split at h
  · next hs => exact .inr ⟨by simp [hs], by rw [h.1]; rfl⟩
  · obtain h | ⟨hs, hlen⟩ := h
    · exact .inl h
    · exact .inr ⟨List.mem_cons_of_mem _ hs, hlen⟩

/-- A turn that writes nothing new. -/
theorem Framed.keep (h : Framed s) (hu : s'.c.transport = s.c.transport) (hp : s.c.protocol = .ascii → s'.c.protocol = .ascii)
    (he : s'.executed = s.executed) (hw : s'.written = s.written)
    (hpending : s.c.protocol ≠ .ascii → ∀ pending, Outstanding s.c pending → Outstanding s'.c pending)
    (hq : s'.c.state ∉ [.write, .mwrite, .closing, .closed] → s.c.protocol ≠ .ascii → s'.c.out = []) : Framed s' where
  tcp := hu ▸ h.tcp
  answers := fun hp' => by
    obtain ⟨packets, answered, pending, hseries, hrequests, hin, hpend⟩ := h.answers (mt hp hp')
    exact ⟨packets, answered, pending, hw ▸ hseries, he ▸ hrequests, hin, hpending (mt hp hp') pending hpend⟩
  silent := fun hp' hs' => hq hs' (mt hp hp')

theorem Outstanding.next {c c' : Conn} {pending : List BinaryHeader} (h : Outstanding c pending) (hs : c.state ∉ [.nread, .closing, .closed])
    (hs' : c'.state ≠ .nread) : Outstanding c' pending := by
  obtain h | ⟨hmem, -⟩ := h.one
  · rw [Outstanding, if_neg hs']
    exact .inl h
  · exact absurd hmem hs

theorem Outstanding.closed {c c' : Conn} {pending : List BinaryHeader} (h : Outstanding c pending) (hs : c'.state = .closing ∨ c'.state = .closed) :
    Outstanding c' pending := by
  have hn : c'.state ≠ .nread := by obtain hs | hs := hs <;> simp [hs]
  rw [Outstanding, if_neg hn]
  exact h.one.imp_right fun h => ⟨by obtain hs | hs := hs <;> simp [hs], h.2⟩

/-- A turn from a state in which no request is at work. -/
theorem Framed.idle (h : Framed s) (hu : s'.c.transport = s.c.transport) (hp : s.c.protocol = .ascii → s'.c.protocol = .ascii)
    (he : s'.executed = s.executed) (hw : s'.written = s.written) (hs : s.c.state ∉ [.nread, .closing, .closed])
    (hs' : s'.c.state ≠ .nread) (hq : s'.c.state ∉ [.write, .mwrite, .closing, .closed] → s.c.protocol ≠ .ascii → s'.c.out = []) :
    Framed s' :=
  h.keep hu hp he hw (fun _ _ hpend => hpend.next hs hs') hq

/-- A turn that stays where it is. -/
theorem Framed.same (h : Framed s) (hs : s'.c.state = s.c.state) (hsub : s'.c.substate = s.c.substate)
    (hu : s'.c.transport = s.c.transport) (hp : s'.c.protocol = s.c.protocol) (hr : SameRequest s.c s'.c) (ho : s'.c.out = s.c.out)
    (he : s'.executed = s.executed) (hw : s'.sent = s.sent) : Framed s' := by
  refine h.keep hu (hp.trans ·) he (by rw [Session.written, ho, hw]; rfl) (fun _ pending hpend => ?_) fun hs' hp' => ?_
  · unfold Outstanding at hpend ⊢
    rw [hs]
    split at hpend
    · next hread =>
      rw [if_pos hread, hr.header]
      exact ⟨hpend.1, hr.current hpend.2.toCurrent, hp ▸ hpend.2.binary, by rw [hsub, hr.header]; exact hpend.2.stat⟩
    · next hread => rwa [if_neg hread]
  · rw [hs] at hs'
    rw [ho]
    exact h.silent hp' hs'

theorem Framed.closing (h : Framed s) (stop : Bool) (g : Globals) (input : Bytes) :
    Framed { s with c := { s.c with state := .closing }, g := g, stop := stop, input := input } :=
  h.keep rfl id rfl rfl (fun _ _ hpend => hpend.closed (.inl rfl)) fun hs => absurd (by simp) hs

/-- A turn that the connection does not notice. -/
theorem Framed.aside (h : Framed s) (stop : Bool) (nreqs : Int) (g : Globals) :
    Framed { s with g := g, stop := stop, nreqs := nreqs } :=
  h.same rfl rfl rfl rfl (.refl s.c) rfl rfl rfl

theorem newCmdTurn_framed {inp : Input} (h : Framed s) (hs : s.c.state = .newCmd) (ht : s.newCmdTurn cfg inp = some s') :
    Framed s' := by
  cases inp with
  | go =>
    simp only [Session.newCmdTurn] at ht
    split at ht
    · cases ht
      have hout : (resetCmdHandler cfg.toSettings s.c s.g).1.out = s.c.out ∧
          (resetCmdHandler cfg.toSettings s.c s.g).1.protocol = s.c.protocol ∧
          (resetCmdHandler cfg.toSettings s.c s.g).1.state ≠ .nread := by
        unfold resetCmdHandler Conn.dropItem
        cases s.c.item <;> cases s.c.rbuf <;> simp
      refine h.idle (resetCmdHandler_same _ _ _).2.1 (hout.2.1.trans ·) rfl ?_ (by simp [hs]) hout.2.2 fun _ hp => hout.1.trans (h.silent hp (by simp [hs]))
      exact congrArg (s.sent ++ ·) hout.1
    · cases ht
      exact h.aside true _ _
  | eventFailed =>
    simp only [Session.newCmdTurn] at ht
    split at ht
    · cases ht
      exact h.closing true s.g s.input
    · cases ht
      exact h
  | event | data _ | wrote _ | again | error | noMemory =>
    cases ht
    exact h

theorem waitingTurn_framed {inp : Input} (h : Framed s) (hs : s.c.state = .waiting) (ht : s.waitingTurn inp = some s') :
    Framed s' := by
  cases inp with
  | go =>
    cases ht
    exact h.idle rfl id rfl rfl (by simp [hs]) (fun hs => by cases hs) fun _ hp => h.silent hp (by simp [hs])
  | eventFailed =>
    cases ht
    exact h.closing s.stop s.g s.input
  | event | data _ | wrote _ | again | error | noMemory =>
    cases ht
    exact h

theorem readTurn_framed {inp : Input} (h : Framed s) (hm : inp ≠ .noMemory)
    (hs : s.c.state = .read) (ht : s.readTurn inp = some s') : Framed s' := by
  have hout : s.c.protocol ≠ .ascii → s.c.out = [] := fun hp => h.silent hp (by simp [hs])
  cases inp with
  | data bs =>
    simp only [Session.readTurn] at ht
    rw [if_neg h.tcp] at ht
    split at ht
    · cases ht
      exact h.closing s.stop s.g s.input
    · cases ht
      exact h.idle rfl id rfl rfl (by simp [hs]) (fun hs => by cases hs) fun _ hp => hout hp
  | again =>
    cases ht
    exact h.idle rfl id rfl rfl (by simp [hs]) (fun hs => by cases hs) fun _ hp => hout hp
  | error =>
    simp only [Session.readTurn] at ht
    rw [if_neg h.tcp] at ht
    cases ht
    exact h.closing s.stop _ s.input
  | noMemory => exact absurd rfl hm
  | event | go | wrote _ | eventFailed =>
    cases ht
    exact h

theorem swallowTurn_framed {inp : Input} (h : Framed s) (hs : s.c.state = .swallow) (ht : s.swallowTurn inp = some s') :
    Framed s' := by
  have hn : s.c.state ≠ .nread := by simp [hs]
  have hout : s.c.protocol ≠ .ascii → s.c.out = [] := fun hp => h.silent hp (by simp [hs])
  cases inp with
  | go =>
    simp only [Session.swallowTurn] at ht
    split at ht
    · cases ht
      exact h.idle rfl id rfl rfl (by simp [hs]) (fun hs => by cases hs) fun _ hp => hout hp
    · split at ht
      · cases ht
        exact h
      · split at ht
        · cases ht
        · cases ht
          exact h.idle rfl id rfl rfl (by simp [hs]) hn fun _ hp => hout hp
  | data bs =>
    simp only [Session.swallowTurn] at ht
    split at ht
    · cases ht
      exact h
    · split at ht
      · cases ht
        exact h.closing s.stop s.g s.input
      · split at ht
        · cases ht
        · split at ht
          · cases ht
            exact h
          · cases ht
            exact h.idle rfl id rfl rfl (by simp [hs]) hn fun _ hp => hout hp
  | again =>
    simp only [Session.swallowTurn] at ht
    split at ht
    · cases ht
      exact h
    · cases ht
      exact h.aside true _ _
  | error | eventFailed =>
    simp only [Session.swallowTurn] at ht
    split at ht
    · cases ht
      exact h
    · cases ht
      exact h.closing s.stop _ s.input
  | event | wrote _ | noMemory =>
    cases ht
    exact h

theorem writeTurn_framed {inp : Input} (h : Framed s) (hn : AnswersOn s.c) (hs : s.c.state = .write ∨ s.c.state = .mwrite)
    (ht : s.writeTurn cfg inp = some s') : Framed s' := by
  have hidle : s.c.state ∉ [.nread, .closing, .closed] := by obtain hs | hs := hs <;> simp [hs]
  have hwrites : ¬s.c.state ∉ [.write, .mwrite, .closing, .closed] := by obtain hs | hs := hs <;> simp [hs]
  cases inp with
  | go =>
    simp only [Session.writeTurn] at ht
    split at ht
    · next hout =>
      cases ht
      have hnext := hn hs
      obtain ⟨hstate, -, htransport, hprotocol, -⟩ := @transmitComplete_same cfg s hs
      have hsame : (s.transmitComplete cfg).c.out = s.c.out ∧ (s.transmitComplete cfg).executed = s.executed ∧
          (s.transmitComplete cfg).sent = s.sent := by
        unfold Session.transmitComplete Conn.dropIlist
        split <;> exact ⟨rfl, rfl, rfl⟩
      refine h.idle htransport (hprotocol.trans ·) hsame.2.1 (by rw [Session.written, hsame.1, hsame.2.2]; rfl) hidle ?_
        fun _ _ => hsame.1.trans hout
      rw [hstate]
      intro hnread
      simp [hnread] at hnext
    · cases ht
      exact h
  | wrote n =>
    simp only [Session.writeTurn] at ht
    split at ht
    · cases ht
      exact h
    · cases ht
      refine h.idle rfl id rfl ?_ hidle (fun hread => hidle (hread ▸ List.mem_cons_self)) fun hs' => absurd hs' hwrites
      rw [Session.written, Session.written, List.append_assoc, List.take_append_drop]
  | again =>
    simp only [Session.writeTurn] at ht
    split at ht
    · cases ht
      exact h
    · cases ht
      exact h.aside true _ _
  | error =>
    simp only [Session.writeTurn] at ht
    split at ht
    · cases ht
      exact h
    · rw [if_neg h.tcp] at ht
      cases ht
      exact h.closing s.stop _ s.input
  | eventFailed =>
    simp only [Session.writeTurn] at ht
    split at ht
    · cases ht
      exact h
    · cases ht
      exact h.closing s.stop s.g s.input
  | event | data _ | noMemory =>
    cases ht
    exact h

theorem closingTurn_framed {inp : Input} (h : Framed s) (ht : s.closingTurn cfg inp = some s') : Framed s' := by
  cases inp with
  | go =>
    simp only [Session.closingTurn, if_neg h.tcp] at ht
    cases ht
    have hclosed : (connClose cfg.toSettings s.c s.g).1.out = s.c.out ∧ (connClose cfg.toSettings s.c s.g).1.state = .closed := by
      unfold connClose connCleanup Conn.dropItem Conn.dropIlist
      cases s.c.item <;> by_cases hu : s.c.transport = .udp <;> simp [hu]
    obtain ⟨⟨htransport, hprotocol⟩, -⟩ := connCleanup_same cfg.toSettings s.c s.g
    refine h.keep htransport (hprotocol.trans ·) rfl (congrArg (s.sent ++ ·) hclosed.1) (fun _ _ hpend => hpend.closed (.inr hclosed.2))
      fun hs => absurd (by simp [hclosed.2]) hs
  | event | data _ | wrote _ | again | error | noMemory | eventFailed =>
    cases ht
    exact h

/-! ## Turns at a request -/

theorem receive_framed {bs rest input : Bytes} (h : Framed s) :
    Framed { s with c := { (receive s.c s.g bs).1 with rbuf := rest }, g := (receive s.c s.g bs).2, input := input } := by
  have hsame : (receive s.c s.g bs).1.substate = s.c.substate ∧ SameRequest s.c (receive s.c s.g bs).1 ∧
      (receive s.c s.g bs).1.out = s.c.out := by
    unfold receive
    cases s.c.ritem <;> exact ⟨rfl, ⟨rfl, rfl, rfl, rfl⟩, rfl⟩
  obtain ⟨⟨htransport, hprotocol⟩, -, hstate, -⟩ := receive_same (c := s.c) (g := s.g) bs
  exact h.same hstate hsame.1 htransport hprotocol ⟨hsame.2.1.header, hsame.2.1.reqOpaque, hsame.2.1.keylen, hsame.2.1.noreply⟩ hsame.2.2 rfl rfl

theorem requestsOf_block (executed : List Executed) (data : Bytes) : requestsOf (executed ++ [.block data]) = requestsOf executed := by
  simp [requestsOf]

/-- What was to be read for a request is there. -/
theorem complete_framed {c' : Conn} {g' : Globals} {data : Bytes} (hl : SaslFits cfg.saslLib) (h : Framed s) (hs : s.c.state = .nread)
    (hf : ∀ p, FieldsFit (s.g.store.mem p)) (hstats : s.c.substate = .readingStat → StatsOf s.c env.stats)
    (hd : completeNreadConn cfg env s.c s.g = some (c', g')) :
    Framed { s with c := c', g := g', executed := s.executed ++ [.block data] } := by
  obtain ⟨-, hhandled⟩ := completeNreadConn_handled hd
  have hascii : c'.protocol ≠ .ascii → s.c.protocol ≠ .ascii := fun hp => hhandled.protocol ▸ hp
  have hanswers : s.c.protocol ≠ .ascii → ∃ packets answered, readPacket.Series s.sent packets ∧
      requestsOf s.executed = answered ++ [s.c.binaryHeader] ∧ AnswersInOrder answered packets ∧ AtWork s.c ∧ Says s.c c' := by
    intro hp
    have hout := h.silent hp (by simp [hs])
    obtain ⟨packets, answered, pending, hseries, hrequests, hin, hpend⟩ := h.answers hp
    rw [Session.written, hout, List.append_nil] at hseries
    rw [Outstanding, if_pos hs] at hpend
    obtain ⟨rfl, hwork⟩ := hpend
    refine ⟨packets, answered, hseries, hrequests, hin, hwork, ?_⟩
    unfold completeNreadConn at hd
    rw [if_pos hwork.binary] at hd
    refine completeNreadBinary_answers hwork.toCurrent hout hf hl (fun hsub => ?_) hd
    obtain ⟨calls, hreadable, htext⟩ := hstats hsub
    rw [htext]
    exact stats_packets hwork.toTagged (hwork.stat hsub) hreadable
  refine ⟨hhandled.transport ▸ h.tcp, fun hp => ?_, fun hp hs' => ?_⟩
  · obtain ⟨packets, answered, hseries, hrequests, hin, hwork, hanswers⟩ := hanswers (hascii hp)
    dsimp only
    by_cases hread : c'.state = .nread
    · have hout := hanswers.silent (by simp [hread])
      refine ⟨packets, answered, [s.c.binaryHeader], by rwa [Session.written, hout, List.append_nil], ?_, hin, ?_⟩
      · rw [requestsOf_block, hrequests]
      · rw [Outstanding, if_pos hread]
        exact ⟨by rw [hanswers.header], hanswers.current hread, hhandled.protocol.trans hwork.binary,
          fun hsub => absurd hsub (completeNreadConn_stat hd hread)⟩
    · obtain ⟨packets', hanswer, hto⟩ := hanswers.answer hread
      refine ⟨packets ++ packets', answered ++ [s.c.binaryHeader], [], hseries.append hanswer, ?_, hin.snoc hto, ?_⟩
      · rw [requestsOf_block, hrequests, List.append_nil]
      · rw [Outstanding, if_neg hread]
        exact .inl rfl
  · obtain ⟨-, -, -, -, -, -, hanswers⟩ := hanswers (hascii hp)
    refine hanswers.silent fun hm => hs' ?_
    simp only [List.mem_cons, List.not_mem_nil, or_false] at hm ⊢
    tauto

theorem nreadTurn_framed {inp : Input} (hl : SaslFits cfg.saslLib) (h : Framed s) (hs : s.c.state = .nread)
    (hf : ∀ p, FieldsFit (s.g.store.mem p)) (hstats : s.c.substate = .readingStat → StatsOf s.c env.stats)
    (ht : s.nreadTurn cfg env inp = some s') : Framed s' := by
  cases inp with
  | go =>
    simp only [Session.nreadTurn] at ht
    split at ht
    · obtain ⟨⟨c', g'⟩, hd, rfl⟩ := Option.map_eq_some_iff.mp ht
      exact complete_framed hl h hs hf hstats hd
    · split at ht
      · cases ht
        exact h
      · split at ht
        · cases ht
        · cases ht
          exact receive_framed h
  | data bs =>
    simp only [Session.nreadTurn] at ht
    split at ht
    · cases ht
      exact h
    · split at ht
      · cases ht
        exact h.closing s.stop s.g s.input
      · split at ht
        · cases ht
        · split at ht <;> cases ht
          · exact h
          · exact receive_framed h
  | again =>
    simp only [Session.nreadTurn] at ht
    split at ht <;> cases ht
    · exact h
    · exact h.aside true _ _
  | error | eventFailed =>
    simp only [Session.nreadTurn] at ht
    split at ht <;> cases ht
    · exact h
    · exact h.closing s.stop _ s.input
  | event | wrote _ | noMemory =>
    cases ht
    exact h

/-! ## Parsing -/

theorem tryReadAscii_frame {c : Conn} {p : Parsed} (hs : c.state ≠ .nread) (h : tryReadAscii cfg env c g = some p) :
    p.c.transport = c.transport ∧ p.c.protocol = c.protocol := by
  unfold tryReadAscii at h
  split at h
  · split at h <;> cases h <;> exact ⟨rfl, rfl⟩
  · obtain ⟨⟨c', g', rtn⟩, hproc, rfl⟩ := Option.map_eq_some_iff.mp h
    have hhandled := processCommand_handled (c := { c with out := [] }) hs hproc
    exact ⟨hhandled.transport, hhandled.protocol⟩

/-- A request is dispatched after what was written for those before it. -/
theorem dispatch_framed {c : Conn} {rbuf : Bytes} (hl : SaslFits cfg.saslLib) (h : Framed s) (hs : s.c.state = .parseCmd)
    (hp : s.c.protocol ≠ .ascii) (hu : c.transport = s.c.transport) (hb : c.protocol = .binary) (header : BinaryHeader) :
    Framed { s with
      c := { dispatchBinCommand cfg (startRequest c header) with rbuf := rbuf }
      executed := s.executed ++ [.request header] } := by
  have hsilent := h.silent hp (by simp [hs])
  obtain ⟨packets, answered, pending, hseries, hanswered, hin, hpend⟩ := h.answers hp
  rw [Session.written, hsilent, List.append_nil] at hseries
  obtain rfl : pending = [] := hpend.one.resolve_right (by simp [hs])
  rw [List.append_nil] at hanswered
  have htagged : Tagged (startRequest c header) := ⟨rfl, rfl⟩
  have hanswers := dispatchBinCommand_answers htagged rfl hl rfl
  have htaken := @dispatchBinCommand_takenUp cfg _ htagged.keylen
  have hrequests : requestsOf (s.executed ++ [.request header]) = answered ++ [header] := by
    rw [← hanswered]
    simp [requestsOf]
  have hstat := @dispatchBinCommand_stat cfg (startRequest c header) rfl
  generalize dispatchBinCommand cfg (startRequest c header) = c' at hanswers htaken hstat
  have hheader : c'.binaryHeader = header := hanswers.header
  refine ⟨by rw [htaken.transport]; exact hu ▸ h.tcp, fun _ => ?_, fun _ hs' => hanswers.silent fun hm => hs' ?_⟩
  · dsimp only
    by_cases hread : c'.state = .nread
    · have hout := hanswers.silent (by simp [hread])
      have hcurrent := hanswers.current hread
      refine ⟨packets, answered, [header], by rwa [Session.written, hout, List.append_nil], hrequests, hin, ?_⟩
      rw [Outstanding, if_pos hread]
      exact ⟨by rw [hheader], ⟨⟨⟨hcurrent.reqOpaque, hcurrent.keylen⟩, hcurrent.noreply⟩, htaken.protocol.trans hb,
        fun hsub => hanswers.header ▸ hstat hread hsub⟩⟩
    · obtain ⟨packets', hanswer, hto⟩ := hanswers.answer hread
      refine ⟨packets ++ packets', answered ++ [header], [], hseries.append hanswer, by rw [hrequests, List.append_nil], hin.snoc hto, ?_⟩
      rw [Outstanding, if_neg hread]
      exact .inl rfl
  · simp only [List.mem_cons, List.not_mem_nil, or_false] at hm ⊢
    tauto

theorem parseTurn_framed {inp : Input} (hl : SaslFits cfg.saslLib) (h : Framed s) (hs : s.c.state = .parseCmd)
    (ht : s.parseTurn cfg env inp = some s') : Framed s' := by
  cases inp with
  | go =>
    obtain ⟨p, hp, rfl⟩ := Option.map_eq_some_iff.mp ht
    have hu := (negotiate_same s.c).2.1
    have hout : (negotiate s.c).out = s.c.out := by
      unfold negotiate
      split <;> rfl
    have hascii : s.c.protocol = .ascii → (negotiate s.c).protocol = .ascii := by
      intro hp
      rw [negotiate, if_neg (by simp [hp, h.tcp]), hp]
    unfold tryReadCommand at hp
    dsimp only at hp ⊢
    split at hp
    · next hb =>
      have hp' : s.c.protocol ≠ .ascii := by
        intro ha
        cases hb.symm.trans (hascii ha)
      have hkeep : ∀ c' : Conn, c'.transport = (negotiate s.c).transport → c'.out = (negotiate s.c).out → c'.state ≠ .nread →
          Framed { s with c := c', executed := s.executed ++ [] } := by
        intro c' hu' ho hn
        rw [List.append_nil]
        exact h.idle (hu'.trans hu) (fun ha => absurd ha hp') rfl (congrArg (s.sent ++ ·) (ho.trans hout)) (by simp [hs]) hn
          fun _ _ => (ho.trans hout).trans (h.silent hp' (by simp [hs]))
      obtain he | ⟨hdr, he⟩ | ⟨hdr, rbuf, he⟩ := tryReadBinary_cases cfg (negotiate s.c) s.g
      · obtain rfl := he.symm.trans (Option.some.inj hp)
        exact hkeep _ rfl rfl (by simp)
      · obtain rfl := he.symm.trans (Option.some.inj hp)
        exact hkeep _ rfl rfl (by simp)
      · obtain rfl := he.symm.trans (Option.some.inj hp)
        exact dispatch_framed hl h hs hp' hu hb hdr
    · next hb =>
      have ha : (negotiate s.c).protocol = .ascii := by
        unfold negotiate at hb ⊢
        split at hb
        · next hneg =>
          rw [if_pos hneg]
          dsimp only at hb ⊢
          split at hb
          · exact absurd rfl hb
          · next hmagic => rw [if_neg hmagic]
        · next hneg =>
          rw [if_neg hneg]
          cases hprot : s.c.protocol with
          | ascii => rfl
          | binary => exact absurd hprot hb
          | negotiating => exact absurd (.inl hprot) hneg
      have hframe := tryReadAscii_frame (by simp [negotiate_state, hs]) hp
      have hto : ∀ s' : Session, s'.c.transport = p.c.transport → s'.c.protocol = p.c.protocol → Framed s' := by
        intro s' hu' hp'
        have hend : s'.c.protocol = .ascii := hp'.trans (hframe.2.trans ha)
        exact ⟨by rw [hu', hframe.1, hu]; exact h.tcp, fun hn => absurd hend hn, fun hn => absurd hend hn⟩
      cases p.more with
      | true => exact hto _ rfl rfl
      | false => exact hto _ rfl rfl
  | event | data _ | wrote _ | again | error | noMemory | eventFailed =>
    cases ht
    exact h

/-! ## Runs -/

theorem Framed.turn {inp : Input} (hl : SaslFits cfg.saslLib) (h : Framed s) (hn : AnswersOn s.c)
    (ha : Answerable s (.turn env inp)) (ht : s.turn cfg env inp = some s') : Framed s' := by
  obtain ⟨hm, hf, hstats⟩ := ha
  unfold Session.turn at ht
  split at ht
  · cases inp with
    | event =>
      cases ht
      exact h.aside false _ s.g
    | go | data _ | wrote _ | again | error | noMemory | eventFailed =>
      cases ht
      exact h
  · cases hs : s.c.state <;> rw [hs] at ht <;> dsimp only at ht
    case newCmd => exact newCmdTurn_framed h hs ht
    case waiting => exact waitingTurn_framed h hs ht
    case read => exact readTurn_framed h hm hs ht
    case parseCmd => exact parseTurn_framed hl h hs ht
    case nread => exact nreadTurn_framed hl h hs hf (hstats hs) ht
    case swallow => exact swallowTurn_framed h hs ht
    case write => exact writeTurn_framed h hn (.inl hs) ht
    case mwrite => exact writeTurn_framed h hn (.inr hs) ht
    case closing => exact closingTurn_framed h ht
    case closed =>
      cases ht
      exact h

/-- What a client of the binary protocol has been sent, and what is being sent to it, is packets, and they answer
its requests in order. All are answered but the last, if that is still at work or the connection was closed meanwhile. -/
theorem binary_answers_in_order {addr : Nat} {transport : Transport} {events : List ServerEvent} (hl : SaslFits cfg.saslLib)
    (hu : transport ≠ .udp) (hr : Run (Guarded Answerable (Happens cfg)) (connSession (connNew cfg addr .newCmd transport) g) events s)
    (hp : s.c.protocol ≠ .ascii) : ∃ packets answered pending, readPacket.readAll s.written = some packets ∧
      requestsOf s.executed = answered ++ pending ∧ AnswersInOrder answered packets ∧
        (pending = [] ∨ s.c.state ∈ [.nread, .closing, .closed] ∧ pending.length = 1) := by
  have hinv : Framed s ∧ AnswersOn s.c := by
    refine hr.invariant_of_guard (I := fun s => Framed s ∧ AnswersOn s.c) ?_ ?_
    · intro s e t ⟨h, hn⟩ ha ht
      cases e with
      | turn env inp => exact ⟨h.turn hl hn ha ht, answersOn_turn hn ht⟩
      | others g =>
        cases ht
        exact ⟨h.aside s.stop s.nreqs g, hn⟩
    · refine ⟨⟨hu, fun _ => ⟨[], [], [], Reader.series_nil _, rfl, ⟨[], .nil, rfl⟩, .inl rfl⟩, fun _ _ => rfl⟩, ?_⟩
      exact .of_state (by simp [connSession, connNew]) (by simp [connSession, connNew])
  obtain ⟨packets, answered, pending, hseries, hrequests, hin, hpend⟩ := hinv.1.answers hp
  exact ⟨packets, answered, pending, hseries.readAll readPacket_not_nil, hrequests, hin, hpend.one⟩

def noopPacket : Bytes := [0x80, 0x0a] ++ List.replicate 22 0

/-- Two requests that come at once. -/
def noopsArrive : List ServerEvent :=
  ([.event, .go, .go, .event, .data (noopPacket ++ noopPacket), .go, .wrote 10, .wrote 14, .go, .go, .go] : List Input).map (.turn default)

theorem binary_answers_in_order_noops : ∃ s, Run (Guarded Answerable (Happens smallServer))
    (connSession (connNew smallServer 4096 .newCmd .tcp) (globalsInit 16)) noopsArrive s ∧
    ∃ packets answered pending, readPacket.readAll s.written = some packets ∧
      requestsOf s.executed = answered ++ pending ∧ AnswersInOrder answered packets ∧
        (pending = [] ∨ s.c.state ∈ [.nread, .closing, .closed] ∧ pending.length = 1) := by
  have hstep : ∀ {s s' t : Session} {inp : Input} {events : List ServerEvent}, inp ≠ .noMemory → s.g = globalsInit 16 →
      s.c.state ≠ .nread → s.turn smallServer default inp = some s' → Run (Guarded Answerable (Happens smallServer)) s' events t →
      Run (Guarded Answerable (Happens smallServer)) s (.turn default inp :: events) t := by
    intro s s' t inp events hi hg hs ht hr
    refine .cons ⟨⟨hi, fun p => ?_, fun h => absurd h hs⟩, ht⟩ hr
    rw [hg]
    exact ⟨Nat.two_pow_pos 31, Nat.two_pow_pos 8⟩
  have hrun : ∃ s, Run (Guarded Answerable (Happens smallServer))
      (connSession (connNew smallServer 4096 .newCmd .tcp) (globalsInit 16)) noopsArrive s ∧ s.c.protocol ≠ .ascii :=
    ⟨_, hstep (by simp) rfl (by decide) rfl <| hstep (by simp) rfl (by decide) rfl <| hstep (by simp) rfl (by decide) rfl <|
      hstep (by simp) rfl (by decide) rfl <| hstep (by simp) rfl (by decide) rfl <| hstep (by simp) rfl (by decide) rfl <|
      hstep (by simp) rfl (by decide) rfl <| hstep (by simp) rfl (by decide) rfl <| hstep (by simp) rfl (by decide) rfl <|
      hstep (by simp) rfl (by decide) rfl <| hstep (by simp) rfl (by decide) rfl <| .nil _, by decide⟩
  obtain ⟨s, hr, hp⟩ := hrun
  exact ⟨s, hr, binary_answers_in_order ⟨by simp [smallServer], by simp [smallServer]⟩ (by simp) hr hp⟩

end RamCube
