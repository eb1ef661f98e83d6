import RamCube.Backup.Protocol

/-! # Client sessions and the structures that stand for them

The pointer that goes to a backup and back is the address of a `conn`. The structure
outlives its session: it waits on the free list for the next client. Sessions are
numbered in the order they are accepted; the numbers and the list of STORED lines are
kept for the statements only. Clients are taken to disconnect while the server waits for
a command, when the event of the `conn` already waits for input. -/
namespace RamCube

structure ConnStruct where
  sfd : Nat
  noreply : Bool
  /-- Is its event registered? -/
  active : Bool

/-- A record whose backup has not answered: who stored it, and the answer to come. -/
structure Unanswered where
  issuer : Nat
  text : Bytes

/-- A STORED line on its way to a client. -/
structure StoredLine where
  issuer : Nat
  session : Nat

structure Sessions where
  /-- the structures, by address; none where there is none, or it was freed -/
  conns : Nat → Option ConnStruct
  /-- the last one added first -/
  freeconns : List Nat
  /-- the session at the other end of an open descriptor -/
  sockets : Nat → Option Nat
  nextSession : Nat
  unanswered : List Unanswered
  written : List StoredLine

def initSessions : Sessions where
  conns := fun _ => none
  freeconns := []
  sockets := fun _ => none
  nextSession := 0
  unanswered := []
  written := []

inductive SessionEvent where
  /-- `accept` returns `sfd`; `addr` is what `calloc` returns if the free list is empty -/
  | connect (sfd addr : Nat)
  /-- a storage command with the result STORED -/
  | store (c : Nat) (noreply : Bool)
  /-- any other command, answered at once -/
  | answer (c : Nat)
  /-- the client is gone; `big` if the structure is freed for its buffers, or for want of
  room in the list -/
  | disconnect (c : Nat) (big : Bool)
  /-- one of the answers to come is read -/
  | reply (i : Nat)

namespace Sessions

variable (s : Sessions)

def setConn (c : Nat) (k : Option ConnStruct) : Sessions :=
  { s with conns := Function.update s.conns c k }

/-- `conn_from_freelist` -/
def connFromFreelist : Option Nat × Sessions :=
  match s.freeconns with
  | c :: rest => (some c, { s with freeconns := rest })
  | [] => (none, s)

def connAddToFreelist (c : Nat) : Sessions := { s with freeconns := c :: s.freeconns }

/-- `conn_new` for a socket just accepted. -/
def connNew (sfd addr : Nat) : Sessions :=
  let (c, s) := s.connFromFreelist
  let s := s.setConn (c.getD addr) (some { sfd := sfd, noreply := false, active := true })
  { s with
    sockets := Function.update s.sockets sfd (some s.nextSession)
    nextSession := s.nextSession + 1 }

/-- `conn_close`: the socket is closed, whosever it is by now, and the structure goes to
the free list, or is freed. -/
def connClose (c : Nat) (k : ConnStruct) (big : Bool) : Sessions :=
  let s := { s with sockets := Function.update s.sockets k.sfd none }
  if big then s.setConn c none
  else (s.setConn c (some { k with active := false })).connAddToFreelist c

/-- `ramcube_post_set_data`: the record goes out under the address of `c`, and the backup
answers with it. -/
def postSetData (c : Nat) (noreply : Bool) : Option Sessions := do
  let k ← s.conns c
  let session ← s.sockets k.sfd
  let s := s.setConn c (some { k with noreply := k.noreply || noreply })
  some { s with unanswered := s.unanswered ++ [⟨session, replyText c⟩] }

/-- `process_command_BACKUP_REPLY`: `out_string` and `drive_machine` on whatever lies at
the address, none if it was freed. A write to a closed socket fails and the connection
is closed, again. -/
def processBackupReply (r : Unanswered) : Option Sessions :=
  match replyConn r.text with
  | none => some s
  | some c => do
    let k ← s.conns c
    if k.noreply then some (s.setConn c (some { k with noreply := false }))
    else match s.sockets k.sfd with
      | some session => some { s with written := s.written ++ [⟨r.issuer, session⟩] }
      | none => some (s.connClose c k false)

def active (c : Nat) : Bool := (s.conns c).any ConnStruct.active

def step : SessionEvent → Option Sessions
  | .connect sfd addr =>
    if (s.sockets sfd).isSome ∨ addr = 0 ∨ 2 ^ 64 ≤ addr ∨ (s.conns addr).isSome then none
    else some (s.connNew sfd addr)
  | .store c noreply => if s.active c then s.postSetData c noreply else none
  | .answer c =>
    if s.active c then (s.conns c).map fun k => s.setConn c (some { k with noreply := false })
    else none
  | .disconnect c big =>
    if s.active c then (s.conns c).map fun k => s.connClose c k big else none
  | .reply i => do
    let r ← s.unanswered[i]?
    processBackupReply { s with unanswered := s.unanswered.eraseIdx i } r

end Sessions

def SessionStep (s : Sessions) (e : SessionEvent) (s' : Sessions) : Prop := s.step e = some s'

/-- A client disconnects only when all its records are answered. -/
def ClosedIdle (s : Sessions) : SessionEvent → Prop
  | .disconnect c _ => ∀ r ∈ s.unanswered, r.text ≠ replyText c
  | _ => True

/-! ## What the server keeps -/

/-- The structure at `c` stands for the session. -/
def Owns (s : Sessions) (c session : Nat) : Prop :=
  ∃ k, s.conns c = some k ∧ k.active = true ∧ s.sockets k.sfd = some session

structure SessionsOk (s : Sessions) : Prop where
  nodup : s.freeconns.Nodup
  /-- structures on the free list stand for no session -/
  free : ∀ c ∈ s.freeconns, s.active c = false
  /-- two structures in use have two sockets -/
  socket : ∀ c c' k k', s.conns c = some k → k.active = true → s.conns c' = some k' →
    k'.active = true → k.sfd = k'.sfd → c = c'
  /-- and their sockets are open -/
  opened : ∀ c k, s.conns c = some k → k.active = true → ∃ session, Owns s c session
  unanswered : ∀ r ∈ s.unanswered, ∃ c, r.text = replyText c ∧ Owns s c r.issuer
  written : ∀ l ∈ s.written, l.session = l.issuer

section

variable {s s' : Sessions} {c session : Nat}

theorem sessionsOk_init : SessionsOk initSessions := by
  refine ⟨List.nodup_nil, ?_, ?_, ?_, ?_, ?_⟩ <;> simp [initSessions]

theorem Owns.active (h : Owns s c session) : s.active c = true := by
  obtain ⟨k, hk, ha, _⟩ := h
  simp [Sessions.active, hk, ha]

/-- A change of one structure that keeps its socket and its event. -/
theorem Owns.setConn {k : ConnStruct} (h : Owns s c session) (d : Nat) (k' : ConnStruct) (hk : s.conns d = some k)
    (hf : k'.sfd = k.sfd) (ha : k'.active = k.active) : Owns (s.setConn d (some k')) c session := by
  obtain ⟨j, hj, hja, hjs⟩ := h
  by_cases hcd : c = d
  · subst hcd
    obtain rfl : k = j := Option.some.inj (hk.symm.trans hj)
    exact ⟨k', by simp [Sessions.setConn], ha.trans hja, by rw [hf]; exact hjs⟩
  · exact ⟨j, by simp [Sessions.setConn, hcd, hj], hja, hjs⟩

/-- What the invariant says but for the replies, about a structure that keeps its socket
and its event. -/
theorem SessionsOk.setConn {k : ConnStruct} (h : SessionsOk s) (k' : ConnStruct) (hk : s.conns c = some k)
    (hf : k'.sfd = k.sfd) (ha : k'.active = k.active) : SessionsOk (s.setConn c (some k')) := by
  have hback : ∀ d j, (s.setConn c (some k')).conns d = some j →
      ∃ i, s.conns d = some i ∧ i.sfd = j.sfd ∧ i.active = j.active := by
    intro d j hj
    by_cases hdc : d = c
    · subst hdc
      simp only [Sessions.setConn, Function.update_self, Option.some.injEq] at hj
      subst hj
      exact ⟨k, hk, hf.symm, ha.symm⟩
    · simp only [Sessions.setConn, Function.update_of_ne hdc] at hj
      exact ⟨j, hj, rfl, rfl⟩
  refine ⟨h.nodup, fun d hd => ?_, fun d d' j j' hj hja hj' hja' hsfd => ?_, fun d j hj hja => ?_,
    fun r hr => ?_, h.written⟩
  · have hoff := h.free d hd
    unfold Sessions.active at hoff ⊢
    by_cases hdc : d = c
    · subst hdc
      rw [hk] at hoff
      simpa [Sessions.setConn, ha] using hoff
    · simpa [Sessions.setConn, hdc] using hoff
  · obtain ⟨i, hi, hif, hia⟩ := hback d j hj
    obtain ⟨i', hi', hif', hia'⟩ := hback d' j' hj'
    exact h.socket d d' i i' hi (hia.trans hja) hi' (hia'.trans hja')
      (hif.trans (hsfd.trans hif'.symm))
  · obtain ⟨i, hi, _, hia⟩ := hback d j hj
    obtain ⟨session, ho⟩ := h.opened d i hi (hia.trans hja)
    exact ⟨session, ho.setConn c k' hk hf ha⟩
  · obtain ⟨d, ht, ho⟩ := h.unanswered r hr
    exact ⟨d, ht, ho.setConn c k' hk hf ha⟩

/-- The structure a new session gets was in no use. -/
theorem connNew_fields (h : SessionsOk s) (sfd : Nat) {addr : Nat} (haddr : s.conns addr = none) :
    ∃ d, s.active d = false ∧
      (s.connNew sfd addr).conns = Function.update s.conns d (some ⟨sfd, false, true⟩) ∧
      (s.connNew sfd addr).sockets = Function.update s.sockets sfd (some s.nextSession) ∧
      (s.connNew sfd addr).freeconns = s.freeconns.tail ∧ d ∉ s.freeconns.tail ∧
      (s.connNew sfd addr).unanswered = s.unanswered ∧
      (s.connNew sfd addr).written = s.written := by
  unfold Sessions.connNew Sessions.connFromFreelist
  cases hf : s.freeconns with
  | nil => exact ⟨addr, by simp [Sessions.active, haddr], rfl, rfl, hf, List.not_mem_nil, rfl, rfl⟩
  | cons d rest =>
    have hnd := h.nodup
    rw [hf] at hnd
    exact ⟨d, h.free d (by simp [hf]), rfl, rfl, rfl, (List.nodup_cons.mp hnd).1, rfl, rfl⟩

theorem SessionsOk.connNew (h : SessionsOk s) {sfd addr : Nat} (hsfd : s.sockets sfd = none)
    (haddr : s.conns addr = none) : SessionsOk (s.connNew sfd addr) := by
  obtain ⟨d, hd, hconns, hsockets, hfree, hnot, hun, hw⟩ := connNew_fields h sfd haddr
  -- no structure in use has the new descriptor
  have hother : ∀ c k, s.conns c = some k → k.active = true → c ≠ d ∧ k.sfd ≠ sfd := by
    intro c k hk ha
    obtain ⟨session, k', hk', _, hs⟩ := h.opened c k hk ha
    obtain rfl : k = k' := Option.some.inj (hk.symm.trans hk')
    refine ⟨fun hcd => ?_, fun hf => ?_⟩
    · rw [← hcd] at hd
      simp [Sessions.active, hk, ha] at hd
    · rw [hf, hsfd] at hs
      cases hs
  have howns : ∀ {c session}, Owns s c session → Owns (s.connNew sfd addr) c session := by
    intro c session ⟨k, hk, ha, hs⟩
    obtain ⟨hc, hf⟩ := hother c k hk ha
    exact ⟨k, by simp [hconns, hc, hk], ha, by simp [hsockets, hf, hs]⟩
  have hnew : Owns (s.connNew sfd addr) d s.nextSession :=
    ⟨⟨sfd, false, true⟩, by simp [hconns], rfl, by simp [hsockets]⟩
  have hat : ∀ c k, (s.connNew sfd addr).conns c = some k → k.active = true →
      c = d ∧ k.sfd = sfd ∨ s.conns c = some k := by
    intro c k hk ha
    by_cases hcd : c = d
    · simp only [hconns, hcd, Function.update_self, Option.some.injEq] at hk
      exact .inl ⟨hcd, hk ▸ rfl⟩
    · simp only [hconns, Function.update_of_ne hcd] at hk
      exact .inr hk
  refine ⟨hfree ▸ h.nodup.tail, fun c hc => ?_, fun c c' k k' hk ha hk' ha' hf => ?_,
    fun c k hk ha => ?_, fun r hr => ?_, ?_⟩
  · rw [hfree] at hc
    have hcd : c ≠ d := fun he => hnot (he ▸ hc)
    have hoff := h.free c (List.mem_of_mem_tail hc)
    unfold Sessions.active at hoff ⊢
    rwa [hconns, Function.update_of_ne hcd]
  · rcases hat c k hk ha with ⟨hc, hs⟩ | hk
    · rcases hat c' k' hk' ha' with ⟨hc', _⟩ | hk'
      · exact hc.trans hc'.symm
      · exact absurd (hf.symm.trans hs) (hother c' k' hk' ha').2
    · rcases hat c' k' hk' ha' with ⟨_, hs'⟩ | hk'
      · exact absurd (hf.trans hs') (hother c k hk ha).2
      · exact h.socket c c' k k' hk ha hk' ha' hf
  · rcases hat c k hk ha with ⟨hc, _⟩ | hk
    · exact ⟨_, hc ▸ hnew⟩
    · obtain ⟨session, ho⟩ := h.opened c k hk ha
      exact ⟨session, howns ho⟩
  · rw [hun] at hr
    obtain ⟨c, ht, ho⟩ := h.unanswered r hr
    exact ⟨c, ht, howns ho⟩
  · rw [hw]
    exact h.written

theorem connClose_fields (s : Sessions) (c : Nat) (k : ConnStruct) (big : Bool) :
    (∀ d, d ≠ c → (s.connClose c k big).conns d = s.conns d) ∧ (s.connClose c k big).active c = false ∧
      (s.connClose c k big).sockets = Function.update s.sockets k.sfd none ∧
      (∀ d ∈ (s.connClose c k big).freeconns, d = c ∨ d ∈ s.freeconns) ∧
      (s.connClose c k big).freeconns.Nodup = (if big then s.freeconns else c :: s.freeconns).Nodup ∧
      (s.connClose c k big).unanswered = s.unanswered ∧ (s.connClose c k big).written = s.written := by
  unfold Sessions.connClose
  cases big with
  | true =>
    refine ⟨fun d hd => by simp [Sessions.setConn, hd], by simp [Sessions.active, Sessions.setConn],
      rfl, fun d hd => .inr hd, rfl, rfl, rfl⟩
  | false =>
    refine ⟨fun d hd => by simp [Sessions.setConn, Sessions.connAddToFreelist, hd],
      by simp [Sessions.active, Sessions.setConn, Sessions.connAddToFreelist], rfl,
      fun d hd => List.mem_cons.mp hd, rfl, rfl, rfl⟩

/-- A structure for which no answer is to come may be closed. -/
theorem SessionsOk.connClose {k : ConnStruct} (h : SessionsOk s) (hk : s.conns c = some k)
    (ha : k.active = true) (hidle : ∀ r ∈ s.unanswered, r.text ≠ replyText c) (big : Bool) :
    SessionsOk (s.connClose c k big) := by
  obtain ⟨hconns, hoff, hsockets, hfree, hnodup, hun, hw⟩ := connClose_fields s c k big
  have hactive : s.active c = true := by simp [Sessions.active, hk, ha]
  have hcfree : c ∉ s.freeconns := fun hc => by simp [h.free c hc] at hactive
  have hat : ∀ d j, (s.connClose c k big).conns d = some j → j.active = true →
      d ≠ c ∧ s.conns d = some j := by
    intro d j hj hja
    have hdc : d ≠ c := by
      rintro rfl
      simp [Sessions.active, hj, hja] at hoff
    exact ⟨hdc, hconns d hdc ▸ hj⟩
  have howns : ∀ {d session}, d ≠ c → Owns s d session → Owns (s.connClose c k big) d session := by
    intro d session hdc ⟨j, hj, hja, hs⟩
    have hf : j.sfd ≠ k.sfd := fun hf => hdc (h.socket d c j k hj hja hk ha hf)
    exact ⟨j, (hconns d hdc).trans hj, hja, by simp [hsockets, hf, hs]⟩
  refine ⟨?_, fun d hd => ?_, fun d d' j j' hj hja hj' hja' hf => ?_, fun d j hj hja => ?_,
    fun r hr => ?_, hw ▸ h.written⟩
  · rw [hnodup]
    split
    · exact h.nodup
    · exact List.nodup_cons.mpr ⟨hcfree, h.nodup⟩
  · by_cases hdc : d = c
    · exact hdc ▸ hoff
    · unfold Sessions.active
      rw [hconns d hdc]
      exact h.free d ((hfree d hd).resolve_left hdc)
  · exact h.socket d d' j j' (hat d j hj hja).2 hja (hat d' j' hj' hja').2 hja' hf
  · obtain ⟨hdc, hj'⟩ := hat d j hj hja
    obtain ⟨session, ho⟩ := h.opened d j hj' hja
    exact ⟨session, howns hdc ho⟩
  · rw [hun] at hr
    obtain ⟨d, ht, ho⟩ := h.unanswered r hr
    refine ⟨d, ht, howns (fun hdc => hidle r hr (hdc ▸ ht)) ho⟩

theorem SessionsOk.postSetData {noreply : Bool} (h : SessionsOk s) (ha : s.active c = true)
    (hs : s.postSetData c noreply = some s') : SessionsOk s' := by
  simp only [Sessions.postSetData, Option.bind_eq_bind, Option.bind_eq_some_iff, Option.some.injEq] at hs
  obtain ⟨k, hk, session, hsession, rfl⟩ := hs
  have hka : k.active = true := by simpa [Sessions.active, hk] using ha
  have hset := h.setConn { k with noreply := k.noreply || noreply } hk rfl rfl
  refine ⟨hset.nodup, hset.free, hset.socket, hset.opened, fun r hr => ?_, h.written⟩
  obtain hr | hr := List.mem_append.mp hr
  · exact hset.unanswered r hr
  · rw [List.mem_singleton.mp hr]
    have howns : Owns s c session := ⟨k, hk, hka, hsession⟩
    exact ⟨c, rfl, howns.setConn c { k with noreply := k.noreply || noreply } hk rfl rfl⟩

/-- An answer finds the structure in the use of the session that stored the record. -/
theorem SessionsOk.reply {r : Unanswered} (h : SessionsOk s) (hr : ∃ d, r.text = replyText d ∧ Owns s d r.issuer)
    (hs : s.processBackupReply r = some s') : SessionsOk s' := by
  obtain ⟨d, ht, k, hk, ha, hsession⟩ := hr
  simp only [Sessions.processBackupReply, ht, replyConn_replyText, Option.bind_eq_bind, hk,
    Option.bind_some, hsession] at hs
  split at hs
  · cases hs
    exact h.setConn _ hk rfl rfl
  · cases hs
    refine ⟨h.nodup, h.free, h.socket, h.opened, h.unanswered, fun l hl => ?_⟩
    obtain hl | hl := List.mem_append.mp hl
    · exact h.written l hl
    · rw [List.mem_singleton.mp hl]

theorem SessionsOk.step {e : SessionEvent} (h : SessionsOk s) (hcond : ClosedIdle s e)
    (hs : SessionStep s e s') : SessionsOk s' := by
  unfold SessionStep at hs
  cases e with
  | connect sfd addr =>
    simp only [Sessions.step, Option.ite_none_left_eq_some, Option.some.injEq, not_or,
      Bool.not_eq_true, Option.isSome_eq_false_iff, Option.isNone_iff_eq_none] at hs
    obtain ⟨⟨hsfd, _, _, haddr⟩, rfl⟩ := hs
    exact h.connNew hsfd haddr
  | store c noreply =>
    simp only [Sessions.step, Option.ite_none_right_eq_some] at hs
    exact h.postSetData hs.1 hs.2
  | answer c =>
    simp only [Sessions.step, Option.ite_none_right_eq_some, Option.map_eq_some_iff] at hs
    obtain ⟨_, k, hk, rfl⟩ := hs
    exact h.setConn _ hk rfl rfl
  | disconnect c big =>
    simp only [Sessions.step, Option.ite_none_right_eq_some, Option.map_eq_some_iff] at hs
    obtain ⟨ha, k, hk, rfl⟩ := hs
    have hka : k.active = true := by simpa [Sessions.active, hk] using ha
    exact h.connClose hk hka hcond big
  | reply i =>
    simp only [Sessions.step, Option.bind_eq_bind, Option.bind_eq_some_iff] at hs
    obtain ⟨r, hr, hs⟩ := hs
    have hrest : SessionsOk { s with unanswered := s.unanswered.eraseIdx i } :=
      ⟨h.nodup, h.free, h.socket, h.opened,
        fun r' hr' => h.unanswered r' ((List.eraseIdx_sublist _ _).subset hr'), h.written⟩
    exact hrest.reply (h.unanswered r (List.mem_of_getElem? hr)) hs

end

/-- In every run in which clients disconnect only when their records are answered, a STORED
line goes to the session that issued the command. -/
theorem stored_to_issuer {events : List SessionEvent} {s : Sessions}
    (hr : Run (Guarded ClosedIdle SessionStep) initSessions events s) :
    ∀ l ∈ s.written, l.session = l.issuer :=
  (hr.invariant_of_guard (I := SessionsOk) (fun _ _ _ h hc hs => h.step hc hs) sessionsOk_init).written

/-- Two clients, one after the other on the same structure, store a value and are told so. -/
theorem stored_to_issuer_two : ∃ s, Run (Guarded ClosedIdle SessionStep) initSessions
    [.connect 30 4096, .store 4096 false, .reply 0, .disconnect 4096 false, .connect 31 8192, .store 4096 false, .reply 0] s ∧
      s.written.map StoredLine.session = [0, 1] ∧ ∀ l ∈ s.written, l.session = l.issuer := by
  have hr : Run (Guarded ClosedIdle SessionStep) initSessions
      [.connect 30 4096, .store 4096 false, .reply 0, .disconnect 4096 false, .connect 31 8192, .store 4096 false, .reply 0] _ :=
    .cons ⟨trivial, rfl⟩ (.cons ⟨trivial, rfl⟩ (.cons ⟨trivial, rfl⟩ (.cons ⟨List.forall_mem_nil _, rfl⟩
      (.cons ⟨trivial, rfl⟩ (.cons ⟨trivial, rfl⟩ (.single ⟨trivial, rfl⟩))))))
  exact ⟨_, hr, rfl, stored_to_issuer hr⟩

/-- A client disconnects before the answer to its record, and the next client gets its
structure, and its STORED line. -/
theorem stored_to_next_session : ∃ s l, Run SessionStep initSessions
    [.connect 30 4096, .store 4096 false, .disconnect 4096 false, .connect 31 8192, .reply 0] s ∧
      l ∈ s.written ∧ l.issuer = 0 ∧ l.session = 1 := by
  refine ⟨_, ⟨0, 1⟩, .cons rfl (.cons rfl (.cons rfl (.cons rfl (.single rfl)))), ?_, rfl, rfl⟩
  exact List.mem_singleton.mpr rfl

end RamCube
