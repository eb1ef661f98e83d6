import RamCube.Server.ReferenceRuns

/-! # What calls leave to those who hold references (memcached.c, items.c)

While a connection refers to an item, no call of `do_item_alloc` hands its chunk out and the
chunk is on no freelist, and no count wraps around, in runs whose calls meet no full count
and repair no tail (`references_safe`). -/
namespace RamCube

variable {cfg : Config} {env : Env} {c : Conn} {g : Globals} {t : Session} {all others drafts lost : List Ptr} {it : Ptr}

/-! ## The calls of a line -/

/-- The calls spare those references if they meet what they need. -/
def Keeping (cfg : Settings) (all : List Ptr) (calls : List StoreCall) : Prop := CallsNeed cfg calls → CallsSpare cfg all calls

section

variable {cfg : Settings} {s : Store} {key : Bytes} {calls calls' : List StoreCall}

theorem keeping_nil : Keeping cfg all [] := fun _ => callsSpare_nil

theorem keeping_cons {call : StoreCall} (h : HeldBy cfg call.store all drafts) (h' : call.Needs cfg → Keeping cfg all calls) :
    Keeping cfg all (call :: calls) := fun hn =>
  callsSpare_cons (hn.head.spares h.ok counts_pos) (h' hn.head hn.tail)

theorem keeping_one {call : StoreCall} (h : HeldBy cfg call.store all drafts) : Keeping cfg all [call] :=
  keeping_cons h fun _ => keeping_nil

theorem keeping_append (h : Keeping cfg all calls) (h' : CallsNeed cfg calls → Keeping cfg all calls') :
    Keeping cfg all (calls ++ calls') := fun hn => callsSpare_append (h hn.left) (h' hn.left hn.right)

theorem keeping_if {p : Prop} [Decidable p] (h : p → Keeping cfg all calls) (h' : ¬p → Keeping cfg all calls') :
    Keeping cfg all (if p then calls else calls') := by
  split
  · exact h ‹_›
  · exact h' ‹_›

theorem Keeping.mono {all' : List Ptr} (h : Keeping cfg all calls) (hs : all' ⊆ all) : Keeping cfg all' calls := fun hn call hc =>
  (h hn call hc).mono hs

theorem keeping_get {keys : List Bytes} (h : HeldBy cfg s all drafts) : Keeping cfg all (getCalls cfg keys s) := by
  induction keys generalizing s all with
  | nil => exact keeping_nil
  | cons key keys ih =>
    refine keeping_if (fun _ => keeping_nil) fun _ => keeping_cons h fun hn => ?_
    exact (ih (h.get (hn.roomAt h.ok))).mono (List.subset_append_right _ _)

theorem keeping_itemAlloc {env : AllocEnv} {flags nbytes : Int} {exptime : UInt32} (h : HeldBy cfg s all drafts) :
    Keeping cfg all (itemAllocCalls env s key flags exptime nbytes) :=
  keeping_if (fun _ => keeping_one h) fun _ => keeping_one h

theorem keeping_update {env : AllocEnv} {flags nbytes : Int} {exptime : UInt32} (setting : Bool) (h : HeldBy cfg s all drafts) :
    Keeping cfg all (updateCalls cfg env s key flags exptime nbytes setting) := by
  refine keeping_append (keeping_itemAlloc h) fun hn => ?_
  rcases he : itemAlloc cfg env s key flags exptime nbytes with _ | ⟨s', _ | it⟩
  · exact keeping_nil
  · obtain rfl := itemAlloc_same h hn he
    exact keeping_if (fun _ => keeping_one h) fun _ => keeping_nil
  · exact keeping_nil

theorem keeping_store {env : AllocEnv} {comm : NRead} (h : HeldBy cfg s all drafts) :
    Keeping cfg all (storeCalls cfg env s it comm) := fun hn => storeCalls_spare h.ok hn counts_pos

theorem keeping_delta {env : AllocEnv} {incr : Bool} {delta cas : UInt64} (h : HeldBy cfg s all drafts) :
    Keeping cfg all (deltaCalls cfg env s key incr delta cas) := fun hn => deltaCalls_spare h.ok hn counts_pos

end

theorem keeping_line {tokens : Tokens} (h : HeldBy cfg.toSettings g.store all drafts) :
    Keeping cfg.toSettings all (lineCalls cfg env c g tokens) := by
  unfold lineCalls
  cases handlerOf tokens with
  | get returnCas => exact keeping_get h
  | update comm handleCas =>
    refine keeping_if (fun _ => keeping_nil) fun _ => ?_
    split
    · exact keeping_if (fun _ => keeping_nil) fun _ => keeping_update _ h
    · exact keeping_nil
  | arithmetic incr =>
    refine keeping_if (fun _ => keeping_nil) fun _ => ?_
    split
    · exact keeping_delta h
    · exact keeping_nil
  | delete => exact keeping_if (fun _ => keeping_nil) fun _ => keeping_if (fun _ => keeping_nil) fun _ => keeping_one h
  | touch =>
    refine keeping_if (fun _ => keeping_nil) fun _ => ?_
    split
    · exact keeping_one h
    · exact keeping_nil
  | stats | flushAll | version | quit | slabs | verbosity | other => exact keeping_nil

/-! ## The calls of data that is complete -/

theorem keeping_value {s : Store} (h : HeldBy cfg.toSettings s all drafts) : Keeping cfg.toSettings all (valueCalls cfg env c s) := by
  unfold valueCalls
  split
  · exact keeping_store h
  · exact keeping_nil

theorem keeping_initial {s : Store} (h : HeldBy cfg.toSettings s all drafts) : Keeping cfg.toSettings all (initialCalls cfg env c s) := by
  refine keeping_if (fun _ => keeping_nil) fun _ => keeping_cons h fun hn => ?_
  rcases he : doItemAlloc cfg.toSettings (env.alloc s) s c.binKey 0 (realtime cfg.processStarted s (c.bodyField 16 4))
    INCR_MAX_STORAGE_LEN 0 with ⟨s', _ | it⟩
  · exact keeping_nil
  · have hnew := (h.alloc hn.guard he).write List.mem_cons_self 0 (decimal (c.bodyField 8 8) ++ [0])
    exact (keeping_store hnew).mono (List.subset_cons_self it all)

theorem keeping_incr (h : HeldBy cfg.toSettings g.store all drafts) : Keeping cfg.toSettings all (incrCalls cfg env c g) := by
  refine keeping_append (keeping_delta h) fun hn => ?_
  have hd : HeldBy cfg.toSettings (addDelta cfg env g c.binKey (c.cmd = CMD_INCREMENT) (UInt64.ofNat (c.bodyField 0 8))
      c.binaryHeader.cas).1.store all drafts := h.delta hn
  exact keeping_if (fun _ => keeping_initial hd) fun _ => keeping_nil

theorem keeping_block (hst : c.state = .nread) (hs : Steady c) (h : HeldBy cfg.toSettings g.store (c.refs ++ others) (c.draft ++ drafts)) :
    Keeping cfg.toSettings (c.refs ++ others) (blockCalls cfg env c g) := by
  refine keeping_if (fun hb => ?_) fun hb => ?_
  · cases hsub : c.substate with
    | readingSetHeader => exact keeping_if (fun _ => keeping_itemAlloc h) fun _ => keeping_update _ h
    | readSetValue =>
      obtain hp | ⟨it, hi⟩ := hs hst
      · exact absurd (by simp [hsub]) hp.substate
      · rw [hi.draft hst] at h
        dsimp only
        rw [hi.item]
        exact keeping_value (h.ended List.mem_cons_self)
    | readingGetKey | readingTouchKey | readingDelHeader => exact keeping_one h
    | readingIncrHeader => exact keeping_incr h
    | readingSaslAuth => exact keeping_if (fun _ => keeping_nil) fun _ => keeping_itemAlloc h
    | noState | readingStat | readFlushExptime | readingSaslAuthData => exact keeping_nil
  · split
    · exact keeping_if (fun _ => keeping_value h) fun _ => keeping_nil
    · exact keeping_nil

theorem keeping_turn {inp : Input} (h : Accounts cfg others drafts t.c t.g) :
    Keeping cfg.toSettings (t.c.refs ++ others) (turnCalls cfg env t inp) := by
  refine keeping_if (fun _ => keeping_line h.rest) fun _ => keeping_if (fun hb => ?_) fun _ => keeping_nil
  exact keeping_block hb.2.1 h.steady h.held

/-! ## Runs -/

theorem ServerOk.keeping {S : Server} {op : ServerOp} (h : ServerOk cfg S lost) :
    Keeping cfg.toSettings (refsOf S.conns) (S.calls cfg op) := by
  cases op with
  | turn i env inp =>
    cases ht : S.conn i with
    | none =>
      simp only [Server.calls, ht]
      exact keeping_nil
    | some t =>
      simp only [Server.calls, ht]
      obtain ⟨l₁, u, l₂, hl, rfl, _⟩ := conn_split ht
      obtain ⟨g, conns⟩ := S
      dsimp only at hl h ⊢
      subst hl
      refine (keeping_turn (t := { u with g := g }) h.accounts).mono fun p hp => ?_
      rw [refsOf_middle] at hp
      simp only [List.mem_append] at hp ⊢
      tauto
  | connect | reply | tick | expand | migrate => exact keeping_nil

/-- The references of the connections are counted, beside forgotten ones, and what they refer to
is on no freelist. -/
structure ReferencesSafe (S : Server) : Prop where
  counted : ∃ forgotten, ∀ p, (S.g.store.mem p).refcount = (if (S.g.store.mem p).linked then 1 else 0) +
    (refsOf S.conns ++ forgotten).count p
  kept : ∀ p ∈ refsOf S.conns, ∀ id, p ∉ S.g.store.slots id

theorem ServerOk.safe {S : Server} (h : ServerOk cfg S lost) : ReferencesSafe S := by
  have hcount := h.held.ok.refcount_eq
  refine ⟨⟨lost, hcount⟩, fun p hp => (h.held.ok.off_of_pos ?_).2⟩
  have hpos := counts_pos p (List.mem_append_left lost hp)
  have hp := hcount p
  omega

/-- No count is full where it is raised, no tail repair fires, and no negative length is granted
a chunk: then in every state of a run
the references are counted and what they refer to stays out of the freelists, and no call of the
next step wraps a count around or hands out what a connection refers to. -/
theorem references_safe {n : Nat} {ops : List ServerOp} {S : Server}
    (hr : Run (Guarded (ServerNeeds cfg) (ServerStep cfg)) (serverInit n) ops S) :
    ReferencesSafe S ∧ ∀ op, ServerNeeds cfg S op → CallsSpare cfg.toSettings (refsOf S.conns) (S.calls cfg op) := by
  have hinv : ∃ lost, ServerOk cfg S lost := by
    refine hr.invariant_of_guard (I := fun S => ∃ lost, ServerOk cfg S lost) ?_ ⟨[], serverOk_init cfg n⟩
    rintro S op S' ⟨lost, hok⟩ hn hs
    obtain ⟨lost', hok', _⟩ := hok.step hn hs
    exact ⟨lost' ++ lost, hok'⟩
  obtain ⟨lost, hok⟩ := hinv
  exact ⟨hok.safe, fun _ hn => hok.keeping hn⟩

/-! ### A client that reads slowly -/

def shortCounts : Config := { smallServer with refMod := 2 ^ 16, counts := .inr rfl }

def pageless : Env := { roomyEnv with alloc := fun _ => ⟨fun _ => true, none⟩ }

/-- A client does not read the value it asked for, and later another one sets a key. -/
def lateReader (now : UInt32) : List ServerOp :=
  oneKey ++ [.tick now, .connect (connNew shortCounts 8192 .read .tcp) .read .tcp, .turn 1 pageless .event,
    .turn 1 pageless (.data (ascii "set j 0 0 1 noreply\r\ny\r\n")), .turn 1 pageless .go]

/-- Ten minutes later the other client is given another chunk. -/
theorem references_safe_soon : ∃ S, Run (ServerStep shortCounts) (serverInit 16) (lateReader 600) S ∧ ReferencesSafe S ∧
    firstItem S = (2, true, [7096, 6096]) := by
  have hchecks : (∀ k : Fin (lateReader 600).length, ∀ S ∈ served shortCounts ((lateReader 600).take k),
        ServerNeeds shortCounts S ((lateReader 600).get k)) ∧
      (served shortCounts (lateReader 600)).map firstItem = some (2, true, [7096, 6096]) := by
    decide +kernel
  obtain ⟨S, hs, hitem⟩ := Option.map_eq_some_iff.mp hchecks.2
  have hrun : Run (Guarded (ServerNeeds shortCounts) (ServerStep shortCounts)) (serverInit 16) (lateReader 600) S :=
    run_served hs hchecks.1
  exact ⟨S, hrun.unguard, (references_safe hrun).1, hitem⟩

/-- The pages that are granted are new. -/
def PagesNew (cfg : Config) (S : Server) (op : ServerOp) : Prop := ∀ call ∈ S.calls cfg op, FreshPage call.store call.newslab

instance (cfg : Config) (S : Server) (op : ServerOp) : Decidable (PagesNew cfg S op) :=
  inferInstanceAs (Decidable (∀ call ∈ S.calls cfg op, _))

/-- Five hours later tail repair takes the item away from its reader, and the other client is
given its chunk. -/
theorem references_not_safe : ¬∀ (ops : List ServerOp) (S : Server),
    Run (Guarded (PagesNew shortCounts) (ServerStep shortCounts)) (serverInit 16) ops S →
      ReferencesSafe S ∧ ∀ op, PagesNew shortCounts S op → CallsSpare shortCounts.toSettings (refsOf S.conns) (S.calls shortCounts op) := by
  intro hall
  have hchecks : (∀ k : Fin (lateReader 20000).length, ∀ S ∈ served shortCounts ((lateReader 20000).take k),
        PagesNew shortCounts S ((lateReader 20000).get k)) ∧
      (served shortCounts (lateReader 20000)).map firstItem = some (1, false, [7096, 7096]) := by
    decide +kernel
  obtain ⟨S, hs, hitem⟩ := Option.map_eq_some_iff.mp hchecks.2
  obtain ⟨⟨forgotten, hcounted⟩, _⟩ := (hall (lateReader 20000) S (run_served hs hchecks.1)).1
  have hcount := hcounted 7096
  simp only [firstItem, Prod.mk.injEq] at hitem
  obtain ⟨hrefcount, hlinked, hrefs⟩ := hitem
  rw [hrefcount, hlinked, hrefs, if_neg Bool.false_ne_true] at hcount
  simp only [List.count_append, List.count_cons_self] at hcount
  omega

end RamCube
