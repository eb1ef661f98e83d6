import RamCube.Server.ReferenceTurns

/-! # All references of a server (memcached.c, ramcube.c)

Any number of connections take turns on one store. A reference is recorded by the connection
that took it until it is given back, but for those that a turn forgets
(`references_recorded`). -/
namespace RamCube

variable {cfg : Config} {lost : List Ptr} {t t' : Session}

/-! ## A server and its connections -/

/-- The shared state, and the connections, whose own copies of it are out of date between
their turns. -/
structure Server where
  g : Globals
  conns : List Session

/-- `conn_new` with a structure from the freelist. -/
def connAgain (cfg : Config) (old : Conn) (initState : ConnState) (transport : Transport) : Conn :=
  { old with
    transport := transport
    protocol := cfg.bindingProtocol
    state := initState
    writeAndGo := initState
    rbuf := []
    ritem := .packet []
    rlbytes := 0
    item := none
    icurr := 0
    ileft := 0
    out := []
    noreply := false
    cmd := -1
    mType := .DATA_SERVER
    dataConnPtr := 0 }

inductive ServerOp where
  /-- a turn of the connection `i` -/
  | turn (i : Nat) (env : Env) (inp : Input)
  | connect (old : Conn) (initState : ConnState) (transport : Transport)
  /-- `process_command_BACKUP_REPLY` for the connection `i` -/
  | reply (i : Nat)
  | tick (now : UInt32)
  | expand (callocOk : Bool)
  | migrate

/-- `out_string` and `drive_machine`, as a backup that replies has them called. -/
def backupReplied (cfg : Config) (t : Session) : Session :=
  { t with c := outString t.c (ascii "STORED"), stop := false, nreqs := cfg.reqsPerEvent }

namespace Server

variable (cfg : Config) (S : Server)

/-- The connection `i`, as its turn finds it. -/
def conn (i : Nat) : Option Session := S.conns[i]?.map fun t => { t with g := S.g }

def setStore (s : Store) : Server := { S with g := { S.g with store := s } }

def step : ServerOp → Option Server
  | .turn i env inp => do
    let t ← S.conn i
    let t ← t.turn cfg env inp
    some ⟨t.g, S.conns.set i t⟩
  | .connect old initState transport =>
    if initState = .newCmd ∨ initState = .read then
      some { S with conns := S.conns ++ [connSession (connAgain cfg old initState transport) S.g] }
    else none
  | .reply i =>
    if cfg.ramcubeMode then (S.conn i).map fun t => { S with conns := S.conns.set i (backupReplied cfg t) } else none
  | .tick now => if S.g.store.currentTime ≤ now then some (S.setStore { S.g.store with currentTime := now }) else none
  | .expand callocOk =>
    let assoc := S.g.store.assoc
    if assoc.expanding = false ∧ (callocOk = true → assoc.hashpower ≤ 30) then
      some (S.setStore { S.g.store with assoc := assocExpand assoc callocOk })
    else none
  | .migrate =>
    let s := S.g.store
    if s.assoc.expanding = true then some (S.setStore { s with assoc := migrateBucket cfg.hash s.key s.assoc }) else none

end Server

/-- A server that starts. -/
def serverInit (hashpower : Nat) : Server := ⟨globalsInit hashpower, []⟩

/-! ## The references of all connections -/

def refsOf (conns : List Session) : List Ptr := conns.flatMap fun t => t.c.refs

def draftsOf (conns : List Session) : List Ptr := conns.flatMap fun t => t.c.draft

/-- The references are those that the connections record, and the `lost` ones. -/
structure ServerOk (cfg : Config) (S : Server) (lost : List Ptr) : Prop where
  held : HeldBy cfg.toSettings S.g.store (refsOf S.conns ++ lost) (draftsOf S.conns)
  steady : ∀ t ∈ S.conns, Steady t.c
  next : ∀ t ∈ S.conns, AnswersOn t.c

/-- The calls of a step. -/
def Server.calls (cfg : Config) (S : Server) : ServerOp → List StoreCall
  | .turn i env inp => match S.conn i with
    | some t => turnCalls cfg env t inp
    | none => []
  | _ => []

/-- A step. Once a chunk is too small for what is written to it, the chunks behind it are
overwritten, and anything may follow. -/
def ServerStep (cfg : Config) (S : Server) (op : ServerOp) (S' : Server) : Prop :=
  S.step cfg op = some S' ∨ ∃ call ∈ S.calls cfg op, call.overruns cfg.toSettings = true

/-- What the calls of a step meet. -/
def ServerNeeds (cfg : Config) (S : Server) (op : ServerOp) : Prop := CallsNeed cfg.toSettings (S.calls cfg op)

instance (cfg : Config) (S : Server) (op : ServerOp) : Decidable (ServerNeeds cfg S op) :=
  inferInstanceAs (Decidable (CallsNeed cfg.toSettings (S.calls cfg op)))

/-- The step forgets no references: its turn does not, and no reply of a backup cuts short an
answer that items are listed for. -/
def ServerRemembers (cfg : Config) (S : Server) : ServerOp → Prop
  | .turn i _ inp => ∀ t ∈ S.conn i, TurnRemembers cfg t inp
  | .reply i => ∀ t ∈ S.conn i, t.c.ileft = 0
  | _ => True

instance (cfg : Config) (S : Server) (op : ServerOp) : Decidable (ServerRemembers cfg S op) :=
  match op with
  | .turn i _ inp => inferInstanceAs (Decidable (∀ t ∈ S.conn i, TurnRemembers cfg t inp))
  | .reply i => inferInstanceAs (Decidable (∀ t ∈ S.conn i, t.c.ileft = 0))
  | .connect .. | .tick _ | .expand _ | .migrate => .isTrue trivial

def AllTidy (S : Server) : Prop := ∀ t ∈ S.conns, Tidy t.c

theorem draftsOf_subset {conns : List Session} (h : ∀ t ∈ conns, Steady t.c) : draftsOf conns ⊆ refsOf conns := by
  intro p hp
  obtain ⟨t, ht, hp⟩ := List.mem_flatMap.mp hp
  exact List.mem_flatMap.mpr ⟨t, ht, (h t ht).draft_subset hp⟩

theorem refsOf_middle (l₁ l₂ : List Session) (t : Session) : refsOf (l₁ ++ t :: l₂) = refsOf l₁ ++ (t.c.refs ++ refsOf l₂) := by
  simp [refsOf]

theorem draftsOf_middle (l₁ l₂ : List Session) (t : Session) :
    draftsOf (l₁ ++ t :: l₂) = draftsOf l₁ ++ (t.c.draft ++ draftsOf l₂) := by
  simp [draftsOf]

/-- A connection that changes its records, and the shared state, as `Accounts` says. -/
theorem ServerOk.set {l₁ l₂ : List Session} {lost' : List Ptr} {g g' : Globals} (h : ServerOk cfg ⟨g, l₁ ++ t :: l₂⟩ lost)
    (ht : Accounts cfg (lost' ++ (refsOf l₁ ++ refsOf l₂ ++ lost)) (draftsOf l₁ ++ draftsOf l₂) t'.c g') :
    ServerOk cfg ⟨g', l₁ ++ t' :: l₂⟩ (lost' ++ lost) := by
  have hmem : ∀ {q : Conn → Prop}, (∀ u ∈ l₁ ++ t :: l₂, q u.c) → q t'.c → ∀ u ∈ l₁ ++ t' :: l₂, q u.c := by
    intro q hq ht' u hu
    obtain hu | hu := List.mem_append.mp hu
    · exact hq u (List.mem_append_left _ hu)
    · obtain rfl | hu := List.mem_cons.mp hu
      · exact ht'
      · exact hq u (List.mem_append_right _ (List.mem_cons_of_mem t hu))
  refine ⟨?_, hmem h.steady ht.steady, hmem h.next ht.next⟩
  dsimp only
  rw [refsOf_middle, draftsOf_middle]
  refine (ht.held.perm ?_).mono fun p hp => ?_
  · rw [List.perm_iff_count]
    intro p
    simp only [List.count_append]
    omega
  · simp only [List.mem_append] at hp ⊢
    tauto

theorem ServerOk.accounts {l₁ l₂ : List Session} {g : Globals} (h : ServerOk cfg ⟨g, l₁ ++ t :: l₂⟩ lost) :
    Accounts cfg (refsOf l₁ ++ refsOf l₂ ++ lost) (draftsOf l₁ ++ draftsOf l₂) t.c g := by
  have hmem : t ∈ l₁ ++ t :: l₂ := List.mem_append_right _ List.mem_cons_self
  refine ⟨?_, h.steady t hmem, h.next t hmem⟩
  have hheld := h.held
  dsimp only at hheld
  rw [refsOf_middle, draftsOf_middle] at hheld
  refine (hheld.perm ?_).mono fun p hp => ?_
  · rw [List.perm_iff_count]
    intro p
    simp only [List.count_append]
    omega
  · simp only [List.mem_append] at hp ⊢
    tauto

/-! ## One step -/

theorem conn_split {S : Server} {i : Nat} (hi : S.conn i = some t) : ∃ l₁ u l₂, S.conns = l₁ ++ u :: l₂ ∧ t = { u with g := S.g } ∧
    ∀ t', S.conns.set i t' = l₁ ++ t' :: l₂ := by
  obtain ⟨u, hu, rfl⟩ := Option.map_eq_some_iff.mp hi
  obtain ⟨hlt, rfl⟩ := List.getElem?_eq_some_iff.mp hu
  refine ⟨S.conns.take i, S.conns[i], S.conns.drop (i + 1), ?_, rfl, fun t' => ?_⟩
  · rw [List.getElem_cons_drop, List.take_append_drop]
  · rw [List.set_eq_take_append_cons_drop, if_pos hlt]

/-- What one connection does. -/
theorem ServerOk.turned {S : Server} {i : Nat} {g' : Globals} {remembers : Prop} (h : ServerOk cfg S lost) (hi : S.conn i = some t)
    (hk : ∀ others drafts, Accounts cfg others drafts t.c t.g → drafts ⊆ others →
      ∃ lost', Accounts cfg (lost' ++ others) drafts t'.c g' ∧ (Tidy t.c → remembers → lost' = [] ∧ Tidy t'.c)) :
    ∃ lost', ServerOk cfg ⟨g', S.conns.set i t'⟩ (lost' ++ lost) ∧
      (AllTidy S → remembers → lost' = [] ∧ AllTidy ⟨g', S.conns.set i t'⟩) := by
  obtain ⟨l₁, u, l₂, hl, rfl, hset⟩ := conn_split hi
  rw [hset]
  obtain ⟨g, conns⟩ := S
  dsimp only at hl h ⊢
  subst hl
  have ha : Accounts cfg _ _ u.c g := h.accounts
  have hsub : draftsOf l₁ ++ draftsOf l₂ ⊆ refsOf l₁ ++ refsOf l₂ ++ lost := by
    have h₁ : draftsOf l₁ ⊆ refsOf l₁ := draftsOf_subset fun t ht => h.steady t (List.mem_append_left _ ht)
    have h₂ : draftsOf l₂ ⊆ refsOf l₂ :=
      draftsOf_subset fun t ht => h.steady t (List.mem_append_right _ (List.mem_cons_of_mem u ht))
    intro p hp
    simp only [List.mem_append] at hp ⊢
    exact .inl (hp.imp (fun hp => h₁ hp) (fun hp => h₂ hp))
  obtain ⟨lost', ha', hlost⟩ := hk _ _ ha hsub
  refine ⟨lost', h.set ha', fun htidy hrem => ?_⟩
  obtain ⟨hz, ht'⟩ := hlost (htidy u (List.mem_append_right _ List.mem_cons_self)) hrem
  refine ⟨hz, fun v hv => ?_⟩
  obtain hv | hv := List.mem_append.mp hv
  · exact htidy v (List.mem_append_left _ hv)
  · obtain rfl | hv := List.mem_cons.mp hv
    · exact ht'
    · exact htidy v (List.mem_append_right _ (List.mem_cons_of_mem u hv))

/-- The answer of a backup, whatever the connection does. -/
theorem backupReplied_keeps {others drafts : List Ptr} (h : Accounts cfg others drafts t.c t.g) :
    ∃ lost', Accounts cfg (lost' ++ others) drafts (backupReplied cfg t).c t.g ∧
      (Tidy t.c → t.c.ileft = 0 → lost' = [] ∧ Tidy (backupReplied cfg t).c) := by
  have hsame := sameRefs_outString t.c (ascii "STORED")
  have hsettled : Settled (outString t.c (ascii "STORED")) := settled_outString _
  refine ⟨[], h.away hsame hsettled.not_nread (outString_proceeds ..).next rfl, fun _ hl => ⟨rfl, ?_⟩⟩
  exact ⟨fun hr => absurd hr hsettled.not_resting, fun hn => absurd hn hsettled.not_nread, fun h => absurd (hsame.ileft.trans hl) h⟩

/-- A step of the store that changes no item. -/
theorem ServerOk.setStore {S : Server} {s : Store} (h : ServerOk cfg S lost) (hok : ∀ held, StoreOk cfg.toSettings S.g.store held →
      StoreOk cfg.toSettings s held) (hm : s.mem = S.g.store.mem) : ServerOk cfg (S.setStore s) lost :=
  ⟨h.held.of_store (hok _ h.held.ok) fun p _ => congrArg (fun m => (m p).linked) hm, h.steady, h.next⟩

/-- A new connection refers to nothing. -/
theorem ServerOk.connect {S : Server} {initState : ConnState} (h : ServerOk cfg S lost) (old : Conn) (transport : Transport)
    (hi : initState = .newCmd ∨ initState = .read) :
    ServerOk cfg { S with conns := S.conns ++ [connSession (connAgain cfg old initState transport) S.g] } lost ∧
      (AllTidy S → AllTidy { S with conns := S.conns ++ [connSession (connAgain cfg old initState transport) S.g] }) := by
  have hne : (connAgain cfg old initState transport).state ≠ .nread ∧ (connAgain cfg old initState transport).state ≠ .write ∧
      (connAgain cfg old initState transport).state ≠ .mwrite := by
    obtain rfl | rfl := hi <;> simp [connAgain]
  have hrefs : (connAgain cfg old initState transport).refs = [] := refs_eq_nil.mpr ⟨rfl, rfl⟩
  have hnew : ∀ {q : Conn → Prop}, (∀ u ∈ S.conns, q u.c) → q (connAgain cfg old initState transport) →
      ∀ u ∈ S.conns ++ [connSession (connAgain cfg old initState transport) S.g], q u.c := by
    intro q hq hc u hu
    obtain hu | hu := List.mem_append.mp hu
    · exact hq u hu
    · obtain rfl := List.mem_singleton.mp hu
      exact hc
  refine ⟨⟨?_, hnew h.steady (.of_state hne.1), hnew h.next (.of_state hne.2.1 hne.2.2)⟩,
    fun ht => hnew ht (.of_empty rfl rfl hne.1)⟩
  have hheld := h.held
  simpa [refsOf, draftsOf, connSession, hrefs, draft_nil hne.1] using hheld

/-- A step keeps count of all references, and loses none where it remembers them. -/
theorem ServerOk.step {S S' : Server} {op : ServerOp} (h : ServerOk cfg S lost) (hn : ServerNeeds cfg S op)
    (hs : ServerStep cfg S op S') : ∃ lost', ServerOk cfg S' (lost' ++ lost) ∧
      (AllTidy S → ServerRemembers cfg S op → lost' = [] ∧ AllTidy S') := by
  obtain hs | ⟨call, hc, ho⟩ := hs
  swap
  · exact absurd ho (Bool.eq_false_iff.mp (hn call hc).inChunk)
  cases op with
  | turn i env inp =>
    simp only [Server.step, Option.bind_eq_bind, Option.bind_eq_some_iff] at hs
    obtain ⟨t, ht, t', hturn, hs⟩ := hs
    cases hs
    have hcalls : CallsNeed cfg.toSettings (turnCalls cfg env t inp) := by
      simpa only [ServerNeeds, Server.calls, ht] using hn
    obtain ⟨lost', hok, hl⟩ := h.turned ht fun _ _ ha hd => turn_keeps ha hd hcalls hturn
    exact ⟨lost', hok, fun htidy hrem => hl htidy (hrem t ht)⟩
  | reply i =>
    simp only [Server.step] at hs
    split at hs
    · obtain ⟨t, ht, hs⟩ := Option.map_eq_some_iff.mp hs
      cases hs
      have hg : t.g = S.g := by
        obtain ⟨u, _, rfl⟩ := Option.map_eq_some_iff.mp ht
        rfl
      obtain ⟨lost', hok, hl⟩ := h.turned ht fun _ _ ha _ => backupReplied_keeps ha
      rw [hg] at hok hl
      exact ⟨lost', hok, fun htidy hrem => hl htidy (hrem t ht)⟩
    · cases hs
  | connect old initState transport =>
    simp only [Server.step] at hs
    split at hs <;> cases hs
    obtain ⟨hok, htidy⟩ := h.connect old transport ‹_›
    exact ⟨[], hok, fun ht _ => ⟨rfl, htidy ht⟩⟩
  | tick now =>
    simp only [Server.step] at hs
    split at hs <;> cases hs
    exact ⟨[], h.setStore (fun _ hok => hok.clock now S.g.store.oldestLive S.g.store.slabRebal) rfl, fun ht _ => ⟨rfl, ht⟩⟩
  | expand callocOk =>
    simp only [Server.step] at hs
    split at hs <;> cases hs
    rename_i hx
    exact ⟨[], h.setStore (fun held hok => (ItemsStep.expand S.g.store held callocOk hx.1 hx.2).keeps hok) rfl, fun ht _ => ⟨rfl, ht⟩⟩
  | migrate =>
    simp only [Server.step] at hs
    split at hs <;> cases hs
    exact ⟨[], h.setStore (fun held hok => (ItemsStep.migrate S.g.store held ‹_›).keeps hok) rfl, fun ht _ => ⟨rfl, ht⟩⟩

/-! ## Runs -/

theorem serverOk_init (cfg : Config) (n : Nat) : ServerOk cfg (serverInit n) [] where
  held := ⟨storeOk_init cfg.toSettings n, by simp [serverInit, draftsOf]⟩
  steady := by simp [serverInit]
  next := by simp [serverInit]

/-- A connection that waits for a command with its output sent, or is closed. -/
def Resting (c : Conn) : Prop := (c.state = .waiting ∨ c.state = .parseCmd) ∧ c.out = [] ∨ c.state = .closed

instance (c : Conn) : Decidable (Resting c) := inferInstanceAs (Decidable (_ ∨ _))

theorem Tidy.resting {c : Conn} (h : Tidy c) (hr : Resting c) : c.refs = [] := by
  have hs : c.state ∈ [.waiting, .read, .parseCmd, .closed] ∧ c.state ≠ .mwrite ∧ c.state ≠ .closing := by
    obtain ⟨hs | hs, _⟩ | hs := hr <;> simp [hs]
  exact refs_eq_nil.mpr ⟨h.item hs.1, h.unlisted hs.2.1 hs.2.2⟩

/-- A client sets a key, and asks for some keys. -/
def setThenGet (keys : Bytes) : List ServerOp :=
  let go := .turn 0 roomyEnv .go
  [.connect (connNew smallServer 4096 .read .tcp) .read .tcp, .turn 0 roomyEnv .event,
    .turn 0 roomyEnv (.data (ascii "set k 0 0 1 noreply\r\nx\r\nget " ++ keys ++ [CR, LF])), go, go, go, go, go]

def served (cfg : Config) (ops : List ServerOp) : Option Server := ops.foldlM (Server.step cfg) (serverInit 16)

theorem run_served {cond : Server → ServerOp → Prop} {ops : List ServerOp} {S : Server} (h : served cfg ops = some S)
    (hc : ∀ k : Fin ops.length, ∀ u ∈ served cfg (ops.take k), cond u (ops.get k)) :
    Run (Guarded cond (ServerStep cfg)) (serverInit 16) ops S :=
  (Run.of_foldlM_guard h hc).mono fun _ _ _ hs => ⟨hs.1, .inl hs.2⟩

/-- The item of the first key: its count, whether it is stored, and all references. -/
def firstItem (S : Server) : Nat × Bool × List Ptr := ((S.g.store.mem 7096).refcount, (S.g.store.mem 7096).linked, refsOf S.conns)

def oneKey : List ServerOp := setThenGet (ascii "k")

end RamCube
