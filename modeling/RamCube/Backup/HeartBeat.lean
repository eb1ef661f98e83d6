import RamCube.Backup.Interleaving

/-! # Heartbeats of the primaries

The recovery node keeps a counter for each primary. A tick of its timer counts it up and
a HEARTBEAT counts it down; a tick that takes it over two reports the crash. The counter
is never set back, so what a tick reports depends on all ticks and messages before
(`crash_reported_iff`). -/
namespace RamCube

/-! ## The table of primaries -/

/-- `MAX_PRIMARY` -/
def MAX_PRIMARY : Nat := 5

structure HeartBeatInfo where
  b_primary_ip : Bytes
  b_primary_port : Nat
  MaxTimes : Int
  used : Bool
deriving DecidableEq

/-- An entry of the zeroed table. -/
def freeInfo : HeartBeatInfo :=
  { b_primary_ip := [], b_primary_port := 0, MaxTimes := 0, used := false }

def HeartBeatInfo.isOf (e : HeartBeatInfo) (p : Address) : Bool :=
  e.b_primary_ip == p.ip && e.b_primary_port == p.port

/-- The value of an `int` expression, unless it overflows. -/
def intValue (n : Int) : Option Int := if -2 ^ 31 ≤ n ∧ n < 2 ^ 31 then some n else none

/-- The loop of the HEARTBEAT branch. The flag tells whether an entry was taken. -/
def countDown (p : Address) : List HeartBeatInfo → Option (List HeartBeatInfo × Bool)
  | [] => some ([], false)
  | e :: table =>
    if e.isOf p then (intValue (e.MaxTimes - 1)).map fun n => ({ e with MaxTimes := n } :: table, false)
    else if e.used = false then
      some ({ e with used := true, b_primary_ip := p.ip, b_primary_port := p.port } :: table, true)
    else (countDown p table).map fun (table, taken) => (e :: table, taken)

/-- The loop of `recovery_cb`. The flag tells whether it returned with a CRASH. -/
def countUp (p : Address) : List HeartBeatInfo → Option (List HeartBeatInfo × Bool)
  | [] => some ([], false)
  | e :: table =>
    if e.isOf p then do
      let n ← intValue (e.MaxTimes + 1)
      if 2 < n then some ({ e with MaxTimes := n } :: table, true)
      else (countUp p table).map fun (table, crash) => ({ e with MaxTimes := n } :: table, crash)
    else (countUp p table).map fun (table, crash) => (e :: table, crash)

/-! ## The recovery node -/

structure RecoveryNode where
  PrimaryTable : List HeartBeatInfo
  /-- the peers whose timer is set -/
  timers : List Address
  /-- the output buffer of `vpCoordinatorOut[0]`, `none` for NULL -/
  coordinator : Option Bytes

def initRecovery (coordinator : Option Bytes) : RecoveryNode :=
  { PrimaryTable := List.replicate MAX_PRIMARY freeInfo, timers := [], coordinator := coordinator }

def crashText (p : Address) : Bytes := ascii "CRASH\r\n" ++ p.text ++ [CR, LF]

/-- A HEARTBEAT of a peer. `autoAddTimes` sets its timer. -/
def RecoveryNode.heartbeat (s : RecoveryNode) (p : Address) : Option RecoveryNode := do
  let (table, taken) ← countDown p s.PrimaryTable
  some { s with PrimaryTable := table, timers := if taken then p :: s.timers else s.timers }

/-- `recovery_cb`. The timer is not set again after a CRASH. -/
def RecoveryNode.recoveryCb (s : RecoveryNode) (p : Address) : Option RecoveryNode := do
  let (table, crash) ← countUp p s.PrimaryTable
  if crash then do
    let out ← s.coordinator
    some { PrimaryTable := table, timers := s.timers.erase p, coordinator := some (out ++ crashText p) }
  else some { s with PrimaryTable := table }

inductive Beat where
  | heartbeat
  | tick
deriving DecidableEq

/-- A message or a tick of the timer, and the peer it is of. -/
abbrev RecoveryEvent := Address × Beat

def RecoveryStep (s : RecoveryNode) : RecoveryEvent → RecoveryNode → Prop
  | (p, .heartbeat), s' => s.heartbeat p = some s'
  | (p, .tick), s' => p ∈ s.timers ∧ s.recoveryCb p = some s'

/-- The messages and ticks of one peer. -/
def historyOf (p : Address) (es : List RecoveryEvent) : List Beat :=
  es.filterMap fun e => if e.1 = p then some e.2 else none

/-- A CRASH of a peer was sent to the coordinator. -/
def Crashed (s : RecoveryNode) (p : Address) (s' : RecoveryNode) : Prop :=
  ∃ out, s.coordinator = some out ∧ s'.coordinator = some (out ++ crashText p)

/-- Every tick for a peer reports its crash exactly if no message of it came since
before the last three ticks. -/
def ReportsCrashes (s : RecoveryNode) (p : Address) (es : List RecoveryEvent) : Prop :=
  ∀ pre post s1 s2, es = pre ++ (p, .tick) :: post → Run RecoveryStep s pre s1 → RecoveryStep s1 (p, .tick) s2 →
    (Crashed s1 p s2 ↔ [.tick, .tick, .tick] <:+ historyOf p pre ++ [.tick])

/-! ## The table as a list of counters -/

def counterInfo (c : Address × Int) : HeartBeatInfo :=
  { b_primary_ip := c.1.ip, b_primary_port := c.1.port, MaxTimes := c.2, used := true }

/-- A table of these counters with so many free entries behind them. -/
def tableOf (cs : List (Address × Int)) (free : Nat) : List HeartBeatInfo :=
  cs.map counterInfo ++ List.replicate free freeInfo

def setCounter (p : Address) (n : Int) (cs : List (Address × Int)) : List (Address × Int) :=
  cs.map fun c => if c.1 = p then (p, n) else c

section

variable {p q : Address} {n : Int} {cs : List (Address × Int)} {free : Nat}

theorem counterInfo_isOf (c : Address × Int) (p : Address) : (counterInfo c).isOf p = true ↔ c.1 = p := by
  obtain ⟨⟨ip, port⟩, n⟩ := c
  obtain ⟨ip', port'⟩ := p
  simp [counterInfo, HeartBeatInfo.isOf]

theorem freeInfo_isOf (p : Address) : freeInfo.isOf p = false := by
  have hip : ([] == p.ip) = false := by simpa using p.ip_ne
  simp [freeInfo, HeartBeatInfo.isOf, hip]

theorem setCounter_of_notMem (h : p ∉ cs.map Prod.fst) : setCounter p n cs = cs := by
  unfold setCounter
  rw [List.map_congr_left (g := id), List.map_id]
  intro c hc
  have hne : c.1 ≠ p := fun he => h (he ▸ List.mem_map_of_mem hc)
  rw [if_neg hne, id]

theorem setCounter_keys : (setCounter p n cs).map Prod.fst = cs.map Prod.fst := by
  unfold setCounter
  rw [List.map_map]
  refine List.map_congr_left fun c _ => ?_
  by_cases hc : c.1 = p <;> simp [hc]

theorem mem_setCounter_self (h : p ∈ cs.map Prod.fst) : (p, n) ∈ setCounter p n cs := by
  obtain ⟨c, hc, rfl⟩ := List.mem_map.mp h
  exact List.mem_map.mpr ⟨c, hc, if_pos rfl⟩

theorem mem_setCounter_of_ne {m : Int} (hne : q ≠ p) (h : (q, m) ∈ cs) : (q, m) ∈ setCounter p n cs :=
  List.mem_map.mpr ⟨(q, m), h, if_neg hne⟩

theorem countDown_free (p : Address) (free : Nat) : countDown p (List.replicate free freeInfo) =
    some (match free with
      | 0 => ([], false)
      | free + 1 => (counterInfo (p, 0) :: List.replicate free freeInfo, true)) := by
  cases free with
  | zero => rfl
  | succ free =>
    rw [List.replicate_succ, countDown, freeInfo_isOf]
    rfl

/-- A HEARTBEAT of a peer that is in the table counts down. -/
theorem countDown_known {m : Int} (hnodup : (cs.map Prod.fst).Nodup) (h : (p, m) ∈ cs) :
    countDown p (tableOf cs free) =
      (intValue (m - 1)).map fun n => (tableOf (setCounter p n cs) free, false) := by
  induction cs with
  | nil => exact absurd h List.not_mem_nil
  | cons c cs ih =>
    obtain ⟨hc, hnodup⟩ := List.nodup_cons.mp hnodup
    have htable : tableOf (c :: cs) free = counterInfo c :: tableOf cs free := rfl
    have hset : ∀ n, tableOf (setCounter p n (c :: cs)) free =
        counterInfo (if c.1 = p then (p, n) else c) :: tableOf (setCounter p n cs) free := fun _ => rfl
    rw [htable, countDown]
    by_cases hp : c.1 = p
    · have hm : m = c.2 := by
        obtain rfl | h := List.mem_cons.mp h
        · rfl
        · exact absurd (List.mem_map_of_mem h) (hp ▸ hc)
      rw [if_pos ((counterInfo_isOf c p).mpr hp)]
      simp only [hset, if_pos hp, setCounter_of_notMem (hp ▸ hc : p ∉ cs.map Prod.fst)]
      subst hp hm
      rfl
    · have hmem : (p, m) ∈ cs := (List.mem_cons.mp h).resolve_left fun he => hp (by rw [← he])
      rw [if_neg fun he => hp ((counterInfo_isOf c p).mp he), if_neg (by simp [counterInfo]), ih hnodup hmem]
      simp only [hset, if_neg hp, Option.map_map]
      rfl

/-- One of a peer that is not takes a free entry, if there is one. -/
theorem countDown_new (h : p ∉ cs.map Prod.fst) :
    countDown p (tableOf cs free) =
      some (match free with
        | 0 => (tableOf cs 0, false)
        | free + 1 => (tableOf (cs ++ [(p, 0)]) free, true)) := by
  induction cs with
  | nil =>
    have hfree := countDown_free p free
    cases free <;> exact hfree
  | cons c cs ih =>
    simp only [List.map_cons, List.mem_cons, not_or] at h
    have htable : tableOf (c :: cs) free = counterInfo c :: tableOf cs free := rfl
    rw [htable, countDown, if_neg fun he => h.1 ((counterInfo_isOf c p).mp he).symm,
      if_neg (by simp [counterInfo]), ih h.2]
    cases free <;> rfl

theorem countUp_new (h : p ∉ cs.map Prod.fst) : countUp p (tableOf cs free) = some (tableOf cs free, false) := by
  induction cs with
  | nil =>
    show countUp p (List.replicate free freeInfo) = some (List.replicate free freeInfo, false)
    induction free with
    | zero => rfl
    | succ free ih =>
      rw [List.replicate_succ, countUp, freeInfo_isOf, if_neg Bool.false_ne_true, ih]
      rfl
  | cons c cs ih =>
    simp only [List.map_cons, List.mem_cons, not_or] at h
    have htable : tableOf (c :: cs) free = counterInfo c :: tableOf cs free := rfl
    rw [htable, countUp, if_neg fun he => h.1 ((counterInfo_isOf c p).mp he).symm, ih h.2]
    rfl

/-- A tick for a peer that is in the table counts up. -/
theorem countUp_known {m : Int} (hnodup : (cs.map Prod.fst).Nodup) (h : (p, m) ∈ cs) :
    countUp p (tableOf cs free) =
      (intValue (m + 1)).map fun n => (tableOf (setCounter p n cs) free, decide (2 < n)) := by
  induction cs with
  | nil => exact absurd h List.not_mem_nil
  | cons c cs ih =>
    obtain ⟨hc, hnodup⟩ := List.nodup_cons.mp hnodup
    have htable : tableOf (c :: cs) free = counterInfo c :: tableOf cs free := rfl
    have hset : ∀ n, tableOf (setCounter p n (c :: cs)) free =
        counterInfo (if c.1 = p then (p, n) else c) :: tableOf (setCounter p n cs) free := fun _ => rfl
    rw [htable, countUp]
    by_cases hp : c.1 = p
    · have hm : m = c.2 := by
        obtain rfl | h := List.mem_cons.mp h
        · rfl
        · exact absurd (List.mem_map_of_mem h) (hp ▸ hc)
      have hnew : p ∉ cs.map Prod.fst := hp ▸ hc
      have hentry : (counterInfo c).MaxTimes = m := hm.symm
      rw [if_pos ((counterInfo_isOf c p).mpr hp), hentry, countUp_new hnew]
      simp only [hset, if_pos hp, setCounter_of_notMem hnew]
      cases intValue (m + 1) with
      | none => rfl
      | some n =>
        have hinfo : { counterInfo c with MaxTimes := n } = counterInfo (p, n) := by
          subst hp
          rfl
        simp only [Option.bind_eq_bind, Option.bind_some, Option.map_some, hinfo]
        by_cases hn : 2 < n <;> simp [hn]
    · have hmem : (p, m) ∈ cs := (List.mem_cons.mp h).resolve_left fun he => hp (by rw [← he])
      rw [if_neg fun he => hp ((counterInfo_isOf c p).mp he), ih hnodup hmem]
      simp only [hset, if_neg hp, Option.map_map]
      rfl

end

/-! ## What a counter has counted -/

/-- The ticks of a history less its messages. -/
def lead (h : List Beat) : Int := h.count .tick - h.count .heartbeat

/-- The table holds one counter for each peer it knows; while the timer of a peer is set,
its counter is what its history adds up to after the first message. -/
structure Counts (s : RecoveryNode) (p : Address) (h : List Beat) : Prop where
  table : ∃ cs free, s.PrimaryTable = tableOf cs free ∧ (cs.map Prod.fst).Nodup ∧
    (∀ q ∈ s.timers, q ∈ cs.map Prod.fst) ∧
    (p ∈ s.timers → (p, lead h + 1) ∈ cs) ∧
    (p ∉ cs.map Prod.fst → h = [] ∨ free = 0)
  timers : s.timers.Nodup
  first : p ∈ s.timers → .heartbeat ∈ h

section

variable {s s' : RecoveryNode} {p q : Address} {h : List Beat} {b : Beat}

theorem counts_init (coordinator : Option Bytes) (p : Address) : Counts (initRecovery coordinator) p [] where
  table := ⟨[], MAX_PRIMARY, rfl, List.nodup_nil, nofun, nofun, fun _ => .inl rfl⟩
  timers := List.nodup_nil
  first := nofun

theorem intValue_eq {n m : Int} (h : intValue n = some m) : m = n := by
  rw [intValue, Option.ite_none_right_eq_some] at h
  exact (Option.some.inj h.2).symm

theorem lead_snoc (h : List Beat) (b : Beat) :
    lead (h ++ [b]) = match b with
      | .tick => lead h + 1
      | .heartbeat => lead h - 1 := by
  unfold lead
  cases b <;> simp <;> omega

/-- The history of a peer after an event of some peer. -/
def extend (p : Address) (h : List Beat) (e : RecoveryEvent) : List Beat :=
  h ++ if e.1 = p then [e.2] else []

/-- What a HEARTBEAT does to the counters. -/
theorem heartbeat_cases {cs : List (Address × Int)} {free : Nat} (htable : s.PrimaryTable = tableOf cs free)
    (hnodup : (cs.map Prod.fst).Nodup) (hs : s.heartbeat q = some s') :
    (∃ m, (q, m) ∈ cs ∧ s' = { s with PrimaryTable := tableOf (setCounter q (m - 1) cs) free }) ∨
    q ∉ cs.map Prod.fst ∧ (free = 0 ∧ s' = s ∨
      ∃ rest, free = rest + 1 ∧
        s' = { s with PrimaryTable := tableOf (cs ++ [(q, 0)]) rest, timers := q :: s.timers }) := by
  unfold RecoveryNode.heartbeat at hs
  rw [htable] at hs
  by_cases hq : q ∈ cs.map Prod.fst
  · left
    obtain ⟨⟨q', m⟩, hmem, rfl⟩ := List.mem_map.mp hq
    refine ⟨m, hmem, ?_⟩
    rw [countDown_known hnodup hmem] at hs
    cases hn : intValue (m - 1) with
    | none => simp [hn] at hs
    | some n =>
      obtain rfl := intValue_eq hn
      simpa [hn] using hs.symm
  · right
    refine ⟨hq, ?_⟩
    rw [countDown_new hq] at hs
    cases free with
    | zero =>
      left
      simp only [Option.bind_eq_bind, Option.bind_some, Bool.false_eq_true, if_false, Option.some.injEq] at hs
      exact ⟨rfl, by rw [← hs, ← htable]⟩
    | succ rest => exact .inr ⟨rest, rfl, by simpa using hs.symm⟩

/-- What a tick does to the counters. -/
theorem recoveryCb_cases {cs : List (Address × Int)} {free : Nat} (htable : s.PrimaryTable = tableOf cs free)
    (hnodup : (cs.map Prod.fst).Nodup) (hq : q ∈ cs.map Prod.fst) (hs : s.recoveryCb q = some s') :
    ∃ m, (q, m) ∈ cs ∧
      (m + 1 ≤ 2 ∧ s' = { s with PrimaryTable := tableOf (setCounter q (m + 1) cs) free } ∨
      2 < m + 1 ∧ ∃ out, s.coordinator = some out ∧ s' = {
        PrimaryTable := tableOf (setCounter q (m + 1) cs) free
        timers := s.timers.erase q
        coordinator := some (out ++ crashText q) }) := by
  unfold RecoveryNode.recoveryCb at hs
  obtain ⟨⟨q', m⟩, hmem, rfl⟩ := List.mem_map.mp hq
  refine ⟨m, hmem, ?_⟩
  rw [htable, countUp_known hnodup hmem] at hs
  cases hn : intValue (m + 1) with
  | none => simp [hn] at hs
  | some n =>
    obtain rfl := intValue_eq hn
    by_cases hcrash : 2 < m + 1
    · right
      cases hout : s.coordinator with
      | none => simp [hn, hcrash, hout] at hs
      | some out => exact ⟨hcrash, out, rfl, by simpa [hn, hcrash, hout] using hs.symm⟩
    · exact .inl ⟨by omega, by simpa [hn, hcrash] using hs.symm⟩

theorem crashText_ne_nil (p : Address) : crashText p ≠ [] := by
  simp [crashText]

theorem mem_unique {α β : Type} {cs : List (α × β)} {a : α} {b c : β} (hnodup : (cs.map Prod.fst).Nodup)
    (hb : (a, b) ∈ cs) (hc : (a, c) ∈ cs) : b = c :=
  congrArg Prod.snd (List.inj_on_of_nodup_map hnodup hb hc rfl)

theorem extend_of_ne (b : Beat) (hne : q ≠ p) : extend p h (q, b) = h := by
  simp [extend, hne]

theorem extend_self (p : Address) (h : List Beat) (b : Beat) : extend p h (p, b) = h ++ [b] := by
  simp [extend]

theorem Counts.heartbeat (hc : Counts s p h) (hs : s.heartbeat q = some s') :
    Counts s' p (extend p h (q, .heartbeat)) := by
  obtain ⟨⟨cs, free, htable, hnodup, htimers, harmed, hfull⟩, hnd, hfirst⟩ := hc
  obtain ⟨m, hmem, rfl⟩ | ⟨hnew, ⟨rfl, rfl⟩ | ⟨rest, rfl, rfl⟩⟩ := heartbeat_cases htable hnodup hs
  · by_cases hqp : q = p
    · subst hqp
      have hkey : q ∈ cs.map Prod.fst := List.mem_map_of_mem hmem
      refine ⟨⟨setCounter q (m - 1) cs, free, rfl, ?_, ?_, fun hq => ?_, fun hq => ?_⟩, hnd, fun _ => ?_⟩
      · rwa [setCounter_keys]
      · rwa [setCounter_keys]
      · have hm : m = lead h + 1 := mem_unique hnodup hmem (harmed hq)
        rw [extend_self, lead_snoc, show lead h - 1 + 1 = m - 1 by omega]
        exact mem_setCounter_self hkey
      · rw [setCounter_keys] at hq
        exact absurd hkey hq
      · simp [extend_self]
    · rw [extend_of_ne _ hqp]
      refine ⟨⟨setCounter q (m - 1) cs, free, rfl, ?_, ?_, fun hp => ?_, ?_⟩, hnd, hfirst⟩
      · rwa [setCounter_keys]
      · rwa [setCounter_keys]
      · exact mem_setCounter_of_ne (Ne.symm hqp) (harmed hp)
      · rwa [setCounter_keys]
  · refine ⟨⟨cs, 0, htable, hnodup, htimers, fun hp => ?_, fun _ => .inr rfl⟩, hnd, fun hp => ?_⟩
    · have hqp : q ≠ p := fun he => hnew (he ▸ htimers p hp)
      rw [extend_of_ne _ hqp]
      exact harmed hp
    · exact List.mem_append_left _ (hfirst hp)
  · have hkeys : (cs ++ [(q, (0 : Int))]).map Prod.fst = cs.map Prod.fst ++ [q] := by simp
    refine ⟨⟨cs ++ [(q, 0)], rest, rfl, ?_, ?_, fun hp => ?_, fun hp => ?_⟩, ?_, fun hp => ?_⟩
    · rw [hkeys]
      simpa [List.nodup_append] using ⟨hnodup, fun a n hm he => hnew (he ▸ List.mem_map_of_mem hm)⟩
    · intro r hr
      rw [hkeys]
      obtain rfl | hr := List.mem_cons.mp hr
      · exact List.mem_append_right _ (List.mem_singleton_self r)
      · exact List.mem_append_left _ (htimers r hr)
    · by_cases hqp : q = p
      · subst hqp
        have hempty : h = [] := (hfull hnew).resolve_right (Nat.succ_ne_zero rest)
        subst hempty
        simp [extend, lead]
      · rw [extend_of_ne _ hqp]
        exact List.mem_append_left _ (harmed ((List.mem_cons.mp hp).resolve_left (Ne.symm hqp)))
    · rw [hkeys, List.mem_append, List.mem_singleton, not_or] at hp
      rw [extend_of_ne _ (Ne.symm hp.2)]
      exact .inl ((hfull hp.1).resolve_right (Nat.succ_ne_zero rest))
    · exact List.nodup_cons.mpr ⟨fun hq => hnew (htimers q hq), hnd⟩
    · by_cases hqp : q = p
      · simp [extend, hqp]
      · rw [extend_of_ne _ hqp]
        exact hfirst ((List.mem_cons.mp hp).resolve_left (Ne.symm hqp))

/-- The counter after a tick, and whether the tick reports a crash. -/
theorem Counts.tick (hc : Counts s p h) (hq : q ∈ s.timers) (hs : s.recoveryCb q = some s') :
    Counts s' p (extend p h (q, .tick)) ∧
      (q = p → (Crashed s p s' ↔ 2 ≤ lead (h ++ [.tick]))) := by
  obtain ⟨⟨cs, free, htable, hnodup, htimers, harmed, hfull⟩, hnd, hfirst⟩ := hc
  have hkey := htimers q hq
  obtain ⟨m, hmem, hs'⟩ := recoveryCb_cases htable hnodup hkey hs
  have hkeys : (setCounter q (m + 1) cs).map Prod.fst = cs.map Prod.fst := setCounter_keys
  have hcs : p ∈ s.timers → (p, lead (extend p h (q, .tick)) + 1) ∈ setCounter q (m + 1) cs := by
    intro hp
    by_cases hqp : q = p
    · subst hqp
      have hm : m = lead h + 1 := mem_unique hnodup hmem (harmed hp)
      rw [extend_self, lead_snoc, show lead h + 1 + 1 = m + 1 by omega]
      exact mem_setCounter_self hkey
    · rw [extend_of_ne _ hqp]
      exact mem_setCounter_of_ne (Ne.symm hqp) (harmed hp)
  have hfree : p ∉ (setCounter q (m + 1) cs).map Prod.fst → extend p h (q, .tick) = [] ∨ free = 0 := by
    intro hp
    rw [hkeys] at hp
    have hqp : q ≠ p := fun he => hp (he ▸ hkey)
    rw [extend_of_ne _ hqp]
    exact hfull hp
  have hbeat : p ∈ s.timers → .heartbeat ∈ extend p h (q, .tick) := fun hp => List.mem_append_left _ (hfirst hp)
  have hlead : q = p → lead (h ++ [.tick]) = m := by
    rintro rfl
    rw [lead_snoc]
    exact (mem_unique hnodup hmem (harmed hq)).symm
  obtain ⟨hle, rfl⟩ | ⟨hlt, out, hout, rfl⟩ := hs'
  · refine ⟨⟨⟨_, free, rfl, ?_, ?_, hcs, hfree⟩, hnd, hbeat⟩, fun hqp => ?_⟩
    · rwa [hkeys]
    · rwa [hkeys]
    · have hm := hlead hqp
      refine iff_of_false ?_ (by omega)
      rintro ⟨out, hout, hsent⟩
      have hself : out = out ++ crashText p := Option.some.inj (hout.symm.trans hsent)
      exact crashText_ne_nil p (List.self_eq_append_right.mp hself)
  · refine ⟨⟨⟨_, free, rfl, ?_, ?_, ?_, hfree⟩, hnd.erase q, ?_⟩, fun hqp => ?_⟩
    · rwa [hkeys]
    · rw [hkeys]
      exact fun r hr => htimers r (List.mem_of_mem_erase hr)
    · exact fun hp => hcs (List.mem_of_mem_erase hp)
    · exact fun hp => hbeat (List.mem_of_mem_erase hp)
    · have hm := hlead hqp
      exact iff_of_true ⟨out, hout, by rw [hqp]⟩ (by omega)

theorem historyOf_cons (p : Address) (e : RecoveryEvent) (es : List RecoveryEvent) :
    historyOf p (e :: es) = (if e.1 = p then [e.2] else []) ++ historyOf p es := by
  by_cases he : e.1 = p <;> simp [historyOf, he]

theorem Counts.step {e : RecoveryEvent} (hc : Counts s p h) (hs : RecoveryStep s e s') : Counts s' p (extend p h e) := by
  obtain ⟨q, b⟩ := e
  cases b with
  | heartbeat => exact hc.heartbeat hs
  | tick => exact (hc.tick hs.1 hs.2).1

theorem Counts.run {es : List RecoveryEvent} (hc : Counts s p h) (hr : Run RecoveryStep s es s') :
    Counts s' p (h ++ historyOf p es) := by
  induction hr generalizing h with
  | nil => simpa [historyOf] using hc
  | cons hs _ ih =>
    have hnext := ih (hc.step hs)
    rw [extend, List.append_assoc, ← historyOf_cons] at hnext
    exact hnext

/-! ## When crashes are reported right -/

/-- At each message of a peer, with `d` the ticks less the messages before it: `d` is at
most one if a tick follows, at most zero if two ticks do, and not negative if three do. -/
def OnTime (h : List Beat) : Prop :=
  ∀ pre n post, h = pre ++ .heartbeat :: (List.replicate n .tick ++ post) →
    (n = 1 → lead pre ≤ 1) ∧ (n = 2 → lead pre ≤ 0) ∧ (n = 3 → 0 ≤ lead pre)

theorem lead_ticks (pre : List Beat) (n : Nat) :
    lead (pre ++ .heartbeat :: List.replicate n .tick) = lead pre + n - 1 := by
  unfold lead
  simp [List.count_replicate]
  omega

/-- Three ticks came last exactly if that many came since the last message. -/
theorem ticks_suffix (pre : List Beat) (n : Nat) :
    [.tick, .tick, .tick] <:+ pre ++ .heartbeat :: List.replicate n .tick ↔ 3 ≤ n := by
  constructor
  · intro h
    by_contra hn
    have hend : .heartbeat :: List.replicate n .tick <:+ [Beat.tick, .tick, .tick] :=
      List.suffix_of_suffix_length_le (List.suffix_append pre _) h (by simp; omega)
    have hbeat : Beat.heartbeat ∈ [Beat.tick, .tick, .tick] := hend.subset List.mem_cons_self
    simp at hbeat
  · intro hn
    obtain ⟨m, rfl⟩ := Nat.exists_eq_add_of_le hn
    refine ⟨pre ++ .heartbeat :: List.replicate m .tick, ?_⟩
    rw [Nat.add_comm, List.replicate_add]
    simp

/-- A history with a message in it ends with the ticks since the last one. -/
theorem exists_ticks (hb : .heartbeat ∈ h) : ∃ pre n, h = pre ++ .heartbeat :: List.replicate n .tick := by
  induction h using List.reverseRecOn with
  | nil => exact absurd hb List.not_mem_nil
  | append_singleton h b ih =>
    cases b with
    | heartbeat => exact ⟨h, 0, rfl⟩
    | tick =>
      obtain ⟨pre, n, rfl⟩ := ih (by simpa using hb)
      exact ⟨pre, n + 1, by simp [List.replicate_succ']⟩

/-- Where a history has ticks after a message, so has the run. -/
theorem historyOf_split {es : List RecoveryEvent} {h1 h2 : List Beat} (hh : historyOf p es = h1 ++ b :: h2) :
    ∃ pre post, es = pre ++ (p, b) :: post ∧ historyOf p pre = h1 := by
  obtain ⟨es1, es2, rfl, h1eq, h2eq⟩ := List.filterMap_eq_append_iff.mp hh
  obtain ⟨es3, e, es4, rfl, hnone, hsome, -⟩ := List.filterMap_eq_cons_iff.mp h2eq
  obtain ⟨rfl, rfl⟩ := (Option.ite_none_right_eq_some.mp hsome).imp_right Option.some.inj
  refine ⟨es1 ++ es3, es4, by simp, ?_⟩
  have hempty : historyOf e.1 es3 = [] := List.filterMap_eq_nil_iff.mpr hnone
  unfold historyOf at hempty ⊢
  rw [List.filterMap_append, h1eq, hempty, List.append_nil]

/-- In every run of a recovery node, the crash of a peer is reported when three seconds
passed without a message of it, and not otherwise, exactly if the peer was on time. -/
theorem crash_reported_iff {coordinator : Option Bytes} {es : List RecoveryEvent}
    (hr : Run RecoveryStep (initRecovery coordinator) es s') :
    ReportsCrashes (initRecovery coordinator) p es ↔ OnTime (historyOf p es) := by
  have hcounts : ∀ pre s, Run RecoveryStep (initRecovery coordinator) pre s → Counts s p (historyOf p pre) :=
    fun pre s hpre => (counts_init coordinator p).run hpre
  constructor
  · intro hright pre n post hh
    -- the last of the ticks, with the states around it
    have hlast : ∀ m, n = m + 1 → (2 ≤ lead pre + n - 1 ↔ 3 ≤ n) := by
      rintro m rfl
      rw [List.replicate_succ', List.append_assoc, List.singleton_append, ← List.cons_append, ← List.append_assoc] at hh
      obtain ⟨es1, es2, rfl, hpre⟩ := historyOf_split hh
      obtain ⟨s1, hr1, hr2⟩ := hr.split
      cases hr2 with
      | @cons _ s2 _ _ _ hstep _ =>
        have htick := ((hcounts es1 s1 hr1).tick hstep.1 hstep.2).2 rfl
        have hcrash := hright es1 es2 s1 s2 rfl hr1 hstep
        have hticks : historyOf p es1 ++ [.tick] = pre ++ .heartbeat :: List.replicate (m + 1) .tick := by
          rw [hpre, List.replicate_succ', List.append_assoc, List.cons_append]
        rw [htick, hticks, lead_ticks, ticks_suffix] at hcrash
        exact hcrash
    refine ⟨fun hn => ?_, fun hn => ?_, fun hn => ?_⟩
    · have := hlast 0 hn
      omega
    · have := hlast 1 hn
      omega
    · have := hlast 2 hn
      omega
  · intro hon pre post s1 s2 hes hr1 hstep
    have hc := hcounts pre s1 hr1
    have hbeat : .heartbeat ∈ historyOf p pre := hc.first hstep.1
    obtain ⟨beats, n, hn⟩ := exists_ticks hbeat
    have hticks : historyOf p pre ++ [.tick] = beats ++ .heartbeat :: List.replicate (n + 1) .tick := by
      rw [hn, List.replicate_succ', List.append_assoc, List.cons_append]
    have hhist : historyOf p es = beats ++ .heartbeat :: (List.replicate (n + 1) .tick ++ historyOf p post) := by
      have hall : historyOf p es = historyOf p pre ++ [.tick] ++ historyOf p post := by
        rw [hes]
        simp [historyOf]
      rw [hall, hticks, List.append_assoc, List.cons_append]
    have hone := hon beats (n + 1) (historyOf p post) hhist
    have hthree : 3 ≤ n + 1 → 0 ≤ lead beats := by
      intro hle
      obtain ⟨m, hm⟩ := Nat.exists_eq_add_of_le hle
      refine (hon beats 3 (List.replicate m .tick ++ historyOf p post) ?_).2.2 rfl
      rw [hhist, hm, List.replicate_add, List.append_assoc]
    rw [(hc.tick hstep.1 hstep.2).2 rfl, hticks, lead_ticks, ticks_suffix]
    constructor
    · intro hlead
      by_contra hlt
      obtain hn | hn : n = 0 ∨ n = 1 := by omega
      · have := hone.1 (by omega)
        omega
      · have := hone.2.1 (by omega)
        omega
    · intro hle
      have := hthree hle
      omega

/-! ## Three silent seconds -/

/-- A node that has heard of one peer, with its counter. -/
def watching (p : Address) (n : Int) : RecoveryNode :=
  { PrimaryTable := tableOf [(p, n)] 4, timers := [p], coordinator := some [] }

theorem heartbeat_first (p : Address) : (initRecovery (some [])).heartbeat p = some (watching p 0) := by
  have hnew : countDown p (tableOf [] 5) = _ := countDown_new List.not_mem_nil
  unfold RecoveryNode.heartbeat
  rw [show (initRecovery (some [])).PrimaryTable = tableOf [] 5 from rfl, hnew]
  rfl

theorem heartbeat_watching {n : Int} (hn : intValue (n - 1) = some (n - 1)) :
    (watching p n).heartbeat p = some (watching p (n - 1)) := by
  have hnodup : ([(p, n)].map Prod.fst).Nodup := List.nodup_singleton p
  have hknown : countDown p (tableOf [(p, n)] 4) = _ := countDown_known hnodup (List.mem_singleton_self (p, n))
  unfold RecoveryNode.heartbeat
  rw [show (watching p n).PrimaryTable = tableOf [(p, n)] 4 from rfl, hknown, hn]
  simp [watching, setCounter]

theorem tick_watching {n : Int} (hn : intValue (n + 1) = some (n + 1)) (hle : n + 1 ≤ 2) :
    RecoveryStep (watching p n) (p, .tick) (watching p (n + 1)) := by
  have hnodup : ([(p, n)].map Prod.fst).Nodup := List.nodup_singleton p
  have hknown : countUp p (tableOf [(p, n)] 4) = _ := countUp_known hnodup (List.mem_singleton_self (p, n))
  refine ⟨List.mem_singleton_self p, ?_⟩
  unfold RecoveryNode.recoveryCb
  rw [show (watching p n).PrimaryTable = tableOf [(p, n)] 4 from rfl, hknown, hn]
  simp [watching, setCounter, not_lt.mpr hle]

theorem crash_reported_iff_two : ReportsCrashes (initRecovery (some [])) firstPrimary
      [(firstPrimary, .heartbeat), (firstPrimary, .tick)] ↔
    OnTime (historyOf firstPrimary [(firstPrimary, .heartbeat), (firstPrimary, .tick)]) :=
  crash_reported_iff (.cons (heartbeat_first firstPrimary) (.cons (tick_watching rfl (by simp)) (.nil _)))

/-- Two messages in one second hide three seconds without any. -/
theorem crash_unreported : ∃ es s', Run RecoveryStep (initRecovery (some [])) es s' ∧
    ¬ReportsCrashes (initRecovery (some [])) firstPrimary es := by
  have hmessages : Run RecoveryStep (initRecovery (some [])) [(firstPrimary, .heartbeat), (firstPrimary, .heartbeat)]
      (watching firstPrimary (-1)) :=
    .cons (heartbeat_first firstPrimary) (.cons (heartbeat_watching rfl) (.nil _))
  have htwo : Run RecoveryStep (watching firstPrimary (-1)) [(firstPrimary, .tick), (firstPrimary, .tick)]
      (watching firstPrimary 1) :=
    .cons (tick_watching rfl (by simp)) (.cons (tick_watching rfl (by simp)) (.nil _))
  have hthird : RecoveryStep (watching firstPrimary 1) (firstPrimary, .tick) (watching firstPrimary 2) :=
    tick_watching rfl (by simp)
  refine ⟨_, _, (hmessages.append htwo).append (.single hthird), fun hright => ?_⟩
  have hticks : [.tick, .tick, .tick] <:+ historyOf firstPrimary
      ([(firstPrimary, .heartbeat), (firstPrimary, .heartbeat)] ++ [(firstPrimary, .tick), (firstPrimary, .tick)]) ++
        [.tick] := ⟨[.heartbeat, .heartbeat], rfl⟩
  obtain ⟨out, hout, hsent⟩ := (hright _ [] _ _ rfl (hmessages.append htwo) hthird).mpr hticks
  have hself : out = out ++ crashText firstPrimary := Option.some.inj (hout.symm.trans hsent)
  exact crashText_ne_nil _ (List.self_eq_append_right.mp hself)

end

end RamCube
