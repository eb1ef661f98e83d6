import RamCube.Backup.Protocol

/-! # Which backup a record goes to

A primary sends a record to the connection at place `hash % n` of `vpBackupOut`, where
`n` is the number of connections there are when it is sent. Connections are added while
records are sent, so the records of a key stay together only if the places that its hash
leaves at the time of each of them are those of one backup (`records_together_iff`). -/
namespace RamCube

/-- A connection of the primary to a backup, with all that was written to it. -/
structure ConnProxy where
  m_peerSin : Address
  m_outputBuffer : Bytes

/-- A primary, with the key of each record sent and the backup it went to. -/
structure PrimaryNode where
  vpBackupOut : List ConnProxy
  sent : List (Bytes × Address)

def initPrimary : PrimaryNode := { vpBackupOut := [], sent := [] }

/-- `push_back_proxy`: the first free place, if there is one. -/
def pushBackProxy (Proxies : List ConnProxy) (cp : ConnProxy) : Option (List ConnProxy) :=
  if Proxies.length < MAX_NEIGHBORS then some (Proxies ++ [cp]) else none

def typeLine (me : Address) : Bytes := ascii "TYPE BACKUP " ++ me.ip ++ ascii "#" ++ decimal me.port ++ [CR, LF]

inductive PrimaryEvent where
  /-- `connect_and_return_ConnProxy` for a backup -/
  | connect (peer : Address)
  /-- `ramcube_post_set_data` of a record stored on connection `c` -/
  | send (c : Nat) (key data : Bytes) (nbytes : Int)

def PrimaryNode.step (me : Address) (hash : Bytes → UInt32) (s : PrimaryNode) : PrimaryEvent → Option PrimaryNode
  | .connect peer =>
    (pushBackProxy s.vpBackupOut { m_peerSin := peer, m_outputBuffer := typeLine me }).map fun Proxies =>
      { s with vpBackupOut := Proxies }
  | .send c key data nbytes => do
    let index ← getBackupProxyByKey s.vpBackupOut.length hash key
    let (dataConnPtr, leftCom) ← sendUnitToBackup me key data nbytes c
    let cp := s.vpBackupOut.get index
    let request := ascii "BACKUP_REQUEST " ++ dataConnPtr ++ [CR, LF] ++ leftCom
    some {
      vpBackupOut := s.vpBackupOut.set index { cp with m_outputBuffer := cp.m_outputBuffer ++ request }
      sent := s.sent ++ [(key, cp.m_peerSin)] }

def PrimaryStep (me : Address) (hash : Bytes → UInt32) (s : PrimaryNode) (e : PrimaryEvent) (s' : PrimaryNode) : Prop :=
  s.step me hash e = some s'

/-- The records of each key went to one backup. -/
def RecordsTogether (s : PrimaryNode) : Prop :=
  ∀ key b b', (key, b) ∈ s.sent → (key, b') ∈ s.sent → b = b'

/-! ## The connections at each record -/

/-- The backups in the order in which they are connected. -/
def peers (es : List PrimaryEvent) : List Address :=
  es.filterMap fun
    | .connect peer => some peer
    | .send .. => none

/-- The key of each record, and the number of connections there are when it is sent. -/
def sends (n : Nat) : List PrimaryEvent → List (Bytes × Nat)
  | [] => []
  | .connect _ :: es => sends (n + 1) es
  | .send _ key _ _ :: es => (key, n) :: sends n es

section

variable {me : Address} {hash : Bytes → UInt32} {s s' : PrimaryNode} {es : List PrimaryEvent}

def PrimaryNode.peers (s : PrimaryNode) : List Address := s.vpBackupOut.map ConnProxy.m_peerSin

/-- The backup of a key is the one at the place its hash leaves. -/
theorem send_step {c : Nat} {key data : Bytes} {nbytes : Int} (h : PrimaryStep me hash s (.send c key data nbytes) s') :
    ∃ peer, s.peers[(hash key).toNat % s.vpBackupOut.length]? = some peer ∧ s'.peers = s.peers ∧
      s'.sent = s.sent ++ [(key, peer)] := by
  simp only [PrimaryStep, PrimaryNode.step, getBackupProxyByKey, Option.bind_eq_bind, Option.bind_eq_some_iff,
    Option.dite_none_right_eq_some] at h
  obtain ⟨index, ⟨hpos, hindex⟩, ⟨dataConnPtr, leftCom⟩, _, h⟩ := h
  obtain rfl := Option.some.inj h
  obtain rfl := Option.some.inj hindex
  refine ⟨_, ?_, ?_, rfl⟩
  · simp [PrimaryNode.peers, Nat.mod_lt _ hpos]
  · simp only [PrimaryNode.peers, List.map_set]
    refine List.ext_getElem (by simp) fun i _ _ => ?_
    simp only [List.getElem_set, List.getElem_map, List.get_eq_getElem]
    split
    · rename_i hi
      simp [hi]
    · rfl

theorem connect_step {peer : Address} (h : PrimaryStep me hash s (.connect peer) s') :
    s'.peers = s.peers ++ [peer] ∧ s'.sent = s.sent := by
  simp only [PrimaryStep, PrimaryNode.step, pushBackProxy, Option.map_eq_some_iff, Option.ite_none_right_eq_some,
    Option.some.injEq] at h
  obtain ⟨_, ⟨_, rfl⟩, rfl⟩ := h
  simp [PrimaryNode.peers]

/-- What a run sends, and where. -/
theorem sent_of_run (h : Run (PrimaryStep me hash) s es s') :
    (s'.sent.map fun x => (x.1, some x.2)) = (s.sent.map fun x => (x.1, some x.2)) ++
      (sends s.vpBackupOut.length es).map fun x => (x.1, (s.peers ++ peers es)[(hash x.1).toNat % x.2]?) := by
  induction h with
  | nil => simp [sends]
  | @cons s s1 t e es hs _ ih =>
    have hlen : ∀ s : PrimaryNode, s.vpBackupOut.length = s.peers.length := fun s => by simp [PrimaryNode.peers]
    cases e with
    | connect peer =>
      obtain ⟨hpeers, hsent⟩ := connect_step hs
      rw [ih, hsent, hlen, hlen, hpeers]
      simp [sends, peers]
    | send c key data nbytes =>
      obtain ⟨peer, hpeer, hpeers, hsent⟩ := send_step hs
      have hlt : (hash key).toNat % s.vpBackupOut.length < s.peers.length := (List.getElem?_eq_some_iff.mp hpeer).1
      rw [ih, hsent, hlen s1, hpeers, ← hlen s]
      simp [sends, peers, List.getElem?_append_left hlt, hpeer]

/-- The records of each key go to one backup if and only if the places that its hash
leaves at the time of each are those of one backup. -/
theorem records_together_iff (h : Run (PrimaryStep me hash) initPrimary es s') :
    RecordsTogether s' ↔ ∀ key n n', (key, n) ∈ sends 0 es → (key, n') ∈ sends 0 es →
      (peers es)[(hash key).toNat % n]? = (peers es)[(hash key).toNat % n']? := by
  have hsent : (s'.sent.map fun x => (x.1, some x.2)) =
      (sends 0 es).map fun x => (x.1, (peers es)[(hash x.1).toNat % x.2]?) := sent_of_run h
  have hmem : ∀ key b, (key, b) ∈ s'.sent ↔
      ∃ n, (key, n) ∈ sends 0 es ∧ (peers es)[(hash key).toNat % n]? = some b := by
    intro key b
    have hpair : (key, b) ∈ s'.sent ↔ (key, some b) ∈ s'.sent.map fun x => (x.1, some x.2) := by simp
    rw [hpair, hsent]
    simp
  constructor
  · intro hone key n n' hn hn'
    have hof : ∀ m, (key, m) ∈ sends 0 es → ∃ b, (peers es)[(hash key).toNat % m]? = some b ∧ (key, b) ∈ s'.sent := by
      intro m hm
      have hin : (key, (peers es)[(hash key).toNat % m]?) ∈ s'.sent.map fun x => (x.1, some x.2) := by
        rw [hsent]
        exact List.mem_map.mpr ⟨(key, m), hm, rfl⟩
      obtain ⟨⟨key', b⟩, hb, heq⟩ := List.mem_map.mp hin
      obtain ⟨rfl, hb'⟩ := Prod.mk.inj heq
      exact ⟨b, hb'.symm, hb⟩
    obtain ⟨b, hb, hbs⟩ := hof n hn
    obtain ⟨b', hb', hbs'⟩ := hof n' hn'
    rw [hb, hb', hone key b b' hbs hbs']
  · intro hplaces key b b' hb hb'
    obtain ⟨n, hn, hbn⟩ := (hmem key b).mp hb
    obtain ⟨n', hn', hbn'⟩ := (hmem key b').mp hb'
    exact Option.some.inj (hbn.symm.trans ((hplaces key n n' hn hn').trans hbn'))

end

/-! ## Two backups -/

/-- Three records for two backups, the first and the last of one key. -/
def threeRecords : List PrimaryEvent :=
  [.connect firstPrimary, .connect secondPrimary, .send 4096 (ascii "a") (ascii "v\r\n") 3,
    .send 4096 (ascii "b") (ascii "v\r\n") 3, .send 4104 (ascii "a") (ascii "w\r\n") 3]

theorem records_together_iff_three : ∃ s',
    s'.sent = [(ascii "a", secondPrimary), (ascii "b", firstPrimary), (ascii "a", secondPrimary)] ∧
    (RecordsTogether s' ↔ ∀ key n n', (key, n) ∈ sends 0 threeRecords → (key, n') ∈ sends 0 threeRecords →
      (peers threeRecords)[(lastByte key).toNat % n]? = (peers threeRecords)[(lastByte key).toNat % n']?) := by
  have hsent : (threeRecords.foldlM (PrimaryNode.step firstPrimary lastByte) initPrimary).map PrimaryNode.sent =
      some [(ascii "a", secondPrimary), (ascii "b", firstPrimary), (ascii "a", secondPrimary)] := by decide +kernel
  obtain ⟨s', hs, hs'⟩ := Option.map_eq_some_iff.mp hsent
  exact ⟨s', hs', records_together_iff (Run.of_foldlM hs)⟩

/-! ## A backup that connects late -/

/-- Two records of one key, the second backup connecting between them. -/
def lateBackup : List PrimaryEvent :=
  [.connect firstPrimary, .send 4096 (ascii "k") (ascii "v\r\n") 3, .connect secondPrimary,
    .send 4096 (ascii "k") (ascii "v\r\n") 3]

/-- Its hash leaves another place when the second backup is there. -/
theorem records_apart : ∃ hash es s', Run (PrimaryStep secondPrimary hash) initPrimary es s' ∧ ¬RecordsTogether s' := by
  have hsent : (lateBackup.foldlM (PrimaryNode.step secondPrimary fun _ => 1) initPrimary).map PrimaryNode.sent =
      some [(ascii "k", firstPrimary), (ascii "k", secondPrimary)] := by decide +kernel
  obtain ⟨s', hs, hs'⟩ := Option.map_eq_some_iff.mp hsent
  refine ⟨fun _ => 1, lateBackup, s', Run.of_foldlM hs, fun h => ?_⟩
  have hne : firstPrimary ≠ secondPrimary := by decide +kernel
  exact hne (h (ascii "k") _ _ (by simp [hs']) (by simp [hs']))

end RamCube
