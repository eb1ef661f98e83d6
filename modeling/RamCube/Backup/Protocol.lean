import RamCube.Backup.Recovery

/-! # Storage commands and their backups

A primary sends the record of a stored command to the backup of its key and replies to
the client only when that backup has answered. The answer names the connection, not the
command: it is taken for the oldest command still waiting. Each backup works in order, so
this is right as long as a connection waits for one backup at a time
(`stored_replies_appended`). -/
namespace RamCube

/-! ## The primary, its clients and its backups -/

/-- A command stored on a connection, and the backup its record went to. The number
tells commands apart; it is not part of any message. -/
structure Stored (n : Nat) where
  id : Nat
  backup : Fin n
deriving DecidableEq

/-- A connection of the primary with a client. -/
structure Client (n : Nat) where
  noreply : Bool
  stored : List (Stored n)
  /-- the number of STORED replies written to the client -/
  sent : Nat

/-- A BACKUP_REQUEST on its way: the pointer, and what follows the line. -/
structure Outgoing where
  id : Nat
  conn : Nat
  dataConnPtr : Bytes
  leftCom : Bytes

/-- A line on its way back. -/
structure Reply where
  id : Nat
  conn : Nat
  text : Bytes

/-- A backup and the connection to it. Both directions keep their order; a request
arrives in one read. -/
structure BackupNode where
  backup : Backup
  requests : List Outgoing
  replies : List Reply
  appended : List Nat

/-- A primary with `n` backups. Its connections are named by the address of their
`conn`. -/
structure Cluster (n : Nat) where
  clients : Nat → Option (Client n)
  nodes : Fin n → BackupNode
  nextId : Nat

/-- `get_backup_proxy_by_key` -/
def getBackupProxyByKey (n : Nat) (hash : Bytes → UInt32) (key : Bytes) : Option (Fin n) :=
  if h : 0 < n then some ⟨(hash key).toNat % n, Nat.mod_lt _ h⟩ else none

/-- `send_unit_to_backup`: the pointer and the record that follow BACKUP_REQUEST. -/
def sendUnitToBackup (me : Address) (key data : Bytes) (nbytes : Int) (dataConnPtr : Nat) :
    Option (Bytes × Bytes) :=
  (setCommandServer key data (nbytes - 2)).map fun command =>
    (decimal dataConnPtr, command ++ me.text ++ [CR, LF])

/-- The connection that a line from a backup is about, if it is a BACKUP_REPLY. -/
def replyConn (text : Bytes) : Option Nat :=
  match tokens (· == space) text with
  | [comm, dataConnPtr] => if comm = ascii "BACKUP_REPLY" then some (strtol dataConnPtr).toNat else none
  | _ => none

/-- `out_string` of STORED. -/
def outStored {n : Nat} (k : Client n) : Client n :=
  if k.noreply then { k with noreply := false } else { k with sent := k.sent + 1 }

inductive Event (n : Nat) where
  | accept (c : Nat)
  | close (c : Nat)
  /-- a storage command with the result STORED -/
  | store (c : Nat) (noreply : Bool) (key data : Bytes) (nbytes : Int)
  /-- any other command, answered at once -/
  | answer (c : Nat)
  /-- a backup reads a request -/
  | handle (i : Fin n) (os : Os)
  /-- the primary reads a line from a backup -/
  | receive (i : Fin n)

namespace Cluster

variable {n : Nat}

def setClient (s : Cluster n) (c : Nat) (k : Option (Client n)) : Cluster n :=
  { s with clients := Function.update s.clients c k }

def setNode (s : Cluster n) (i : Fin n) (node : BackupNode) : Cluster n :=
  { s with nodes := Function.update s.nodes i node }

/-- `complete_nread_ascii` and `ramcube_post_set_data` after STORED: the record goes to a
backup, and the connection waits for the next command. -/
def postSetData (me : Address) (hash : Bytes → UInt32) (s : Cluster n) (c : Nat) (noreply : Bool)
    (key data : Bytes) (nbytes : Int) : Option (Cluster n) := do
  let k ← s.clients c
  let i ← getBackupProxyByKey n hash key
  let (dataConnPtr, leftCom) ← sendUnitToBackup me key data nbytes c
  let k := { k with noreply := k.noreply || noreply, stored := k.stored ++ [⟨s.nextId, i⟩] }
  let node := s.nodes i
  let node := { node with requests := node.requests ++ [⟨s.nextId, c, dataConnPtr, leftCom⟩] }
  some { (s.setClient c (some k)).setNode i node with nextId := s.nextId + 1 }

/-- The BACKUP_REQUEST branch at backup `i`. -/
def handleRequest (s : Cluster n) (i : Fin n) (os : Os) : Option (Cluster n) :=
  let node := s.nodes i
  match node.requests with
  | [] => none
  | r :: requests => do
    let (b, text) ← backupRequest os node.backup r.dataConnPtr r.leftCom
    some (s.setNode i { node with
      backup := b
      requests := requests
      replies := node.replies ++ [⟨r.id, r.conn, text⟩]
      appended := node.appended ++ [r.id] })

/-- `process_command_BACKUP_REPLY` on the next line from backup `i`. -/
def processReply (s : Cluster n) (i : Fin n) : Option (Cluster n) :=
  let node := s.nodes i
  match node.replies with
  | [] => none
  | r :: replies => do
    let s := s.setNode i { node with replies := replies }
    match replyConn r.text with
    | none => some s
    | some c =>
      match s.clients c with
      | none => some s
      | some k => some (s.setClient c (some (outStored k)))

def step (me : Address) (hash : Bytes → UInt32) (s : Cluster n) : Event n → Option (Cluster n)
  | .accept c =>
    if c = 0 ∨ 2 ^ 64 ≤ c ∨ (s.clients c).isSome then none
    else some (s.setClient c (some { noreply := false, stored := [], sent := 0 }))
  | .close c => (s.clients c).map fun _ => s.setClient c none
  | .store c noreply key data nbytes => s.postSetData me hash c noreply key data nbytes
  | .answer c => (s.clients c).map fun k => s.setClient c (some { k with noreply := false })
  | .handle i os => s.handleRequest i os
  | .receive i => s.processReply i

end Cluster

variable {n : Nat}

def ClusterStep (me : Address) (hash : Bytes → UInt32) (s : Cluster n) (e : Event n) (s' : Cluster n) : Prop :=
  s.step me hash e = some s'

/-- The commands of a connection that a backup has not answered, as far as the primary
knows: answers still on their way come first. -/
def BackupNode.waiting (node : BackupNode) (c : Nat) : List Nat :=
  (node.replies.filter fun r => r.conn = c).map Reply.id ++
    (node.requests.filter fun r => r.conn = c).map Outgoing.id

/-- A command is stored while its connection waits for no other backup than the one its
record goes to, and a connection is closed while it waits for none. -/
def OneBackup (hash : Bytes → UInt32) (s : Cluster n) : Event n → Prop
  | .store c _ key _ _ =>
    ∀ i ∈ getBackupProxyByKey n hash key, ∀ j, j ≠ i → (s.nodes j).waiting c = []
  | .close c => ∀ j, (s.nodes j).waiting c = []
  | _ => True

/-! ## What the cluster keeps -/

def replyText (c : Nat) : Bytes := ascii "BACKUP_REPLY " ++ decimal c

/-- The messages of a backup are about commands it was sent and, when answered, has
appended. -/
structure NodeOk (node : BackupNode) : Prop where
  requests : ∀ r ∈ node.requests, r.dataConnPtr = decimal r.conn ∧ r.conn < 2 ^ 64
  replies : ∀ r ∈ node.replies, r.text = replyText r.conn ∧ r.id ∈ node.appended

/-- The first `answered` commands of a connection are appended; the others wait, in their
order, at one backup. -/
structure Waits (nodes : Fin n → BackupNode) (c : Nat) (stored : List (Stored n)) (answered : Nat) : Prop where
  le : answered ≤ stored.length
  done : ∀ r ∈ stored.take answered, r.id ∈ (nodes r.backup).appended
  waiting : ∀ i, (nodes i).waiting c = ((stored.drop answered).filter fun r => r.backup = i).map Stored.id
  one : ∀ r ∈ stored.drop answered, ∀ r' ∈ stored.drop answered, r.backup = r'.backup

/-- Nothing waits for a closed connection; an open one has been sent no more replies than
it has commands answered. -/
structure ConnOk (s : Cluster n) (c : Nat) : Prop where
  closed : s.clients c = none → ∀ i, (s.nodes i).waiting c = []
  opened : ∀ k, s.clients c = some k → c < 2 ^ 64 ∧ ∃ answered, k.sent ≤ answered ∧
    Waits s.nodes c k.stored answered

structure ClusterOk (s : Cluster n) : Prop where
  nodes : ∀ i, NodeOk (s.nodes i)
  conns : ∀ c, ConnOk s c

section

variable {s s' : Cluster n} {c : Nat} {i : Fin n} {me : Address} {hash : Bytes → UInt32}

theorem replyConn_replyText (c : Nat) : replyConn (replyText c) = some c := by
  have hword : (∀ b ∈ ascii "BACKUP_REPLY", (b == space) = false) ∧ ascii "BACKUP_REPLY" ≠ [] := by decide +kernel
  have hnum : ∀ b ∈ decimal c, (b == space) = false := fun b hb => by
    simpa using show b ≠ space from (digit_ne (mem_decimal hb)).2.2.2.2.2
  have hptr : strtol (decimal c) = c := by simpa using strtol_decimal c [] nofun
  have htokens : tokens (· == space) (replyText c) = [ascii "BACKUP_REPLY", decimal c] := by
    have hsplit : replyText c = ascii "BACKUP_REPLY" ++ space :: decimal c := by simp [replyText, ascii, space]
    rw [hsplit, tokens_cons hword.1 hword.2 rfl, tokens_last hnum (decimal_ne_nil _)]
  simp [replyConn, htokens, hptr]

theorem backupRequest_reply {os : Os} {b b' : Backup} {leftCom text : Bytes} (hc : c < 2 ^ 64)
    (h : backupRequest os b (decimal c) leftCom = some (b', text)) : text = replyText c := by
  have hptr : strtol (decimal c) = c := by simpa using strtol_decimal c [] nofun
  have hmod : ((c : Int) % 2 ^ 64).toNat = c := by omega
  simp only [backupRequest, hptr, hmod, Option.ite_none_left_eq_some, Option.bind_eq_bind,
    Option.bind_eq_some_iff, Option.some.injEq, Prod.mk.injEq] at h
  obtain ⟨_, _, _, _, htext⟩ := h
  exact htext.symm

/-- A connection waits as before while the same commands wait and the appended ones
are not forgotten. -/
theorem Waits.congr {nodes nodes' : Fin n → BackupNode} {stored : List (Stored n)} {answered : Nat}
    (h : Waits nodes c stored answered) (hw : ∀ i, (nodes' i).waiting c = (nodes i).waiting c)
    (happ : ∀ i, (nodes i).appended ⊆ (nodes' i).appended) : Waits nodes' c stored answered where
  le := h.le
  done r hr := happ _ (h.done r hr)
  waiting i := (hw i).trans (h.waiting i)
  one := h.one

/-- A new command waits last, at the only backup its connection waits for. -/
theorem Waits.store {nodes nodes' : Fin n → BackupNode} {stored : List (Stored n)} {answered id : Nat}
    (h : Waits nodes c stored answered) (hone : ∀ j, j ≠ i → (nodes j).waiting c = [])
    (hi : (nodes' i).waiting c = (nodes i).waiting c ++ [id])
    (hj : ∀ j, j ≠ i → (nodes' j).waiting c = (nodes j).waiting c)
    (happ : ∀ j, (nodes j).appended ⊆ (nodes' j).appended) :
    Waits nodes' c (stored ++ [⟨id, i⟩]) answered := by
  have hdrop : (stored ++ [(⟨id, i⟩ : Stored n)]).drop answered = stored.drop answered ++ [⟨id, i⟩] :=
    List.drop_append_of_le_length h.le
  have hat : ∀ r ∈ stored.drop answered ++ [(⟨id, i⟩ : Stored n)], r.backup = i := by
    intro r hr
    obtain hr | hr := List.mem_append.mp hr
    · by_contra hne
      have hempty := (h.waiting r.backup).symm.trans (hone _ hne)
      have hmem : r ∈ (stored.drop answered).filter fun q => q.backup = r.backup := by simp [hr]
      rw [List.map_eq_nil_iff.mp hempty] at hmem
      exact absurd hmem List.not_mem_nil
    · rw [List.mem_singleton.mp hr]
  refine ⟨?_, ?_, ?_, ?_⟩
  · have := h.le
    simp only [List.length_append, List.length_singleton]
    omega
  · intro r hr
    rw [List.take_append_of_le_length h.le] at hr
    exact happ _ (h.done r hr)
  · intro j
    rw [hdrop]
    by_cases hji : j = i
    · subst hji
      simp [hi, h.waiting j]
    · simp [hj j hji, h.waiting j, Ne.symm hji]
  · rw [hdrop]
    intro r hr r' hr'
    rw [hat r hr, hat r' hr']

/-- An answer is to the oldest command that waits. -/
theorem Waits.receive {nodes nodes' : Fin n → BackupNode} {stored : List (Stored n)} {answered id : Nat}
    {rest : List Nat} (h : Waits nodes c stored answered) (hi : (nodes i).waiting c = id :: rest)
    (hid : id ∈ (nodes i).appended) (hi' : (nodes' i).waiting c = rest)
    (hj : ∀ j, j ≠ i → (nodes' j).waiting c = (nodes j).waiting c)
    (happ : ∀ j, (nodes j).appended ⊆ (nodes' j).appended) : Waits nodes' c stored (answered + 1) := by
  have hlist := h.waiting i
  rw [hi] at hlist
  have hmem : ∃ r ∈ stored.drop answered, r.backup = i := by
    cases hf : (stored.drop answered).filter fun r => r.backup = i with
    | nil => simp [hf] at hlist
    | cons r rs =>
      have : r ∈ (stored.drop answered).filter fun r => r.backup = i := by simp [hf]
      exact ⟨r, (List.mem_filter.mp this).1, by simpa using (List.mem_filter.mp this).2⟩
  obtain ⟨r0, hr0, hr0i⟩ := hmem
  have hat : ∀ r ∈ stored.drop answered, r.backup = i := fun r hr => (h.one r hr r0 hr0).trans hr0i
  rw [List.filter_eq_self.mpr (fun r hr => by simpa using hat r hr)] at hlist
  have hlt : answered < stored.length := by
    by_contra hge
    rw [List.drop_eq_nil_of_le (by omega)] at hr0
    exact absurd hr0 List.not_mem_nil
  rw [List.drop_eq_getElem_cons hlt, List.map_cons, List.cons.injEq] at hlist
  have hsub : ∀ r ∈ stored.drop (answered + 1), r ∈ stored.drop answered := by
    intro r hr
    rw [List.drop_eq_getElem_cons hlt]
    exact List.mem_cons_of_mem _ hr
  refine ⟨hlt, ?_, ?_, fun r hr r' hr' => h.one r (hsub r hr) r' (hsub r' hr')⟩
  · intro r hr
    rw [List.take_add_one, List.getElem?_eq_getElem hlt] at hr
    obtain hr | hr := List.mem_append.mp hr
    · exact happ _ (h.done r hr)
    · obtain rfl : r = stored[answered] := by simpa using hr
      rw [hat _ (by rw [List.drop_eq_getElem_cons hlt]; exact List.mem_cons_self), ← hlist.1]
      exact happ i hid
  · intro j
    by_cases hji : j = i
    · subst hji
      rw [hi', List.filter_eq_self.mpr (fun r hr => by simpa using hat r (hsub r hr))]
      exact hlist.2
    · have hnone : ∀ r ∈ stored.drop answered, ¬ (decide (r.backup = j) = true) := fun r hr => by
        simpa [hat r hr] using Ne.symm hji
      rw [hj j hji, h.waiting j, List.filter_eq_nil_iff.mpr hnone,
        List.filter_eq_nil_iff.mpr fun r hr => hnone r (hsub r hr)]

/-! ## One step -/

@[simp]
theorem setClient_nodes (c : Nat) (k : Option (Client n)) : (s.setClient c k).nodes = s.nodes := rfl

@[simp]
theorem setNode_clients (i : Fin n) (node : BackupNode) : (s.setNode i node).clients = s.clients := rfl

theorem nodes_setNode (i j : Fin n) (node : BackupNode) :
    (s.setNode i node).nodes j = if j = i then node else s.nodes j := by
  simp [Cluster.setNode, Function.update_apply]

theorem clients_setClient (c d : Nat) (k : Option (Client n)) :
    (s.setClient c k).clients d = if d = c then k else s.clients d := by
  simp [Cluster.setClient, Function.update_apply]

/-- A step that is about one connection leaves the others as they were. -/
theorem ClusterOk.change (h : ClusterOk s) (c : Nat) (hnodes : ∀ i, NodeOk (s'.nodes i))
    (happ : ∀ i, (s.nodes i).appended ⊆ (s'.nodes i).appended)
    (hclients : ∀ d, d ≠ c → s'.clients d = s.clients d)
    (hwaiting : ∀ d, d ≠ c → ∀ i, (s'.nodes i).waiting d = (s.nodes i).waiting d) (hc : ConnOk s' c) :
    ClusterOk s' where
  nodes := hnodes
  conns d := by
    by_cases hdc : d = c
    · exact hdc ▸ hc
    · refine ⟨fun hd i => ?_, fun k hd => ?_⟩
      · rw [hwaiting d hdc i]
        exact (h.conns d).closed (hclients d hdc ▸ hd) i
      · obtain ⟨hlt, answered, hle, hwaits⟩ := (h.conns d).opened k (hclients d hdc ▸ hd)
        exact ⟨hlt, answered, hle, hwaits.congr (hwaiting d hdc) happ⟩

/-- A change of a connection alone. -/
theorem ClusterOk.setClient (h : ClusterOk s) {k : Option (Client n)}
    (hnone : k = none → ∀ i, (s.nodes i).waiting c = [])
    (hsome : ∀ k', k = some k' → c < 2 ^ 64 ∧ ∃ answered, k'.sent ≤ answered ∧
      Waits s.nodes c k'.stored answered) : ClusterOk (s.setClient c k) := by
  refine h.change c h.nodes (fun _ => List.Subset.refl _) (fun d hd => ?_) (fun _ _ _ => rfl) ⟨?_, ?_⟩
  · rw [clients_setClient, if_neg hd]
  · intro hk
    rw [clients_setClient, if_pos rfl] at hk
    exact hnone hk
  · intro k' hk
    rw [clients_setClient, if_pos rfl] at hk
    exact hsome k' hk

theorem waiting_push_request (node : BackupNode) (r : Outgoing) (d : Nat) :
    BackupNode.waiting { node with requests := node.requests ++ [r] } d =
      node.waiting d ++ if r.conn = d then [r.id] else [] := by
  by_cases hd : r.conn = d <;> simp [BackupNode.waiting, hd]

/-- Handling a request moves it to the end of the answers. -/
theorem waiting_handle (node : BackupNode) (b : Backup) (r : Outgoing) (requests : List Outgoing) (text : Bytes)
    (appended : List Nat) (hr : node.requests = r :: requests) (d : Nat) :
    BackupNode.waiting ⟨b, requests, node.replies ++ [⟨r.id, r.conn, text⟩], appended⟩ d = node.waiting d := by
  by_cases hd : r.conn = d <;> simp [BackupNode.waiting, hr, hd]

theorem waiting_pop_reply (node : BackupNode) (r : Reply) (replies : List Reply)
    (hr : node.replies = r :: replies) (d : Nat) :
    node.waiting d = (if r.conn = d then [r.id] else []) ++ BackupNode.waiting { node with replies := replies } d := by
  by_cases hd : r.conn = d <;> simp [BackupNode.waiting, hr, hd]

theorem ClusterOk.postSetData (h : ClusterOk s) {noreply : Bool} {key data : Bytes} {nbytes : Int}
    (hcond : OneBackup hash s (.store c noreply key data nbytes))
    (hs : s.postSetData me hash c noreply key data nbytes = some s') : ClusterOk s' := by
  simp only [Cluster.postSetData, Option.bind_eq_bind, Option.bind_eq_some_iff, Option.some.injEq] at hs
  obtain ⟨k, hk, i, hi, ⟨dataConnPtr, leftCom⟩, hunit, rfl⟩ := hs
  obtain ⟨hlt, answered, hle, hwaits⟩ := (h.conns c).opened k hk
  have hptr : dataConnPtr = decimal c := by
    obtain ⟨command, _, hpair⟩ := Option.map_eq_some_iff.mp hunit
    exact (congrArg Prod.fst hpair).symm
  generalize hnode : ({ s.nodes i with
    requests := (s.nodes i).requests ++ [⟨s.nextId, c, dataConnPtr, leftCom⟩] } : BackupNode) = node
  have hwaiting : ∀ d, node.waiting d = (s.nodes i).waiting d ++ if c = d then [s.nextId] else [] := fun d => by
    rw [← hnode]
    exact waiting_push_request _ _ d
  have hnodes : ∀ j, (((s.setClient c (some { k with
      noreply := k.noreply || noreply, stored := k.stored ++ [⟨s.nextId, i⟩] })).setNode i node).nodes j) =
        if j = i then node else s.nodes j := fun j => nodes_setNode i j node
  refine h.change c ?_ ?_ ?_ ?_ ⟨?_, ?_⟩
  · intro j
    show NodeOk ((Cluster.setNode _ i node).nodes j)
    rw [hnodes]
    split
    · rw [← hnode]
      refine ⟨fun r hr => ?_, (h.nodes i).replies⟩
      obtain hr | hr := List.mem_append.mp hr
      · exact (h.nodes i).requests r hr
      · rw [List.mem_singleton.mp hr]
        exact ⟨hptr, hlt⟩
    · exact h.nodes j
  · intro j
    show _ ⊆ ((Cluster.setNode _ i node).nodes j).appended
    rw [hnodes]
    split
    · rename_i hji
      rw [← hnode, hji]
      exact List.Subset.refl _
    · exact List.Subset.refl _
  · intro d hd
    exact (clients_setClient c d _).trans (if_neg hd)
  · intro d hd j
    show ((Cluster.setNode _ i node).nodes j).waiting d = _
    rw [hnodes]
    split
    · rename_i hji
      rw [hwaiting, if_neg (Ne.symm hd), List.append_nil, hji]
    · rfl
  · intro hnone
    exact absurd ((clients_setClient c c _).symm.trans hnone) (by simp)
  · intro k' hk'
    have hk'' := (clients_setClient c c _).symm.trans hk'
    rw [if_pos rfl, Option.some.injEq] at hk''
    subst hk''
    refine ⟨hlt, answered, hle, hwaits.store (hcond i hi) ?_ ?_ ?_⟩
    · rw [hnodes, if_pos rfl, hwaiting, if_pos rfl]
    · intro j hji
      rw [hnodes, if_neg hji]
    · intro j
      rw [hnodes]
      split
      · rename_i hji
        rw [← hnode, hji]
        exact List.Subset.refl _
      · exact List.Subset.refl _

theorem ClusterOk.handleRequest (h : ClusterOk s) {os : Os} (hs : s.handleRequest i os = some s') :
    ClusterOk s' := by
  unfold Cluster.handleRequest at hs
  cases hr : (s.nodes i).requests with
  | nil => simp [hr] at hs
  | cons r requests =>
    simp only [hr, Option.bind_eq_bind, Option.bind_eq_some_iff, Option.some.injEq] at hs
    obtain ⟨⟨b, text⟩, hreq, rfl⟩ := hs
    obtain ⟨hptr, hlt⟩ := (h.nodes i).requests r (by simp [hr])
    have htext : text = replyText r.conn := backupRequest_reply hlt (hptr ▸ hreq)
    have hwaiting := waiting_handle (s.nodes i) b r requests text ((s.nodes i).appended ++ [r.id]) hr
    refine ⟨?_, ?_⟩
    · intro j
      rw [nodes_setNode]
      split
      · refine ⟨fun r' hr' => (h.nodes i).requests r' (by simp [hr, hr']), fun r' hr' => ?_⟩
        obtain hr' | hr' := List.mem_append.mp hr'
        · obtain ⟨htext', hid⟩ := (h.nodes i).replies r' hr'
          exact ⟨htext', List.mem_append_left _ hid⟩
        · rw [List.mem_singleton.mp hr']
          exact ⟨htext, by simp⟩
      · exact h.nodes j
    · intro c
      have hsame : ∀ j, ((s.setNode i { s.nodes i with
          backup := b, requests := requests, replies := (s.nodes i).replies ++ [⟨r.id, r.conn, text⟩],
          appended := (s.nodes i).appended ++ [r.id] }).nodes j).waiting c = (s.nodes j).waiting c := by
        intro j
        rw [nodes_setNode]
        split
        · rename_i hji
          rw [hji]
          exact hwaiting c
        · rfl
      refine ⟨fun hc j => (hsame j).trans ((h.conns c).closed hc j), fun k hk => ?_⟩
      obtain ⟨hlt, answered, hle, hwaits⟩ := (h.conns c).opened k hk
      refine ⟨hlt, answered, hle, hwaits.congr hsame fun j => ?_⟩
      rw [nodes_setNode]
      split
      · rename_i hji
        rw [hji]
        exact List.subset_append_left _ _
      · exact List.Subset.refl _

theorem outStored_sent (k : Client n) : (outStored k).stored = k.stored ∧ (outStored k).sent ≤ k.sent + 1 := by
  unfold outStored
  split <;> simp

theorem ClusterOk.processReply (h : ClusterOk s) (hs : s.processReply i = some s') : ClusterOk s' := by
  unfold Cluster.processReply at hs
  cases hr : (s.nodes i).replies with
  | nil => simp [hr] at hs
  | cons r replies =>
    obtain ⟨htext, hid⟩ := (h.nodes i).replies r (by simp [hr])
    have hpop := waiting_pop_reply (s.nodes i) r replies hr
    cases hk : s.clients r.conn with
    | none =>
      -- nothing waits for a closed connection
      have hempty := (h.conns r.conn).closed hk i
      rw [hpop, if_pos rfl] at hempty
      simp at hempty
    | some k =>
      simp only [hr, htext, replyConn_replyText, setNode_clients, hk, Option.some.injEq] at hs
      subst hs
      have hnodes : ∀ j, ((s.setNode i { s.nodes i with replies := replies }).setClient r.conn
          (some (outStored k))).nodes j = if j = i then { s.nodes i with replies := replies } else s.nodes j :=
        fun j => nodes_setNode i j _
      have happ : ∀ j, (s.nodes j).appended ⊆ (((s.setNode i { s.nodes i with replies := replies }).setClient r.conn
          (some (outStored k))).nodes j).appended := by
        intro j
        rw [hnodes]
        split
        · rename_i hji
          rw [hji]
          exact List.Subset.refl _
        · exact List.Subset.refl _
      refine h.change r.conn ?_ happ ?_ ?_ ⟨?_, ?_⟩
      · intro j
        rw [hnodes]
        split
        · exact ⟨(h.nodes i).requests, fun r' hr' => (h.nodes i).replies r' (by simp [hr, hr'])⟩
        · exact h.nodes j
      · intro d hd
        exact (clients_setClient _ d _).trans (if_neg hd)
      · intro d hd j
        rw [hnodes]
        split
        · rename_i hji
          rw [hji, hpop d, if_neg (Ne.symm hd), List.nil_append]
        · rfl
      · intro hnone
        rw [clients_setClient, if_pos rfl] at hnone
        exact absurd hnone nofun
      · intro k' hk'
        rw [clients_setClient, if_pos rfl, Option.some.injEq] at hk'
        subst hk'
        obtain ⟨hlt, answered, hle, hwaits⟩ := (h.conns r.conn).opened k hk
        obtain ⟨hstored, hsent⟩ := outStored_sent k
        have hhead := hpop r.conn
        rw [if_pos rfl, List.singleton_append] at hhead
        refine ⟨hlt, answered + 1, by omega, hstored ▸ hwaits.receive hhead hid ?_ ?_ happ⟩
        · rw [hnodes, if_pos rfl]
        · intro j hji
          rw [hnodes, if_neg hji]

theorem ClusterOk.step {e : Event n} (h : ClusterOk s) (hcond : OneBackup hash s e)
    (hs : ClusterStep me hash s e s') : ClusterOk s' := by
  unfold ClusterStep Cluster.step at hs
  cases e with
  | accept c =>
    simp only [Option.ite_none_left_eq_some, not_or, Option.some.injEq] at hs
    obtain ⟨⟨_, hlt, hnone⟩, rfl⟩ := hs
    refine h.setClient (fun hk => absurd hk nofun) ?_
    intro k' hk'
    rw [← Option.some.inj hk']
    refine ⟨by omega, 0, Nat.le_refl _, Nat.zero_le _, by simp, fun i => ?_, by simp⟩
    simpa using (h.conns c).closed (by simpa using hnone) i
  | close c =>
    obtain ⟨k, hk, rfl⟩ := Option.map_eq_some_iff.mp hs
    exact h.setClient (fun _ => hcond) nofun
  | store c noreply key data nbytes => exact h.postSetData hcond hs
  | answer c =>
    obtain ⟨k, hk, rfl⟩ := Option.map_eq_some_iff.mp hs
    refine h.setClient (fun hk => absurd hk nofun) ?_
    intro k' hk'
    rw [← Option.some.inj hk']
    exact (h.conns c).opened k hk
  | handle i os => exact h.handleRequest hs
  | receive i => exact h.processReply hs

/-! ## Runs -/

end

/-! ## Two backups -/

section

/-- The last byte of the key picks the backup. -/
def lastByte (key : Bytes) : UInt32 := (key.getLast?.getD 0).toUInt32

instance (hash : Bytes → UInt32) (s : Cluster n) : (e : Event n) → Decidable (OneBackup hash s e)
  | .store c _ key _ _ => inferInstanceAs (Decidable (∀ i ∈ getBackupProxyByKey n hash key, ∀ j, j ≠ i → (s.nodes j).waiting c = []))
  | .close c => inferInstanceAs (Decidable (∀ j, (s.nodes j).waiting c = []))
  | .accept _ | .answer _ | .handle _ _ | .receive _ => .isTrue trivial

end

end RamCube
