import RamCube.Backup.Neighbors
import RamCube.Lib.Run

/-! # How nodes connect to their neighbours

Each node connects to its smaller peers when it starts, and a node that is connected to by
a greater peer connects back. Whatever the order in which the nodes start and the TYPE
lines arrive, this comes to an end with one proxy of each kind for every two peers
(`exchange_completes`). -/
namespace RamCube

/-! ## The nodes -/

/-- Nodes whose configurations name each other. -/
structure Neighborhood where
  addrs : List SockaddrIn
  peers : SockaddrIn → List (ProxyRole × SockaddrIn)
  node : SockaddrIn → RamcubeNode
  loaded : ∀ a ∈ addrs, initRamcubeConfig a (peers a) = some (node a)
  distinct : addrs.Nodup
  closed : ∀ a ∈ addrs, ∀ role, ∀ b ∈ peersIn (peers a) role, b ∈ addrs
  symmetric : ∀ a ∈ addrs, ∀ role, ∀ b ∈ peersIn (peers a) role, a ∈ peersIn (peers b) role
  others : ∀ a ∈ addrs, ∀ role, a ∉ peersIn (peers a) role
  once : ∀ a ∈ addrs, ∀ role, (peersIn (peers a) role).Nodup

/-- Two peers of a role. -/
structure Neighborhood.Peers (nb : Neighborhood) (role : ProxyRole) (a b : SockaddrIn) : Prop where
  mem : a ∈ nb.addrs
  names : b ∈ peersIn (nb.peers a) role

/-- The nodes, the calls of `init_smaller_proxies` still to come, the TYPE lines on their
way, and all that were sent. -/
structure Exchange where
  node : SockaddrIn → RamcubeNode
  toInit : List (SockaddrIn × ProxyRole)
  lines : List Hello
  sent : List Hello

def Neighborhood.start (nb : Neighborhood) : Exchange where
  node := nb.node
  toInit := nb.addrs ×ˢ ProxyRole.all
  lines := []
  sent := []

/-- A node starts to connect in a role, or a TYPE line arrives. -/
inductive ExchangeEvent where
  | init (a : SockaddrIn) (role : ProxyRole)
  | arrive (m : Hello)

namespace Exchange

variable (gethostbyname : Bytes → InAddr) (s : Exchange)

/-- What a node did goes into effect. -/
def act (a : SockaddrIn) (n : RamcubeNode) (hellos : List Hello) : Exchange :=
  { s with
    node := Function.update s.node a n
    lines := s.lines ++ hellos
    sent := s.sent ++ hellos }

def step : ExchangeEvent → Option Exchange
  | .init a role =>
    if (a, role) ∈ s.toInit then
      ((s.node a).initSmallerProxies role).map fun (n, hellos) =>
        { s with toInit := s.toInit.erase (a, role) }.act a n hellos
    else none
  | .arrive m =>
    if m ∈ s.lines then
      ((s.node m.peer).serveLine gethostbyname m.line).map fun (n, hellos) =>
        { s with lines := s.lines.erase m }.act m.peer n hellos
    else none

/-! ## Counts -/

/-- The client proxies of `a` for `b`. -/
def clients (role : ProxyRole) (a b : SockaddrIn) : Nat := ((s.node a).vpOut role).count b

/-- The server proxies of `a` for `b`. -/
def servers (role : ProxyRole) (a b : SockaddrIn) : Nat := ((s.node a).vpIn role).count b

/-- The TYPE lines of `a` on their way to `b`. -/
def flying (role : ProxyRole) (a b : SockaddrIn) : Nat := s.lines.count ⟨b, helloLine role a⟩

/-- The TYPE lines that `a` sent to `b`. -/
def told (role : ProxyRole) (a b : SockaddrIn) : Nat := s.sent.count ⟨b, helloLine role a⟩

end Exchange

/-! ## One step -/

section

variable {nb : Neighborhood} {s s' : Exchange} {role role₁ : ProxyRole} {a a₁ b : SockaddrIn}
  {ins outs : List SockaddrIn}

/-- A node accepts some peers in a role and connects to others. -/
def Exchange.talk (s : Exchange) (a : SockaddrIn) (role : ProxyRole) (ins outs : List SockaddrIn) : Exchange :=
  s.act a { s.node a with
      vpIn := Function.update (s.node a).vpIn role ((s.node a).vpIn role ++ ins)
      vpOut := Function.update (s.node a).vpOut role ((s.node a).vpOut role ++ outs) }
    (outs.map fun b => ⟨b, helloLine role a⟩)

theorem vpOut_talk : ((s.talk a₁ role₁ ins outs).node a).vpOut role =
    (s.node a).vpOut role ++ if a = a₁ ∧ role = role₁ then outs else [] := by
  unfold Exchange.talk Exchange.act
  dsimp only
  by_cases ha : a = a₁
  · subst ha
    by_cases hr : role = role₁
    · subst hr
      simp
    · simp [hr]
  · simp [ha]

theorem vpIn_talk : ((s.talk a₁ role₁ ins outs).node a).vpIn role =
    (s.node a).vpIn role ++ if a = a₁ ∧ role = role₁ then ins else [] := by
  unfold Exchange.talk Exchange.act
  dsimp only
  by_cases ha : a = a₁
  · subst ha
    by_cases hr : role = role₁
    · subst hr
      simp
    · simp [hr]
  · simp [ha]

theorem node_talk : ((s.talk a₁ role₁ ins outs).node a).me = (s.node a).me ∧
    ((s.talk a₁ role₁ ins outs).node a).vpSins = (s.node a).vpSins := by
  unfold Exchange.talk Exchange.act
  dsimp only
  by_cases ha : a = a₁
  · subst ha
    simp
  · simp [ha]

theorem clients_talk : (s.talk a₁ role₁ ins outs).clients role a b =
    s.clients role a b + if a = a₁ ∧ role = role₁ then outs.count b else 0 := by
  unfold Exchange.clients
  rw [vpOut_talk, List.count_append]
  split <;> rfl

theorem servers_talk : (s.talk a₁ role₁ ins outs).servers role a b =
    s.servers role a b + if a = a₁ ∧ role = role₁ then ins.count b else 0 := by
  unfold Exchange.servers
  rw [vpIn_talk, List.count_append]
  split <;> rfl

/-- The lines a node writes tell who it is, in which role, and go where it connects to. -/
theorem count_hellos : (outs.map fun b => (⟨b, helloLine role₁ a₁⟩ : Hello)).count ⟨b, helloLine role a⟩ =
    if a = a₁ ∧ role = role₁ then outs.count b else 0 := by
  split
  · rename_i h
    obtain ⟨rfl, rfl⟩ := h
    exact List.count_map_of_injective _ (fun b => (⟨b, helloLine role a⟩ : Hello))
      (fun _ _ h => congrArg Hello.peer h) b
  · rename_i h
    rw [List.count_eq_zero]
    rintro hmem
    obtain ⟨_, _, heq⟩ := List.mem_map.mp hmem
    obtain ⟨hr, ha⟩ := helloLine_inj (congrArg Hello.line heq)
    exact h ⟨ha.symm, hr.symm⟩

theorem flying_talk : (s.talk a₁ role₁ ins outs).flying role a b =
    s.flying role a b + if a = a₁ ∧ role = role₁ then outs.count b else 0 := by
  unfold Exchange.flying Exchange.talk Exchange.act
  rw [List.count_append, count_hellos]

theorem told_talk : (s.talk a₁ role₁ ins outs).told role a b =
    s.told role a b + if a = a₁ ∧ role = role₁ then outs.count b else 0 := by
  unfold Exchange.told Exchange.talk Exchange.act
  rw [List.count_append, count_hellos]

end

/-! ## What always holds -/

/-- The nodes are those of the neighborhood, and what they hold and say is about peers. -/
structure Shaped (nb : Neighborhood) (s : Exchange) : Prop where
  me : ∀ a ∈ nb.addrs, (s.node a).me = a
  sins : ∀ a ∈ nb.addrs, ∀ role, (s.node a).vpSins role = peersIn (nb.peers a) role
  inits : s.toInit.Nodup ∧ ∀ x ∈ s.toInit, x.1 ∈ nb.addrs
  client : ∀ a ∈ nb.addrs, ∀ role, ∀ b ∈ (s.node a).vpOut role, nb.Peers role a b
  server : ∀ a ∈ nb.addrs, ∀ role, ∀ b ∈ (s.node a).vpIn role, nb.Peers role a b
  line : ∀ m ∈ s.lines, ∃ role a, nb.Peers role a m.peer ∧ m.line = helloLine role a
  sent : ∀ m ∈ s.sent, ∃ role a, nb.Peers role a m.peer ∧ m.line = helloLine role a

/-- How many proxies and lines there are for every two peers. -/
structure Tallied (nb : Neighborhood) (s : Exchange) : Prop where
  /-- the greater node connects when it starts -/
  first : ∀ role a b, nb.Peers role a b → b.before a → s.clients role a b = if (a, role) ∈ s.toInit then 0 else 1
  /-- the smaller one connects when it is connected to -/
  back : ∀ role a b, nb.Peers role a b → a.before b → s.clients role a b = s.servers role a b
  carried : ∀ role a b, nb.Peers role a b → s.clients role a b = s.flying role a b + s.servers role b a
  told : ∀ role a b, nb.Peers role a b → s.told role a b = s.clients role a b

namespace Neighborhood

variable {nb : Neighborhood} {role : ProxyRole} {a b : SockaddrIn}

theorem Peers.symm (h : nb.Peers role a b) : nb.Peers role b a :=
  ⟨nb.closed a h.mem role b h.names, nb.symmetric a h.mem role b h.names⟩

theorem Peers.ne (h : nb.Peers role a b) : a ≠ b := by
  rintro rfl
  exact nb.others a h.mem role h.names

theorem Peers.before (h : nb.Peers role a b) : b.before a ∨ a.before b :=
  SockaddrIn.before_total (Ne.symm h.ne)

end Neighborhood

section

variable {nb : Neighborhood} {s s' : Exchange} {role : ProxyRole} {a b : SockaddrIn}

theorem Tallied.clients_le (ht : Tallied nb s) (hp : nb.Peers role a b) : s.clients role a b ≤ 1 := by
  have hfirst : ∀ {x y}, nb.Peers role x y → y.before x → s.clients role x y ≤ 1 := by
    intro x y hp hb
    rw [ht.first role x y hp hb]
    split <;> omega
  rcases hp.before with hb | hb
  · exact hfirst hp hb
  · have h1 := hfirst hp.symm hb
    have h2 := ht.back role a b hp hb
    have h3 := ht.carried role b a hp.symm
    omega

theorem Tallied.servers_le (ht : Tallied nb s) (hp : nb.Peers role a b) : s.servers role a b ≤ 1 := by
  have h1 := ht.clients_le hp.symm
  have h2 := ht.carried role b a hp.symm
  omega

theorem shaped_start (nb : Neighborhood) : Shaped nb nb.start where
  me a ha := (configured_of_init (nb.loaded a ha)).me
  sins a ha := (configured_of_init (nb.loaded a ha)).sins
  inits := by
    refine ⟨nb.distinct.product (by decide), ?_⟩
    rintro ⟨a, role⟩ hx
    exact (List.pair_mem_product.mp hx).1
  client a ha role b hb := by
    rw [show nb.start.node = nb.node from rfl, (configured_of_init (nb.loaded a ha)).out] at hb
    cases hb
  server a ha role b hb := by
    rw [show nb.start.node = nb.node from rfl, (configured_of_init (nb.loaded a ha)).accepted] at hb
    cases hb
  line := nofun
  sent := nofun

theorem tallied_start (nb : Neighborhood) : Tallied nb nb.start := by
  have hclients : ∀ role a b, nb.Peers role a b → nb.start.clients role a b = 0 := by
    intro role a b hp
    unfold Exchange.clients
    rw [show nb.start.node = nb.node from rfl, (configured_of_init (nb.loaded a hp.mem)).out]
    rfl
  have hservers : ∀ role a b, nb.Peers role a b → nb.start.servers role a b = 0 := by
    intro role a b hp
    unfold Exchange.servers
    rw [show nb.start.node = nb.node from rfl, (configured_of_init (nb.loaded a hp.mem)).accepted]
    rfl
  refine ⟨fun role a b hp _ => ?_, fun role a b hp _ => ?_, fun role a b hp => ?_, fun role a b hp => ?_⟩
  · have hmem : (a, role) ∈ nb.start.toInit := by
      refine List.pair_mem_product.mpr ⟨hp.mem, ?_⟩
      cases role <;> decide
    rw [hclients role a b hp, if_pos hmem]
  · rw [hclients role a b hp, hservers role a b hp]
  · rw [hclients role a b hp, hservers role b a hp.symm]
    rfl
  · rw [hclients role a b hp]
    rfl

/-! ## Room for the proxies -/

theorem length_le_of_counts {l ps : List SockaddrIn} (hl : ∀ b ∈ ps, l.count b ≤ 1) (hs : l ⊆ ps)
    (hp : ps.length ≤ MAX_NEIGHBORS) : l.length ≤ MAX_NEIGHBORS := by
  have hnodup : l.Nodup := by
    refine List.nodup_iff_count_le_one.mpr fun b => ?_
    by_cases hb : b ∈ ps
    · exact hl b hb
    · rw [List.count_eq_zero.mpr fun h => hb (hs h)]
      exact Nat.zero_le 1
  exact Nat.le_trans (hnodup.subperm hs).length_le hp

theorem Neighborhood.peers_le (nb : Neighborhood) (role : ProxyRole) (ha : a ∈ nb.addrs) :
    (peersIn (nb.peers a) role).length ≤ MAX_NEIGHBORS :=
  Nat.le_trans (length_peersIn_le _ _) (configured_of_init (nb.loaded a ha)).room

/-- The peers a node connects to when it starts. -/
def Neighborhood.smaller (nb : Neighborhood) (role : ProxyRole) (a : SockaddrIn) : List SockaddrIn :=
  (peersIn (nb.peers a) role).filter fun b => b.before a

theorem count_smaller (hp : nb.Peers role a b) : (nb.smaller role a).count b = if b.before a then 1 else 0 := by
  have hone := List.count_eq_one_of_mem (nb.once a hp.mem role) hp.names
  unfold Neighborhood.smaller
  split
  · rename_i hb
    rw [List.count_filter (by simpa using hb), hone]
  · rename_i hb
    exact List.count_eq_zero.mpr fun h => hb (by simpa using (List.mem_filter.mp h).2)

theorem mem_smaller (ha : a ∈ nb.addrs) (h : b ∈ nb.smaller role a) : nb.Peers role a b :=
  ⟨ha, (List.mem_filter.mp h).1⟩

variable {gethostbyname : Bytes → InAddr}

theorem init_step (hs : Shaped nb s) (ht : Tallied nb s) (hi : (a, role) ∈ s.toInit) :
    s.step gethostbyname (.init a role) =
      some ({ s with toInit := s.toInit.erase (a, role) }.talk a role [] (nb.smaller role a)) := by
  have ha : a ∈ nb.addrs := hs.inits.2 _ hi
  have hsmaller : (s.node a).smaller ((s.node a).vpSins role) = nb.smaller role a := by
    rw [RamcubeNode.smaller, hs.me a ha, hs.sins a ha]
    rfl
  have hroom : ((s.node a).vpOut role ++ nb.smaller role a).length ≤ MAX_NEIGHBORS := by
    refine length_le_of_counts (fun b hb => ?_) (fun b hb => ?_) (nb.peers_le role ha)
    · have hp : nb.Peers role a b := ⟨ha, hb⟩
      have hle := ht.clients_le hp
      have hfirst := ht.first role a b hp
      unfold Exchange.clients at hle hfirst
      rw [List.count_append, count_smaller hp]
      split
      · rename_i hb
        rw [hfirst hb, if_pos hi]
      · exact hle
    · rcases List.mem_append.mp hb with hb | hb
      · exact (hs.client a ha role b hb).names
      · exact (mem_smaller ha hb).names
  rw [List.length_append] at hroom
  unfold Exchange.step RamcubeNode.initSmallerProxies
  dsimp only
  rw [if_pos hi, RamcubeNode.connectSmaller_eq (by rw [hsmaller]; exact hroom), hsmaller, hs.me a ha]
  simp [Exchange.talk, hs.me a ha]

/-- A line on its way comes from a peer, who has one client proxy for it. -/
theorem arrive_step (hs : Shaped nb s) (ht : Tallied nb s) (hp : nb.Peers role a b)
    (hm : ⟨b, helloLine role a⟩ ∈ s.lines) : s.step gethostbyname (.arrive ⟨b, helloLine role a⟩) =
      some ({ s with lines := s.lines.erase ⟨b, helloLine role a⟩ }.talk b role [a]
        (if b.before a then [a] else [])) := by
  have hb := hp.symm.mem
  have hflying : 0 < s.flying role a b := List.count_pos_iff.mpr hm
  have hcarried := ht.carried role a b hp
  have hle := ht.clients_le hp
  have hpeers : ∀ l : List SockaddrIn, (∀ x ∈ l, nb.Peers role b x) → (∀ x, nb.Peers role b x → l.count x ≤ 1) →
      l.count a = 0 → l.length < MAX_NEIGHBORS := by
    intro l hl hone hzero
    have hlen := @length_le_of_counts (l ++ [a]) (peersIn (nb.peers b) role) (fun x hx => ?_) (fun x hx => ?_)
      (nb.peers_le role hb)
    · rw [List.length_append, List.length_singleton] at hlen
      omega
    · rw [List.count_append]
      by_cases hxa : x = a
      · subst hxa
        simp [hzero]
      · have hcount := hone x ⟨hb, hx⟩
        simpa [Ne.symm hxa] using hcount
    · rcases List.mem_append.mp hx with hx | hx
      · exact (hl x hx).names
      · rw [List.mem_singleton.mp hx]
        exact hp.symm.names
  have hin : ((s.node b).vpIn role).length < MAX_NEIGHBORS := by
    refine hpeers _ (hs.server b hb role) (fun x hx => ht.servers_le hx) ?_
    show s.servers role b a = 0
    omega
  have hout : (s.node b).me.before a → ((s.node b).vpOut role).length < MAX_NEIGHBORS := by
    intro hbefore
    rw [hs.me b hb] at hbefore
    refine hpeers _ (hs.client b hb role) (fun x hx => ht.clients_le hx) ?_
    show s.clients role b a = 0
    have hback := ht.back role b a hp.symm hbefore
    omega
  have hmem : a ∈ (s.node b).vpSins role := by
    rw [hs.sins b hb]
    exact hp.symm.names
  unfold Exchange.step
  dsimp only
  rw [if_pos hm, RamcubeNode.serveLine_helloLine, RamcubeNode.acceptPeer_eq hmem hin hout, hs.me b hb]
  by_cases hbefore : b.before a
  · simp [hbefore, Exchange.talk, hs.me b hb]
  · simp [hbefore, Exchange.talk, hs.me b hb]

/-! ## What a step keeps -/

variable {ins outs : List SockaddrIn}

theorem Shaped.talk (hs : Shaped nb s) (hins : ∀ b ∈ ins, nb.Peers role a b)
    (houts : ∀ b ∈ outs, nb.Peers role a b) : Shaped nb (s.talk a role ins outs) where
  me x hx := node_talk.1.trans (hs.me x hx)
  sins x hx := by
    rw [node_talk.2]
    exact hs.sins x hx
  inits := hs.inits
  client x hx role' b hb := by
    rw [vpOut_talk] at hb
    rcases List.mem_append.mp hb with hb | hb
    · exact hs.client x hx role' b hb
    · split at hb
      · rename_i h
        rw [h.1, h.2]
        exact houts b hb
      · cases hb
  server x hx role' b hb := by
    rw [vpIn_talk] at hb
    rcases List.mem_append.mp hb with hb | hb
    · exact hs.server x hx role' b hb
    · split at hb
      · rename_i h
        rw [h.1, h.2]
        exact hins b hb
      · cases hb
  line m hm := by
    rcases List.mem_append.mp hm with hm | hm
    · exact hs.line m hm
    · obtain ⟨b, hb, rfl⟩ := List.mem_map.mp hm
      exact ⟨role, a, houts b hb, rfl⟩
  sent m hm := by
    rcases List.mem_append.mp hm with hm | hm
    · exact hs.sent m hm
    · obtain ⟨b, hb, rfl⟩ := List.mem_map.mp hm
      exact ⟨role, a, houts b hb, rfl⟩

theorem Shaped.init (hs : Shaped nb s) (hi : (a, role) ∈ s.toInit) :
    Shaped nb ({ s with toInit := s.toInit.erase (a, role) }.talk a role [] (nb.smaller role a)) := by
  have ha : a ∈ nb.addrs := hs.inits.2 _ hi
  have hrest : Shaped nb { s with toInit := s.toInit.erase (a, role) } :=
    ⟨hs.me, hs.sins, ⟨hs.inits.1.erase _, fun x hx => hs.inits.2 x (List.mem_of_mem_erase hx)⟩, hs.client, hs.server,
      hs.line, hs.sent⟩
  exact hrest.talk nofun fun b hb => mem_smaller ha hb

theorem Tallied.init (ht : Tallied nb s) (hs : Shaped nb s) (hi : (a, role) ∈ s.toInit) :
    Tallied nb ({ s with toInit := s.toInit.erase (a, role) }.talk a role [] (nb.smaller role a)) where
  first role' x b hp hb := by
    rw [clients_talk]
    have hfirst := ht.first role' x b hp hb
    by_cases hx : x = a ∧ role' = role
    · obtain ⟨rfl, rfl⟩ := hx
      rw [if_pos hi] at hfirst
      rw [if_pos ⟨rfl, rfl⟩, count_smaller hp, if_pos hb]
      have hgone : (x, role') ∉ s.toInit.erase (x, role') := fun h => (hs.inits.1.mem_erase_iff.mp h).1 rfl
      exact (congrArg (· + 1) hfirst).trans (if_neg hgone).symm
    · have hne : (x, role') ≠ (a, role) := fun h => hx ⟨congrArg Prod.fst h, congrArg Prod.snd h⟩
      have hmem : (x, role') ∈ s.toInit.erase (a, role) ↔ (x, role') ∈ s.toInit :=
        hs.inits.1.mem_erase_iff.trans (and_iff_right hne)
      rw [if_neg hx, Nat.add_zero]
      exact hfirst.trans (if_congr hmem.symm rfl rfl)
  back role' x b hp hb := by
    rw [clients_talk, servers_talk]
    have hback := ht.back role' x b hp hb
    by_cases hx : x = a ∧ role' = role
    · obtain ⟨rfl, rfl⟩ := hx
      rw [if_pos ⟨rfl, rfl⟩, if_pos ⟨rfl, rfl⟩, count_smaller hp, if_neg (SockaddrIn.before_asymm hb)]
      exact hback
    · rw [if_neg hx, if_neg hx]
      exact hback
  carried role' x b hp := by
    rw [clients_talk, flying_talk, servers_talk]
    have hcarried := ht.carried role' x b hp
    change s.clients role' x b + _ = s.flying role' x b + _ + (s.servers role' b x + _)
    rw [List.count_nil, ite_self]
    omega
  told role' x b hp := by
    rw [clients_talk, told_talk]
    exact congrArg (· + _) (ht.told role' x b hp)

theorem Shaped.arrive (hs : Shaped nb s) (hp : nb.Peers role a b) :
    Shaped nb ({ s with lines := s.lines.erase ⟨b, helloLine role a⟩ }.talk b role [a]
      (if b.before a then [a] else [])) := by
  have hrest : Shaped nb { s with lines := s.lines.erase ⟨b, helloLine role a⟩ } :=
    ⟨hs.me, hs.sins, hs.inits, hs.client, hs.server, fun m hm => hs.line m (List.mem_of_mem_erase hm), hs.sent⟩
  refine hrest.talk (fun x hx => ?_) (fun x hx => ?_)
  · rw [List.mem_singleton.mp hx]
    exact hp.symm
  · split at hx
    · rw [List.mem_singleton.mp hx]
      exact hp.symm
    · cases hx

theorem Tallied.arrive (ht : Tallied nb s) (hp : nb.Peers role a b) (hm : ⟨b, helloLine role a⟩ ∈ s.lines) :
    Tallied nb ({ s with lines := s.lines.erase ⟨b, helloLine role a⟩ }.talk b role [a]
      (if b.before a then [a] else [])) where
  first role' x y hq hy := by
    rw [clients_talk]
    refine Eq.trans ?_ (ht.first role' x y hq hy)
    by_cases hx : x = b ∧ role' = role
    · obtain ⟨rfl, rfl⟩ := hx
      rw [if_pos ⟨rfl, rfl⟩]
      have hnone : (if x.before a then [a] else []).count y = 0 := by
        refine List.count_eq_zero.mpr fun h => ?_
        split at h
        · rename_i hb
          rw [List.mem_singleton.mp h] at hy
          exact SockaddrIn.before_asymm hb hy
        · cases h
      rw [hnone]
      rfl
    · rw [if_neg hx]
      rfl
  back role' x y hq hy := by
    rw [clients_talk, servers_talk]
    have hback := ht.back role' x y hq hy
    change s.clients role' x y + _ = s.servers role' x y + _
    rw [hback]
    by_cases hx : x = b ∧ role' = role
    · rw [if_pos hx, if_pos hx]
      by_cases hya : y = a
      · have hbefore : b.before a := by
          rw [← hx.1, ← hya]
          exact hy
        rw [if_pos hbefore]
      · have hnone : [a].count y = 0 := List.count_eq_zero.mpr fun h => hya (List.mem_singleton.mp h)
        split
        · rfl
        · rw [hnone]
          rfl
    · rw [if_neg hx, if_neg hx]
  carried role' x y hq := by
    rw [clients_talk, flying_talk, servers_talk]
    have hcarried := ht.carried role' x y hq
    have hflying : 0 < s.flying role a b := List.count_pos_iff.mpr hm
    have herase : ({ s with lines := s.lines.erase ⟨b, helloLine role a⟩ } : Exchange).flying role' x y =
        s.flying role' x y - if (⟨b, helloLine role a⟩ : Hello) == ⟨y, helloLine role' x⟩ then 1 else 0 :=
      List.count_erase
    rw [herase]
    change s.clients role' x y + _ = s.flying role' x y - _ + _ + (s.servers role' y x + _)
    by_cases hsame : y = b ∧ role' = role ∧ x = a
    · obtain ⟨rfl, rfl, rfl⟩ := hsame
      have hserver : (if y = y ∧ role' = role' then [x].count x else 0) = 1 := by
        rw [if_pos ⟨rfl, rfl⟩, List.count_singleton_self]
      rw [if_pos (beq_self_eq_true _), hserver]
      omega
    · have hline : ¬((⟨b, helloLine role a⟩ : Hello) == ⟨y, helloLine role' x⟩) = true := by
        intro h
        have heq := eq_of_beq h
        obtain ⟨hr, ha⟩ := helloLine_inj (congrArg Hello.line heq)
        exact hsame ⟨(congrArg Hello.peer heq).symm, hr.symm, ha.symm⟩
      have hserver : (if y = b ∧ role' = role then [a].count x else 0) = 0 := by
        split
        · rename_i h
          exact List.count_eq_zero.mpr fun hx => hsame ⟨h.1, h.2, List.mem_singleton.mp hx⟩
        · rfl
      rw [if_neg hline, hserver]
      omega
  told role' x y hq := by
    rw [clients_talk, told_talk]
    exact congrArg (· + _) (ht.told role' x y hq)

/-- What a step can be: both kinds are an exchange of a node with some peers. -/
inductive ExchangeStep (nb : Neighborhood) (s : Exchange) : ExchangeEvent → Exchange → Prop where
  | init {a : SockaddrIn} {role : ProxyRole} : (a, role) ∈ s.toInit → ExchangeStep nb s (.init a role)
      ({ s with toInit := s.toInit.erase (a, role) }.talk a role [] (nb.smaller role a))
  | arrive {role : ProxyRole} {a b : SockaddrIn} : nb.Peers role a b → ⟨b, helloLine role a⟩ ∈ s.lines →
      ExchangeStep nb s (.arrive ⟨b, helloLine role a⟩)
        ({ s with lines := s.lines.erase ⟨b, helloLine role a⟩ }.talk b role [a] (if b.before a then [a] else []))

theorem step_iff (hs : Shaped nb s) (ht : Tallied nb s) {e : ExchangeEvent} :
    s.step gethostbyname e = some s' ↔ ExchangeStep nb s e s' := by
  constructor
  · intro h
    cases e with
    | init a role =>
      have hi : (a, role) ∈ s.toInit := by
        by_contra hi
        simp [Exchange.step, hi] at h
      rw [init_step hs ht hi] at h
      exact Option.some.inj h ▸ .init hi
    | arrive m =>
      have hm : m ∈ s.lines := by
        by_contra hm
        simp [Exchange.step, hm] at h
      obtain ⟨b, line⟩ := m
      obtain ⟨role, a, hp, rfl⟩ := hs.line _ hm
      rw [arrive_step hs ht hp hm] at h
      exact Option.some.inj h ▸ .arrive hp hm
  · rintro (hi | ⟨hp, hm⟩)
    · exact init_step hs ht hi
    · exact arrive_step hs ht hp hm

/-- Nothing is left to do only when every node has started and every line has arrived. -/
theorem exists_step (hs : Shaped nb s) (h : ¬(s.toInit = [] ∧ s.lines = [])) : ∃ e s', ExchangeStep nb s e s' := by
  cases hinit : s.toInit with
  | cons x rest => exact ⟨.init x.1 x.2, _, .init (hinit ▸ List.mem_cons_self)⟩
  | nil =>
    cases hlines : s.lines with
    | nil => exact absurd ⟨hinit, hlines⟩ h
    | cons m rest =>
      have hm : m ∈ s.lines := hlines ▸ List.mem_cons_self
      obtain ⟨b, line⟩ := m
      obtain ⟨role, a, hp, rfl⟩ := hs.line _ hm
      exact ⟨_, _, .arrive hp hm⟩

/-- A step does one thing of those to be done, and what it sends is to be done later. -/
theorem ExchangeStep.count {e : ExchangeEvent} (h : ExchangeStep nb s e s') :
    s'.toInit.length + s'.lines.length + s.sent.length + 1 =
      s.toInit.length + s.lines.length + s'.sent.length := by
  cases h with
  | init hi =>
    have hlen := List.length_erase_add_one hi
    simp only [Exchange.talk, Exchange.act, List.length_append]
    omega
  | arrive hp hm =>
    have hlen := List.length_erase_add_one hm
    simp only [Exchange.talk, Exchange.act, List.length_append]
    omega

end

/-! ## Whole runs -/

/-- Every line that can be sent. -/
def Neighborhood.hellos (nb : Neighborhood) : List Hello :=
  nb.addrs.flatMap fun a => ProxyRole.all.flatMap fun role =>
    (peersIn (nb.peers a) role).map fun b => ⟨b, helloLine role a⟩

/-- How many steps there can be. -/
def Neighborhood.steps (nb : Neighborhood) : Nat := (nb.addrs ×ˢ ProxyRole.all).length + nb.hellos.length

/-- Every two peers are connected in both directions, with one line each. -/
structure Connected (nb : Neighborhood) (s : Exchange) : Prop where
  idle : s.toInit = [] ∧ s.lines = []
  client : ∀ role a b, nb.Peers role a b → s.clients role a b = 1
  server : ∀ role a b, nb.Peers role a b → s.servers role b a = 1
  told : ∀ role a b, nb.Peers role a b → s.told role a b = 1
  /-- there are no other lines and no other proxies -/
  only : Shaped nb s

section

variable {nb : Neighborhood} {s : Exchange} {es : List ExchangeEvent} {gethostbyname : Bytes → InAddr}

/-- What holds after a number of steps. -/
structure Exchanged (nb : Neighborhood) (steps : Nat) (s : Exchange) : Prop where
  shaped : Shaped nb s
  tallied : Tallied nb s
  count : steps + s.toInit.length + s.lines.length = (nb.addrs ×ˢ ProxyRole.all).length + s.sent.length

theorem Exchanged.step {steps : Nat} {e : ExchangeEvent} {s' : Exchange} (h : Exchanged nb steps s)
    (hstep : s.step gethostbyname e = some s') : Exchanged nb (steps + 1) s' := by
  have hcases := (step_iff h.shaped h.tallied).mp hstep
  have hcount := hcases.count
  have hbefore := h.count
  have hafter : steps + 1 + s'.toInit.length + s'.lines.length =
      (nb.addrs ×ˢ ProxyRole.all).length + s'.sent.length := by omega
  cases hcases with
  | init hi => exact ⟨h.shaped.init hi, h.tallied.init h.shaped hi, hafter⟩
  | arrive hp hm => exact ⟨h.shaped.arrive hp, h.tallied.arrive hp hm, hafter⟩

theorem Exchanged.run {steps : Nat} {s' : Exchange} (h : Exchanged nb steps s)
    (hrun : Run (fun s e s' => s.step gethostbyname e = some s') s es s') : Exchanged nb (steps + es.length) s' := by
  induction hrun generalizing steps with
  | nil => exact h
  | cons hstep _ ih =>
    rw [List.length_cons, Nat.add_comm _ 1, ← Nat.add_assoc]
    exact ih (h.step hstep)

theorem exchanged_start (nb : Neighborhood) : Exchanged nb 0 nb.start :=
  ⟨shaped_start nb, tallied_start nb, by simp [Neighborhood.start]⟩

/-- No line is sent twice. -/
theorem sent_le (hs : Shaped nb s) (ht : Tallied nb s) : s.sent.length ≤ nb.hellos.length := by
  have hnodup : s.sent.Nodup := by
    refine List.nodup_iff_count_le_one.mpr fun m => ?_
    by_cases hm : m ∈ s.sent
    · obtain ⟨role, a, hp, hline⟩ := hs.sent m hm
      have htold := (ht.told role a m.peer hp).trans_le (ht.clients_le hp)
      rwa [Exchange.told, ← hline] at htold
    · rw [List.count_eq_zero.mpr hm]
      exact Nat.zero_le 1
  refine (hnodup.subperm fun m hm => ?_).length_le
  obtain ⟨role, a, hp, hline⟩ := hs.sent m hm
  have hrole : role ∈ ProxyRole.all := by
    cases role <;> decide
  exact List.mem_flatMap.mpr ⟨a, hp.mem, List.mem_flatMap.mpr ⟨role, hrole,
    List.mem_map.mpr ⟨m.peer, hp.names, by rw [← hline]⟩⟩⟩

theorem connected_of_idle (hs : Shaped nb s) (ht : Tallied nb s) (hidle : s.toInit = [] ∧ s.lines = []) :
    Connected nb s := by
  have hcarried : ∀ role a b, nb.Peers role a b → s.clients role a b = s.servers role b a := by
    intro role a b hp
    rw [ht.carried role a b hp, Exchange.flying, hidle.2, List.count_nil, Nat.zero_add]
  have hfirst : ∀ role a b, nb.Peers role a b → b.before a → s.clients role a b = 1 := by
    intro role a b hp hb
    rw [ht.first role a b hp hb, hidle.1, if_neg List.not_mem_nil]
  have hclient : ∀ role a b, nb.Peers role a b → s.clients role a b = 1 := by
    intro role a b hp
    rcases hp.before with hb | hb
    · exact hfirst role a b hp hb
    · rw [ht.back role a b hp hb, ← hcarried role b a hp.symm]
      exact hfirst role b a hp.symm hb
  refine ⟨hidle, hclient, fun role a b hp => ?_, fun role a b hp => ?_, hs⟩
  · rw [← hcarried role a b hp]
    exact hclient role a b hp
  · rw [ht.told role a b hp]
    exact hclient role a b hp

end

/-- However the nodes start and the lines arrive, the exchange comes to an end, and where it
ends every two peers are connected. -/
theorem exchange_completes (gethostbyname : Bytes → InAddr) (nb : Neighborhood) (es : List ExchangeEvent)
    (s : Exchange) (hrun : Run (fun s e s' => s.step gethostbyname e = some s') nb.start es s) :
    es.length ≤ nb.steps ∧ ((∃ e s', s.step gethostbyname e = some s') ∨ Connected nb s) := by
  have h := (exchanged_start nb).run hrun
  have hsent := sent_le h.shaped h.tallied
  have hcount := h.count
  constructor
  · unfold Neighborhood.steps
    omega
  · by_cases hidle : s.toInit = [] ∧ s.lines = []
    · exact .inr (connected_of_idle h.shaped h.tallied hidle)
    · obtain ⟨e, s', hstep⟩ := exists_step h.shaped hidle
      exact .inl ⟨e, s', (step_iff h.shaped h.tallied).mpr hstep⟩

/-! Two nodes that back each other up. -/

def firstNode : SockaddrIn := ⟨⟨127, 0, 0, 1⟩, 11111⟩

def secondNode : SockaddrIn := ⟨⟨127, 0, 0, 1⟩, 11112⟩

def otherNode (a : SockaddrIn) : SockaddrIn := if a = firstNode then secondNode else firstNode

def twoNodes : Neighborhood where
  addrs := [firstNode, secondNode]
  peers a := [(.BACKUP, otherNode a)]
  node a := { emptyNode a with
    neighbors := 1
    vpSins := Function.update (fun _ => []) .BACKUP [otherNode a] }
  loaded _ _ := rfl
  distinct := by decide
  closed a ha role b hb := by
    have hother : otherNode a ∈ [firstNode, secondNode] := by
      unfold otherNode
      split <;> decide
    cases role with
    | BACKUP => exact List.mem_singleton.mp hb ▸ hother
    | PING => cases hb
    | COORDINATOR => cases hb
  symmetric a ha role b hb := by
    have hback : ∀ a ∈ [firstNode, secondNode], otherNode (otherNode a) = a := by decide
    cases role with
    | BACKUP => exact List.mem_singleton.mpr (List.mem_singleton.mp hb ▸ (hback a ha).symm)
    | PING => cases hb
    | COORDINATOR => cases hb
  others a ha role hmem := by
    have hne : ∀ a ∈ [firstNode, secondNode], a ≠ otherNode a := by decide
    cases role with
    | BACKUP => exact hne a ha (List.mem_singleton.mp hmem)
    | PING => cases hmem
    | COORDINATOR => cases hmem
  once _ _ role := by
    cases role with
    | BACKUP => exact List.nodup_singleton _
    | PING => exact List.nodup_nil
    | COORDINATOR => exact List.nodup_nil

def twoNodesRun : List ExchangeEvent :=
  (twoNodes.addrs ×ˢ ProxyRole.all).map (fun (a, role) => .init a role) ++
    [.arrive ⟨firstNode, helloLine .BACKUP secondNode⟩, .arrive ⟨secondNode, helloLine .BACKUP firstNode⟩]

theorem exchange_completes_twoNodes : ∃ s,
    Run (fun s e s' => s.step (fun _ => ⟨0, 0, 0, 0⟩) e = some s') twoNodes.start twoNodesRun s ∧
      twoNodesRun.length ≤ twoNodes.steps ∧ Connected twoNodes s := by
  have hend : ((twoNodesRun.foldlM (Exchange.step fun _ => ⟨0, 0, 0, 0⟩) twoNodes.start).any fun s =>
      s.toInit.isEmpty && s.lines.isEmpty) = true := by decide +kernel
  obtain ⟨s, hs, hidle⟩ := (Option.any_eq_true _ _).mp hend
  rw [Bool.and_eq_true, List.isEmpty_iff, List.isEmpty_iff] at hidle
  have hrun := Run.of_foldlM hs
  obtain ⟨hsteps, hstep | hconnected⟩ := exchange_completes _ twoNodes twoNodesRun s hrun
  · obtain ⟨e, s', hstep⟩ := hstep
    cases e with
    | init a role => simp [Exchange.step, hidle.1] at hstep
    | arrive m => simp [Exchange.step, hidle.2] at hstep
  · exact ⟨s, hrun, hsteps, hconnected⟩

end RamCube
