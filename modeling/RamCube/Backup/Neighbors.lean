import RamCube.Backup.Message
import RamCube.Server.Text

/-! # Neighbours of a node (ramcube.c)

A node knows its peers by role and holds a proxy for each connection with one: in the
`Out` array for a connection it made, in the `In` array for one it accepted. Whoever makes
a connection says so in a TYPE line, with its own address. -/
namespace RamCube

/-! ## Addresses -/

/-- `struct in_addr`: the bytes in network order. -/
structure InAddr where
  b1 : UInt8
  b2 : UInt8
  b3 : UInt8
  b4 : UInt8
deriving DecidableEq

/-- `SOCKADDR_IN` -/
structure SockaddrIn where
  sin_addr : InAddr
  sin_port : UInt16
deriving DecidableEq

/-- The character between an address and a port. -/
def hashSign : UInt8 := 35

def inetNtoa (a : InAddr) : Bytes :=
  decimal a.b1.toNat ++ dot :: (decimal a.b2.toNat ++ dot :: (decimal a.b3.toNat ++ dot :: decimal a.b4.toNat))

/-- The value of a digit, 16 for any other character. -/
def hexDigit (b : UInt8) : Nat :=
  if isDigit b then b.toNat - 48
  else if 97 ≤ b ∧ b ≤ 102 then b.toNat - 87
  else if 65 ≤ b ∧ b ≤ 70 then b.toNat - 55
  else 16

/-- The number at the start of a text, and what follows it. -/
def readBase (base : Nat) : Nat → Bytes → Nat × Bytes
  | n, [] => (n, [])
  | n, b :: cp => if hexDigit b < base then readBase base (n * base + hexDigit b) cp else (n, b :: cp)

/-- A number of an address, in hexadecimal behind `0x` and in octal behind `0`. -/
def inetNumber (cp : Bytes) : Option (Nat × Bytes) :=
  if isDigit (cp.headD 0) = false then none
  else if cp.headD 0 ≠ 48 then some (readBase 10 0 cp)
  else if cp.getD 1 0 ∈ [120, 88] ∧ hexDigit (cp.getD 2 0) < 16 then some (readBase 16 0 (cp.drop 2))
  else some (readBase 8 0 cp)

/-- The numbers of an address with at most so many dots. The last one fills the bytes that
are left, and a blank may follow it. -/
def inetValue (dots : Nat) (cp : Bytes) : Option Nat := do
  let (val, cp) ← inetNumber cp
  match cp with
  | [] => if val < 256 ^ (dots + 1) then some val else none
  | b :: cp =>
    if b = dot then
      match dots with
      | 0 => none
      | dots + 1 => if val < 256 then (inetValue dots cp).map (val * 256 ^ (dots + 1) + ·) else none
    else if isSpace b ∧ val < 256 ^ (dots + 1) then some val
    else none

def InAddr.ofNat (n : Nat) : InAddr :=
  ⟨UInt8.ofNat (n / 2 ^ 24), UInt8.ofNat (n / 2 ^ 16), UInt8.ofNat (n / 2 ^ 8), UInt8.ofNat n⟩

/-- `inet_aton` -/
def inetAton (cp : Bytes) : Option InAddr := (inetValue 3 cp).map InAddr.ofNat

/-- The `int` that `s_addr` is read as: the first byte is the lowest. -/
def InAddr.toInt (a : InAddr) : Int :=
  asInt (a.b1.toNat + 256 * (a.b2.toNat + 256 * (a.b3.toNat + 256 * a.b4.toNat)))

/-- `inet_addr_compare` -/
def inetAddrCompare (lpAddr1 : Bytes) (iPort1 : Int) (lpAddr2 : Bytes) (iPort2 : Int) : Int :=
  let iAddr1 := ((inetAton lpAddr1).getD ⟨0, 0, 0, 0⟩).toInt
  let iAddr2 := ((inetAton lpAddr2).getD ⟨0, 0, 0, 0⟩).toInt
  if iAddr1 < iAddr2 then -1
  else if iAddr2 < iAddr1 then 1
  else if iPort1 < iPort2 then -1
  else if iPort2 < iPort1 then 1
  else 0

/-- `inet_addr` -/
def inetAddr (cp : Bytes) : InAddr := (inetAton cp).getD ⟨255, 255, 255, 255⟩

def isAlpha (b : UInt8) : Bool := 65 ≤ b && b ≤ 90 || 97 ≤ b && b ≤ 122

/-! ### Addresses as texts -/

theorem hexDigit_digitByte {d : Nat} (h : d < 10) : hexDigit (digitByte d) = d := by
  rw [hexDigit, isDigit_digitByte h, if_pos rfl, digitByte_toNat h, Nat.add_sub_cancel_left]

theorem readBase_map {base : Nat} {ds : List Nat} {rest : Bytes} (hd : ∀ d ∈ ds, d < 10 ∧ d < base)
    (hr : ∀ b ∈ rest.head?, base ≤ hexDigit b) (n : Nat) :
    readBase base n (ds.map digitByte ++ rest) = (ds.foldl (fun a d => a * base + d) n, rest) := by
  induction ds generalizing n with
  | nil =>
    cases rest with
    | nil => rfl
    | cons b rest => exact if_neg (Nat.not_lt.mpr (hr b rfl))
  | cons d ds ih =>
    obtain ⟨⟨h10, hbase⟩, hds⟩ := List.forall_mem_cons.mp hd
    rw [List.map_cons, List.cons_append, readBase, hexDigit_digitByte h10, if_pos hbase, ih hds]
    rfl

/-- A number is read as it is written. -/
theorem inetNumber_decimal {n : Nat} {rest : Bytes} (hr : ∀ b ∈ rest.head?, b = dot) :
    inetNumber (decimal n ++ rest) = some (n, rest) := by
  have hrest : ∀ b ∈ rest.head?, 16 ≤ hexDigit b := by
    intro b hb
    obtain rfl := hr b hb
    decide
  by_cases hn : n = 0
  · subst hn
    have hx : rest.headD 0 ∉ [120, 88] := by
      cases rest with
      | nil => decide
      | cons b rest =>
        obtain rfl : b = dot := hr b rfl
        exact (by decide : dot ∉ [120, 88])
    have hread : readBase 8 0 ([0].map digitByte ++ rest) = (0, rest) :=
      readBase_map (by decide) (fun b hb => Nat.le_trans (by decide) (hrest b hb)) 0
    have hzero : decimal 0 ++ rest = 48 :: rest := rfl
    have hnext : (48 :: rest : Bytes).getD 1 0 = rest.headD 0 := by cases rest <;> rfl
    rw [hzero, inetNumber, List.headD_cons, if_neg (by decide), if_neg (by decide), hnext, if_neg fun h => hx h.1]
    exact congrArg some hread
  · obtain ⟨d, ds, hdigits, hd0⟩ : ∃ d ds, (Nat.digits 10 n).reverse = d :: ds ∧ d ≠ 0 := by
      have hne := Nat.digits_ne_nil_iff_ne_zero (b := 10).mpr hn
      have hlast := Nat.getLast_digit_ne_zero 10 hn
      refine ⟨(Nat.digits 10 n).getLast hne, (Nat.digits 10 n).dropLast.reverse, ?_, hlast⟩
      conv_lhs => rw [← List.dropLast_append_getLast hne]
      rw [List.reverse_append]
      rfl
    have hlt : ∀ x ∈ d :: ds, x < 10 ∧ x < 10 := by
      intro x hx
      rw [← hdigits, List.mem_reverse] at hx
      exact ⟨Nat.digits_lt_base (by decide) hx, Nat.digits_lt_base (by decide) hx⟩
    have htext : decimal n = (d :: ds).map digitByte := by rw [decimal, if_neg hn, hdigits]
    have hread := readBase_map hlt (fun b hb => Nat.le_trans (by decide) (hrest b hb)) 0
    have hvalue : (d :: ds).foldl (fun a d => a * 10 + d) 0 = n := by rw [← hdigits, foldl_digits, Nat.ofDigits_digits]
    have hfirst : digitByte d ≠ 48 := by
      intro h
      have hbyte := digitByte_toNat (hlt d List.mem_cons_self).1
      rw [h] at hbyte
      have h48 : (48 : UInt8).toNat = 48 := rfl
      omega
    rw [hvalue, ← htext] at hread
    have hhead : (decimal n ++ rest).headD 0 = digitByte d := by
      rw [htext]
      rfl
    rw [inetNumber, hhead, isDigit_digitByte (hlt d List.mem_cons_self).1, if_neg (by decide), if_pos hfirst, hread]

theorem inetValue_dot {n dots : Nat} {rest : Bytes} (hn : n < 256) :
    inetValue (dots + 1) (decimal n ++ dot :: rest) = (inetValue dots rest).map (n * 256 ^ (dots + 1) + ·) := by
  rw [inetValue, inetNumber_decimal (by simp), Option.bind_eq_bind, Option.bind_some]
  simp [hn]

theorem inetAton_inetNtoa (a : InAddr) : inetAton (inetNtoa a) = some a := by
  obtain ⟨b1, b2, b3, b4⟩ := a
  have hlast : inetValue 0 (decimal b4.toNat) = some b4.toNat := by
    have hread : inetNumber (decimal b4.toNat ++ []) = some (b4.toNat, []) := inetNumber_decimal (by simp)
    rw [List.append_nil] at hread
    rw [inetValue, hread, Option.bind_eq_bind, Option.bind_some]
    exact if_pos b4.toNat_lt
  rw [inetAton, inetNtoa, inetValue_dot b1.toNat_lt, inetValue_dot b2.toNat_lt, inetValue_dot b3.toNat_lt, hlast]
  have h1 := b1.toNat_lt
  have h2 := b2.toNat_lt
  have h3 := b3.toNat_lt
  have h4 := b4.toNat_lt
  simp only [Option.map_some, InAddr.ofNat, Option.some.injEq, InAddr.mk.injEq, ← UInt8.toNat_inj, UInt8.toNat_ofNat']
  omega

/-- Two numbers, in hexadecimal and in decimal. -/
example : inetAton (ascii "0x0A.107") = some ⟨10, 0, 0, 107⟩ := by decide +kernel

theorem inetNtoa_inj {a b : InAddr} : inetNtoa a = inetNtoa b ↔ a = b := by
  refine ⟨fun h => ?_, congrArg inetNtoa⟩
  have hread := congrArg inetAton h
  rwa [inetAton_inetNtoa, inetAton_inetNtoa, Option.some.injEq] at hread

/-- The characters of an address, and of an address with its port. -/
theorem mem_inetNtoa {a : InAddr} {b : UInt8} (h : b ∈ inetNtoa a) : isDigit b = true ∨ b = dot := by
  simp only [inetNtoa, List.mem_append, List.mem_cons] at h
  rcases h with h | h | h | h | h | h | h
  · exact .inl (mem_decimal h)
  · exact .inr h
  · exact .inl (mem_decimal h)
  · exact .inr h
  · exact .inl (mem_decimal h)
  · exact .inr h
  · exact .inl (mem_decimal h)

theorem inetNtoa_ne {a : InAddr} {b : UInt8} (h : b ∈ inetNtoa a) :
    b ≠ 0 ∧ b ≠ LF ∧ b ≠ CR ∧ b ≠ space ∧ b ≠ hashSign ∧ isAlpha b = false := by
  have hb : (48 ≤ b.toNat ∧ b.toNat ≤ 57) ∨ b.toNat = 46 := by
    rcases mem_inetNtoa h with h | h
    · exact .inl (by simpa [isDigit, UInt8.le_iff_toNat_le] using h)
    · exact .inr (congrArg UInt8.toNat h)
  have hne : ∀ x : UInt8, x.toNat < 46 → b ≠ x := by
    rintro x hx rfl
    omega
  refine ⟨hne 0 (by decide), hne LF (by decide), hne CR (by decide), hne space (by decide), hne hashSign (by decide), ?_⟩
  simp only [isAlpha, Bool.or_eq_false_iff, Bool.and_eq_false_iff, decide_eq_false_iff_not, UInt8.le_iff_toNat_le]
  have h1 : (65 : UInt8).toNat = 65 := rfl
  have h2 : (97 : UInt8).toNat = 97 := rfl
  omega

/-! ### The order of addresses -/

theorem InAddr.toInt_inj {a b : InAddr} (h : a.toInt = b.toInt) : a = b := by
  have hbyte : ∀ x : UInt8, x.toNat < 256 := fun x => x.toNat_lt
  have h1 := hbyte a.b1
  have h2 := hbyte a.b2
  have h3 := hbyte a.b3
  have h4 := hbyte a.b4
  have h1' := hbyte b.b1
  have h2' := hbyte b.b2
  have h3' := hbyte b.b3
  have h4' := hbyte b.b4
  unfold InAddr.toInt asInt at h
  have hmod := congrArg (· % ((2 ^ 32 : Nat) : Int)) h
  simp only [Int.bmod_emod] at hmod
  clear h
  cases a with
  | mk a1 a2 a3 a4 =>
    cases b with
    | mk b1 b2 b3 b4 =>
      simp only [InAddr.mk.injEq, ← UInt8.toNat_inj] at *
      omega

/-- The order in which nodes connect: the greater one first. -/
def SockaddrIn.before (a b : SockaddrIn) : Prop :=
  a.sin_addr.toInt < b.sin_addr.toInt ∨ a.sin_addr = b.sin_addr ∧ a.sin_port < b.sin_port

namespace SockaddrIn

variable {a b : SockaddrIn}

theorem before_asymm (h : a.before b) : ¬b.before a := by
  rintro (h' | ⟨he', h'⟩) <;> rcases h with h | ⟨he, h⟩
  · omega
  · rw [he] at h'
    omega
  · rw [he'] at h
    omega
  · exact UInt16.lt_asymm h h'

instance (a b : SockaddrIn) : Decidable (a.before b) := inferInstanceAs (Decidable (_ ∨ _))

theorem before_total (h : a ≠ b) : a.before b ∨ b.before a := by
  rcases Int.lt_trichotomy a.sin_addr.toInt b.sin_addr.toInt with hlt | heq | hgt
  · exact .inl (.inl hlt)
  · have haddr := InAddr.toInt_inj heq
    rcases Nat.lt_trichotomy a.sin_port.toNat b.sin_port.toNat with hlt | hport | hgt
    · exact .inl (.inr ⟨haddr, hlt⟩)
    · refine absurd ?_ h
      cases a
      cases b
      simp only [SockaddrIn.mk.injEq]
      exact ⟨haddr, UInt16.toNat_inj.mp hport⟩
    · exact .inr (.inr ⟨haddr.symm, hgt⟩)
  · exact .inr (.inl hgt)

end SockaddrIn

/-- `inet_addr_compare` of the texts of two addresses. -/
theorem inetAddrCompare_texts (a b : SockaddrIn) :
    let r := inetAddrCompare (inetNtoa a.sin_addr) a.sin_port.toNat (inetNtoa b.sin_addr) b.sin_port.toNat
    (0 < r ↔ b.before a) ∧ (r < 0 ↔ a.before b) := by
  have haddr : a.sin_addr.toInt = b.sin_addr.toInt ↔ a.sin_addr = b.sin_addr :=
    ⟨InAddr.toInt_inj, congrArg InAddr.toInt⟩
  unfold inetAddrCompare SockaddrIn.before
  rw [inetAton_inetNtoa, inetAton_inetNtoa, ← haddr, ← Eq.comm (a := a.sin_addr) , ← haddr, UInt16.lt_iff_toNat_lt,
    UInt16.lt_iff_toNat_lt]
  dsimp only [Option.getD_some]
  split_ifs <;> constructor <;> constructor <;> intro _ <;> omega

variable (gethostbyname : Bytes → InAddr)

/-- `set_sin_by_name`; `none` where the port is read from behind the end of the name. -/
def setSinByName (name : Bytes) : Option SockaddrIn :=
  let word := name.dropWhile (· == hashSign)
  match word.dropWhile (· != hashSign) with
  | [] => none
  | _ :: cport =>
    let host := name.takeWhile (· == hashSign) ++ word.takeWhile (· != hashSign)
    some ⟨if isAlpha (host.headD 0) then gethostbyname host else inetAddr host, UInt16.ofInt (atoi cport)⟩

/-! ## Nodes -/

/-- The roles in which nodes connect to each other when they start. -/
inductive ProxyRole where
  | PING
  | BACKUP
  | COORDINATOR
deriving DecidableEq

namespace ProxyRole

/-- `typeStr` -/
def typeStr : ProxyRole → Bytes
  | PING => ascii "PING"
  | BACKUP => ascii "BACKUP"
  | COORDINATOR => ascii "COORDINATOR"

def all : List ProxyRole := [PING, BACKUP, COORDINATOR]

end ProxyRole

/-- The node, each proxy as the address of its peer. -/
structure RamcubeNode where
  me : SockaddrIn
  /-- how many entries of `neighbors` are in use -/
  neighbors : Nat
  vpSins : ProxyRole → List SockaddrIn
  vpOut : ProxyRole → List SockaddrIn
  vpIn : ProxyRole → List SockaddrIn
  vpRecoveryIn : List SockaddrIn

/-- `push_back_sin` and `push_back_proxy`; `none` when the array is full. -/
def pushBack (l : List SockaddrIn) (sin : SockaddrIn) : Option (List SockaddrIn) :=
  if l.length < MAX_NEIGHBORS then some (l ++ [sin]) else none

/-- The start of `ramcube_init`. -/
def emptyNode (me : SockaddrIn) : RamcubeNode where
  me := me
  neighbors := 0
  vpSins := fun _ => []
  vpOut := fun _ => []
  vpIn := fun _ => []
  vpRecoveryIn := []

/-- A line of the configuration that names a peer; `none` where the assertion fails that
`alloc_sin_from_neighbors` has found an entry. -/
def addPeer (n : RamcubeNode) (peer : ProxyRole × SockaddrIn) : Option RamcubeNode :=
  if n.neighbors < MAX_NEIGHBORS then
    let sins := n.vpSins peer.1
    some { n with
      neighbors := n.neighbors + 1
      vpSins := Function.update n.vpSins peer.1 ((pushBack sins peer.2).getD sins) }
  else none

/-- `init_ramcube_config` of the peers that the file names. -/
def initRamcubeConfig (me : SockaddrIn) (peers : List (ProxyRole × SockaddrIn)) : Option RamcubeNode :=
  peers.foldlM addPeer (emptyNode me)

/-- A connection that was made, and the TYPE line written to it. -/
structure Hello where
  peer : SockaddrIn
  line : Bytes
deriving DecidableEq

/-- The TYPE line of `connect_and_return_ConnProxy`. -/
def helloLine (role : ProxyRole) (me : SockaddrIn) : Bytes :=
  ascii "TYPE " ++ role.typeStr ++ space :: (inetNtoa me.sin_addr ++ hashSign :: decimal me.sin_port.toNat ++ [CR, LF])

namespace RamcubeNode

variable (n : RamcubeNode)

/-- How this node compares with a peer. -/
def compare (peer : SockaddrIn) : Int :=
  inetAddrCompare (inetNtoa n.me.sin_addr) n.me.sin_port.toNat (inetNtoa peer.sin_addr) peer.sin_port.toNat

/-- `connect_and_return_ConnProxy`; `none` where the assertion fails that there is room. -/
def connectAndReturnConnProxy (sin : SockaddrIn) (role : ProxyRole) : Option (RamcubeNode × Hello) :=
  (pushBack (n.vpOut role) sin).map fun out =>
    ({ n with vpOut := Function.update n.vpOut role out }, ⟨sin, helloLine role n.me⟩)

/-- The loop of `init_smaller_proxies`. -/
def connectSmaller (role : ProxyRole) : List SockaddrIn → RamcubeNode → Option (RamcubeNode × List Hello)
  | [], n => some (n, [])
  | sin :: sins, n =>
    if 0 < n.compare sin then do
      let (n, hello) ← n.connectAndReturnConnProxy sin role
      let (n, hellos) ← connectSmaller role sins n
      some (n, hello :: hellos)
    else connectSmaller role sins n

def initSmallerProxies (role : ProxyRole) : Option (RamcubeNode × List Hello) :=
  connectSmaller role (n.vpSins role) n

/-- `isMyPeer` of `process_command_TYPE` -/
def isMyPeer (role : ProxyRole) (peerSin : SockaddrIn) : Bool :=
  (n.vpSins role).any fun sin =>
    inetNtoa peerSin.sin_addr == inetNtoa sin.sin_addr && peerSin.sin_port == sin.sin_port

/-- The branch of `process_command_TYPE` for the roles in which nodes connect both ways. A
proxy that finds no room is lost. -/
def acceptPeer (role : ProxyRole) (peerSin : SockaddrIn) : Option (RamcubeNode × List Hello) :=
  if n.isMyPeer role peerSin then
    let proxies := n.vpIn role
    let n := { n with vpIn := Function.update n.vpIn role ((pushBack proxies peerSin).getD proxies) }
    if n.compare peerSin < 0 then
      (n.connectAndReturnConnProxy peerSin role).map fun (n, hello) => (n, [hello])
    else some (n, [])
  else some (n, [])

/-- `process_command_TYPE` -/
def processCommandTYPE (subcomm peerName : Bytes) : Option (RamcubeNode × List Hello) :=
  if subcomm = ascii "DATA" then some (n, [])
  else if subcomm = ascii "RECOVERY" then
    (setSinByName gethostbyname peerName).map fun peerSin =>
      ({ n with vpRecoveryIn := (pushBack n.vpRecoveryIn peerSin).getD n.vpRecoveryIn }, [])
  else match ProxyRole.all.find? (·.typeStr = subcomm) with
    | some role => (setSinByName gethostbyname peerName).bind fun peerSin => n.acceptPeer role peerSin
    | none => some (n, [])

/-- A line on a connection just accepted; other commands change no proxies. -/
def serveLine (line : Bytes) : Option (RamcubeNode × List Hello) :=
  let t := tokenizeCommand (cText (chopLine (line.takeWhile (· != LF))))
  if t.ntokens = 4 ∧ t.value 0 = ascii "TYPE" then n.processCommandTYPE gethostbyname (t.value 1) (t.value 2)
  else some (n, [])

end RamcubeNode

/-! ## TYPE lines -/

/-- The name of an address, as it stands in a TYPE line. -/
def SockaddrIn.text (a : SockaddrIn) : Bytes := inetNtoa a.sin_addr ++ hashSign :: decimal a.sin_port.toNat

theorem inetNtoa_ne_nil (a : InAddr) : inetNtoa a ≠ [] := by
  simp [inetNtoa]

theorem setSinByName_text (a : SockaddrIn) : setSinByName gethostbyname a.text = some a := by
  obtain ⟨b, bs, hb⟩ := List.exists_cons_of_ne_nil (inetNtoa_ne_nil a.sin_addr)
  have hhead : b ≠ hashSign := (inetNtoa_ne (hb ▸ List.mem_cons_self)).2.2.2.2.1
  have halpha : isAlpha b = false := (inetNtoa_ne (hb ▸ List.mem_cons_self)).2.2.2.2.2
  have hne : ∀ x ∈ inetNtoa a.sin_addr, (x != hashSign) = true := fun x hx => by
    simpa using (inetNtoa_ne hx).2.2.2.2.1
  have hname : a.text = b :: bs ++ hashSign :: decimal a.sin_port.toNat := by rw [SockaddrIn.text, hb]
  have hlead : a.text.takeWhile (· == hashSign) = [] ∧ a.text.dropWhile (· == hashSign) = a.text := by
    rw [hname]
    simp [hhead]
  have hport : a.text.dropWhile (· != hashSign) = hashSign :: decimal a.sin_port.toNat := by
    unfold SockaddrIn.text
    rw [List.dropWhile_append_of_pos hne]
    simp
  have hhost : a.text.takeWhile (· != hashSign) = inetNtoa a.sin_addr := by
    unfold SockaddrIn.text
    rw [List.takeWhile_append_of_pos hne]
    simp
  have hnum : atoi (decimal a.sin_port.toNat) = a.sin_port.toNat :=
    atoi_decimal (Nat.lt_trans a.sin_port.toNat_lt (by decide))
  unfold setSinByName
  simp only [hlead.1, hlead.2, hport, hhost, List.nil_append, hnum, hb, List.headD_cons, halpha]
  have hofInt : UInt16.ofInt (a.sin_port.toNat : Int) = a.sin_port := by
    rw [UInt16.ofInt, ← UInt16.toNat_inj, UInt16.toNat_ofNat']
    have hlt := a.sin_port.toNat_lt
    omega
  rw [← hb]
  simp [inetAddr, inetAton_inetNtoa, hofInt]

theorem mem_text {a : SockaddrIn} {b : UInt8} (h : b ∈ a.text) : b ≠ 0 ∧ b ≠ LF ∧ b ≠ CR ∧ b ≠ space := by
  simp only [SockaddrIn.text, List.mem_append, List.mem_cons] at h
  rcases h with h | rfl | h
  · obtain ⟨h0, hlf, hcr, hsp, _⟩ := inetNtoa_ne h
    exact ⟨h0, hlf, hcr, hsp⟩
  · decide
  · obtain ⟨h0, hlf, hcr, _, _, hsp⟩ := digit_ne (mem_decimal h)
    exact ⟨h0, hlf, hcr, hsp⟩

/-- The characters of the words of a TYPE line. -/
theorem typeStr_chars (role : ProxyRole) : role.typeStr ≠ [] ∧ ∀ b ∈ role.typeStr, b ≠ 0 ∧ b ≠ LF ∧ b ≠ CR ∧ b ≠ space := by
  cases role <;> decide +kernel

/-- The words of a TYPE line. -/
def typeCommand (role : ProxyRole) (a : SockaddrIn) : Bytes :=
  ascii "TYPE" ++ space :: (role.typeStr ++ space :: a.text)

theorem helloLine_eq (role : ProxyRole) (a : SockaddrIn) : helloLine role a = typeCommand role a ++ [CR, LF] := by
  simp [helloLine, typeCommand, SockaddrIn.text, ascii, space]

theorem mem_typeCommand {role : ProxyRole} {a : SockaddrIn} {b : UInt8} (h : b ∈ typeCommand role a) :
    b ≠ 0 ∧ b ≠ LF ∧ b ≠ CR := by
  have htype : ∀ b ∈ ascii "TYPE", b ≠ 0 ∧ b ≠ LF ∧ b ≠ CR := by decide +kernel
  simp only [typeCommand, List.mem_append, List.mem_cons] at h
  rcases h with h | rfl | h | rfl | h
  · exact htype b h
  · decide
  · obtain ⟨h0, hlf, hcr, _⟩ := (typeStr_chars role).2 b h
    exact ⟨h0, hlf, hcr⟩
  · decide
  · obtain ⟨h0, hlf, hcr, _⟩ := mem_text h
    exact ⟨h0, hlf, hcr⟩

theorem tokenizeFrom_space {w rest : Bytes} {room : Nat} (hw : space ∉ w) (hne : w ≠ []) (hr : room ≠ 1) :
    tokenizeFrom room [] (w ++ space :: rest) =
      { tokenizeFrom (room - 1) [] rest with tokens := w :: (tokenizeFrom (room - 1) [] rest).tokens } := by
  rw [tokenizeFrom_word room [] hw, List.nil_append, tokenizeFrom, if_pos rfl, if_neg hne, if_neg hr]

theorem tokenize_typeCommand (role : ProxyRole) (a : SockaddrIn) :
    tokenizeCommand (typeCommand role a) = ⟨[ascii "TYPE", role.typeStr, a.text], none⟩ := by
  have htype : space ∉ ascii "TYPE" ∧ ascii "TYPE" ≠ [] := by decide +kernel
  have hrole : space ∉ role.typeStr := fun h => ((typeStr_chars role).2 _ h).2.2.2 rfl
  have htext : space ∉ a.text := fun h => (mem_text h).2.2.2 rfl
  have hne : a.text ≠ [] := by simp [SockaddrIn.text]
  have hlast : tokenizeFrom 5 [] a.text = ⟨[a.text], none⟩ := by
    rw [← List.append_nil a.text, tokenizeFrom_word 5 [] htext]
    simp [tokenizeFrom, hne]
  unfold tokenizeCommand typeCommand
  rw [tokenizeFrom_space htype.1 htype.2 (by decide), tokenizeFrom_space hrole (typeStr_chars role).1 (by decide)]
  simp [MAX_TOKENS, hlast]

/-- The line that a node writes is read as what it says. -/
theorem RamcubeNode.serveLine_helloLine (n : RamcubeNode) (role : ProxyRole) (a : SockaddrIn) :
    n.serveLine gethostbyname (helloLine role a) = n.acceptPeer role a := by
  have hlf : ∀ b ∈ typeCommand role a ++ [CR], (b != LF) = true := by
    intro b hb
    simp only [List.mem_append, List.mem_singleton] at hb
    rcases hb with hb | rfl
    · simpa using (mem_typeCommand hb).2.1
    · decide
  have hline : cText (chopLine ((helloLine role a).takeWhile (· != LF))) = typeCommand role a := by
    have htake : (helloLine role a).takeWhile (· != LF) = typeCommand role a ++ [CR] := by
      rw [helloLine_eq, show typeCommand role a ++ [CR, LF] = typeCommand role a ++ [CR] ++ [LF] by simp,
        List.takeWhile_append_of_pos hlf]
      simp
    have hchop : chopLine (typeCommand role a ++ [CR]) = typeCommand role a := by
      unfold chopLine
      rw [if_pos ⟨by simp [typeCommand, ascii], by simp⟩, List.dropLast_concat]
    rw [htake, hchop, cText_eq fun b hb => (mem_typeCommand hb).1]
  unfold serveLine
  rw [hline, tokenize_typeCommand]
  have hrole : role.typeStr ≠ ascii "DATA" ∧ role.typeStr ≠ ascii "RECOVERY" ∧
      ProxyRole.all.find? (·.typeStr = role.typeStr) = some role := by
    cases role <;> decide +kernel
  show n.processCommandTYPE gethostbyname role.typeStr a.text = n.acceptPeer role a
  unfold processCommandTYPE
  rw [if_neg hrole.1, if_neg hrole.2.1, hrole.2.2, setSinByName_text]
  rfl

theorem helloLine_inj {role role' : ProxyRole} {a a' : SockaddrIn} (h : helloLine role a = helloLine role' a') :
    role = role' ∧ a = a' := by
  rw [helloLine_eq, helloLine_eq] at h
  have hwords := congrArg tokenizeCommand (List.append_cancel_right h)
  rw [tokenize_typeCommand, tokenize_typeCommand] at hwords
  simp only [Tokens.mk.injEq, List.cons.injEq, and_true, true_and] at hwords
  have hfind := congrArg (fun w => ProxyRole.all.find? (·.typeStr = w)) hwords.1
  have hname := congrArg (setSinByName fun _ => ⟨0, 0, 0, 0⟩) hwords.2
  rw [setSinByName_text, setSinByName_text, Option.some.injEq] at hname
  refine ⟨?_, hname⟩
  revert hfind
  cases role <;> cases role' <;> decide +kernel

/-! ## What the calls do -/

namespace RamcubeNode

variable {n : RamcubeNode} {role : ProxyRole} {a : SockaddrIn}

theorem compare_pos : 0 < n.compare a ↔ a.before n.me := (inetAddrCompare_texts n.me a).1

theorem compare_neg : n.compare a < 0 ↔ n.me.before a := (inetAddrCompare_texts n.me a).2

theorem pushBack_eq {l : List SockaddrIn} (h : l.length < MAX_NEIGHBORS) : pushBack l a = some (l ++ [a]) := if_pos h

/-- The peers that are connected to first. -/
def smaller (n : RamcubeNode) (sins : List SockaddrIn) : List SockaddrIn := sins.filter fun sin => sin.before n.me

theorem connectSmaller_eq {sins : List SockaddrIn}
    (hroom : (n.vpOut role).length + (n.smaller sins).length ≤ MAX_NEIGHBORS) :
    connectSmaller role sins n =
      some ({ n with vpOut := Function.update n.vpOut role (n.vpOut role ++ n.smaller sins) },
        (n.smaller sins).map fun sin => ⟨sin, helloLine role n.me⟩) := by
  induction sins generalizing n with
  | nil => simp [connectSmaller, smaller]
  | cons sin sins ih =>
    unfold connectSmaller
    by_cases hb : sin.before n.me
    · have hcons : n.smaller (sin :: sins) = sin :: n.smaller sins := List.filter_cons_of_pos (by simpa using hb)
      rw [hcons, List.length_cons] at hroom
      have hpush : n.connectAndReturnConnProxy sin role =
          some ({ n with vpOut := Function.update n.vpOut role (n.vpOut role ++ [sin]) }, ⟨sin, helloLine role n.me⟩) := by
        unfold connectAndReturnConnProxy
        rw [pushBack_eq (by omega)]
        rfl
      rw [if_pos (compare_pos.mpr hb), hpush, hcons]
      have hrest := ih (n := { n with vpOut := Function.update n.vpOut role (n.vpOut role ++ [sin]) }) (by
        simp only [Function.update_self, List.length_append, List.length_cons, List.length_nil]
        exact Nat.le_trans (Nat.le_of_eq (by rw [Nat.add_assoc, Nat.add_comm _ (List.length _)]; rfl)) hroom)
      simp only [Option.bind_eq_bind, Option.bind_some, hrest, Function.update_self, Function.update_idem]
      simp [smaller]
    · have hskip : n.smaller (sin :: sins) = n.smaller sins := List.filter_cons_of_neg (by simpa using hb)
      rw [if_neg (fun h => hb (compare_pos.mp h)), hskip]
      exact ih (hskip ▸ hroom)

theorem isMyPeer_iff : n.isMyPeer role a = true ↔ a ∈ n.vpSins role := by
  unfold isMyPeer
  rw [List.any_eq_true]
  constructor
  · rintro ⟨sin, hmem, heq⟩
    simp only [Bool.and_eq_true, beq_iff_eq, inetNtoa_inj] at heq
    obtain rfl : a = sin := by
      cases a
      cases sin
      simp only [SockaddrIn.mk.injEq]
      exact heq
    exact hmem
  · exact fun hmem => ⟨a, hmem, by simp⟩

/-- A peer is accepted, and connected to when it is the greater one. -/
theorem acceptPeer_eq (hpeer : a ∈ n.vpSins role) (hin : (n.vpIn role).length < MAX_NEIGHBORS)
    (hout : n.me.before a → (n.vpOut role).length < MAX_NEIGHBORS) :
    n.acceptPeer role a =
      some ({ n with
          vpIn := Function.update n.vpIn role (n.vpIn role ++ [a])
          vpOut := Function.update n.vpOut role (n.vpOut role ++ if n.me.before a then [a] else []) },
        if n.me.before a then [⟨a, helloLine role n.me⟩] else []) := by
  unfold acceptPeer
  rw [if_pos (isMyPeer_iff.mpr hpeer)]
  simp only [pushBack_eq hin, Option.getD_some]
  have hneg : ∀ m : RamcubeNode, m.me = n.me → (m.compare a < 0 ↔ n.me.before a) := fun m hm => hm ▸ compare_neg
  simp only [hneg { n with vpIn := Function.update n.vpIn role (n.vpIn role ++ [a]) } rfl]
  by_cases hb : n.me.before a
  · simp only [if_pos hb, connectAndReturnConnProxy, pushBack_eq (hout hb)]
    rfl
  · simp [if_neg hb]

end RamcubeNode

/-! ## The configuration -/

/-- The peers of one role that a configuration names. -/
def peersIn (peers : List (ProxyRole × SockaddrIn)) (role : ProxyRole) : List SockaddrIn :=
  (peers.filter fun p => p.1 = role).map Prod.snd

/-- What is known of a node when its configuration is read. -/
structure Configured (me : SockaddrIn) (peers : List (ProxyRole × SockaddrIn)) (n : RamcubeNode) : Prop where
  me : n.me = me
  sins : ∀ role, n.vpSins role = peersIn peers role
  out : ∀ role, n.vpOut role = []
  accepted : ∀ role, n.vpIn role = []
  count : n.neighbors = peers.length
  room : peers.length ≤ MAX_NEIGHBORS

theorem length_peersIn_le (peers : List (ProxyRole × SockaddrIn)) (role : ProxyRole) :
    (peersIn peers role).length ≤ peers.length := by
  unfold peersIn
  rw [List.length_map]
  exact List.length_filter_le ..

theorem Configured.one {me : SockaddrIn} {peers : List (ProxyRole × SockaddrIn)} {n n' : RamcubeNode}
    {peer : ProxyRole × SockaddrIn} (hl : Configured me peers n) (h : addPeer n peer = some n') :
    Configured me (peers ++ [peer]) n' := by
  unfold addPeer at h
  split at h
  · rename_i hroom
    cases h
    have hlen := length_peersIn_le peers peer.1
    have hcount := hl.count
    refine ⟨hl.me, fun role => ?_, hl.out, hl.accepted, by simp [hcount], by simp; omega⟩
    have hsnoc : peersIn (peers ++ [peer]) role = peersIn peers role ++ if peer.1 = role then [peer.2] else [] := by
      unfold peersIn
      by_cases hr : peer.1 = role <;> simp [hr]
    dsimp only
    rw [hsnoc, hl.sins, RamcubeNode.pushBack_eq (by omega), Option.getD_some]
    by_cases hr : role = peer.1
    · subst hr
      simp
    · rw [Function.update_of_ne hr, hl.sins, if_neg (Ne.symm hr), List.append_nil]
  · cases h

theorem Configured.all {me : SockaddrIn} {peers more : List (ProxyRole × SockaddrIn)} {n n' : RamcubeNode}
    (hl : Configured me peers n) (h : more.foldlM addPeer n = some n') : Configured me (peers ++ more) n' := by
  induction more generalizing peers n with
  | nil =>
    cases h
    rwa [List.append_nil]
  | cons peer more ih =>
    rw [List.foldlM_cons, Option.bind_eq_bind, Option.bind_eq_some_iff] at h
    obtain ⟨n₁, h1, hrest⟩ := h
    have hnext := ih (hl.one h1) hrest
    rwa [List.append_assoc] at hnext

theorem configured_of_init {me : SockaddrIn} {peers : List (ProxyRole × SockaddrIn)} {n : RamcubeNode}
    (h : initRamcubeConfig me peers = some n) : Configured me peers n := by
  have hstart : Configured me [] (emptyNode me) :=
    ⟨rfl, fun _ => rfl, fun _ => rfl, fun _ => rfl, rfl, Nat.zero_le _⟩
  exact hstart.all h

end RamCube
