import RamCube.Server.Conn

/-! # The lists of a response (memcached.c)

A response is a list of `msghdr`s, each with a stretch of the array `iov` of pieces of
buffers. `add_iov` cuts buffers into pieces and starts new messages, both arrays grow
under the pointers into them. What the arrays hold is a list of messages, a message a
list of pieces, and `addIov` does to it what `addPieces` does to lists (`addIov_holds`). -/
namespace RamCube

def UDP_MAX_PAYLOAD_SIZE : Nat := 1400

def UDP_HEADER_SIZE : Nat := 8

def IOV_MAX : Nat := 1024

def IOV_LIST_INITIAL : Nat := 400

def MSG_LIST_INITIAL : Nat := 10

/-- `base` is what lies from `iov_base` on, as far as the buffer goes. -/
structure Iovec where
  base : Bytes
  len : Nat
deriving DecidableEq

/-- A pointer into the array `iov`. Arrays are told apart by the number of `realloc`s
before them. -/
structure IovPtr where
  array : Nat
  idx : Nat
deriving DecidableEq

structure Msghdr where
  msgIov : IovPtr
  msgIovlen : Nat
deriving DecidableEq

/-- The fields of a `conn` that hold a response. -/
structure ConnOut where
  transport : Transport
  requestId : Nat
  /-- Which array `iov` points to. -/
  array : Nat
  iov : Nat → Iovec
  iovsize : Nat
  iovused : Nat
  msglist : Nat → Msghdr
  msgsize : Nat
  msgused : Nat
  msgcurr : Nat
  /-- The bytes in the last message. -/
  msgbytes : Nat

def ConnOut.isUdp (c : ConnOut) : Bool := c.transport == .udp

/-! ## Adding -/

/-- `ensure_iov_space`: a full array is moved to one twice as large, and the messages are
pointed at it one after the other. -/
def ensureIovSpace (c : ConnOut) : ConnOut :=
  if c.iovsize ≤ c.iovused then
    let (msglist, _) := (List.range c.msgused).foldl
      (fun (ml, iovnum) i =>
        (Function.update ml i { ml i with msgIov := ⟨c.array + 1, iovnum⟩ }, iovnum + (ml i).msgIovlen))
      (c.msglist, 0)
    { c with array := c.array + 1, iovsize := c.iovsize * 2, msglist := msglist }
  else c

/-- `add_msghdr`, up to the header of a datagram. -/
def newMsghdr (c : ConnOut) : Option ConnOut :=
  let c := if c.msgsize = c.msgused then { c with msgsize := c.msgsize * 2 } else c
  if c.msgused < c.msgsize then
    some { c with
      msglist := Function.update c.msglist c.msgused ⟨⟨c.array, c.iovused⟩, 0⟩
      msgbytes := 0
      msgused := c.msgused + 1 }
  else none

/-- A piece is written behind the last message: the pointer must lead into the array. -/
def putIov (c : ConnOut) (v : Iovec) : Option ConnOut :=
  let m := c.msglist (c.msgused - 1)
  if 0 < c.msgused ∧ m.msgIov.array = c.array ∧ m.msgIov.idx + m.msgIovlen < c.iovsize then
    some { c with
      iov := Function.update c.iov (m.msgIov.idx + m.msgIovlen) v
      msgbytes := c.msgbytes + v.len
      iovused := c.iovused + 1
      msglist := Function.update c.msglist (c.msgused - 1) { m with msgIovlen := m.msgIovlen + 1 } }
  else none

/-- Are the pieces limited to the size of a datagram? Those of a datagram are, and those
of the first message of any response. -/
def limitToMtu (c : ConnOut) : Bool := c.isUdp || c.msgused == 1

/-- A new message is started if the last one is full. -/
def ensureMsghdr (addMsghdr : ConnOut → Option ConnOut) (c : ConnOut) : Option ConnOut :=
  if (c.msglist (c.msgused - 1)).msgIovlen = IOV_MAX ∨ limitToMtu c ∧ UDP_MAX_PAYLOAD_SIZE ≤ c.msgbytes then
    addMsghdr c
  else some c

/-- What is left of a buffer when its piece fills the last message. -/
def pieceLeftover (limited : Bool) (msgbytes len : Nat) : Nat :=
  if limited ∧ UDP_MAX_PAYLOAD_SIZE < len + msgbytes then len + msgbytes - UDP_MAX_PAYLOAD_SIZE else 0

/-- One turn of the loop of `add_iov`, and what is left of the buffer. The limit is looked
up before a new message is started. -/
def addIovTurn (addMsghdr : ConnOut → Option ConnOut) (c : ConnOut) (buf : Bytes) (len : Nat) :
    Option (ConnOut × Nat) := do
  let limited := limitToMtu c
  let c ← ensureMsghdr addMsghdr c
  let c := ensureIovSpace c
  let leftover := pieceLeftover limited c.msgbytes len
  let c ← putIov c ⟨buf, len - leftover⟩
  some (c, leftover)

/-- The loop of `add_iov`, `fuel` turns at most. -/
def addIovLoop (addMsghdr : ConnOut → Option ConnOut) : Nat → ConnOut → Bytes → Nat → Option ConnOut
  | 0, _, _, _ => none
  | fuel + 1, c, buf, len => do
    let (c, leftover) ← addIovTurn addMsghdr c buf len
    if leftover = 0 then some c
    else addIovLoop addMsghdr fuel c (buf.drop (len - leftover)) leftover

/-- `add_msghdr`, which leaves room for the header of a datagram by a call of `add_iov`;
`depth` is how deep these two may call each other. -/
def addMsghdrIn : Nat → ConnOut → Option ConnOut
  | 0, _ => none
  | depth + 1, c => do
    let c ← newMsghdr c
    if c.isUdp then addIovLoop (addMsghdrIn depth) (UDP_HEADER_SIZE + 1) c [] UDP_HEADER_SIZE else some c

def addMsghdr (c : ConnOut) : Option ConnOut := addMsghdrIn 1 c

def addIov (c : ConnOut) (buf : Bytes) (len : Nat) : Option ConnOut := addIovLoop addMsghdr (len + 1) c buf len

/-- A response: one `add_msghdr`, then an `add_iov` for each buffer. -/
def buildResponse (c : ConnOut) (bufs : List (Bytes × Nat)) : Option ConnOut := do
  let c ← addMsghdr c
  bufs.foldlM (fun c b => addIov c b.1 b.2) c

/-! ## Messages as lists -/

def Iovec.bytes (v : Iovec) : Bytes := v.base.take v.len

/-- The bytes of a message. -/
def gather (m : List Iovec) : Bytes := m.flatMap Iovec.bytes

/-- What the kernel counts of a message. -/
def lens (m : List Iovec) : Nat := (m.map Iovec.len).sum

/-- The last message, and a piece behind it. -/
def lastMsg (ms : List (List Iovec)) : List Iovec := ms.getLast?.getD []

def putPiece (ms : List (List Iovec)) (v : Iovec) : List (List Iovec) := ms.dropLast ++ [lastMsg ms ++ [v]]

def headerSlot : Iovec := ⟨[], UDP_HEADER_SIZE⟩

def newMessage (udp : Bool) (ms : List (List Iovec)) : List (List Iovec) :=
  ms ++ [if udp then [headerSlot] else []]

/-- Does a piece need a new message? -/
def isFull (limited : Bool) (m : List Iovec) : Bool :=
  m.length == IOV_MAX || limited && UDP_MAX_PAYLOAD_SIZE ≤ lens m

/-- One piece of a buffer, and what is left of it. -/
def addPiece (udp : Bool) (ms : List (List Iovec)) (buf : Bytes) (len : Nat) : List (List Iovec) × Nat :=
  let limited := udp || ms.length == 1
  let ms := if isFull limited (lastMsg ms) then newMessage udp ms else ms
  let leftover := pieceLeftover limited (lens (lastMsg ms)) len
  (putPiece ms ⟨buf, len - leftover⟩, leftover)

def addPieces (udp : Bool) : Nat → List (List Iovec) → Bytes → Nat → List (List Iovec)
  | 0, ms, _, _ => ms
  | fuel + 1, ms, buf, len =>
    let (ms, leftover) := addPiece udp ms buf len
    if leftover = 0 then ms else addPieces udp fuel ms (buf.drop (len - leftover)) leftover

/-- The arrays hold these messages: the messages lie one after the other in `iov`. -/
structure HoldsMsgs (c : ConnOut) (ms : List (List Iovec)) : Prop where
  msgused : c.msgused = ms.length
  iovused : c.iovused = ms.flatten.length
  msg : ∀ i m, ms[i]? = some m → c.msglist i = ⟨⟨c.array, (ms.take i).flatten.length⟩, m.length⟩
  iov : ∀ k v, ms.flatten[k]? = some v → c.iov k = v
  msgbytes : c.msgbytes = lens (lastMsg ms)
  iovRoom : c.iovused ≤ c.iovsize
  iovsize : 0 < c.iovsize
  msgRoom : c.msgused ≤ c.msgsize
  msgsize : 0 < c.msgsize

/-- What adding leaves alone. -/
structure SameOut (c c' : ConnOut) : Prop where
  transport : c'.transport = c.transport
  requestId : c'.requestId = c.requestId
  msgcurr : c'.msgcurr = c.msgcurr

theorem SameOut.refl (c : ConnOut) : SameOut c c := ⟨rfl, rfl, rfl⟩

theorem SameOut.trans {a b c : ConnOut} (h : SameOut a b) (h' : SameOut b c) : SameOut a c :=
  ⟨h'.transport.trans h.transport, h'.requestId.trans h.requestId, h'.msgcurr.trans h.msgcurr⟩

theorem SameOut.isUdp {c c' : ConnOut} (h : SameOut c c') : c'.isUdp = c.isUdp := by
  rw [ConnOut.isUdp, h.transport, ConnOut.isUdp]

variable {c : ConnOut} {ms : List (List Iovec)} {m : List Iovec} {buf : Bytes} {len : Nat} {v : Iovec} {udp : Bool}

@[simp]
theorem lastMsg_concat (ms : List (List Iovec)) (m : List Iovec) : lastMsg (ms ++ [m]) = m := by
  simp [lastMsg]

@[simp]
theorem putPiece_concat (ms : List (List Iovec)) (m : List Iovec) (v : Iovec) :
    putPiece (ms ++ [m]) v = ms ++ [m ++ [v]] := by
  simp [putPiece]

theorem gather_cons (v : Iovec) (vs : List Iovec) : gather (v :: vs) = v.bytes ++ gather vs := rfl

@[simp]
theorem gather_append (m m' : List Iovec) : gather (m ++ m') = gather m ++ gather m' := by
  simp [gather]

@[simp]
theorem lens_append (m m' : List Iovec) : lens (m ++ m') = lens m + lens m' := by
  simp [lens]

theorem HoldsMsgs.last (h : HoldsMsgs c (ms ++ [m])) :
    c.msglist (c.msgused - 1) = ⟨⟨c.array, ms.flatten.length⟩, m.length⟩ := by
  have hlast := h.msg ms.length m (by simp)
  rw [h.msgused, List.length_append, List.length_singleton, Nat.add_sub_cancel, hlast]
  simp

/-! ## Moving the array -/

/-- Where a message starts when the messages lie one after the other. -/
def iovStart (msglist : Nat → Msghdr) : Nat → Nat
  | 0 => 0
  | i + 1 => iovStart msglist i + (msglist i).msgIovlen

/-- The loop of `ensure_iov_space` counts on what it has not written yet. -/
theorem repoint_eq (msglist : Nat → Msghdr) (array n : Nat) :
    (List.range n).foldl
      (fun (ml, iovnum) i =>
        (Function.update ml i { ml i with msgIov := ⟨array, iovnum⟩ }, iovnum + (ml i).msgIovlen))
      (msglist, 0) =
    ((fun i => if i < n then { msglist i with msgIov := ⟨array, iovStart msglist i⟩ } else msglist i),
      iovStart msglist n) := by
  induction n with
  | zero => simp [iovStart]
  | succ n ih =>
    rw [List.range_succ, List.foldl_append, ih]
    simp only [List.foldl_cons, List.foldl_nil, Nat.lt_irrefl, if_false, iovStart, Prod.mk.injEq, and_true]
    funext i
    by_cases hi : i = n
    · subst hi
      simp
    · rw [Function.update_of_ne hi]
      by_cases hin : i < n
      · rw [if_pos hin, if_pos (by omega)]
      · rw [if_neg hin, if_neg (by omega)]

theorem HoldsMsgs.start (h : HoldsMsgs c ms) {i : Nat} (hi : i ≤ ms.length) :
    iovStart c.msglist i = (ms.take i).flatten.length := by
  induction i with
  | zero => rfl
  | succ i ih =>
    have hget : ms[i]? = some ms[i] := List.getElem?_eq_getElem hi
    rw [iovStart, ih (by omega), h.msg i _ hget, List.take_add_one, hget]
    rw [List.flatten_append, List.length_append, Option.toList_some, List.flatten_singleton]

/-- Afterwards there is room for one more piece, and the pointers lead into the new array. -/
theorem ensureIovSpace_holds (h : HoldsMsgs c ms) : HoldsMsgs (ensureIovSpace c) ms ∧
    (ensureIovSpace c).iovused < (ensureIovSpace c).iovsize ∧ SameOut c (ensureIovSpace c) := by
  unfold ensureIovSpace
  by_cases hfull : c.iovsize ≤ c.iovused
  · rw [if_pos hfull, repoint_eq]
    have hsize := h.iovsize
    have hroom := h.iovRoom
    refine ⟨⟨h.msgused, h.iovused, fun i m hm => ?_, h.iov, h.msgbytes, ?_, ?_, h.msgRoom, h.msgsize⟩, ?_, rfl, rfl, rfl⟩
    · have hi := (List.getElem?_eq_some_iff.mp hm).1
      dsimp only
      rw [if_pos (h.msgused ▸ hi), h.msg i m hm, h.start (Nat.le_of_lt hi)]
    · dsimp only
      omega
    · dsimp only
      omega
    · dsimp only
      omega
  · rw [if_neg hfull]
    exact ⟨h, by omega, .refl c⟩

/-! ## Pieces and messages -/

theorem putIov_holds (h : HoldsMsgs c (ms ++ [m])) (hroom : c.iovused < c.iovsize) (v : Iovec) :
    ∃ c', putIov c v = some c' ∧ HoldsMsgs c' (ms ++ [m ++ [v]]) ∧ SameOut c c' := by
  have hpos : 0 < c.msgused := by
    rw [h.msgused]
    simp
  have hused : ms.flatten.length + m.length = c.iovused := by
    rw [h.iovused]
    simp
  have hlast : c.msgused - 1 = ms.length := by
    rw [h.msgused]
    simp
  unfold putIov
  simp only [h.last]
  rw [if_pos ⟨hpos, trivial, by omega⟩]
  refine ⟨_, rfl, ⟨?_, ?_, fun i m' hm => ?_, fun k w hw => ?_, ?_, ?_, h.iovsize, h.msgRoom, h.msgsize⟩, rfl, rfl, rfl⟩
  · rw [h.msgused]
    simp
  · simp only [List.flatten_append, List.length_append, List.flatten_cons, List.flatten_nil, List.length_nil,
      List.length_singleton]
    omega
  · dsimp only
    by_cases hi : i = c.msgused - 1
    · subst hi
      rw [hlast] at hm ⊢
      obtain rfl : m ++ [v] = m' := by simpa using hm
      rw [Function.update_self]
      simp
    · have hne : i < ms.length := by
        have := (List.getElem?_eq_some_iff.mp hm).1
        simp only [List.length_append, List.length_singleton] at this
        omega
      have hm' : (ms ++ [m])[i]? = some m' := by
        rw [List.getElem?_append_left hne] at hm ⊢
        exact hm
      rw [Function.update_of_ne hi, h.msg i m' hm', List.take_append_of_le_length (Nat.le_of_lt hne),
        List.take_append_of_le_length (Nat.le_of_lt hne)]
  · dsimp only
    rw [hused]
    have hflat : (ms ++ [m ++ [v]]).flatten = (ms ++ [m]).flatten ++ [v] := by simp
    rw [hflat] at hw
    by_cases hk : k = c.iovused
    · subst hk
      rw [h.iovused, List.getElem?_append_right (Nat.le_refl _)] at hw
      rw [Function.update_self]
      simpa using hw
    · rw [Function.update_of_ne hk]
      refine h.iov k w ?_
      have hlt := (List.getElem?_eq_some_iff.mp hw).1
      rw [List.length_append, List.length_singleton, ← h.iovused] at hlt
      rwa [List.getElem?_append_left (by rw [← h.iovused]; omega)] at hw
  · rw [lastMsg_concat, lens_append, h.msgbytes, lastMsg_concat]
    simp [lens]
  · dsimp only
    omega

theorem newMsghdr_holds (h : HoldsMsgs c ms) :
    ∃ c', newMsghdr c = some c' ∧ HoldsMsgs c' (ms ++ [[]]) ∧ SameOut c c' := by
  have hsize := h.msgsize
  have hroom := h.msgRoom
  have hgrown : ∀ size, c.msgused < size → HoldsMsgs { c with
      msgsize := size
      msglist := Function.update c.msglist c.msgused ⟨⟨c.array, c.iovused⟩, 0⟩
      msgbytes := 0
      msgused := c.msgused + 1 } (ms ++ [[]]) := by
    intro size hlt
    refine ⟨?_, ?_, fun i m hm => ?_, fun k v hv => ?_, ?_, h.iovRoom, h.iovsize, hlt, by dsimp only; omega⟩
    · simp [h.msgused]
    · simp [h.iovused]
    · dsimp only
      by_cases hi : i = c.msgused
      · subst hi
        rw [h.msgused] at hm ⊢
        obtain rfl : [] = m := by simpa using hm
        rw [Function.update_self, h.iovused]
        simp
      · have hlen := (List.getElem?_eq_some_iff.mp hm).1
        simp only [List.length_append, List.length_singleton, ← h.msgused] at hlen
        have hlt : i < ms.length := by
          rw [← h.msgused]
          omega
        rw [List.getElem?_append_left hlt] at hm
        rw [Function.update_of_ne hi, h.msg i m hm, List.take_append_of_le_length (Nat.le_of_lt hlt)]
    · exact h.iov k v (by simpa using hv)
    · simp [lens]
  unfold newMsghdr
  by_cases hfull : c.msgsize = c.msgused
  · simp only [if_pos hfull]
    rw [if_pos (by omega)]
    exact ⟨_, rfl, hgrown (c.msgsize * 2) (by omega), rfl, rfl, rfl⟩
  · simp only [if_neg hfull]
    rw [if_pos (by omega)]
    exact ⟨_, rfl, hgrown c.msgsize (by omega), rfl, rfl, rfl⟩

/-- What `add_iov` needs of the `add_msghdr` it calls. -/
def AddsMessage (addMsghdr : ConnOut → Option ConnOut) (c : ConnOut) (ms : List (List Iovec)) : Prop :=
  ∃ c', addMsghdr c = some c' ∧ HoldsMsgs c' (newMessage c.isUdp ms) ∧ SameOut c c'

theorem newMessage_concat (udp : Bool) (ms : List (List Iovec)) :
    ∃ m, newMessage udp ms = ms ++ [m] := ⟨_, rfl⟩

/-- The message that the next piece goes to. -/
theorem ensureMsghdr_holds {am : ConnOut → Option ConnOut} (h : HoldsMsgs c (ms ++ [m]))
    (ham : isFull (limitToMtu c) m = true → AddsMessage am c (ms ++ [m])) :
    ∃ c' ms' m', ensureMsghdr am c = some c' ∧ SameOut c c' ∧ HoldsMsgs c' (ms' ++ [m']) ∧
      (if isFull (limitToMtu c) m then newMessage c.isUdp (ms ++ [m]) else ms ++ [m]) = ms' ++ [m'] := by
  have hfull : ((c.msglist (c.msgused - 1)).msgIovlen = IOV_MAX ∨
      limitToMtu c = true ∧ UDP_MAX_PAYLOAD_SIZE ≤ c.msgbytes) ↔ isFull (limitToMtu c) m = true := by
    rw [h.last, h.msgbytes, lastMsg_concat]
    simp [isFull]
  unfold ensureMsghdr
  by_cases hf : isFull (limitToMtu c) m = true
  · rw [if_pos (hfull.mpr hf), if_pos hf]
    obtain ⟨c', he, hc', hs⟩ := ham hf
    obtain ⟨m', hm'⟩ := newMessage_concat c.isUdp (ms ++ [m])
    rw [hm'] at hc' ⊢
    exact ⟨c', ms ++ [m], m', he, hs, hc', rfl⟩
  · rw [if_neg fun hc => hf (hfull.mp hc), if_neg hf]
    exact ⟨c, ms, m, rfl, .refl c, h, rfl⟩

theorem addIovTurn_holds {am : ConnOut → Option ConnOut} (h : HoldsMsgs c (ms ++ [m])) (buf : Bytes) (len : Nat)
    (ham : isFull (limitToMtu c) m = true → AddsMessage am c (ms ++ [m])) :
    ∃ c', addIovTurn am c buf len = some (c', (addPiece c.isUdp (ms ++ [m]) buf len).2) ∧
      HoldsMsgs c' (addPiece c.isUdp (ms ++ [m]) buf len).1 ∧ SameOut c c' := by
  have hlimited : (c.isUdp || (ms ++ [m]).length == 1) = limitToMtu c := by rw [limitToMtu, h.msgused]
  obtain ⟨c1, ms', m', hadd, hsame1, h1, hms⟩ := ensureMsghdr_holds h ham
  obtain ⟨h2, hroom, hsame2⟩ := ensureIovSpace_holds h1
  obtain ⟨c3, hput, h3, hsame3⟩ := putIov_holds h2 hroom ⟨buf, len - pieceLeftover (limitToMtu c) (lens m') len⟩
  unfold addIovTurn addPiece
  simp only [hlimited, lastMsg_concat, hms, hadd, Option.bind_eq_bind, Option.bind_some, putPiece_concat, h2.msgbytes,
    hput]
  exact ⟨c3, rfl, h3, hsame1.trans (hsame2.trans hsame3)⟩

/-! ## The calls -/

theorem isFull_nil (limited : Bool) : isFull limited [] = false := by
  cases limited <;> rfl

/-- The header of a datagram fits the new message, so the calls go no deeper. -/
theorem addMsghdr_holds (h : HoldsMsgs c ms) : AddsMessage addMsghdr c ms := by
  obtain ⟨c1, hnew, h1, hsame1⟩ := newMsghdr_holds h
  unfold AddsMessage addMsghdr addMsghdrIn
  simp only [hnew, Option.bind_eq_bind, Option.bind_some, hsame1.isUdp]
  by_cases hudp : c.isUdp = true
  · have hempty : isFull (limitToMtu c1) [] = true → AddsMessage (addMsghdrIn 0) c1 (ms ++ [[]]) := by
      intro hf
      rw [isFull_nil] at hf
      cases hf
    obtain ⟨c2, hturn, h2, hsame2⟩ := addIovTurn_holds h1 [] UDP_HEADER_SIZE hempty
    have hpiece : addPiece c1.isUdp (ms ++ [[]]) [] UDP_HEADER_SIZE = (newMessage true ms, 0) := by
      have hleft : ∀ limited, pieceLeftover limited (lens []) UDP_HEADER_SIZE = 0 := fun limited => by
        cases limited <;> rfl
      simp [addPiece, isFull_nil, hleft, newMessage, headerSlot]
    rw [hpiece] at hturn h2
    rw [if_pos hudp, addIovLoop, hturn, hudp]
    exact ⟨c2, rfl, h2, hsame1.trans hsame2⟩
  · have hno : c.isUdp = false := by simpa using hudp
    rw [if_neg hudp, hno]
    exact ⟨c1, rfl, h1, hsame1⟩

theorem pieceLeftover_lt {limited : Bool} {used : Nat} (h : limited = true → used < UDP_MAX_PAYLOAD_SIZE) (len : Nat) :
    pieceLeftover limited used len = 0 ∨ pieceLeftover limited used len < len := by
  unfold pieceLeftover
  split
  · rename_i hl
    have := h hl.1
    omega
  · exact .inl rfl

/-- The message that a piece goes to, unless it is unlimited, has room for a byte. -/
theorem roomy_message (udp limited : Bool) (ms : List (List Iovec)) (hl : limited = true) :
    lens (lastMsg (if isFull limited (lastMsg ms) then newMessage udp ms else ms)) < UDP_MAX_PAYLOAD_SIZE := by
  split
  · rw [newMessage, lastMsg_concat]
    cases udp <;> decide
  · rename_i hf
    simp only [isFull, hl, Bool.true_and, Bool.not_eq_true, Bool.or_eq_false_iff, decide_eq_false_iff_not] at hf
    omega

/-- What is left is less than the buffer. -/
theorem addPiece_leftover (udp : Bool) (ms : List (List Iovec)) (buf : Bytes) (len : Nat) :
    (addPiece udp ms buf len).2 = 0 ∨ (addPiece udp ms buf len).2 < len :=
  pieceLeftover_lt (roomy_message udp _ ms) len

theorem addPiece_concat (udp : Bool) (ms : List (List Iovec)) (buf : Bytes) (len : Nat) :
    ∃ ms' m', (addPiece udp ms buf len).1 = ms' ++ [m'] := ⟨_, _, rfl⟩

theorem addIovLoop_holds {fuel : Nat} (h : HoldsMsgs c (ms ++ [m])) (hlen : len < fuel) :
    ∃ c', addIovLoop addMsghdr fuel c buf len = some c' ∧
      HoldsMsgs c' (addPieces c.isUdp fuel (ms ++ [m]) buf len) ∧ SameOut c c' := by
  induction fuel generalizing c ms m buf len with
  | zero => omega
  | succ fuel ih =>
    obtain ⟨c1, hturn, h1, hsame1⟩ := addIovTurn_holds h buf len fun _ => addMsghdr_holds h
    rw [addIovLoop, hturn, addPieces]
    simp only [Option.bind_eq_bind, Option.bind_some]
    by_cases hleft : (addPiece c.isUdp (ms ++ [m]) buf len).2 = 0
    · rw [if_pos hleft, if_pos hleft]
      exact ⟨c1, rfl, h1, hsame1⟩
    · rw [if_neg hleft, if_neg hleft]
      have hlt := (addPiece_leftover c.isUdp (ms ++ [m]) buf len).resolve_left hleft
      obtain ⟨ms', m', hms⟩ := addPiece_concat c.isUdp (ms ++ [m]) buf len
      rw [hms] at h1 ⊢
      obtain ⟨c2, hloop, h2, hsame2⟩ := ih h1 (show (addPiece c.isUdp (ms ++ [m]) buf len).2 < fuel by omega)
      rw [hsame1.isUdp] at h2
      exact ⟨c2, hloop, h2, hsame1.trans hsame2⟩

/-- `add_iov` does to the messages what `addPieces` does. -/
theorem addIov_holds (h : HoldsMsgs c (ms ++ [m])) (buf : Bytes) (len : Nat) :
    ∃ c', addIov c buf len = some c' ∧
      HoldsMsgs c' (addPieces c.isUdp (len + 1) (ms ++ [m]) buf len) ∧ SameOut c c' :=
  addIovLoop_holds h (Nat.lt_succ_self len)

/-! ## A whole response -/

/-- A connection before a response. -/
structure Unused (c : ConnOut) : Prop where
  iovused : c.iovused = 0
  msgused : c.msgused = 0
  msgcurr : c.msgcurr = 0
  iovsize : 0 < c.iovsize
  msgsize : 0 < c.msgsize

/-- The fields as `conn_new` sets them. -/
def newConnOut (transport : Transport) (requestId : Nat) : ConnOut where
  transport := transport
  requestId := requestId
  array := 0
  iov _ := ⟨[], 0⟩
  iovsize := IOV_LIST_INITIAL
  iovused := 0
  msglist _ := ⟨⟨0, 0⟩, 0⟩
  msgsize := MSG_LIST_INITIAL
  msgused := 0
  msgcurr := 0
  msgbytes := 0

theorem newConnOut_unused (transport : Transport) (requestId : Nat) : Unused (newConnOut transport requestId) :=
  ⟨rfl, rfl, rfl, Nat.succ_pos _, Nat.succ_pos _⟩

/-- The messages of a response. -/
def responseMsgs (udp : Bool) (bufs : List (Bytes × Nat)) : List (List Iovec) :=
  bufs.foldl (fun ms b => addPieces udp (b.2 + 1) ms b.1 b.2) (newMessage udp [])

theorem addPieces_concat (udp : Bool) (fuel : Nat) (ms : List (List Iovec)) (m : List Iovec) (buf : Bytes) (len : Nat) :
    ∃ ms' m', addPieces udp fuel (ms ++ [m]) buf len = ms' ++ [m'] := by
  induction fuel generalizing ms m buf len with
  | zero => exact ⟨ms, m, rfl⟩
  | succ fuel ih =>
    obtain ⟨ms', m', hms⟩ := addPiece_concat udp (ms ++ [m]) buf len
    rw [addPieces]
    dsimp only
    rw [hms]
    split
    · exact ⟨ms', m', rfl⟩
    · exact ih ..

/-- A response is built without an error, and the lists hold its messages. -/
theorem buildResponse_holds (h : Unused c) (bufs : List (Bytes × Nat)) :
    ∃ c', buildResponse c bufs = some c' ∧ HoldsMsgs c' (responseMsgs c.isUdp bufs) ∧ SameOut c c' := by
  have hempty : HoldsMsgs { c with msgbytes := 0 } [] :=
    ⟨h.msgused, h.iovused, nofun, nofun, rfl, by simp [h.iovused], h.iovsize, by simp [h.msgused], h.msgsize⟩
  have hfirst : addMsghdr { c with msgbytes := 0 } = addMsghdr c := by
    unfold addMsghdr addMsghdrIn newMsghdr
    split <;> rfl
  obtain ⟨c1, hadd, h1, hsame1⟩ := addMsghdr_holds hempty
  rw [hfirst] at hadd
  have hrest : ∀ (bufs : List (Bytes × Nat)) (c1 : ConnOut) (ms : List (List Iovec)) (m : List Iovec),
      HoldsMsgs c1 (ms ++ [m]) → ∃ c', bufs.foldlM (fun c b => addIov c b.1 b.2) c1 = some c' ∧
        HoldsMsgs c' (bufs.foldl (fun ms b => addPieces c1.isUdp (b.2 + 1) ms b.1 b.2) (ms ++ [m])) ∧ SameOut c1 c' := by
    intro bufs
    induction bufs with
    | nil => exact fun c1 ms m h1 => ⟨c1, rfl, h1, .refl c1⟩
    | cons b bufs ih =>
      intro c1 ms m h1
      obtain ⟨c2, hiov, h2, hsame2⟩ := addIov_holds h1 b.1 b.2
      obtain ⟨ms', m', hms⟩ := addPieces_concat c1.isUdp (b.2 + 1) ms m b.1 b.2
      rw [hms] at h2
      obtain ⟨c3, hfold, h3, hsame3⟩ := ih c2 ms' m' h2
      rw [List.foldlM_cons, hiov, List.foldl_cons, hms]
      rw [hsame2.isUdp] at h3
      exact ⟨c3, hfold, h3, hsame2.trans hsame3⟩
  obtain ⟨m, hm⟩ := newMessage_concat c.isUdp []
  have h1' : HoldsMsgs c1 ([] ++ [m]) := hm ▸ h1
  obtain ⟨c2, hfold, h2, hsame2⟩ := hrest bufs c1 [] m h1'
  unfold buildResponse
  rw [hadd]
  refine ⟨c2, hfold, ?_, ⟨hsame2.transport.trans hsame1.transport, hsame2.requestId.trans hsame1.requestId,
    hsame2.msgcurr.trans hsame1.msgcurr⟩⟩
  have hudp : c1.isUdp = c.isUdp := hsame1.isUdp
  rw [responseMsgs, hm]
  rwa [hudp] at h2

/-! ## What a response holds -/

/-- The bytes of the buffers. -/
def responseBytes (bufs : List (Bytes × Nat)) : Bytes := bufs.flatMap fun b => b.1.take b.2

/-- Is everything a buffer is said to hold there? -/
def Backed (bufs : List (Bytes × Nat)) : Prop := ∀ b ∈ bufs, b.2 ≤ b.1.length

/-- A piece goes to the last message, or to a new one if that is full. -/
theorem addPiece_cases (udp : Bool) (ms : List (List Iovec)) (m : List Iovec) (buf : Bytes) (len : Nat) :
    ∃ left, (addPiece udp (ms ++ [m]) buf len).2 = left ∧ (0 < len → left < len) ∧
      ((isFull (udp || (ms ++ [m]).length == 1) m = false ∧
          left = pieceLeftover (udp || (ms ++ [m]).length == 1) (lens m) len ∧
          (addPiece udp (ms ++ [m]) buf len).1 = ms ++ [m ++ [⟨buf, len - left⟩]]) ∨
        (left = pieceLeftover (udp || (ms ++ [m]).length == 1) (if udp then UDP_HEADER_SIZE else 0) len ∧
          (addPiece udp (ms ++ [m]) buf len).1 =
            ms ++ [m] ++ [(if udp then [headerSlot] else []) ++ [⟨buf, len - left⟩]])) := by
  refine ⟨_, rfl, fun hlen => ?_, ?_⟩
  · obtain hleft | hleft := addPiece_leftover udp (ms ++ [m]) buf len
    · omega
    · exact hleft
  · unfold addPiece
    simp only [lastMsg_concat]
    by_cases hf : isFull (udp || (ms ++ [m]).length == 1) m = true
    · refine .inr ?_
      rw [if_pos hf, newMessage, lastMsg_concat, putPiece_concat]
      have hslot : lens (if udp then [headerSlot] else []) = if udp then UDP_HEADER_SIZE else 0 := by
        cases udp <;> rfl
      rw [hslot]
      exact ⟨rfl, rfl⟩
    · refine .inl ?_
      rw [if_neg hf, lastMsg_concat, putPiece_concat]
      exact ⟨by simpa using hf, rfl, rfl⟩

theorem gather_addPieces (udp : Bool) {fuel : Nat} (hlen : len < fuel) (ms : List (List Iovec)) (m : List Iovec) :
    gather (addPieces udp fuel (ms ++ [m]) buf len).flatten = gather (ms ++ [m]).flatten ++ buf.take len := by
  induction fuel generalizing ms m buf len with
  | zero => omega
  | succ fuel ih =>
    obtain ⟨left, hleft, hlt, hcases⟩ := addPiece_cases udp ms m buf len
    have hpiece : gather (addPiece udp (ms ++ [m]) buf len).1.flatten =
        gather (ms ++ [m]).flatten ++ buf.take (len - left) := by
      obtain ⟨-, -, he⟩ | ⟨-, he⟩ := hcases
      · rw [he]
        simp [gather, Iovec.bytes]
      · rw [he]
        cases udp <;> simp [gather, Iovec.bytes, headerSlot]
    rw [addPieces]
    dsimp only
    rw [hleft]
    by_cases hzero : left = 0
    · rw [if_pos hzero, hpiece, hzero, Nat.sub_zero]
    · obtain ⟨ms', m', hms⟩ := addPiece_concat udp (ms ++ [m]) buf len
      have hltlen : left < len := by
        by_cases hpos : 0 < len
        · exact hlt hpos
        · have hpl := addPiece_leftover udp (ms ++ [m]) buf len
          omega
      rw [if_neg hzero, hms, ih (by omega), ← hms, hpiece, List.append_assoc]
      congr 1
      have hsplit : buf.take len = buf.take (len - left + left) := by congr 1; omega
      rw [hsplit, List.take_add]

/-- A property of the messages that every piece keeps. -/
theorem addPieces_keeps {P : List (List Iovec) → Prop} {Q : Bytes → Nat → Prop} {fuel : Nat}
    (hstep : ∀ ms m buf len, P (ms ++ [m]) → Q buf len → P (addPiece udp (ms ++ [m]) buf len).1 ∧
      ∀ left, (addPiece udp (ms ++ [m]) buf len).2 = left → left ≠ 0 → Q (buf.drop (len - left)) left)
    (h : P (ms ++ [m])) (hq : Q buf len) : P (addPieces udp fuel (ms ++ [m]) buf len) := by
  induction fuel generalizing ms m buf len with
  | zero => exact h
  | succ fuel ih =>
    obtain ⟨hp, hrest⟩ := hstep ms m buf len h hq
    obtain ⟨ms', m', hms⟩ := addPiece_concat udp (ms ++ [m]) buf len
    rw [addPieces]
    dsimp only
    split
    · exact hp
    · rename_i hne
      rw [hms] at hp ⊢
      exact ih hp (hrest _ rfl hne)

/-- The messages of a response have what every piece keeps. -/
theorem responseMsgs_keeps {P : List (List Iovec) → Prop} {Q : Bytes → Nat → Prop} {bufs : List (Bytes × Nat)}
    (hstep : ∀ ms m buf len, P (ms ++ [m]) → Q buf len → P (addPiece udp (ms ++ [m]) buf len).1 ∧
      ∀ left, (addPiece udp (ms ++ [m]) buf len).2 = left → left ≠ 0 → Q (buf.drop (len - left)) left)
    (h : P (newMessage udp [])) (hq : ∀ b ∈ bufs, Q b.1 b.2) : P (responseMsgs udp bufs) := by
  have hall : ∀ (bufs : List (Bytes × Nat)) ms m, P (ms ++ [m]) → (∀ b ∈ bufs, Q b.1 b.2) →
      P (bufs.foldl (fun ms b => addPieces udp (b.2 + 1) ms b.1 b.2) (ms ++ [m])) := by
    intro bufs
    induction bufs with
    | nil => exact fun ms m hp _ => hp
    | cons b bufs ih =>
      intro ms m hp hbufs
      have hfirst : P (addPieces udp (b.2 + 1) (ms ++ [m]) b.1 b.2) :=
        addPieces_keeps hstep hp (hbufs b List.mem_cons_self)
      obtain ⟨ms', m', hms⟩ := addPieces_concat udp (b.2 + 1) ms m b.1 b.2
      rw [List.foldl_cons, hms]
      rw [hms] at hfirst
      exact ih ms' m' hfirst fun b' hb' => hbufs b' (List.mem_cons_of_mem b hb')
  obtain ⟨m, hm⟩ := newMessage_concat udp []
  rw [hm] at h
  rw [responseMsgs, hm]
  exact hall bufs [] m h hq

/-- The pieces of a response hold the bytes of its buffers. -/
theorem gather_responseMsgs (udp : Bool) (bufs : List (Bytes × Nat)) :
    gather (responseMsgs udp bufs).flatten = responseBytes bufs := by
  have hall : ∀ (bufs : List (Bytes × Nat)) ms m,
      gather (bufs.foldl (fun ms b => addPieces udp (b.2 + 1) ms b.1 b.2) (ms ++ [m])).flatten =
        gather (ms ++ [m]).flatten ++ responseBytes bufs := by
    intro bufs
    induction bufs with
    | nil => simp [responseBytes]
    | cons b bufs ih =>
      intro ms m
      obtain ⟨ms', m', hms⟩ := addPieces_concat udp (b.2 + 1) ms m b.1 b.2
      rw [List.foldl_cons, hms, ih, ← hms, gather_addPieces udp (Nat.lt_succ_self _)]
      simp [responseBytes]
  obtain ⟨m, hm⟩ := newMessage_concat udp []
  have hslot : gather (newMessage udp []).flatten = [] := by
    cases udp <;> rfl
  rw [responseMsgs, hm, hall bufs [] m, ← hm, hslot, List.nil_append]

end RamCube
