import RamCube.Server.Transmit

/-! # The datagrams of a response (memcached.c)

Over UDP `add_msghdr` leaves an entry for a header in front of every message, and
`build_udp_headers` fills these entries in once the number of messages is known. Each
message then is a datagram of no more than `UDP_MAX_PAYLOAD_SIZE` bytes with its place in
the response in the header, and the datagrams without their headers are the response
(`response_datagrams`). -/
namespace RamCube

/-- The eight bytes of a header. -/
def udpHeader (c : ConnOut) (i : Nat) : Bytes :=
  [UInt8.ofNat (c.requestId / 256), UInt8.ofNat (c.requestId % 256), UInt8.ofNat (i / 256), UInt8.ofNat (i % 256),
    UInt8.ofNat (c.msgused / 256), UInt8.ofNat (c.msgused % 256), 0, 0]

/-- The header of message `i` becomes its first piece: the pointer must lead into the
array. -/
def putHeader (c : ConnOut) (i : Nat) : Option ConnOut :=
  let m := c.msglist i
  if m.msgIov.array = c.array ∧ m.msgIov.idx < c.iovsize then
    some { c with iov := Function.update c.iov m.msgIov.idx ⟨udpHeader c i, UDP_HEADER_SIZE⟩ }
  else none

def buildUdpHeaders (c : ConnOut) : Option ConnOut := (List.range c.msgused).foldlM putHeader c

/-- What `sendmsg` is given of message `i`. -/
def datagram (c : ConnOut) (i : Nat) : Option Bytes := (c.pieces (c.msglist i)).map gather

/-- The number in two bytes of a header, high byte first. -/
def headerField (d : Bytes) (k : Nat) : Nat := (d.getD k 0).toNat * 256 + (d.getD (k + 1) 0).toNat

/-! ## The messages over UDP -/

/-- A message with an entry for the header that fits a datagram. -/
def DatagramMsg (m : List Iovec) : Prop :=
  ∃ t, m = headerSlot :: t ∧ lens m ≤ UDP_MAX_PAYLOAD_SIZE ∧ ∀ v ∈ t, v.len ≤ v.base.length

variable {c : ConnOut} {ms : List (List Iovec)} {m : List Iovec} {bufs : List (Bytes × Nat)}

/-- A limited piece fills its message at most. -/
theorem limited_piece {used : Nat} (h : used < UDP_MAX_PAYLOAD_SIZE) (len : Nat) :
    used + (len - pieceLeftover true used len) ≤ UDP_MAX_PAYLOAD_SIZE := by
  simp only [pieceLeftover, true_and]
  split <;> omega

theorem datagramMsg_responseMsgs (hbufs : Backed bufs) : ∀ m ∈ responseMsgs true bufs, DatagramMsg m := by
  have hstart : ∀ m ∈ newMessage true [], DatagramMsg m := by
    intro m hm
    obtain rfl : m = [headerSlot] := by simpa [newMessage] using hm
    exact ⟨[], rfl, by decide, by simp⟩
  refine responseMsgs_keeps (P := fun ms => ∀ m ∈ ms, DatagramMsg m) (Q := fun buf len => len ≤ buf.length) ?_ hstart hbufs
  intro ms m buf len hms hlen
  obtain ⟨left, hleft, -, hcases⟩ := addPiece_cases true ms m buf len
  have hone : lens [⟨buf, len - left⟩] = len - left := by simp [lens]
  refine ⟨?_, fun left' hleft' hne => ?_⟩
  · obtain ⟨hroom, hcut, he⟩ | ⟨hcut, he⟩ := hcases
    · obtain ⟨t, rfl, -, ht⟩ := hms m (List.mem_append_right _ (List.mem_singleton_self m))
      have hless : lens (headerSlot :: t) < UDP_MAX_PAYLOAD_SIZE := by
        simp only [isFull, Bool.true_or, Bool.true_and, Bool.or_eq_false_iff, decide_eq_false_iff_not] at hroom
        omega
      rw [he]
      intro m' hm'
      obtain hm' | hm' := List.mem_append.mp hm'
      · exact hms m' (List.mem_append_left _ hm')
      · obtain rfl := List.mem_singleton.mp hm'
        refine ⟨t ++ [⟨buf, len - left⟩], rfl, ?_, fun v hv => ?_⟩
        · rw [lens_append, hone, hcut]
          exact limited_piece hless len
        · obtain hv | hv := List.mem_append.mp hv
          · exact ht v hv
          · obtain rfl := List.mem_singleton.mp hv
            dsimp only
            omega
    · rw [he]
      intro m' hm'
      obtain hm' | hm' := List.mem_append.mp hm'
      · exact hms m' hm'
      · obtain rfl := List.mem_singleton.mp hm'
        refine ⟨[⟨buf, len - left⟩], rfl, ?_, fun v hv => ?_⟩
        · rw [lens_append, hone, hcut]
          exact limited_piece (by decide) len
        · obtain rfl := List.mem_singleton.mp hv
          dsimp only
          omega
  · have hlt := (addPiece_leftover true (ms ++ [m]) buf len).resolve_left (hleft' ▸ hne)
    rw [hleft'] at hlt
    rw [List.length_drop]
    omega

/-! ## The headers -/

/-- A message with these bytes for its header. -/
def withHeader (hdr : Bytes) (m : List Iovec) : List Iovec := ⟨hdr, UDP_HEADER_SIZE⟩ :: m.tail

/-- The messages with the first `k` headers filled in. -/
def headed (c : ConnOut) (ms : List (List Iovec)) (k : Nat) : List (List Iovec) :=
  ms.mapIdx fun i m => if i < k then withHeader (udpHeader c i) m else m

theorem headed_zero (c : ConnOut) (ms : List (List Iovec)) : headed c ms 0 = ms := by
  apply List.ext_getElem?
  simp [headed]

theorem headed_succ (c : ConnOut) (ms : List (List Iovec)) (k : Nat) (hk : ms[k]? = some m) :
    headed c ms (k + 1) = (headed c ms k).set k (withHeader (udpHeader c k) m) := by
  apply List.ext_getElem?
  intro i
  simp only [headed, List.getElem?_set, List.getElem?_mapIdx, List.length_mapIdx]
  by_cases hi : k = i
  · subst hi
    rw [if_pos rfl, hk, if_pos (List.getElem?_eq_some_iff.mp hk).1]
    simp
  · rw [if_neg hi]
    congr 1
    funext m
    by_cases hlt : i < k
    · rw [if_pos (by omega), if_pos hlt]
    · rw [if_neg (by omega), if_neg hlt]

/-- The first piece of a message is replaced by one of the same length. -/
theorem putHeader_holds {v : Iovec} {i : Nat} (h : HoldsMsgs c ms) (hm : ms[i]? = some (v :: m)) (hv : v.len = UDP_HEADER_SIZE) :
    ∃ c', putHeader c i = some c' ∧ HoldsMsgs c' (ms.set i (withHeader (udpHeader c i) (v :: m))) ∧ SameOut c c' ∧
      c'.msgused = c.msgused := by
  have hi := (List.getElem?_eq_some_iff.mp hm).1
  have hcut : ms = ms.take i ++ (v :: m) :: ms.drop (i + 1) := by
    rw [← (List.getElem?_eq_some_iff.mp hm).2, List.getElem_cons_drop, List.take_append_drop]
  generalize hhdr : (⟨udpHeader c i, UDP_HEADER_SIZE⟩ : Iovec) = w
  have hset : ms.set i (w :: m) = ms.take i ++ (w :: m) :: ms.drop (i + 1) := List.set_eq_take_append_cons_drop.trans (if_pos hi)
  have hflat : ms.flatten = (ms.take i).flatten ++ v :: (m ++ (ms.drop (i + 1)).flatten) := by
    conv_lhs => rw [hcut]
    simp
  have hflat' : (ms.set i (w :: m)).flatten = (ms.take i).flatten ++ w :: (m ++ (ms.drop (i + 1)).flatten) := by
    rw [hset]
    simp
  have hroom : (ms.take i).flatten.length < c.iovsize := by
    have hused := h.iovused
    have hsize := h.iovRoom
    rw [hflat, List.length_append, List.length_cons] at hused
    omega
  have htake : ∀ j, ((ms.set i (w :: m)).take j).flatten.length = (ms.take j).flatten.length := by
    intro j
    simp only [List.length_flatten, List.map_take, List.map_set, List.length_cons]
    congr 2
    apply List.ext_getElem?
    intro k
    rw [List.getElem?_set]
    split
    · rename_i hk
      subst hk
      rw [List.getElem?_map, hm]
      simp [hi]
    · rfl
  unfold putHeader
  rw [h.msg i _ hm]
  dsimp only
  rw [if_pos ⟨rfl, hroom⟩, hhdr, withHeader, hhdr, List.tail_cons]
  refine ⟨_, rfl, ⟨?_, ?_, fun j m' hm' => ?_, fun k u hu => ?_, ?_, h.iovRoom, h.iovsize, h.msgRoom, h.msgsize⟩,
    ⟨rfl, rfl, rfl⟩, rfl⟩
  · rw [List.length_set]
    exact h.msgused
  · dsimp only
    rw [h.iovused, hflat, hflat', List.length_append, List.length_append, List.length_cons, List.length_cons]
  · rw [htake]
    rw [List.getElem?_set] at hm'
    split at hm'
    · rename_i hij
      subst hij
      obtain rfl : w :: m = m' := by simpa [hi] using hm'
      rw [h.msg i _ hm]
      rfl
    · exact h.msg j m' hm'
  · dsimp only
    rw [hflat'] at hu
    by_cases hk : k = (ms.take i).flatten.length
    · rw [hk, List.getElem?_append_right (Nat.le_refl _), Nat.sub_self] at hu
      rw [hk, Function.update_self]
      exact Option.some.inj hu
    · rw [Function.update_of_ne hk]
      refine h.iov k u ?_
      rw [hflat]
      by_cases hlt : k < (ms.take i).flatten.length
      · rw [List.getElem?_append_left hlt] at hu ⊢
        exact hu
      · rw [List.getElem?_append_right (Nat.not_lt.mp hlt)] at hu ⊢
        obtain ⟨d, hd⟩ : ∃ d, k - (ms.take i).flatten.length = d + 1 := ⟨k - (ms.take i).flatten.length - 1, by omega⟩
        rw [hd, List.getElem?_cons_succ] at hu ⊢
        exact hu
  · dsimp only
    have hw : w.len = UDP_HEADER_SIZE := by rw [← hhdr]
    rw [h.msgbytes]
    have hmap : (ms.set i (w :: m)).map lens = ms.map lens := by
      apply List.ext_getElem?
      intro k
      rw [List.getElem?_map, List.getElem?_map, List.getElem?_set]
      split
      · rename_i hik
        subst hik
        rw [hm]
        simp [lens, hv, hw]
      · rfl
    have hlast : ∀ l : List (List Iovec), lens (lastMsg l) = ((l.map lens).getLast?).getD 0 := by
      intro l
      rw [lastMsg, List.getLast?_map]
      cases l.getLast? <;> rfl
    rw [hlast, hlast, hmap]

theorem udpHeader_congr {c c' : ConnOut} (hid : c'.requestId = c.requestId) (hn : c'.msgused = c.msgused) (i : Nat) :
    udpHeader c' i = udpHeader c i := by
  rw [udpHeader, udpHeader, hid, hn]

/-- The loop over the messages. -/
theorem buildUdpHeaders_holds (h : HoldsMsgs c ms) (hms : ∀ m ∈ ms, DatagramMsg m) :
    ∃ c', buildUdpHeaders c = some c' ∧ HoldsMsgs c' (headed c ms ms.length) ∧ SameOut c c' := by
  have hloop : ∀ k, k ≤ ms.length → ∃ c', (List.range k).foldlM putHeader c = some c' ∧ HoldsMsgs c' (headed c ms k) ∧
      SameOut c c' ∧ c'.msgused = c.msgused := by
    intro k
    induction k with
    | zero =>
      intro _
      rw [headed_zero]
      exact ⟨c, rfl, h, .refl c, rfl⟩
    | succ k ih =>
      intro hk
      obtain ⟨c1, hfold, h1, hsame1, hn1⟩ := ih (by omega)
      have hget : ms[k]? = some ms[k] := List.getElem?_eq_getElem hk
      obtain ⟨t, ht, -, -⟩ := hms _ (List.getElem_mem hk)
      rw [ht] at hget
      have hget' : (headed c ms k)[k]? = some (headerSlot :: t) := by
        rw [headed, List.getElem?_mapIdx, hget]
        simp
      obtain ⟨c2, hput, h2, hsame2, hn2⟩ := putHeader_holds h1 hget' rfl
      rw [udpHeader_congr hsame1.requestId hn1, ← headed_succ c ms k hget] at h2
      refine ⟨c2, ?_, h2, hsame1.trans hsame2, hn2.trans hn1⟩
      rw [List.range_succ, List.foldlM_append, hfold]
      simp [hput]
  obtain ⟨c', hfold, hholds, hsame, -⟩ := hloop ms.length (Nat.le_refl _)
  refine ⟨c', ?_, hholds, hsame⟩
  rw [buildUdpHeaders, h.msgused]
  exact hfold

/-! ## The datagrams -/

theorem headerField_udpHeader {i : Nat} (hid : c.requestId < 65536) (hi : i < 65536) (hn : c.msgused < 65536)
    (rest : Bytes) :
    headerField (udpHeader c i ++ rest) 0 = c.requestId ∧ headerField (udpHeader c i ++ rest) 2 = i ∧
      headerField (udpHeader c i ++ rest) 4 = c.msgused ∧ headerField (udpHeader c i ++ rest) 6 = 0 := by
  have hbytes : ∀ n : Nat, n < 65536 → (UInt8.ofNat (n / 256)).toNat * 256 + (UInt8.ofNat (n % 256)).toNat = n := by
    intro n hlt
    have hhigh : (UInt8.ofNat (n / 256)).toNat = n / 256 := UInt8.toNat_ofNat_of_lt' (by change n / 256 < 256; omega)
    have hlow : (UInt8.ofNat (n % 256)).toNat = n % 256 :=
      UInt8.toNat_ofNat_of_lt' (by change n % 256 < 256; omega)
    rw [hhigh, hlow]
    omega
  refine ⟨?_, ?_, ?_, ?_⟩
  · simpa [headerField, udpHeader] using hbytes _ hid
  · simpa [headerField, udpHeader] using hbytes _ hi
  · simpa [headerField, udpHeader] using hbytes _ hn
  · simp [headerField, udpHeader]

/-- A message with its header is a datagram: the bytes behind the header are those of the
message without. -/
theorem gather_withHeader (hm : DatagramMsg m) (i : Nat) :
    (∀ v ∈ withHeader (udpHeader c i) m, v.len ≤ v.base.length) ∧
      gather (withHeader (udpHeader c i) m) = udpHeader c i ++ gather m ∧
      (gather (withHeader (udpHeader c i) m)).length ≤ UDP_MAX_PAYLOAD_SIZE := by
  obtain ⟨t, rfl, hlens, ht⟩ := hm
  have hback : ∀ v ∈ withHeader (udpHeader c i) (headerSlot :: t), v.len ≤ v.base.length := by
    intro v hv
    obtain rfl | hv := List.mem_cons.mp hv
    · exact Nat.le_refl 8
    · exact ht v hv
  refine ⟨hback, rfl, ?_⟩
  rw [← lens_eq_length hback]
  exact hlens

/-- A response over UDP: each datagram with its header keeps to the limit, its header
tells the request, its place and the number of datagrams, and the datagrams without their
headers are the buffers in their order. -/
theorem response_datagrams {c : ConnOut} {bufs : List (Bytes × Nat)} (hnew : Unused c) (hudp : c.isUdp = true)
    (hid : c.requestId < 65536) (hbufs : Backed bufs) :
    ∃ c1, buildResponse c bufs = some c1 ∧ (c1.msgused ≤ 65535 → ∃ c2, ∃ ds : List Bytes,
      buildUdpHeaders c1 = some c2 ∧
      (List.range c1.msgused).map (datagram c2) = ds.map some ∧
      (∀ i d, ds[i]? = some d → UDP_HEADER_SIZE ≤ d.length ∧ d.length ≤ UDP_MAX_PAYLOAD_SIZE ∧
        headerField d 0 = c.requestId ∧ headerField d 2 = i ∧ headerField d 4 = ds.length ∧ headerField d 6 = 0) ∧
      ds.flatMap (fun d => d.drop UDP_HEADER_SIZE) = responseBytes bufs) := by
  obtain ⟨c1, hbuild, h1, hsame1⟩ := buildResponse_holds hnew bufs
  rw [hudp] at h1
  refine ⟨c1, hbuild, fun hfits => ?_⟩
  have hmsgs := datagramMsg_responseMsgs hbufs
  have hbytes := gather_responseMsgs true bufs
  generalize responseMsgs true bufs = ms at h1 hmsgs hbytes
  obtain ⟨c2, hheaders, h2, -⟩ := buildUdpHeaders_holds h1 hmsgs
  have hget : ∀ i m, ms[i]? = some m → (headed c1 ms ms.length)[i]? = some (withHeader (udpHeader c1 i) m) := by
    intro i m hm
    have hi := (List.getElem?_eq_some_iff.mp hm).1
    rw [headed, List.getElem?_mapIdx, hm, Option.map_some, if_pos hi]
  refine ⟨c2, (ms.mapIdx fun i m => udpHeader c1 i ++ gather m), hheaders, ?_, fun i d hd => ?_, ?_⟩
  · apply List.ext_getElem?
    intro i
    rw [h1.msgused, List.getElem?_map, List.getElem?_map, List.getElem?_mapIdx]
    by_cases hi : i < ms.length
    · have hm : ms[i]? = some ms[i] := List.getElem?_eq_getElem hi
      obtain ⟨hback, hgather, -⟩ := gather_withHeader (c := c1) (hmsgs _ (List.getElem_mem hi)) i
      rw [List.getElem?_range hi, hm, Option.map_some, Option.map_some, Option.map_some, datagram,
        ConnOut.pieces_eq (h2.msg i _ (hget i _ hm)) (h2.piecesAt (hget i _ hm)) hback, Option.map_some, hgather]
    · rw [List.getElem?_eq_none (by simpa using hi), List.getElem?_eq_none (Nat.not_lt.mp hi)]
      rfl
  · rw [List.getElem?_mapIdx] at hd
    obtain ⟨m, hm, rfl⟩ := Option.map_eq_some_iff.mp hd
    have hi := (List.getElem?_eq_some_iff.mp hm).1
    obtain ⟨-, hgather, hle⟩ := gather_withHeader (c := c1) (hmsgs m (List.mem_of_getElem? hm)) i
    have hcount := h1.msgused
    have hid1 : c1.requestId < 65536 := hsame1.requestId ▸ hid
    have hi1 : i < 65536 := by omega
    have hn1 : c1.msgused < 65536 := by omega
    obtain ⟨hf0, hf2, hf4, hf6⟩ := headerField_udpHeader hid1 hi1 hn1 (gather m)
    rw [hgather] at hle
    refine ⟨?_, hle, hf0.trans hsame1.requestId, hf2, ?_, hf6⟩
    · rw [List.length_append]
      exact Nat.le_add_right 8 _
    · rw [hf4, hcount, List.length_mapIdx]
  · have hdrop : (ms.mapIdx fun i m => udpHeader c1 i ++ gather m).map (fun d => d.drop UDP_HEADER_SIZE) =
        ms.map gather := by
      apply List.ext_getElem?
      intro i
      rw [List.getElem?_map, List.getElem?_mapIdx, List.getElem?_map]
      cases ms[i]? with
      | none => rfl
      | some m => rfl
    rw [List.flatMap_def, hdrop, ← hbytes, gather, List.flatMap_def, List.map_flatten, List.flatten_flatten, List.map_map]
    rfl

/-- An answer to request 258, too long for two datagrams. -/
def longAnswer : List (Bytes × Nat) := [(List.replicate 3000 97, 3000), (ascii "\r\nEND\r\n", 7)]

theorem response_datagrams_three : (buildResponse (newConnOut .udp 258) longAnswer).map ConnOut.msgused = some 3 ∧
    ∃ c1, buildResponse (newConnOut .udp 258) longAnswer = some c1 ∧ (c1.msgused ≤ 65535 →
      ∃ c2, ∃ ds : List Bytes, buildUdpHeaders c1 = some c2 ∧
      (List.range c1.msgused).map (datagram c2) = ds.map some ∧
      (∀ i d, ds[i]? = some d → UDP_HEADER_SIZE ≤ d.length ∧ d.length ≤ UDP_MAX_PAYLOAD_SIZE ∧
        headerField d 0 = 258 ∧ headerField d 2 = i ∧ headerField d 4 = ds.length ∧ headerField d 6 = 0) ∧
      ds.flatMap (fun d => d.drop UDP_HEADER_SIZE) = responseBytes longAnswer) := by
  have hbufs : Backed longAnswer := by
    intro b hb
    obtain rfl | hb := List.mem_cons.mp hb
    · exact (List.length_replicate).ge
    · rw [List.mem_singleton.mp hb]
      decide
  exact ⟨by decide +kernel, response_datagrams (newConnOut_unused .udp 258) rfl (show 258 < 65536 by omega) hbufs⟩

end RamCube
