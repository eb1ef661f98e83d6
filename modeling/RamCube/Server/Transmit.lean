import RamCube.Lib.Run
import RamCube.Server.Output

/-! # Sending a response (memcached.c)

`transmit` offers the current message to `sendmsg`, takes what was accepted off it, and
goes on to the next message once it is empty. Whatever part of its offer each call
accepts, the bytes accepted are those of the buffers of the response in their order, and
all of them when `transmit` says that it is done (`response_transmitted`). -/
namespace RamCube

inductive TransmitResult where
  | TRANSMIT_COMPLETE
  | TRANSMIT_INCOMPLETE
  | TRANSMIT_SOFT_ERROR
  | TRANSMIT_HARD_ERROR
deriving DecidableEq

/-- What `sendmsg` does: it accepts so many bytes, or says EAGAIN, after which the event
for writing can be set or not, or fails otherwise. -/
inductive SendResult where
  | accepted (res : Nat)
  | again (updated : Bool)
  | failed
deriving DecidableEq

/-! ## The call -/

/-- The loop over the pieces that were accepted whole: how many are left, from where on,
and how much of the next was accepted. -/
def skipIovs (iov : Nat → Iovec) : Nat → Nat → Nat → Nat × Nat × Nat
  | 0, idx, res => (0, idx, res)
  | n + 1, idx, res =>
    if (iov idx).len ≤ res then skipIovs iov n (idx + 1) (res - (iov idx).len) else (n + 1, idx, res)

/-- `iov_base` and `iov_len` moved on. -/
def advanceIov (v : Iovec) (res : Nat) : Iovec := ⟨v.base.drop res, v.len - res⟩

/-- The message `msgcurr` after `res` bytes of it were accepted. -/
def takeAccepted (c : ConnOut) (res : Nat) : ConnOut :=
  let m := c.msglist c.msgcurr
  let (n, idx, rest) := skipIovs c.iov m.msgIovlen m.msgIov.idx res
  { c with
    msglist := Function.update c.msglist c.msgcurr ⟨⟨m.msgIov.array, idx⟩, n⟩
    iov := if 0 < rest then Function.update c.iov idx (advanceIov (c.iov idx) rest) else c.iov }

/-- The pieces of a message, if its pointer leads into the array and the buffers hold
their lengths. -/
def ConnOut.pieces (c : ConnOut) (m : Msghdr) : Option (List Iovec) :=
  let vs := (List.range m.msgIovlen).map fun k => c.iov (m.msgIov.idx + k)
  if m.msgIov.array = c.array ∧ ∀ v ∈ vs, v.len ≤ v.base.length then some vs else none

/-- The current message is passed over when nothing is left of it. -/
def nextMsg (c : ConnOut) : ConnOut :=
  if c.msgcurr < c.msgused ∧ (c.msglist c.msgcurr).msgIovlen = 0 then { c with msgcurr := c.msgcurr + 1 } else c

/-- `transmit`, and the bytes that were accepted. -/
def transmit (c : ConnOut) (r : SendResult) : Option (ConnOut × TransmitResult × Bytes) := do
  let c := nextMsg c
  if c.msgcurr < c.msgused then
    let vs ← c.pieces (c.msglist c.msgcurr)
    match r with
    | .accepted res => some (takeAccepted c res, .TRANSMIT_INCOMPLETE, (gather vs).take res)
    | .again updated => some (c, if updated then .TRANSMIT_SOFT_ERROR else .TRANSMIT_HARD_ERROR, [])
    | .failed => some (c, .TRANSMIT_HARD_ERROR, [])
  else some (c, .TRANSMIT_COMPLETE, [])

/-- What `sendmsg` is offered. -/
def offered (c : ConnOut) : Bytes :=
  (((nextMsg c).pieces ((nextMsg c).msglist (nextMsg c).msgcurr)).map gather).getD []

/-! ## What is pending -/

/-- The messages from `msgcurr` on. Message `j` lies between the bounds `base j` and
`base (j + 1)` of its own, which no other message reaches into. -/
structure Pending (c : ConnOut) (base : Nat → Nat) (ms : List (List Iovec)) : Prop where
  msgused : c.msgused = c.msgcurr + ms.length
  msg : ∀ j m, ms[j]? = some m → ∃ idx, c.msglist (c.msgcurr + j) = ⟨⟨c.array, idx⟩, m.length⟩ ∧
    base j ≤ idx ∧ idx + m.length ≤ base (j + 1) ∧ ∀ k v, m[k]? = some v → c.iov (idx + k) = v
  mono : ∀ j, base j ≤ base (j + 1)

/-- Pieces that `sendmsg` can be offered. -/
def Sendable (ms : List (List Iovec)) : Prop :=
  (∀ m ∈ ms, ∀ v ∈ m, 0 < v.len ∧ v.len ≤ v.base.length) ∧ ∀ m ∈ ms.tail, m ≠ []

/-- The pieces of a message without its first `res` bytes. -/
def dropBytes : Nat → List Iovec → List Iovec
  | _, [] => []
  | res, v :: vs =>
    if v.len ≤ res then dropBytes (res - v.len) vs
    else (if 0 < res then advanceIov v res else v) :: vs

theorem gather_dropBytes {vs : List Iovec} (hv : ∀ v ∈ vs, v.len ≤ v.base.length) (res : Nat) :
    gather (dropBytes res vs) = (gather vs).drop res := by
  induction vs generalizing res with
  | nil => simp [dropBytes, gather]
  | cons v vs ih =>
    have hlen : v.bytes.length = v.len := by
      have := hv v List.mem_cons_self
      simp only [Iovec.bytes, List.length_take]
      omega
    rw [dropBytes, gather_cons]
    by_cases hle : v.len ≤ res
    · have hgone : v.bytes.drop res = [] := List.drop_eq_nil_of_le (by omega)
      rw [if_pos hle, ih (fun w hw => hv w (List.mem_cons_of_mem v hw)), List.drop_append, hgone, hlen, List.nil_append]
    · rw [if_neg hle, gather_cons, List.drop_append_of_le_length (by omega)]
      by_cases hres : 0 < res
      · rw [if_pos hres]
        simp [Iovec.bytes, advanceIov, List.drop_take]
      · obtain rfl : res = 0 := by omega
        simp

theorem sendable_dropBytes {vs : List Iovec} (hv : ∀ v ∈ vs, 0 < v.len ∧ v.len ≤ v.base.length) (res : Nat) :
    ∀ v ∈ dropBytes res vs, 0 < v.len ∧ v.len ≤ v.base.length := by
  induction vs generalizing res with
  | nil => simp [dropBytes]
  | cons v vs ih =>
    have hrest : ∀ w ∈ vs, 0 < w.len ∧ w.len ≤ w.base.length := fun w hw => hv w (List.mem_cons_of_mem v hw)
    rw [dropBytes]
    split
    · exact ih hrest _
    · rename_i hle
      have hfirst := hv v List.mem_cons_self
      intro w hw
      obtain rfl | hw := List.mem_cons.mp hw
      · split
        · simp only [advanceIov, List.length_drop]
          omega
        · exact hfirst
      · exact hrest w hw

/-- The loop leaves a message without its first bytes, between the same bounds. No more
than the message holds was accepted, so the piece that is moved on is one of it. -/
theorem skipIovs_spec {iov : Nat → Iovec} {vs : List Iovec} {idx res : Nat}
    (hv : ∀ k v, vs[k]? = some v → iov (idx + k) = v) (hres : res ≤ lens vs) :
    ∃ n i rest, skipIovs iov vs.length idx res = (n, i, rest) ∧ n = (dropBytes res vs).length ∧ idx ≤ i ∧
      i + n = idx + vs.length ∧ (0 < rest → 0 < n) ∧ ∀ k v, (dropBytes res vs)[k]? = some v →
        (if 0 < rest then Function.update iov i (advanceIov (iov i) rest) else iov) (i + k) = v := by
  induction vs generalizing idx res with
  | nil =>
    have hzero : res = 0 := Nat.le_zero.mp hres
    exact ⟨0, idx, res, rfl, rfl, Nat.le_refl _, rfl, by omega, by simp [dropBytes]⟩
  | cons v vs ih =>
    have hlens : res ≤ v.len + lens vs := hres
    have hfirst : iov idx = v := hv 0 v rfl
    have hrest : ∀ k w, vs[k]? = some w → iov (idx + 1 + k) = w := fun k w hw => by
      rw [← hv (k + 1) w hw]
      congr 1
      omega
    rw [List.length_cons, skipIovs, dropBytes, hfirst]
    by_cases hle : v.len ≤ res
    · rw [if_pos hle, if_pos hle]
      obtain ⟨n, i, rest, he, hn, hi, hsum, hleft, hget⟩ := ih hrest (show res - v.len ≤ lens vs by omega)
      exact ⟨n, i, rest, he, hn, by omega, by omega, hleft, hget⟩
    · rw [if_neg hle, if_neg hle]
      refine ⟨vs.length + 1, idx, res, rfl, rfl, Nat.le_refl _, rfl, fun _ => Nat.succ_pos _, fun k w hw => ?_⟩
      cases k with
      | zero =>
        obtain rfl := Option.some.inj hw
        by_cases hpos : 0 < res
        · simp [hpos, hfirst]
        · simp [hpos, hfirst]
      | succ k =>
        have hw' : iov (idx + (k + 1)) = w := hv (k + 1) w hw
        split
        · rw [Function.update_of_ne (by omega), hw']
        · exact hw'

/-! ## One call -/

variable {c c' : ConnOut} {base : Nat → Nat} {ms : List (List Iovec)} {m : List Iovec}

/-- The messages without a first one that nothing is left of. -/
def passOver : List (List Iovec) → List (List Iovec)
  | [] => []
  | m :: ms => if m = [] then ms else m :: ms

theorem gather_passOver (ms : List (List Iovec)) : gather (passOver ms).flatten = gather ms.flatten := by
  cases ms with
  | nil => rfl
  | cons m ms =>
    rw [passOver]
    split
    · rename_i hm
      rw [hm, List.flatten_cons, List.nil_append]
    · rfl

theorem Sendable.passOver (h : Sendable ms) : Sendable (passOver ms) ∧ ∀ m ∈ RamCube.passOver ms, m ≠ [] := by
  cases ms with
  | nil => exact ⟨h, nofun⟩
  | cons m ms =>
    obtain ⟨hv, htail⟩ := h
    rw [RamCube.passOver]
    split
    · have hne : ∀ m ∈ ms, m ≠ [] := htail
      exact ⟨⟨fun m' hm' => hv m' (List.mem_cons_of_mem m hm'), fun m' hm' => hne m' (List.mem_of_mem_tail hm')⟩, hne⟩
    · rename_i hm
      refine ⟨⟨hv, htail⟩, fun m' hm' => ?_⟩
      obtain rfl | hm' := List.mem_cons.mp hm'
      · exact hm
      · exact htail m' hm'

theorem Pending.nextMsg (h : Pending c base ms) : ∃ base', Pending (nextMsg c) base' (passOver ms) := by
  cases ms with
  | nil =>
    have hstay : RamCube.nextMsg c = c := if_neg fun hlt => by
      have := h.msgused
      simp only [List.length_nil] at this
      omega
    rw [hstay]
    exact ⟨base, h⟩
  | cons m ms =>
    obtain ⟨idx, hm, -⟩ := h.msg 0 m rfl
    rw [Nat.add_zero] at hm
    have hused : c.msgused = c.msgcurr + (ms.length + 1) := h.msgused
    have hlen : (c.msglist c.msgcurr).msgIovlen = m.length := by rw [hm]
    rw [RamCube.nextMsg, hlen, passOver]
    by_cases hempty : m = []
    · rw [if_pos ⟨by omega, by simp [hempty]⟩, if_pos hempty]
      refine ⟨fun j => base (j + 1), by dsimp only; omega, fun j m' hm' => ?_, fun j => h.mono (j + 1)⟩
      obtain ⟨idx', hmsg, hbounds⟩ := h.msg (j + 1) m' hm'
      have hnext : c.msgcurr + 1 + j = c.msgcurr + (j + 1) := by omega
      exact ⟨idx', by rw [hnext, hmsg], hbounds⟩
    · rw [if_neg fun hlt => hempty (List.length_eq_zero_iff.mp hlt.2), if_neg hempty]
      exact ⟨base, h⟩

/-- What lies where a message points is its pieces. -/
theorem ConnOut.pieces_eq {i idx : Nat} (hm : c.msglist i = ⟨⟨c.array, idx⟩, m.length⟩)
    (hget : ∀ k v, m[k]? = some v → c.iov (idx + k) = v) (hv : ∀ v ∈ m, v.len ≤ v.base.length) :
    c.pieces (c.msglist i) = some m := by
  have hlist : ((List.range m.length).map fun k => c.iov (idx + k)) = m := by
    apply List.ext_getElem
    · simp
    · intro k hk hk'
      rw [List.getElem_map, List.getElem_range]
      exact hget k _ (List.getElem?_eq_getElem hk')
  unfold ConnOut.pieces
  rw [hm]
  dsimp only
  rw [hlist, if_pos ⟨rfl, hv⟩]

theorem Pending.pieces (h : Pending c base (m :: ms)) (hv : ∀ v ∈ m, v.len ≤ v.base.length) :
    c.msgcurr < c.msgused ∧ c.pieces (c.msglist c.msgcurr) = some m := by
  have hused : c.msgused = c.msgcurr + (ms.length + 1) := h.msgused
  obtain ⟨idx, hm, -, -, hget⟩ := h.msg 0 m rfl
  exact ⟨by omega, ConnOut.pieces_eq hm hget hv⟩

/-- What is accepted is taken off the current message alone. -/
theorem Pending.takeAccepted (h : Pending c base (m :: ms)) {res : Nat} (hres : res ≤ lens m) :
    Pending (takeAccepted c res) base (dropBytes res m :: ms) := by
  obtain ⟨idx, hm, hlow, hhigh, hget⟩ := h.msg 0 m rfl
  rw [Nat.add_zero] at hm
  obtain ⟨n, i, rest, hskip, hn, hi, hsum, hleft, hget'⟩ := skipIovs_spec hget hres
  have hbases : ∀ j, base (0 + 1) ≤ base (j + 1) := fun j => by
    induction j with
    | zero => exact Nat.le_refl _
    | succ j ih => exact Nat.le_trans ih (h.mono (j + 1))
  unfold RamCube.takeAccepted
  rw [hm]
  dsimp only
  rw [hskip]
  refine ⟨h.msgused, fun j m' hm' => ?_, h.mono⟩
  cases j with
  | zero =>
    obtain rfl := Option.some.inj hm'
    have hup : i + n ≤ base (0 + 1) := by omega
    refine ⟨i, ?_, by omega, hn ▸ hup, hget'⟩
    dsimp only
    rw [Nat.add_zero, Function.update_self, hn]
  | succ j =>
    obtain ⟨idx', hmsg, hlow', hhigh', hother⟩ := h.msg (j + 1) m' hm'
    refine ⟨idx', ?_, hlow', hhigh', fun k v hk => ?_⟩
    · dsimp only
      rw [Function.update_of_ne (by omega), hmsg]
    · -- The piece that was moved on lies below `base 1`.
      dsimp only
      split
      · rename_i hpos
        have hb := hbases j
        have hn0 := hleft hpos
        rw [Function.update_of_ne (by omega), hother k v hk]
      · exact hother k v hk

theorem lens_eq_length (hv : ∀ v ∈ m, v.len ≤ v.base.length) : lens m = (gather m).length := by
  induction m with
  | nil => rfl
  | cons v vs ih =>
    have hfirst := hv v List.mem_cons_self
    have hrest := ih fun w hw => hv w (List.mem_cons_of_mem v hw)
    have hcons : lens (v :: vs) = v.len + lens vs := rfl
    have hlen : v.bytes.length = v.len := by
      simp only [Iovec.bytes, List.length_take]
      omega
    rw [hcons, gather_cons, List.length_append, hrest, hlen]

/-- Does `transmit` get to its `sendmsg`? -/
def callsSendmsg (c : ConnOut) : Bool := (nextMsg c).msgcurr < (nextMsg c).msgused

/-- A result of a peer that reads: a nonempty part of the offer is accepted, or the socket
is full. -/
def GoodResult (c : ConnOut) : SendResult → Prop
  | .accepted res => 0 < res ∧ res ≤ (offered c).length
  | .again _ => True
  | .failed => False

/-- With nothing left, a call says so. -/
theorem Pending.transmit_done (h : Pending c base ms) (hdone : passOver ms = []) (r : SendResult) :
    transmit c r = some (RamCube.nextMsg c, .TRANSMIT_COMPLETE, []) := by
  obtain ⟨base', hnext⟩ := h.nextMsg
  have hused := hnext.msgused
  rw [hdone, List.length_nil, Nat.add_zero] at hused
  unfold transmit
  dsimp only
  rw [if_neg (by omega)]

/-- A call takes what is accepted off the messages, from the front. -/
theorem Pending.transmit_some (h : Pending c base ms) (hs : Sendable ms) {r : SendResult} (hm : passOver ms ≠ [])
    (hr : GoodResult c r) : ∃ c' res bytes base' ms', transmit c r = some (c', res, bytes) ∧
      res ≠ .TRANSMIT_COMPLETE ∧ Pending c' base' ms' ∧ Sendable ms' ∧
      bytes ++ gather ms'.flatten = gather ms.flatten := by
  obtain ⟨base', hnext⟩ := h.nextMsg
  obtain ⟨⟨hv, htail⟩, -⟩ := hs.passOver
  have hsame := gather_passOver ms
  cases hms : passOver ms with
  | nil => exact absurd hms hm
  | cons m rest =>
    rw [hms] at hnext hv htail hsame
    have hback : ∀ v ∈ m, v.len ≤ v.base.length := fun v hv' => (hv m List.mem_cons_self v hv').2
    obtain ⟨hlt, hpieces⟩ := hnext.pieces hback
    unfold transmit
    dsimp only
    rw [if_pos hlt, hpieces]
    cases r with
    | accepted res =>
      have hoffer : offered c = gather m := by rw [offered, hpieces, Option.map_some, Option.getD_some]
      obtain ⟨-, hle⟩ := hr
      rw [hoffer, ← lens_eq_length hback] at hle
      refine ⟨_, _, _, base', dropBytes res m :: rest, rfl, nofun, hnext.takeAccepted hle, ⟨?_, htail⟩, ?_⟩
      · intro m' hm'
        obtain rfl | hm' := List.mem_cons.mp hm'
        · exact sendable_dropBytes (hv m List.mem_cons_self) res
        · exact hv m' (List.mem_cons_of_mem m hm')
      · rw [List.flatten_cons, gather_append, gather_dropBytes hback, ← List.append_assoc, List.take_append_drop,
          ← hsame, List.flatten_cons, gather_append]
    | again updated =>
      refine ⟨_, _, _, base', m :: rest, rfl, ?_, hnext, ⟨hv, htail⟩, hsame⟩
      cases updated <;> nofun
    | failed => exact hr.elim

/-! ## A whole response -/

/-- A response being sent: the bytes accepted so far, and whether `transmit` has said that
it is done. -/
structure Sending where
  conn : ConnOut
  sent : Bytes
  complete : Bool

inductive TransmitStep : Sending → SendResult → Sending → Prop where
  | call {s : Sending} {r : SendResult} {c : ConnOut} {res : TransmitResult} {bytes : Bytes}
      (hmore : s.complete = false) (hgood : callsSendmsg s.conn = true → GoodResult s.conn r)
      (hcall : transmit s.conn r = some (c, res, bytes)) :
      TransmitStep s r ⟨c, s.sent ++ bytes, decide (res = .TRANSMIT_COMPLETE)⟩

/-- What was sent and what is pending are the response. -/
structure SendOk (resp : Bytes) (s : Sending) : Prop where
  rest : ∃ base ms, Pending s.conn base ms ∧ Sendable ms ∧ s.sent ++ gather ms.flatten = resp ∧
    (s.complete = true → gather ms.flatten = [])

theorem Pending.calls (h : Pending c base ms) (hs : Sendable ms) (hm : passOver ms ≠ []) : callsSendmsg c = true := by
  obtain ⟨base', hnext⟩ := h.nextMsg
  obtain ⟨⟨hv, -⟩, -⟩ := hs.passOver
  cases hms : passOver ms with
  | nil => exact absurd hms hm
  | cons m rest =>
    rw [hms] at hnext hv
    obtain ⟨hlt, -⟩ := hnext.pieces fun v hv' => (hv m List.mem_cons_self v hv').2
    simpa [callsSendmsg] using hlt

/-- Every call is defined, and leaves the response sent up to what is pending. -/
theorem SendOk.call {resp : Bytes} {s : Sending} (h : SendOk resp s) {r : SendResult}
    (hgood : callsSendmsg s.conn = true → GoodResult s.conn r) :
    ∃ c res bytes, transmit s.conn r = some (c, res, bytes) ∧
      SendOk resp ⟨c, s.sent ++ bytes, decide (res = .TRANSMIT_COMPLETE)⟩ ∧
      (s.sent = resp → res = .TRANSMIT_COMPLETE) := by
  obtain ⟨base, ms, hp, hs, hsum, -⟩ := h.rest
  by_cases hm : passOver ms = []
  · have hcall := hp.transmit_done hm r
    obtain ⟨base', hnext⟩ := hp.nextMsg
    have hnone : gather ms.flatten = [] := by
      rw [← gather_passOver, hm]
      rfl
    refine ⟨_, _, _, hcall, ⟨base', passOver ms, hnext, hs.passOver.1, ?_, fun _ => ?_⟩, fun _ => rfl⟩
    · rw [gather_passOver, List.append_nil]
      exact hsum
    · rw [gather_passOver, hnone]
  · obtain ⟨c', res, bytes, base', ms', hcall, hres, hp', hs', hsplit⟩ :=
      hp.transmit_some hs hm (hgood (hp.calls hs hm))
    refine ⟨c', res, bytes, hcall, ⟨base', ms', hp', hs', ?_, fun hc => absurd (of_decide_eq_true hc) hres⟩, ?_⟩
    · rw [List.append_assoc, hsplit]
      exact hsum
    · -- A message is left, and its pieces are not empty.
      intro hall
      exfalso
      obtain ⟨hne, hfull⟩ := hs.passOver
      cases hms : passOver ms with
      | nil => exact hm hms
      | cons m rest =>
        have hbytes := gather_passOver ms
        rw [hms] at hne hfull hbytes
        have hlen := congrArg List.length hsum
        rw [hall, List.length_append, ← hbytes, List.flatten_cons, gather_append, List.length_append] at hlen
        cases m with
        | nil => exact hfull [] List.mem_cons_self rfl
        | cons v vs =>
          have hv := hne.1 (v :: vs) List.mem_cons_self v List.mem_cons_self
          rw [gather_cons, List.length_append, Iovec.bytes, List.length_take] at hlen
          omega

theorem SendOk.step {resp : Bytes} {s t : Sending} {r : SendResult} (h : SendOk resp s) (hs : TransmitStep s r t) :
    SendOk resp t := by
  cases hs with
  | call hmore hgood hcall =>
    obtain ⟨c, res, bytes, hcall', hok, -⟩ := h.call hgood
    obtain ⟨rfl, rfl, rfl⟩ : c = _ ∧ res = _ ∧ bytes = _ := by simpa [hcall] using hcall'.symm
    exact hok

/-- The messages of a response over TCP can be sent: the pieces hold at least a byte, and
so does every message but the first. -/
theorem sendable_responseMsgs {bufs : List (Bytes × Nat)} (hbufs : ∀ b ∈ bufs, 0 < b.2 ∧ b.2 ≤ b.1.length) :
    Sendable (responseMsgs false bufs) := by
  refine responseMsgs_keeps (Q := fun buf len => 0 < len ∧ len ≤ buf.length) ?_ ⟨?_, ?_⟩ hbufs
  · intro ms m buf len ⟨hv, htail⟩ ⟨hpos, hle⟩
    obtain ⟨left, hleft, hlt, hcases⟩ := addPiece_cases false ms m buf len
    have hltlen := hlt hpos
    have hpiece : 0 < len - left ∧ len - left ≤ buf.length := by omega
    refine ⟨?_, fun left' hleft' hne => ?_⟩
    · obtain ⟨-, -, he⟩ | ⟨-, he⟩ := hcases
      · rw [he]
        refine ⟨fun m' hm' v hv' => ?_, fun m' hm' => ?_⟩
        · obtain hm' | hm' := List.mem_append.mp hm'
          · exact hv m' (List.mem_append_left _ hm') v hv'
          · obtain rfl := List.mem_singleton.mp hm'
            obtain hv' | hv' := List.mem_append.mp hv'
            · exact hv m (List.mem_append_right _ (List.mem_singleton_self m)) v hv'
            · obtain rfl := List.mem_singleton.mp hv'
              exact hpiece
        · cases ms with
          | nil => simp at hm'
          | cons m0 ms =>
            simp only [List.cons_append, List.tail_cons] at hm' htail
            obtain hm' | hm' := List.mem_append.mp hm'
            · exact htail m' (List.mem_append_left _ hm')
            · obtain rfl := List.mem_singleton.mp hm'
              simp
      · rw [he]
        refine ⟨fun m' hm' v hv' => ?_, fun m' hm' => ?_⟩
        · obtain hm' | hm' := List.mem_append.mp hm'
          · exact hv m' hm' v hv'
          · obtain rfl := List.mem_singleton.mp hm'
            obtain rfl : v = ⟨buf, len - left⟩ := by simpa using hv'
            exact hpiece
        · rw [List.tail_append_of_ne_nil (by simp)] at hm'
          obtain hm' | hm' := List.mem_append.mp hm'
          · exact htail m' hm'
          · obtain rfl := List.mem_singleton.mp hm'
            simp
    · rw [← hleft', hleft, List.length_drop]
      omega
  · intro m hm v hv
    obtain rfl : m = [] := by simpa [newMessage] using hm
    cases hv
  · intro m hm
    simp [newMessage] at hm

theorem HoldsMsgs.piecesAt {j : Nat} (h : HoldsMsgs c ms) (hm : ms[j]? = some m) :
    ∀ k v, m[k]? = some v → c.iov ((ms.take j).flatten.length + k) = v := by
  intro k v hv
  refine h.iov _ v ?_
  have hk := (List.getElem?_eq_some_iff.mp hv).1
  have hcut : ms = ms.take j ++ m :: ms.drop (j + 1) := by
    rw [← (List.getElem?_eq_some_iff.mp hm).2, List.getElem_cons_drop, List.take_append_drop]
  have hflat : ms.flatten = (ms.take j).flatten ++ (m ++ (ms.drop (j + 1)).flatten) := by
    conv_lhs => rw [hcut]
    rw [List.flatten_append, List.flatten_cons]
  rw [hflat, List.getElem?_append_right (Nat.le_add_right _ _), Nat.add_sub_cancel_left,
    List.getElem?_append_left hk, hv]

/-- The messages of a built response lie one after the other. -/
theorem HoldsMsgs.pending (h : HoldsMsgs c ms) (hcurr : c.msgcurr = 0) :
    Pending c (fun j => (ms.take j).flatten.length) ms := by
  have hsucc : ∀ j m, ms[j]? = some m → (ms.take (j + 1)).flatten.length = (ms.take j).flatten.length + m.length := by
    intro j m hm
    rw [List.take_add_one, hm, List.flatten_append, List.length_append, Option.toList_some, List.flatten_singleton]
  refine ⟨by rw [h.msgused, hcurr, Nat.zero_add], fun j m hm => ?_, fun j => ?_⟩
  · exact ⟨_, by rw [hcurr, Nat.zero_add, h.msg j m hm], Nat.le_refl _, by rw [hsucc j m hm], h.piecesAt hm⟩
  · by_cases hj : j < ms.length
    · rw [hsucc j _ (List.getElem?_eq_getElem hj)]
      exact Nat.le_add_right _ _
    · rw [List.take_of_length_le (Nat.not_lt.mp hj), List.take_of_length_le (by omega)]

/-- A response over TCP, however the peer takes it: what was accepted so far is the start
of the buffers in their order, all of them once `transmit` says that it is done, and it
says so when all of them were accepted. No call leaves the arrays. -/
theorem response_transmitted {c : ConnOut} {bufs : List (Bytes × Nat)} (hnew : Unused c) (htcp : c.isUdp = false)
    (hbufs : ∀ b ∈ bufs, 0 < b.2 ∧ b.2 ≤ b.1.length) :
    ∃ c', buildResponse c bufs = some c' ∧ ∀ rs s, Run TransmitStep ⟨c', [], false⟩ rs s →
      s.sent <+: responseBytes bufs ∧
      (s.complete = true → s.sent = responseBytes bufs) ∧
      (s.complete = false → ∀ r, (callsSendmsg s.conn = true → GoodResult s.conn r) →
        ∃ t, TransmitStep s r t ∧ (s.sent = responseBytes bufs → t.complete = true)) := by
  obtain ⟨c', hbuild, hholds, hsame⟩ := buildResponse_holds hnew bufs
  rw [htcp] at hholds
  refine ⟨c', hbuild, fun rs s hrun => ?_⟩
  have hcurr : c'.msgcurr = 0 := by rw [hsame.msgcurr, hnew.msgcurr]
  have hstart : SendOk (responseBytes bufs) ⟨c', [], false⟩ :=
    ⟨_, _, hholds.pending hcurr, sendable_responseMsgs hbufs, gather_responseMsgs false bufs, nofun⟩
  have hok : SendOk (responseBytes bufs) s := hrun.invariant (fun _ _ _ h hs => h.step hs) hstart
  obtain ⟨base, ms, -, -, hsum, hdone⟩ := hok.rest
  refine ⟨⟨_, hsum⟩, fun hc => ?_, fun hc r hr => ?_⟩
  · rw [← hsum, hdone hc, List.append_nil]
  · obtain ⟨c2, res, bytes, hcall, -, hall⟩ := hok.call hr
    exact ⟨_, .call hc hr hcall, fun hsent => decide_eq_true (hall hsent)⟩

/-- A line of two bytes and its end, taken in any pieces. -/
theorem response_transmitted_line :
    ∃ c', buildResponse (newConnOut .tcp 0) [([72, 105], 2), ([13, 10], 2)] = some c' ∧
      ∀ rs s, Run TransmitStep ⟨c', [], false⟩ rs s →
        s.sent <+: [72, 105, 13, 10] ∧ (s.complete = true → s.sent = [72, 105, 13, 10]) ∧
        (s.complete = false → ∀ r, (callsSendmsg s.conn = true → GoodResult s.conn r) →
          ∃ t, TransmitStep s r t ∧ (s.sent = [72, 105, 13, 10] → t.complete = true)) :=
  response_transmitted (newConnOut_unused .tcp 0) rfl (by simp)

end RamCube
