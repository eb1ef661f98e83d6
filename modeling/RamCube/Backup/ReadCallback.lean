import RamCube.Backup.Neighbors

/-! # What a peer says (ramcube.c)

`read_cb` reads the lines of a peer to which this node has connected. libevent calls it with all that
has come and was not read yet, so that a line may come in pieces, and several in one call. -/
namespace RamCube

def MAX_COMM_LINE : Nat := 100

/-- The size of `str`. -/
def REPLAY_SIZE : Nat := 1024 * 10

/-- `evbuffer_readln` with `EVBUFFER_EOL_CRLF_STRICT`: the text before the first line end, and what stays in the buffer. -/
structure LineReader where
  readln : Bytes → Option (Bytes × Bytes)
  readln_iff : ∀ b l r, readln b = some (l, r) ↔ b = l ++ CR :: LF :: r ∧ ¬[CR, LF] <:+: l

/-- What `read_cb` makes of a line. -/
inductive PeerLine where
  | reply (cliConn : Int)
  | alive
  | replay
  | other
deriving DecidableEq

/-- The connection that `STORED` is written to, or a sign of life. -/
inductive Said where
  | stored (cliConn : Int)
  | alive
deriving DecidableEq

/-- A proxy of this node, with what was done for its peer. -/
structure PeerConn where
  inputBuffer : Bytes
  outTimes : Int
  said : List Said
deriving DecidableEq

section

variable (role : ProxyRole)

/-- A line that is a command. `currComm` ends with the first blank behind a word. -/
def peerLine (tmp : Bytes) : PeerLine :=
  let currComm := (cText tmp).take (MAX_COMM_LINE - 1)
  let t := tokenizeCommand currComm
  let comm := currComm.takeWhile (· != space)
  if t.ntokens = 3 ∧ comm = ascii "BACKUP_REPLY" ∧ role = .BACKUP then .reply (strtolClamped (t.value 1))
  else if t.ntokens = 2 ∧ comm = ascii "ALIVE" then .alive
  else if t.ntokens = 2 ∧ comm = ascii "DATA_REPLAY" then .replay
  else .other

namespace PeerConn

/-- What is done for a command, and whether the lines behind it are the data of a replay. -/
def command (c : PeerConn) (tmp : Bytes) : PeerConn × Bool :=
  match peerLine role tmp with
  | .reply cliConn => ({ c with said := c.said ++ [.stored cliConn] }, false)
  | .alive => ({ c with outTimes := c.outTimes - 1, said := c.said ++ [.alive] }, false)
  | .replay => (c, true)
  | .other => (c, false)

variable (R : LineReader)

/-- The loop of `read_cb`; `none` where `str` has no room. It ends with an empty line too. -/
def readLoop : Nat → Bool → Bytes → PeerConn → Option PeerConn
  | 0, _, _, c => some c
  | fuel + 1, flg, str, c =>
    match R.readln c.inputBuffer with
    | none => some c
    | some (tmp, rest) =>
      let c := { c with inputBuffer := rest }
      if tmp = [] then some c
      else if flg then
        let str := str ++ cText tmp ++ [CR, LF]
        if str.length < REPLAY_SIZE then readLoop fuel true str c else none
      else
        let (c, flg) := c.command role tmp
        readLoop fuel flg str c

def readCb (c : PeerConn) : Option PeerConn := c.readLoop role R c.inputBuffer.length false []

/-- Bytes that come, and the call for them. -/
def arrive (c : PeerConn) (bs : Bytes) : Option PeerConn := { c with inputBuffer := c.inputBuffer ++ bs }.readCb role R

end PeerConn

end

/-- A connection on which nothing has come. -/
def newPeer : PeerConn := ⟨[], 0, []⟩

/-! ## Lines -/

def linesText (lines : List Bytes) : Bytes := lines.flatMap (· ++ [CR, LF])

theorem linesText_append (lines lines' : List Bytes) : linesText (lines ++ lines') = linesText lines ++ linesText lines' :=
  List.flatMap_append

namespace LineReader

variable (R : LineReader) {b l r : Bytes} {ls : List Bytes}

/-- The lines of a text, `fuel` at most. -/
def linesFrom : Nat → Bytes → List Bytes
  | 0, _ => []
  | fuel + 1, b =>
    match R.readln b with
    | none => []
    | some (l, r) => l :: linesFrom fuel r

/-- The lines that have come to their end. -/
def lines (b : Bytes) : List Bytes := R.linesFrom b.length b

theorem readln_line (hl : ¬[CR, LF] <:+: l) : R.readln (l ++ [CR, LF] ++ r) = some (l, r) :=
  (R.readln_iff _ _ _).mpr ⟨by simp, hl⟩

theorem readln_length (h : R.readln b = some (l, r)) : r.length < b.length := by
  rw [((R.readln_iff b l r).mp h).1, List.length_append, List.length_cons, List.length_cons]
  omega

/-- Lines without a line end in them, and a rest that has none. -/
structure Cut (b : Bytes) (ls : List Bytes) (tail : Bytes) : Prop where
  text : b = linesText ls ++ tail
  whole : ∀ l ∈ ls, ¬[CR, LF] <:+: l
  rest : R.readln tail = none

theorem linesFrom_cut {fuel : Nat} (hf : b.length ≤ fuel) : ∃ tail, R.Cut b (R.linesFrom fuel b) tail := by
  induction fuel generalizing b with
  | zero =>
    refine ⟨b, rfl, by simp [linesFrom], ?_⟩
    cases hr : R.readln b with
    | none => rfl
    | some p =>
      have hlen := R.readln_length (l := p.1) (r := p.2) hr
      omega
  | succ fuel ih =>
    rw [linesFrom]
    cases hr : R.readln b with
    | none => exact ⟨b, rfl, by simp, hr⟩
    | some p =>
      obtain ⟨l, r⟩ := p
      obtain ⟨htext, hwhole⟩ := (R.readln_iff _ _ _).mp hr
      have hlen := R.readln_length hr
      obtain ⟨tail, hcut⟩ := ih (b := r) (by omega)
      refine ⟨tail, ?_, List.forall_mem_cons.mpr ⟨hwhole, hcut.whole⟩, hcut.rest⟩
      rw [htext]
      nth_rewrite 1 [hcut.text]
      simp [linesText]

theorem lines_cut (b : Bytes) : ∃ tail, R.Cut b (R.lines b) tail := R.linesFrom_cut (Nat.le_refl _)

/-- A text is cut in one way. -/
theorem Cut.eq {tail tail' : Bytes} {ls' : List Bytes} (h : R.Cut b ls tail) (h' : R.Cut b ls' tail') :
    ls = ls' ∧ tail = tail' := by
  induction ls generalizing b ls' with
  | nil =>
    cases ls' with
    | nil => exact ⟨rfl, h.text.symm.trans h'.text⟩
    | cons l ls' =>
      have hread : R.readln b = some (l, linesText ls' ++ tail') := by
        rw [h'.text]
        simpa [linesText] using R.readln_line (r := linesText ls' ++ tail') (h'.whole l List.mem_cons_self)
      rw [h.text] at hread
      simp [linesText, h.rest] at hread
  | cons l ls ih =>
    have hread : R.readln b = some (l, linesText ls ++ tail) := by
      rw [h.text]
      simpa [linesText] using R.readln_line (r := linesText ls ++ tail) (h.whole l List.mem_cons_self)
    cases ls' with
    | nil =>
      rw [h'.text] at hread
      simp [linesText, h'.rest] at hread
    | cons l' ls' =>
      have hread' : R.readln b = some (l', linesText ls' ++ tail') := by
        rw [h'.text]
        simpa [linesText] using R.readln_line (r := linesText ls' ++ tail') (h'.whole l' List.mem_cons_self)
      have hsame := hread.symm.trans hread'
      simp only [Option.some.injEq, Prod.mk.injEq] at hsame
      obtain ⟨rfl, hrest⟩ := hsame
      obtain ⟨rfl, rfl⟩ := ih (b := linesText ls ++ tail) ⟨rfl, fun x hx => h.whole x (List.mem_cons_of_mem _ hx), h.rest⟩
        ⟨hrest, fun x hx => h'.whole x (List.mem_cons_of_mem _ hx), h'.rest⟩
      exact ⟨rfl, rfl⟩

theorem Cut.lines_eq {tail : Bytes} (h : R.Cut b ls tail) : R.lines b = ls := by
  obtain ⟨tail', h'⟩ := R.lines_cut b
  exact (h'.eq R h).1

/-- More that comes ends the line that was cut off, and has further ones. -/
theorem Cut.append {tail : Bytes} (h : R.Cut b ls tail) (bs : Bytes) : ∃ more tail', R.Cut (tail ++ bs) more tail' ∧ R.Cut (b ++ bs) (ls ++ more) tail' := by
  obtain ⟨tail', hcut⟩ := R.lines_cut (tail ++ bs)
  refine ⟨R.lines (tail ++ bs), tail', hcut, ?_, ?_, hcut.rest⟩
  · rw [linesText_append, List.append_assoc, ← hcut.text, h.text, List.append_assoc]
  · intro l hl
    obtain hl | hl := List.mem_append.mp hl
    · exact h.whole l hl
    · exact hcut.whole l hl

end LineReader

/-! ## A call -/

section

variable (role : ProxyRole) (R : LineReader) {ls : List Bytes} {tail : Bytes}

/-- What a line asks for. -/
def saidBy (l : Bytes) : Option Said :=
  match peerLine role l with
  | .reply cliConn => some (.stored cliConn)
  | .alive => some .alive
  | .replay => none
  | .other => none

/-- A call does not get to the commands behind this line. -/
def Stops (l : Bytes) : Prop := l = [] ∨ peerLine role l = .replay

/-- How much of `str` the lines take, up to an empty one. -/
def replaySize (ls : List Bytes) : Nat := ((ls.takeWhile (· ≠ [])).map fun l => (cText l).length + 2).sum

/-- The lines as the loop takes them: what they ask for, and those it leaves. `used` bytes of `str` are taken. -/
def takeLines : Option Nat → List Bytes → Option (List Said × List Bytes)
  | _, [] => some ([], [])
  | some used, l :: ls =>
    if l = [] then some ([], ls)
    else if used + ((cText l).length + 2) < REPLAY_SIZE then takeLines (some (used + ((cText l).length + 2))) ls
    else none
  | none, l :: ls =>
    if l = [] then some ([], ls)
    else (takeLines (if peerLine role l = .replay then some 0 else none) ls).map fun (said, left) => ((saidBy role l).toList ++ said, left)

/-- The counter of the peer goes down with each sign of life. -/
def PeerConn.after (c : PeerConn) (buffer : Bytes) (said : List Said) : PeerConn :=
  { inputBuffer := buffer, outTimes := c.outTimes - said.count .alive, said := c.said ++ said }

theorem PeerConn.after_after (c : PeerConn) (buffer buffer' : Bytes) (said said' : List Said) :
    (c.after buffer said).after buffer' said' = c.after buffer' (said ++ said') := by
  simp only [PeerConn.after, List.count_append, List.append_assoc, PeerConn.mk.injEq, true_and, and_true]
  omega

theorem PeerConn.after_nil (c : PeerConn) (buffer : Bytes) : c.after buffer [] = { c with inputBuffer := buffer } := by
  simp [PeerConn.after]

theorem command_eq (c : PeerConn) (l : Bytes) :
    c.command role l = (c.after c.inputBuffer (saidBy role l).toList, decide (peerLine role l = .replay)) := by
  unfold PeerConn.command saidBy
  cases peerLine role l <;> simp [PeerConn.after]

/-- The loop takes the lines of the buffer. -/
theorem readLoop_eq {fuel : Nat} (hw : ∀ l ∈ ls, ¬[CR, LF] <:+: l) (hr : R.readln tail = none) (hf : ls.length ≤ fuel)
    (used : Option Nat) (str : Bytes) (hused : str.length = used.getD 0) (c : PeerConn) (hb : c.inputBuffer = linesText ls ++ tail) :
    c.readLoop role R fuel used.isSome str = (takeLines role used ls).map fun p => c.after (linesText p.2 ++ tail) p.1 := by
  induction ls generalizing fuel used str c with
  | nil =>
    have hnone : R.readln c.inputBuffer = none := by rw [hb]; exact hr
    cases fuel <;> cases used <;> simp [PeerConn.readLoop, hnone, takeLines, PeerConn.after_nil, ← hb]
  | cons l ls ih =>
    obtain ⟨fuel, rfl⟩ := Nat.exists_eq_succ_of_ne_zero (Nat.ne_of_gt (Nat.lt_of_lt_of_le (Nat.succ_pos _) hf))
    have hread : R.readln c.inputBuffer = some (l, linesText ls ++ tail) := by
      rw [hb]
      simpa [linesText] using R.readln_line (r := linesText ls ++ tail) (hw l List.mem_cons_self)
    have hnext := @ih fuel (fun x hx => hw x (List.mem_cons_of_mem _ hx)) (Nat.le_of_succ_le_succ hf)
    rw [PeerConn.readLoop, hread]
    dsimp only
    by_cases hempty : l = []
    · cases used <;> simp [hempty, takeLines, PeerConn.after_nil]
    cases used with
    | some used =>
      have hlen : (str ++ cText l ++ [CR, LF]).length = used + ((cText l).length + 2) := by
        simp only [List.length_append, hused, Option.getD_some, List.length_cons, List.length_nil]
        omega
      rw [takeLines, if_neg hempty, if_neg hempty, Option.isSome_some, if_pos rfl, hlen]
      by_cases hroom : used + ((cText l).length + 2) < REPLAY_SIZE
      · rw [if_pos hroom, if_pos hroom]
        exact hnext (some _) _ hlen { c with inputBuffer := linesText ls ++ tail } rfl
      · rw [if_neg hroom, if_neg hroom]
        rfl
    | none =>
      rw [takeLines, if_neg hempty, if_neg hempty, command_eq, Option.isSome_none, if_neg Bool.false_ne_true]
      have hmode : (if peerLine role l = .replay then some 0 else none : Option Nat).isSome = decide (peerLine role l = .replay) ∧
          str.length = (if peerLine role l = .replay then some 0 else none : Option Nat).getD 0 := by
        rw [hused]
        split <;> simp [*]
      rw [← hmode.1, hnext _ str hmode.2 _ rfl, Option.map_map]
      exact congrArg (Option.map · _) (funext fun p => PeerConn.after_after ..)

theorem length_linesText (ls : List Bytes) : ls.length ≤ (linesText ls).length := by
  induction ls with
  | nil => exact Nat.zero_le _
  | cons l ls ih =>
    rw [linesText, List.flatMap_cons, ← linesText, List.length_append, List.length_append, List.length_cons]
    simp only [List.length_cons]
    omega

/-- What a call does with the bytes that came. -/
theorem arrive_eq {bs : Bytes} (c : PeerConn) (hcut : R.Cut (c.inputBuffer ++ bs) ls tail) :
    c.arrive role R bs = (takeLines role none ls).map fun p => c.after (linesText p.2 ++ tail) p.1 := by
  have hlen := length_linesText ls
  have hfuel : ls.length ≤ (c.inputBuffer ++ bs).length := by
    rw [hcut.text, List.length_append]
    omega
  exact readLoop_eq role R hcut.whole hcut.rest hfuel none [] rfl { c with inputBuffer := c.inputBuffer ++ bs } hcut.text

/-- The lines behind `DATA_REPLAY` ask for nothing. -/
theorem takeLines_replay (ls : List Bytes) {used : Nat} (h : used < REPLAY_SIZE) :
    takeLines role (some used) ls =
      if used + replaySize ls < REPLAY_SIZE then some ([], (ls.dropWhile (· ≠ [])).drop 1) else none := by
  induction ls generalizing used with
  | nil => simp [takeLines, replaySize, h]
  | cons l ls ih =>
    rw [takeLines]
    by_cases hempty : l = []
    · simp [hempty, replaySize, h]
    · rw [if_neg hempty]
      have hsize : replaySize (l :: ls) = (cText l).length + 2 + replaySize ls := by simp [replaySize, hempty]
      have hdrop : ((l :: ls).dropWhile (· ≠ [])).drop 1 = (ls.dropWhile (· ≠ [])).drop 1 := by simp [hempty]
      rw [hsize, hdrop]
      by_cases hroom : used + ((cText l).length + 2) < REPLAY_SIZE
      · rw [if_pos hroom, ih hroom, Nat.add_assoc]
      · rw [if_neg hroom, if_neg (by omega)]

/-! ## Any calls -/

/-- Behind a line with which a call stops nothing is asked for, and `str` has room for what is replayed. -/
def InAnyCalls (ls : List Bytes) : Prop := ∀ before l behind, ls = before ++ l :: behind → Stops role l →
  (∀ l' ∈ behind, saidBy role l' = none) ∧ (peerLine role l = .replay → replaySize behind < REPLAY_SIZE)

theorem saidBy_nil : saidBy role [] = none := by
  cases role <;> rfl

theorem Stops.saidBy {l : Bytes} (h : Stops role l) : saidBy role l = none := by
  obtain rfl | h := h
  · exact saidBy_nil role
  · rw [RamCube.saidBy, h]

theorem replaySize_le (ls post : List Bytes) : replaySize ls ≤ replaySize (ls ++ post) := by
  unfold replaySize
  rw [List.takeWhile_append]
  split
  · next hall =>
    rw [List.map_append, List.sum_append, (List.takeWhile_prefix _).eq_of_length hall]
    exact Nat.le_add_right _ _
  · exact Nat.le_refl _

theorem InAnyCalls.part (pre post : List Bytes) (h : InAnyCalls role (pre ++ ls ++ post)) : InAnyCalls role ls := by
  rintro before l behind rfl hstops
  obtain ⟨hnothing, hsize⟩ := h (pre ++ before) l (behind ++ post) (by simp) hstops
  exact ⟨fun l' hl' => hnothing l' (List.mem_append_left _ hl'),
    fun hreplay => Nat.lt_of_le_of_lt (replaySize_le behind post) (hsize hreplay)⟩

/-- Where a call leaves lines, it has come to one with which it stops. -/
theorem InAnyCalls.takeLines (h : InAnyCalls role ls) : ∃ done left, ls = done ++ left ∧
    takeLines role none ls = some (done.filterMap (saidBy role), left) ∧ (left = [] ∨ ∃ l ∈ done, Stops role l) := by
  induction ls with
  | nil => exact ⟨[], [], rfl, rfl, .inl rfl⟩
  | cons l ls ih =>
    rw [RamCube.takeLines]
    by_cases hempty : l = []
    · rw [if_pos hempty]
      refine ⟨[l], ls, rfl, ?_, .inr ⟨l, List.mem_singleton_self l, .inl hempty⟩⟩
      simp [hempty, saidBy_nil]
    rw [if_neg hempty]
    by_cases hreplay : peerLine role l = .replay
    · obtain ⟨hnothing, hsize⟩ := h [] l ls rfl (.inr hreplay)
      have hls : ls = (ls.takeWhile (· ≠ []) ++ (ls.dropWhile (· ≠ [])).take 1) ++ (ls.dropWhile (· ≠ [])).drop 1 := by
        rw [List.append_assoc, List.take_append_drop, List.takeWhile_append_dropWhile]
      refine ⟨l :: (ls.takeWhile (· ≠ []) ++ (ls.dropWhile (· ≠ [])).take 1), (ls.dropWhile (· ≠ [])).drop 1,
        congrArg (l :: ·) hls, ?_, .inr ⟨l, List.mem_cons_self, .inr hreplay⟩⟩
      have hdone : (l :: (ls.takeWhile (· ≠ []) ++ (ls.dropWhile (· ≠ [])).take 1)).filterMap (saidBy role) = [] := by
        rw [List.filterMap_eq_nil_iff]
        intro x hx
        obtain rfl | hx := List.mem_cons.mp hx
        · exact Stops.saidBy role (.inr hreplay)
        · exact hnothing x (hls ▸ List.mem_append_left _ hx)
      rw [hdone, if_pos hreplay, takeLines_replay role ls (by decide), if_pos (by rw [Nat.zero_add]; exact hsize hreplay),
        Stops.saidBy role (.inr hreplay)]
      rfl
    · have hrest : InAnyCalls role ls := InAnyCalls.part role [l] [] (by simpa using h)
      obtain ⟨done, left, hls, htake, hleft⟩ := ih hrest
      refine ⟨l :: done, left, congrArg (l :: ·) hls, ?_, hleft.imp_right fun ⟨x, hx, hs⟩ => ⟨x, List.mem_cons_of_mem _ hx, hs⟩⟩
      rw [if_neg hreplay, htake, List.filterMap_cons]
      cases saidBy role l <;> rfl

/-- What has come so far, and what was done. -/
structure Heard (b : Bytes) (c : PeerConn) (done left : List Bytes) (tail : Bytes) : Prop where
  cut : R.Cut b (done ++ left) tail
  buffer : c.inputBuffer = linesText left ++ tail
  said : c.said = done.filterMap (saidBy role)
  outTimes : c.outTimes = -(c.said.count .alive)
  stopped : left = [] ∨ ∃ l ∈ done, Stops role l

theorem Heard.arrive {b bs : Bytes} {c : PeerConn} {done left : List Bytes} (h : Heard role R b c done left tail)
    (hls : InAnyCalls role (R.lines (b ++ bs))) :
    ∃ c' done' left' tail', c.arrive role R bs = some c' ∧ Heard role R (b ++ bs) c' done' left' tail' := by
  obtain ⟨more, tail', hmore, hall⟩ := h.cut.append R bs
  rw [hall.lines_eq, List.append_assoc] at hls
  have hbuffer : R.Cut (c.inputBuffer ++ bs) (left ++ more) tail' := by
    refine ⟨?_, fun l hl => hall.whole l ?_, hall.rest⟩
    · rw [h.buffer, linesText_append, List.append_assoc, hmore.text, List.append_assoc]
    · rw [List.append_assoc]
      exact List.mem_append_right _ hl
  have hpart : InAnyCalls role (left ++ more) := InAnyCalls.part role done [] (by simpa using hls)
  obtain ⟨taken, left', heq, htake, hleft⟩ := hpart.takeLines
  refine ⟨c.after (linesText left' ++ tail') (taken.filterMap (saidBy role)), done ++ taken, left', tail', ?_, ?_, rfl, ?_, ?_, ?_⟩
  · rw [arrive_eq role R c hbuffer, htake]
    rfl
  · rw [List.append_assoc, ← heq, ← List.append_assoc]
    exact hall
  · rw [PeerConn.after, h.said, List.filterMap_append]
  · simp only [PeerConn.after, h.outTimes, List.count_append]
    omega
  · exact hleft.imp_right fun ⟨x, hx, hs⟩ => ⟨x, List.mem_append_right _ hx, hs⟩

theorem Heard.all {b : Bytes} {c : PeerConn} {done left : List Bytes} (h : Heard role R b c done left tail)
    (hls : InAnyCalls role (R.lines b)) : c.said = (R.lines b).filterMap (saidBy role) := by
  rw [h.cut.lines_eq] at hls ⊢
  have hleft : left.filterMap (saidBy role) = [] := by
    obtain rfl | ⟨l, hl, hstops⟩ := h.stopped
    · rfl
    · obtain ⟨before, behind, rfl⟩ := List.append_of_mem hl
      rw [List.filterMap_eq_nil_iff]
      exact fun x hx => (hls before l (behind ++ left) (by simp) hstops).1 x (List.mem_append_right _ hx)
  rw [h.said, List.filterMap_append, hleft, List.append_nil]

/-- The calls for these bytes. -/
def PeerConn.arrives (c : PeerConn) (chunks : List Bytes) : Option PeerConn := chunks.foldlM (fun c bs => c.arrive role R bs) c

theorem Heard.arrives {b : Bytes} {c : PeerConn} {done left : List Bytes} (h : Heard role R b c done left tail) (chunks : List Bytes)
    (hls : InAnyCalls role (R.lines (b ++ chunks.flatten))) :
    ∃ c' done' left' tail', c.arrives role R chunks = some c' ∧ Heard role R (b ++ chunks.flatten) c' done' left' tail' := by
  induction chunks generalizing b c done left tail with
  | nil => exact ⟨c, done, left, tail, rfl, by simpa using h⟩
  | cons bs chunks ih =>
    rw [List.flatten_cons, ← List.append_assoc] at hls ⊢
    obtain ⟨tail₁, hcut⟩ := R.lines_cut (b ++ bs)
    obtain ⟨more, tail₂, -, hall⟩ := hcut.append R chunks.flatten
    have hfirst : InAnyCalls role (R.lines (b ++ bs)) := by
      rw [hall.lines_eq] at hls
      exact InAnyCalls.part role [] more hls
    obtain ⟨c₁, done₁, left₁, tail₁, harrive, hheard⟩ := h.arrive role R hfirst
    obtain ⟨c', done', left', tail', hrest, hend⟩ := ih hheard hls
    refine ⟨c', done', left', tail', ?_, hend⟩
    rw [PeerConn.arrives, List.foldlM_cons, harrive]
    exact hrest

/-! ## Calls that differ -/

theorem readln_nil : R.readln [] = none := by
  cases hr : R.readln [] with
  | none => rfl
  | some p =>
    have hlen := R.readln_length (l := p.1) (r := p.2) hr
    simp at hlen

/-- Lines that come one by one are all heard. -/
theorem arrives_lines (c : PeerConn) (hb : c.inputBuffer = []) (hw : ∀ l ∈ ls, ¬[CR, LF] <:+: l) :
    c.arrives role R (ls.map (· ++ [CR, LF])) = some (c.after [] (ls.filterMap (saidBy role))) := by
  induction ls generalizing c with
  | nil => rw [List.filterMap_nil, PeerConn.after_nil, ← hb]; rfl
  | cons l ls ih =>
    have hcut : R.Cut (c.inputBuffer ++ (l ++ [CR, LF])) [l] [] := by
      refine ⟨by simp [hb, linesText], ?_, readln_nil R⟩
      exact List.forall_mem_singleton.mpr (hw l List.mem_cons_self)
    have htake : takeLines role none [l] = some ((saidBy role l).toList, []) := by
      rw [takeLines]
      by_cases hempty : l = []
      · simp [hempty, saidBy_nil]
      · rw [if_neg hempty]
        split <;> simp [takeLines]
    have harrive : c.arrive role R (l ++ [CR, LF]) = some (c.after [] (saidBy role l).toList) := by
      rw [arrive_eq role R c hcut, htake]
      rfl
    have hrest := ih (c.after [] (saidBy role l).toList) rfl fun x hx => hw x (List.mem_cons_of_mem _ hx)
    rw [PeerConn.after_after] at hrest
    rw [List.map_cons, PeerConn.arrives, List.foldlM_cons, harrive]
    refine hrest.trans ?_
    rw [List.filterMap_cons]
    cases saidBy role l <;> rfl

/-- A call that starts with such a line does nothing for the lines behind it. -/
theorem takeLines_stops {l : Bytes} {behind : List Bytes} {p : List Said × List Bytes} (h : Stops role l)
    (ht : takeLines role none (l :: behind) = some p) :
    p.1 = [] ∧ (peerLine role l = .replay → replaySize behind < REPLAY_SIZE) := by
  rw [takeLines] at ht
  by_cases hempty : l = []
  · rw [if_pos hempty] at ht
    cases ht
    refine ⟨rfl, fun hreplay => ?_⟩
    rw [hempty] at hreplay
    cases role <;> cases hreplay
  · have hreplay := h.resolve_left hempty
    rw [if_neg hempty, if_pos hreplay, takeLines_replay role behind (by decide), Nat.zero_add, h.saidBy] at ht
    split at ht
    · next hsize =>
      cases ht
      exact ⟨rfl, fun _ => hsize⟩
    · cases ht

/-- The lines come one by one up to one with which a call stops, and the others come with that. -/
theorem exists_calls_differ {t : Bytes} (h : ¬InAnyCalls role (R.lines t)) :
    ∃ chunks : List Bytes, [] ∉ chunks ∧ chunks.flatten = t ∧
      ∀ c, newPeer.arrives role R chunks = some c → c.said ≠ (R.lines t).filterMap (saidBy role) := by
  obtain ⟨tail, hcut⟩ := R.lines_cut t
  simp only [InAnyCalls, not_forall, not_and_or] at h
  obtain ⟨before, l, behind, hls, hstops, hwrong⟩ := h
  rw [hls] at hcut ⊢
  have hwhole := hcut.whole
  let last := l ++ [CR, LF] ++ linesText behind ++ tail
  have htext : (before.map (· ++ [CR, LF]) ++ [last]).flatten = t := by
    rw [hcut.text]
    simp [last, linesText, List.flatMap_def]
  refine ⟨before.map (· ++ [CR, LF]) ++ [last], by simp [last], htext, fun c hc heq => ?_⟩
  have hbefore := arrives_lines role R newPeer rfl fun x hx => hwhole x (List.mem_append_left _ hx)
  have hlast : R.Cut ((newPeer.after [] (before.filterMap (saidBy role))).inputBuffer ++ last) (l :: behind) tail :=
    ⟨by simp [last, PeerConn.after, linesText], fun x hx => hwhole x (List.mem_append_right _ hx), hcut.rest⟩
  unfold PeerConn.arrives at hc hbefore
  rw [List.foldlM_append, hbefore, Option.bind_eq_bind, Option.bind_some, List.foldlM_cons, arrive_eq role R _ hlast,
    Option.bind_eq_bind, Option.bind_eq_some_iff] at hc
  obtain ⟨c', hc', hend⟩ := hc
  cases hend
  obtain ⟨p, htake, rfl⟩ := Option.map_eq_some_iff.mp hc'
  obtain ⟨hsaid, hsize⟩ := takeLines_stops role hstops htake
  have hbehind : behind.filterMap (saidBy role) = [] := by
    simpa [PeerConn.after, newPeer, hsaid, List.filterMap_append, List.filterMap_cons, hstops.saidBy] using heq
  obtain ⟨l', hl', hasks⟩ | ⟨hreplay, hroom⟩ := hwrong
  · exact hasks (List.filterMap_eq_nil_iff.mp hbehind l' hl')
  · exact hroom (hsize hreplay)

/-- However the bytes come, the peer is heard: every complete line that asks for something is taken up, in order and
once, exactly where no line that ends a call stands before one of them and replayed lines have room. -/
theorem heard_in_any_calls (t : Bytes) :
    (∀ chunks : List Bytes, [] ∉ chunks → chunks.flatten = t → ∃ c, newPeer.arrives role R chunks = some c ∧
      c.said = (R.lines t).filterMap (saidBy role) ∧ c.outTimes = -(c.said.count .alive)) ↔ InAnyCalls role (R.lines t) := by
  constructor
  · intro hall
    by_contra h
    obtain ⟨chunks, hne, htext, hdiffer⟩ := exists_calls_differ role R h
    obtain ⟨c, hc, hsaid, -⟩ := hall chunks hne htext
    exact hdiffer c hc hsaid
  · rintro h chunks - rfl
    have hstart : Heard role R [] newPeer [] [] [] :=
      ⟨⟨rfl, fun _ hl => absurd hl List.not_mem_nil, readln_nil R⟩, rfl, rfl, rfl, .inl rfl⟩
    obtain ⟨c, done, left, tail, hc, hheard⟩ := hstart.arrives role R chunks h
    exact ⟨c, hc, hheard.all role R h, hheard.outTimes⟩

end

/-! ## The reader -/

/-- The text before the first CRLF, and the text behind it. -/
def cutCrlf : Bytes → Option (Bytes × Bytes)
  | [] => none
  | [_] => none
  | a :: b :: rest => if a = CR ∧ b = LF then some ([], rest) else (cutCrlf (b :: rest)).map fun p => (a :: p.1, p.2)

theorem cutCrlf_iff (b l r : Bytes) : cutCrlf b = some (l, r) ↔ b = l ++ CR :: LF :: r ∧ ¬[CR, LF] <:+: l := by
  induction b generalizing l with
  | nil => simp [cutCrlf]
  | cons a b ih =>
    cases b with
    | nil =>
      constructor
      · intro h
        cases h
      · rintro ⟨h, -⟩
        have hlen := congrArg List.length h
        simp only [List.length_append, List.length_cons, List.length_nil] at hlen
        omega
    | cons b rest =>
      rw [cutCrlf]
      by_cases hend : a = CR ∧ b = LF
      · rw [if_pos hend]
        obtain ⟨rfl, rfl⟩ := hend
        constructor
        · intro h
          cases h
          exact ⟨rfl, by simp⟩
        · rintro ⟨h, hl⟩
          cases l with
          | nil =>
            cases h
            rfl
          | cons x l =>
            obtain ⟨hx, hrest⟩ := List.cons.inj h
            cases l with
            | nil => cases hrest
            | cons y l =>
              obtain ⟨hy, -⟩ := List.cons.inj hrest
              rw [← hx, ← hy] at hl
              exact absurd (List.prefix_append [CR, LF] l).isInfix hl
      · rw [if_neg hend, Option.map_eq_some_iff]
        constructor
        · rintro ⟨⟨l', r'⟩, hcut, h⟩
          cases h
          obtain ⟨htext, hl⟩ := (ih l').mp hcut
          refine ⟨congrArg (a :: ·) htext, fun hin => ?_⟩
          obtain hfirst | hin := List.infix_cons_iff.mp hin
          · obtain ⟨s, hs⟩ := hfirst
            cases hs
            cases htext
            exact hend ⟨rfl, rfl⟩
          · exact hl hin
        · rintro ⟨h, hl⟩
          cases l with
          | nil =>
            cases h
            exact absurd ⟨rfl, rfl⟩ hend
          | cons x l =>
            obtain ⟨rfl, hrest⟩ := List.cons.inj h
            exact ⟨(l, r), (ih l).mpr ⟨hrest, fun hin => hl (hin.trans (List.suffix_cons a l).isInfix)⟩, rfl⟩

/-- A reader as `evbuffer_readln` is one. -/
def crlfReader : LineReader := ⟨cutCrlf, cutCrlf_iff⟩

/-- A reply and a sign of life, in any pieces. -/
theorem heard_in_any_calls_crlf : ∀ chunks : List Bytes, [] ∉ chunks →
    chunks.flatten = ascii "BACKUP_REPLY 4096" ++ [CR, LF] ++ ascii "ALIVE" ++ [CR, LF] →
    ∃ c, newPeer.arrives .BACKUP crlfReader chunks = some c ∧ c.said = [.stored 4096, .alive] ∧ c.outTimes = -1 := by
  intro chunks hne htext
  have hlines : crlfReader.lines (ascii "BACKUP_REPLY 4096" ++ [CR, LF] ++ ascii "ALIVE" ++ [CR, LF]) =
      [ascii "BACKUP_REPLY 4096", ascii "ALIVE"] := by decide +kernel
  have hgoes : ∀ l ∈ [ascii "BACKUP_REPLY 4096", ascii "ALIVE"], ¬(l = [] ∨ peerLine .BACKUP l = .replay) := by decide +kernel
  have hcalls : InAnyCalls .BACKUP (crlfReader.lines (ascii "BACKUP_REPLY 4096" ++ [CR, LF] ++ ascii "ALIVE" ++ [CR, LF])) := by
    intro before l behind hls hstops
    have hl : l ∈ before ++ l :: behind := by simp
    rw [← hls, hlines] at hl
    exact absurd hstops (hgoes l hl)
  obtain ⟨c, hc, hsaid, htimes⟩ := (heard_in_any_calls .BACKUP crlfReader _).mpr hcalls chunks hne htext
  have hheard : c.said = [.stored 4096, .alive] := by
    rw [hsaid, hlines]
    decide +kernel
  exact ⟨c, hc, hheard, by rw [htimes, hheard]; rfl⟩

end RamCube
