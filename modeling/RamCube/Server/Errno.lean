import RamCube.Server.DataBlock

/-! # What one command leaves to the next (memcached.c)

`flush_all` and `slabs reassign` call `strtol` and then look at `errno`, which is not cleared
before: it tells of the last number that any command of the worker read out of range. On a connection
with a noreply flag left over, `flush_all` takes its number for the word `noreply`. -/
namespace RamCube

/-- A worker thread and its connections. -/
structure Worker where
  g : Globals
  conns : Nat → Session

inductive WorkerEvent where
  | turn (i : Nat) (env : Env) (inp : Input)
  | others (g : Globals)

namespace Worker

def session (W : Worker) (i : Nat) : Session := { W.conns i with g := W.g }

def after (W : Worker) (i : Nat) (s' : Session) : Worker := ⟨s'.g, Function.update W.conns i s'⟩

/-- The connections wait for their first event. -/
def start (cfg : Config) (kind : Nat → Transport) (addr : Nat → Nat) (g : Globals) : Worker :=
  ⟨g, fun i => connSession (connNew cfg (addr i) (if kind i = .udp then .read else .newCmd) (kind i)) g⟩

end Worker

/-- A turn of a connection, or what other threads do: `errno` is the worker's own. -/
inductive WorkerStep (cfg : Config) (W : Worker) : WorkerEvent → Worker → Prop where
  | turn {i : Nat} {env : Env} {inp : Input} {s' : Session} : (W.session i).turn cfg env inp = some s' →
      WorkerStep cfg W (.turn i env inp) (W.after i s')
  | others {g : Globals} : g.erange = W.g.erange → WorkerStep cfg W (.others g) ⟨g, W.conns⟩

/-- What happened on a worker so far. -/
structure History (cfg : Config) (start : Worker) where
  events : List WorkerEvent
  worker : Worker
  run : Run (WorkerStep cfg) start events worker

/-- The same items, settings and clock. -/
structure SameServer (g g' : Globals) : Prop where
  store : g.store = g'.store
  verbose : g.verbose = g'.verbose
  slabAutomove : g.slabAutomove = g'.slabAutomove
  detailEnabled : g.detailEnabled = g'.detailEnabled

/-- The command lines `flush_all <n>` and `slabs reassign <a> <b>` whose numbers `strtol` can read. -/
inductive NumbersInRange : List Bytes → Prop where
  | flushAll {n : Bytes} : n ≠ ascii "noreply" → strtolErange n = false → NumbersInRange [ascii "flush_all", n]
  | reassign {a b : Bytes} : strtolErange a = false → strtolErange b = false →
      NumbersInRange [ascii "slabs", ascii "reassign", a, b]

/-- The call of `slabs_reassign` that a line makes. -/
def reassignCall (cfg : Config) (g : Globals) (t : Tokens) : Option (Int × Int) :=
  if t.value 0 = ascii "slabs" ∧ t.ntokens = 5 ∧ t.value 1 = ascii "reassign" ∧ cfg.slabReassign = true ∧
      (g.erange || strtolErange (t.value 2) || strtolErange (t.value 3)) = false then
    some (asInt (strtolClamped (t.value 2)), asInt (strtolClamped (t.value 3)))
  else none

/-- What a command line does: the reply, and what is different after it. -/
structure Effect where
  reply : Bytes
  store : Store
  verbose : Nat
  slabAutomove : Nat
  detailEnabled : Bool
  reassigned : Option (Int × Int)

/-- `process_command` of a connection without a reply to send. -/
def effectOf (cfg : Config) (env : Env) (c : Conn) (g : Globals) (line leftCom : Bytes) : Option Effect :=
  (processCommand cfg env { c with out := [] } g line leftCom).map fun (c', g', _) =>
    ⟨c'.out, g'.store, g'.verbose, g'.slabAutomove, g'.detailEnabled, reassignCall cfg g (tokenizeCommand line)⟩

/-- Whether a line's outcome depends on `errno`. -/
def looksAtErrno (cfg : Config) (c : Conn) (words : List Bytes) : Bool :=
  if words.head? = some (ascii "flush_all") then !c.noreply else cfg.slabReassign

section

variable {cfg : Config} {env : Env} {c c' : Conn} {g g' : Globals} {line leftCom n a b : Bytes}

/-- The answers to a call of `slabs_reassign`. -/
def reassignReply : ReassignResult → Bytes
  | .OK => ascii "OK"
  | .RUNNING => ascii "BUSY currently processing reassign request"
  | .BADCLASS => ascii "BADCLASS invalid src or dst class id"
  | .NOSPARE => ascii "NOSPARE source class has no spare pages"
  | .SRC_DST_SAME => ascii "SAME src and dst class are identical"

theorem handlerOf_flushAll {t : Tokens} (h : t.tokens = [ascii "flush_all", n]) : handlerOf t = .flushAll := by
  have hn : t.ntokens = 3 := by rw [Tokens.ntokens, h]; rfl
  have h0 : t.value 0 = ascii "flush_all" := by rw [Tokens.value, h]; rfl
  simp [handlerOf, hn, h0]
  decide +kernel

theorem handlerOf_slabs {t : Tokens} (h : t.tokens = [ascii "slabs", ascii "reassign", a, b]) : handlerOf t = .slabs := by
  have hn : t.ntokens = 5 := by rw [Tokens.ntokens, h]; rfl
  have h0 : t.value 0 = ascii "slabs" := by rw [Tokens.value, h]; rfl
  simp [handlerOf, hn, h0]
  decide +kernel

/-- Every handler of `slabs reassign` sends a text. -/
def reassignText (cfg : Config) (env : Env) (erange : Bool) (a b : Bytes) : Bytes :=
  if cfg.slabReassign = false then ascii "CLIENT_ERROR slab reassignment disabled"
  else if erange then badFormat
  else reassignReply (env.slabsReassign (asInt (strtolClamped a)) (asInt (strtolClamped b)))

theorem effectOf_flushAll (h : (tokenizeCommand line).tokens = [ascii "flush_all", n]) (hn : n ≠ ascii "noreply")
    (hr : strtolErange n = false) : effectOf cfg env c g line leftCom =
      some ⟨if c.noreply then [] else outLine (if g.erange then badFormat else ascii "OK"),
        if c.noreply then flushAll cfg.toSettings cfg.processStarted g.store 0
        else if g.erange then g.store else flushAll cfg.toSettings cfg.processStarted g.store (strtolClamped n),
        g.verbose, g.slabAutomove, g.detailEnabled, none⟩ := by
  have hcount : (tokenizeCommand line).ntokens = 3 := by rw [Tokens.ntokens, h]; rfl
  have h0 : (tokenizeCommand line).value 0 = ascii "flush_all" := by rw [Tokens.value, h]; rfl
  have h1 : (tokenizeCommand line).value 1 = n := by rw [Tokens.value, h]; rfl
  have hkeep : setNoreplyMaybe { c with out := [] } (tokenizeCommand line) = { c with out := [] } := by
    rw [setNoreplyMaybe, h]
    exact if_neg (h1.symm ▸ hn)
  have hcall : reassignCall cfg g (tokenizeCommand line) = none := by
    rw [reassignCall, if_neg]
    rw [h0]
    exact fun hslabs => absurd hslabs.1 (by decide +kernel)
  rw [effectOf, processCommand]
  dsimp only
  rw [handlerOf_flushAll h, hcall]
  dsimp only
  rw [processFlushAll, hkeep, hcount, h1, hr]
  dsimp only
  cases c.noreply <;> cases g.erange <;> simp [outString, returnZero]

theorem processSlabsReassign_eq {t : Tokens} (h2 : t.value 2 = a) (h3 : t.value 3 = b) (ha : strtolErange a = false)
    (hb : strtolErange b = false) : ∃ erange, processSlabsReassign cfg env c g t =
      (outString c (reassignText cfg env g.erange a b), { g with erange := erange }) := by
  unfold processSlabsReassign reassignText
  rw [h2, h3, ha, hb]
  cases hon : cfg.slabReassign with
  | false => exact ⟨g.erange, rfl⟩
  | true =>
    cases he : g.erange with
    | true => exact ⟨true, rfl⟩
    | false =>
      refine ⟨false, ?_⟩
      dsimp only
      cases env.slabsReassign (asInt (strtolClamped a)) (asInt (strtolClamped b)) <;> rfl

theorem effectOf_reassign (h : (tokenizeCommand line).tokens = [ascii "slabs", ascii "reassign", a, b])
    (ha : strtolErange a = false) (hb : strtolErange b = false) : effectOf cfg env c g line leftCom =
      some ⟨if c.noreply then [] else outLine (reassignText cfg env g.erange a b),
        g.store, g.verbose, g.slabAutomove, g.detailEnabled,
        if cfg.slabReassign = true ∧ g.erange = false then some (asInt (strtolClamped a), asInt (strtolClamped b)) else none⟩ := by
  have hcount : (tokenizeCommand line).ntokens = 5 := by rw [Tokens.ntokens, h]; rfl
  have h0 : (tokenizeCommand line).value 0 = ascii "slabs" := by rw [Tokens.value, h]; rfl
  have h1 : (tokenizeCommand line).value 1 = ascii "reassign" := by rw [Tokens.value, h]; rfl
  have h2 : (tokenizeCommand line).value 2 = a := by rw [Tokens.value, h]; rfl
  have h3 : (tokenizeCommand line).value 3 = b := by rw [Tokens.value, h]; rfl
  have hcall : reassignCall cfg g (tokenizeCommand line) =
      if cfg.slabReassign = true ∧ g.erange = false then some (asInt (strtolClamped a), asInt (strtolClamped b)) else none := by
    rw [reassignCall, h0, h1, h2, h3, hcount, ha, hb]
    simp
  rw [effectOf, processCommand]
  dsimp only
  rw [handlerOf_slabs h, hcall]
  dsimp only
  have hbranch : processSlabsCommand cfg env { c with out := [] } g (tokenizeCommand line) =
      processSlabsReassign cfg env { c with out := [] } g (tokenizeCommand line) := if_pos ⟨hcount, h1⟩
  obtain ⟨erange, htext⟩ : ∃ erange, processSlabsReassign cfg env { c with out := [] } g (tokenizeCommand line) =
      (outString { c with out := [] } (reassignText cfg env g.erange a b), { g with erange := erange }) :=
    processSlabsReassign_eq h2 h3 ha hb
  rw [hbranch, htext]
  cases hq : c.noreply <;> simp [outString, returnZero]

theorem outLine_ne_nil (str : Bytes) : outLine str ≠ [] := by
  simp [outLine]

/-- `flush_all` and `slabs reassign` do the same after two histories exactly where the connections are both or neither left
with a noreply flag and, as far as the line depends on it, `errno` says the same. -/
theorem flush_reassign_same_iff {start : Worker} (h₁ h₂ : History cfg start) (i j : Nat) (env : Env) (line leftCom : Bytes)
    (hsame : SameServer h₁.worker.g h₂.worker.g) (hline : NumbersInRange (tokenizeCommand line).tokens) :
    effectOf cfg env (h₁.worker.conns i).c h₁.worker.g line leftCom = effectOf cfg env (h₂.worker.conns j).c h₂.worker.g line leftCom ↔
      (h₁.worker.conns i).c.noreply = (h₂.worker.conns j).c.noreply ∧
        (looksAtErrno cfg (h₁.worker.conns i).c (tokenizeCommand line).tokens = true →
          h₁.worker.g.erange = h₂.worker.g.erange) := by
  generalize (h₁.worker.conns i).c = c, (h₂.worker.conns j).c = c'
  generalize h₁.worker.g = g, h₂.worker.g = g' at hsame ⊢
  generalize hwords : (tokenizeCommand line).tokens = words at hline
  obtain ⟨hstore, hverbose, hautomove, hdetail⟩ := hsame
  cases hline with
  | flushAll hn hr =>
    have htexts : outLine badFormat ≠ outLine (ascii "OK") := by decide +kernel
    rw [effectOf_flushAll hwords hn hr, effectOf_flushAll hwords hn hr, hstore, hverbose, hautomove, hdetail]
    show _ ↔ c.noreply = c'.noreply ∧ ((!c.noreply) = true → g.erange = g'.erange)
    cases c.noreply <;> cases c'.noreply <;> cases g.erange <;> cases g'.erange <;>
      simp [outLine_ne_nil, Ne.symm (outLine_ne_nil _), htexts, htexts.symm]
  | reassign ha hb =>
    rw [effectOf_reassign hwords ha hb, effectOf_reassign hwords ha hb, hstore, hverbose, hautomove, hdetail]
    show _ ↔ c.noreply = c'.noreply ∧ (cfg.slabReassign = true → g.erange = g'.erange)
    cases hon : cfg.slabReassign with
    | false =>
      have htext : ∀ erange a b, reassignText cfg env erange a b = ascii "CLIENT_ERROR slab reassignment disabled" :=
        fun _ _ _ => if_pos hon
      cases c.noreply <;> cases c'.noreply <;> simp [htext, outLine_ne_nil, Ne.symm (outLine_ne_nil _)]
    | true =>
      cases c.noreply <;> cases c'.noreply <;> cases g.erange <;> cases g'.erange <;>
        simp [outLine_ne_nil, Ne.symm (outLine_ne_nil _)]

end

/-- Two connections of a worker that has just started. -/
def twoConns : Worker := .start smallServer (fun _ => .tcp) (fun i => 4096 * (i + 1)) (globalsInit 16)

/-- A command that wants to add more than 64 bits. -/
def largeIncr : Bytes := ascii "incr k 99999999999999999999\r\n"

def largeIncrWords : Tokens := ⟨[ascii "incr", ascii "k", ascii "99999999999999999999"], none⟩

/-- It is rejected, and leaves `errno` behind. -/
theorem processCommand_largeIncr (cfg : Config) (env : Env) (c : Conn) (g : Globals) {command : Bytes} (leftCom : Bytes)
    (h : tokenizeCommand command = largeIncrWords) : processCommand cfg env c g command leftCom =
      returnZero (outString (setNoreplyMaybe c largeIncrWords) (ascii "CLIENT_ERROR invalid numeric delta argument"),
        { g with erange := true }) := by
  have hhandler : handlerOf largeIncrWords = .arithmetic true := by decide +kernel
  have hkey : ¬KEY_MAX_LENGTH < (largeIncrWords.value 1).length := by decide +kernel
  have hdelta : scanStrtoull (largeIncrWords.value 2) = .range := by decide +kernel
  rw [processCommand]
  simp only [h, hhandler, processArithmeticCommand, if_neg hkey, hdelta]
  rfl

/-- What one connection does, its worker does; the others stay as they are. -/
theorem WorkerStep.run_of_turns {cfg : Config} {i : Nat} {s s' : Session} {es : List (Env × Input)}
    (hr : Run (fun s e t => s.turn cfg e.1 e.2 = some t) s es s') :
    ∀ W : Worker, W.session i = s → ∃ W', Run (WorkerStep cfg) W (es.map fun e => .turn i e.1 e.2) W' ∧ W'.session i = s' ∧
      ∀ j, j ≠ i → W'.conns j = W.conns j := by
  induction hr with
  | nil s => exact fun W hs => ⟨W, .nil W, hs, fun _ _ => rfl⟩
  | @cons s t s' e es hturn _ ih =>
    intro W hs
    have hafter : (W.after i t).session i = t := by simp [Worker.session, Worker.after]
    obtain ⟨W', hrun, hsession, hothers⟩ := ih (W.after i t) hafter
    refine ⟨W', .cons (.turn (hs ▸ hturn)) hrun, hsession, fun j hj => ?_⟩
    rw [hothers j hj]
    exact Function.update_of_ne hj t W.conns

/-- A client of one connection sends it. -/
theorem history_largeIncr {i j : Nat} (hne : j ≠ i) : ∃ h : History smallServer twoConns,
    h.events ≠ [] ∧ h.worker.g = { globalsInit 16 with erange := true } ∧ (h.worker.conns j).c = (twoConns.conns j).c := by
  have hread : ∃ s, Run (fun s (e : Env × Input) t => s.turn smallServer e.1 e.2 = some t) (twoConns.session i)
      [(default, .event), (default, .go), (default, .go), (default, .event), (default, .data largeIncr)] s ∧
      s.g = globalsInit 16 ∧ LineNext smallServer s largeIncrWords := by
    refine ⟨_, .cons rfl (.cons rfl (.cons rfl (.cons rfl (.cons rfl (.nil _))))), rfl,
      ⟨rfl, by decide, rfl, show Protocol.ascii ≠ .binary from nofun, ?_, ?_⟩⟩
    · show LF ∈ largeIncr
      decide +kernel
    · show tokenizeCommand (cText (chopLine (largeIncr.takeWhile (· != LF)))) = largeIncrWords
      decide +kernel
  obtain ⟨s, hreads, hg, hline⟩ := hread
  have hrejected : ∀ command leftCom, tokenizeCommand command = largeIncrWords →
      processCommand smallServer default { negotiate s.c with out := [] } s.g command leftCom = returnZero _ :=
    fun command leftCom h => processCommand_largeIncr _ _ _ _ leftCom h
  have hturn := line_turn hline hrejected
  obtain ⟨W, hrun, hsession, hothers⟩ := WorkerStep.run_of_turns (hreads.append (.single (a := (default, .go)) hturn)) twoConns rfl
  refine ⟨⟨_, W, hrun⟩, by simp, ?_, congrArg Session.c (hothers j hne)⟩
  have hgW : W.g = { s.g with erange := true } := congrArg Session.g hsession
  rw [hgW, hg]

/-- After a rejected `incr` of the other client, each is told the same. -/
theorem flush_reassign_same_iff_rejected : ∃ h₁ h₂ : History smallServer twoConns, h₁.events ≠ [] ∧ h₂.events ≠ [] ∧
    effectOf smallServer default (h₁.worker.conns 1).c h₁.worker.g (ascii "flush_all 10") [] =
      effectOf smallServer default (h₂.worker.conns 0).c h₂.worker.g (ascii "flush_all 10") [] := by
  obtain ⟨h₁, hne₁, hg₁, hc₁⟩ := history_largeIncr Nat.one_ne_zero
  obtain ⟨h₂, hne₂, hg₂, hc₂⟩ := history_largeIncr Nat.zero_ne_one
  have hsame : SameServer h₁.worker.g h₂.worker.g := by
    rw [hg₁, hg₂]
    exact ⟨rfl, rfl, rfl, rfl⟩
  refine ⟨h₁, h₂, hne₁, hne₂, (flush_reassign_same_iff h₁ h₂ 1 0 default (ascii "flush_all 10") [] hsame
    (.flushAll (n := ascii "10") (by decide) (by decide +kernel))).mpr ⟨?_, fun _ => ?_⟩⟩
  · rw [hc₁, hc₂]
    rfl
  · rw [hg₁, hg₂]

/-- A rejected `incr` of another client makes `flush_all 10` fail. -/
theorem rejected_incr_fails_flush : ∃ h₁ h₂ : History smallServer twoConns,
    SameServer h₁.worker.g h₂.worker.g ∧ (h₁.worker.conns 1).c = (h₂.worker.conns 1).c ∧
      ((effectOf smallServer default (h₁.worker.conns 1).c h₁.worker.g (ascii "flush_all 10") []).map Effect.reply =
        some (ascii "CLIENT_ERROR bad command line format\r\n")) ∧
      (effectOf smallServer default (h₂.worker.conns 1).c h₂.worker.g (ascii "flush_all 10") []).map Effect.reply =
        some (ascii "OK\r\n") := by
  obtain ⟨h₁, -, hg, hc⟩ := history_largeIncr Nat.one_ne_zero
  refine ⟨h₁, ⟨[], twoConns, .nil _⟩, ?_, hc, ?_, ?_⟩
  · rw [hg]
    exact ⟨rfl, rfl, rfl, rfl⟩
  · rw [hg, hc]
    decide +kernel
  · decide +kernel

end RamCube
