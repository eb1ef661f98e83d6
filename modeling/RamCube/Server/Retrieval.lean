import RamCube.Server.Machine

/-! # The keys of a retrieval (memcached.c)

`tokenize_command` finds at most seven words at a time, and `process_get_command` calls
it again for the rest of the line. Together they find the words of the line, each once
and in order (`get_looks_up_keys`). -/
namespace RamCube

/-! ## Words -/

/-- The maximal texts without a space in a line. -/
def lineWords (line : Bytes) : List Bytes := tokens (· == space) line

/-- The words that a call of `tokenize_command` left for the next one. -/
def Tokens.restWords (t : Tokens) : List Bytes := lineWords (t.rest.getD [])

section

variable {line : Bytes} {room : Nat}

@[simp]
theorem lineWords_nil : lineWords [] = [] := rfl

theorem lineWords_skip (bs : Bytes) : lineWords (space :: bs) = lineWords bs := tokens_skip rfl

theorem lineWords_cons {w : Bytes} (hw : space ∉ w) (hne : w ≠ []) (bs : Bytes) :
    lineWords (w ++ space :: bs) = w :: lineWords bs :=
  tokens_cons (fun _ hb => beq_eq_false_iff_ne.mpr fun h => hw (h ▸ hb)) hne rfl

theorem lineWords_last {w : Bytes} (hw : space ∉ w) (hne : w ≠ []) : lineWords w = [w] :=
  tokens_last (fun _ hb => beq_eq_false_iff_ne.mpr fun h => hw (h ▸ hb)) hne

/-- A scan finds the next words, as many as there is room for, and leaves the others. -/
theorem tokenizeFrom_words (acc bs : Bytes) (hroom : 0 < room) (hacc : space ∉ acc) :
    (tokenizeFrom room acc bs).tokens ++ (tokenizeFrom room acc bs).restWords = lineWords (acc ++ bs) ∧
    (tokenizeFrom room acc bs).tokens.length ≤ room ∧
    ∀ rest ∈ (tokenizeFrom room acc bs).rest,
      (tokenizeFrom room acc bs).tokens.length = room ∧ rest.length < bs.length := by
  induction bs generalizing room acc with
  | nil =>
    unfold tokenizeFrom
    rw [List.append_nil]
    by_cases hw : acc = []
    · simp [hw, Tokens.restWords, lineWords_nil]
    · rw [if_neg hw, lineWords_last hacc hw]
      exact ⟨rfl, hroom, by simp⟩
  | cons b bs ih =>
    unfold tokenizeFrom
    by_cases hb : b = space
    · subst hb
      rw [if_pos rfl]
      by_cases hw : acc = []
      · subst hw
        obtain ⟨h1, h2, h3⟩ := ih [] hroom List.not_mem_nil
        rw [if_pos rfl, List.nil_append, lineWords_skip]
        exact ⟨h1, h2, fun rest hr => ⟨(h3 rest hr).1, Nat.lt_succ_of_lt (h3 rest hr).2⟩⟩
      rw [if_neg hw, lineWords_cons hacc hw]
      by_cases hone : room = 1
      · -- the array is full with this word
        subst hone
        rw [if_pos rfl]
        by_cases hbs : bs = []
        · simp [hbs, Tokens.restWords, lineWords_nil]
        · rw [if_neg hbs]
          refine ⟨rfl, Nat.le_refl 1, ?_⟩
          rintro rest ⟨⟩
          exact ⟨rfl, Nat.lt_succ_self _⟩
      · obtain ⟨h1, h2, h3⟩ := ih [] (Nat.sub_pos_of_lt (by omega : 1 < room)) List.not_mem_nil
        rw [if_neg hone]
        refine ⟨congrArg (acc :: ·) h1, ?_, fun rest hr => ⟨?_, Nat.lt_succ_of_lt (h3 rest hr).2⟩⟩
        · simp only [List.length_cons]
          omega
        · have := (h3 rest hr).1
          simp only [List.length_cons]
          omega
    · rw [if_neg hb]
      obtain ⟨h1, h2, h3⟩ := ih (acc ++ [b]) hroom (by simpa [hacc] using Ne.symm hb)
      rw [List.append_assoc] at h1
      exact ⟨h1, h2, fun rest hr => ⟨(h3 rest hr).1, Nat.lt_succ_of_lt (h3 rest hr).2⟩⟩

variable (line) in
theorem tokenizeCommand_words : (tokenizeCommand line).tokens ++ (tokenizeCommand line).restWords = lineWords line ∧
    (tokenizeCommand line).tokens.length ≤ MAX_TOKENS - 1 ∧
    ∀ rest ∈ (tokenizeCommand line).rest,
      (tokenizeCommand line).tokens.length = MAX_TOKENS - 1 ∧ rest.length < line.length :=
  tokenizeFrom_words [] line (Nat.succ_pos _) List.not_mem_nil

variable (line) in
/-- The words in the array are the first seven. -/
theorem tokenizeCommand_tokens : (tokenizeCommand line).tokens = (lineWords line).take (MAX_TOKENS - 1) := by
  obtain ⟨happ, hle, hrest⟩ := tokenizeCommand_words line
  rw [← happ]
  cases hr : (tokenizeCommand line).rest with
  | none =>
    rw [Tokens.restWords, hr, Option.getD_none, lineWords_nil, List.append_nil, List.take_of_length_le hle]
  | some rest => exact (List.take_left' (hrest rest hr).1).symm

/-- Call after call finds all words of the line. -/
theorem lineTokens_eq {fuel : Nat} {t : Tokens} (hfuel : ∀ rest ∈ t.rest, rest.length ≤ fuel) :
    lineTokens fuel t = t.tokens ++ t.restWords := by
  induction fuel generalizing t with
  | zero =>
    have hnil : t.rest.getD [] = [] := by
      cases hr : t.rest with
      | none => rfl
      | some rest => exact List.length_eq_zero_iff.mp (Nat.le_zero.mp (hfuel rest hr))
    rw [Tokens.restWords, hnil, lineWords_nil, List.append_nil]
    rfl
  | succ fuel ih =>
    unfold lineTokens Tokens.restWords
    cases hr : t.rest with
    | none => rfl
    | some rest =>
      obtain ⟨happ, _, hshort⟩ := tokenizeCommand_words rest
      have hlen := hfuel rest hr
      simp only [Option.getD_some]
      rw [ih fun rest' hr' => ?_, happ]
      have := (hshort rest' hr').2
      omega

end

/-! ## Lookups -/

section

variable (cfg : Config)

/-- The keys looked up one after the other: the hits, each with the item as it was found. -/
def lookUp : List Bytes → Store → Store × List (Ptr × Item)
  | [], s => (s, [])
  | key :: keys, s =>
    let (s, found) := getItem cfg.toSettings s key
    let (s', hits) := lookUp keys s
    (s', match found with
      | none => hits
      | some it => (it, s.mem it) :: hits)

/-- The response to a retrieval with these hits. -/
def getResponse (returnCas : Bool) (hits : List (Ptr × Item)) : Bytes :=
  (hits.map fun hit => valueResponse returnCas hit.2).flatten ++ ascii "END" ++ [CR, LF]

/-- The connection is left with the hits and the response to them. -/
structure RepliesTo (returnCas : Bool) (hits : List (Ptr × Item)) (c c' : Conn) : Prop where
  held : ∀ i, ∀ hit ∈ hits[i]?, c'.ilist i = hit.1
  same : ∃ ilist, c' = { c with
    ilist := ilist
    icurr := 0
    ileft := hits.length
    out := getResponse returnCas hits
    state := .mwrite }

/-- The loop, with the hits of the keys before. -/
theorem processGetKeys_hits (returnCas : Bool) {keys : List Bytes} (hkeys : ∀ key ∈ keys, key.length ≤ KEY_MAX_LENGTH)
    (before : List (Ptr × Item)) {c : Conn} {g : Globals}
    (hheld : ∀ i, ∀ hit ∈ before[i]?, c.ilist i = hit.1) :
    RepliesTo returnCas (before ++ (lookUp cfg keys g.store).2) c
        (processGetKeys cfg returnCas keys before.length
          (before.map fun hit => valueResponse returnCas hit.2).flatten c g).1 ∧
      (processGetKeys cfg returnCas keys before.length
          (before.map fun hit => valueResponse returnCas hit.2).flatten c g).2 =
        { g with store := (lookUp cfg keys g.store).1 } := by
  induction keys generalizing before c g with
  | nil =>
    unfold processGetKeys lookUp
    rw [List.append_nil]
    exact ⟨⟨hheld, c.ilist, rfl⟩, rfl⟩
  | cons key keys ih =>
    have hlen := hkeys key List.mem_cons_self
    have hrest := fun k hk => hkeys k (List.mem_cons_of_mem key hk)
    unfold processGetKeys lookUp
    rw [if_neg (Nat.not_lt.mpr hlen)]
    generalize getItem cfg.toSettings g.store key = r
    obtain ⟨s, _ | it⟩ := r
    · exact ih hrest before hheld (g := { g with store := s })
    · have hheld' : ∀ i, ∀ hit ∈ (before ++ [(it, s.mem it)])[i]?,
          (Function.update c.ilist before.length it) i = hit.1 := by
        intro i hit hi
        obtain hlt | rfl | hgt := Nat.lt_trichotomy i before.length
        · rw [List.getElem?_append_left hlt] at hi
          rw [Function.update_of_ne (Nat.ne_of_lt hlt)]
          exact hheld i hit hi
        · simp only [List.getElem?_append_right (Nat.le_refl _), Nat.sub_self, List.getElem?_cons_zero,
            Option.mem_def, Option.some.injEq] at hi
          rw [Function.update_self, ← hi]
        · rw [List.getElem?_eq_none (by simp; omega)] at hi
          cases hi
      have hstep := ih hrest (before ++ [(it, s.mem it)]) (c := { c with ilist := Function.update c.ilist before.length it })
        (g := { g with store := s }) hheld'
      simp only [List.length_append, List.length_singleton, List.map_append, List.map_cons, List.map_nil,
        List.flatten_append, List.flatten_cons, List.flatten_nil, List.append_nil, List.append_assoc,
        List.singleton_append] at hstep
      obtain ⟨⟨hi, ilist, hsame⟩, hg⟩ := hstep
      exact ⟨⟨hi, ilist, hsame⟩, hg⟩

variable {cfg}

theorem handlerOf_get {t : Tokens} {name : Bytes} (hname : name = ascii "get" ∨ name = ascii "gets")
    (h0 : t.value 0 = name) (hcount : 3 ≤ t.ntokens) : handlerOf t = .get (name == ascii "gets") := by
  have hne : ascii "get" ≠ ascii "gets" ∧ ascii "gets" ≠ ascii "bget" ∧ updateComm (ascii "gets") = none ∧
      ascii "gets" ≠ ascii "cas" ∧ ascii "gets" ≠ ascii "incr" := by decide +kernel
  unfold handlerOf
  obtain rfl | rfl := hname
  · have hcas : (ascii "get" == ascii "gets") = false := by simpa using hne.1
    simp [h0, hcount, hcas]
  · simp [h0, hcount, hne, hne.1.symm]

/-- The words of a line behind the command word, found by all calls together. -/
theorem lineTokens_keys {line name : Bytes} {keys : List Bytes} (hwords : lineWords line = name :: keys) :
    (lineTokens ((tokenizeCommand line).rest.getD []).length (tokenizeCommand line)).drop 1 = keys := by
  rw [lineTokens_eq fun rest hr => by simp [Option.mem_def.mp hr], (tokenizeCommand_words line).1, hwords]
  rfl

theorem processGetCommand_eq (cfg : Config) (returnCas : Bool) (c : Conn) (g : Globals) {line name : Bytes} {keys : List Bytes}
    (hwords : lineWords line = name :: keys) : processGetCommand cfg c g (tokenizeCommand line) returnCas =
      processGetKeys cfg returnCas keys 0 [] c g := by
  unfold processGetCommand
  dsimp only
  rw [lineTokens_keys hwords]

theorem processCommand_get (cfg : Config) (env : Env) (c : Conn) (g : Globals) (leftCom : Bytes) {line name : Bytes}
    {keys : List Bytes} (hwords : lineWords line = name :: keys) (hname : name = ascii "get" ∨ name = ascii "gets")
    (hne : keys ≠ []) : processCommand cfg env c g line leftCom =
      returnZero (processGetKeys cfg (name == ascii "gets") keys 0 [] c g) := by
  have htokens := tokenizeCommand_tokens line
  rw [hwords] at htokens
  have hvalue : (tokenizeCommand line).value 0 = name := by
    simp [Tokens.value, htokens, MAX_TOKENS]
  have hcount : 3 ≤ (tokenizeCommand line).ntokens := by
    have := List.length_pos_iff.mpr hne
    simp only [Tokens.ntokens, htokens, List.length_take, List.length_cons, MAX_TOKENS]
    omega
  unfold processCommand
  dsimp only
  rw [handlerOf_get hname hvalue hcount]
  dsimp only
  rw [processGetCommand_eq cfg _ c g hwords]

/-- A retrieval looks up the words behind the command word, each once and in order, and
writes the hits in this order and END. -/
theorem get_looks_up_keys (cfg : Config) (env : Env) (c : Conn) (g : Globals) (leftCom : Bytes) {line name : Bytes}
    {keys : List Bytes} (hwords : lineWords line = name :: keys) (hname : name = ascii "get" ∨ name = ascii "gets")
    (hkeys : ∀ key ∈ keys, key.length ≤ KEY_MAX_LENGTH) :
    ∃ c', processGetCommand cfg c g (tokenizeCommand line) (name == ascii "gets") =
        (c', { g with store := (lookUp cfg keys g.store).1 }) ∧
      RepliesTo (name == ascii "gets") (lookUp cfg keys g.store).2 c c' ∧
      (keys ≠ [] → processCommand cfg env c g line leftCom =
        some (c', { g with store := (lookUp cfg keys g.store).1 }, 0)) := by
  have hloop := processGetKeys_hits cfg (name == ascii "gets") hkeys [] (c := c) (g := g) nofun
  refine ⟨_, (processGetCommand_eq cfg _ c g hwords).trans (Prod.ext rfl hloop.2), hloop.1, fun hne => ?_⟩
  rw [processCommand_get cfg env c g leftCom hwords hname hne]
  exact congrArg some (Prod.ext rfl (Prod.ext hloop.2 rfl))

end

/-- A retrieval of nine keys, with blanks behind them: the array is filled twice. -/
def getNine : Bytes := ascii "gets a b  c d e f g h   i  "

theorem get_looks_up_keys_nine : ∃ c',
    processCommand smallServer default (connNew smallServer 4096 .read .tcp) (globalsInit 16) getNine [] =
      some (c', { globalsInit 16 with
        store := (lookUp smallServer (["a", "b", "c", "d", "e", "f", "g", "h", "i"].map ascii) (storeInit 16)).1 }, 0) ∧
    RepliesTo true (lookUp smallServer (["a", "b", "c", "d", "e", "f", "g", "h", "i"].map ascii) (storeInit 16)).2
      (connNew smallServer 4096 .read .tcp) c' := by
  have hline : lineWords getNine = ascii "gets" :: ["a", "b", "c", "d", "e", "f", "g", "h", "i"].map ascii ∧
      (∀ key ∈ ["a", "b", "c", "d", "e", "f", "g", "h", "i"].map ascii, key.length ≤ KEY_MAX_LENGTH) := by
    decide +kernel
  obtain ⟨c', _, hreply, hproc⟩ := get_looks_up_keys smallServer default (connNew smallServer 4096 .read .tcp)
    (globalsInit 16) [] hline.1 (.inr rfl) hline.2
  exact ⟨c', hproc (List.cons_ne_nil _ _), hreply⟩

end RamCube
