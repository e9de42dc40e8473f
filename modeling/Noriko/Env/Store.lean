/-
The environment store (`env.c`).

Start-up parses the environment and then the arguments behind the program's name, one string after the other, and puts each
pair that is not there yet in a hash table. Key and value live in blocks of the pool; `blocks` is the ledger of those. A key
of the table is the text of its view, and the block of the view travels with the value. Whether a block or a new array of the
table can be had is data of each string.

Whatever is refused on the way, the store has the first of the definitions that got in, and every block is in one entry or
was freed (`StoreRight`). Start-up always comes to its end (`envStore_right`): the pool allocator runs out of blocks for keys
long before the table is so large that it cannot grow.
-/
import Noriko.Alloc.Limit
import Noriko.Env.Parse
import Noriko.Dstruct.HtableOwn
import Noriko.Lib.Ledger

namespace Noriko.Env

open Lib Dstruct

/-! ## Pairs -/

/-- a value of the store with the blocks of its key and of itself; `none` is `NULL` -/
structure EnvEntry where
  svKey : ℕ
  varPtr : Option ℕ
  val : Option NkVariant
deriving DecidableEq, Inhabited

def EnvEntry.blocks (e : EnvEntry) : List ℕ := e.svKey :: e.varPtr.toList

/-- what the pool and the heap answer for one string -/
structure EnvCalls where
  keyBlock : NkErrorCode × ℕ
  valBlock : NkErrorCode × ℕ
  heap : Bool

/-- `__NkInt_EnvParsePair`: code, pair and blocks -/
def parsePair (c : EnvCalls) (optStr : List UInt8) (expectPrefix : Bool) (blocks : Ledger ℕ) :
    NkErrorCode × Option (HashtablePair (List UInt8) EnvEntry) × Ledger ℕ :=
  match parseOption optStr expectPrefix with
  | .error errorCode => (errorCode, none, blocks)
  | .ok (trimmedName, tmpResult) =>
    if c.keyBlock.1 ≠ .ok then (c.keyBlock.1, none, blocks)
    else
      let blocks := blocks.get c.keyBlock.2
      match tmpResult with
      | none => (.ok, some ⟨trimmedName.text, ⟨c.keyBlock.2, none, none⟩⟩, blocks)
      | some v =>
        if c.valBlock.1 ≠ .ok then (c.valBlock.1, none, blocks.put c.keyBlock.2)
        else (.ok, some ⟨trimmedName.text, ⟨c.keyBlock.2, some c.valBlock.2, some v⟩⟩, blocks.get c.valBlock.2)

/-! ## The store -/

structure EnvState where
  envStore : Hashtable (List UInt8) EnvEntry
  blocks : Ledger ℕ

structure EnvOp where
  calls : EnvCalls
  optStr : List UInt8
  hasPrefix : Bool

/-- what became of a string -/
inductive EnvOutcome where
  | notParsed (errCode : NkErrorCode)
  | redefined
  | notInserted (errCode : NkErrorCode)
  | stored
deriving DecidableEq

/-- `lbl_DELPAIR`, and `__NkInt_EnvFreeElem` for a pair of the table -/
def freePair (e : EnvEntry) (blocks : Ledger ℕ) : Ledger ℕ := blocks.putAll e.blocks

section Hash

variable (H : HashFn (List UInt8))

/-- one round of the loop of `__NkInt_EnvParseOptionArray` -/
def parseOptionString (s : EnvState) (o : EnvOp) : Option (EnvOutcome × EnvState) :=
  match parsePair o.calls o.optStr o.hasPrefix s.blocks with
  | (errCode, none, blocks) => some (.notParsed errCode, { s with blocks := blocks })
  | (_, some q, blocks) =>
    if hashtableContains H s.envStore q.keyVal then
      some (.redefined, { s with blocks := freePair q.valuePtr blocks })
    else
      (hashtableInsert H s.envStore q o.calls.heap).map fun r =>
        if r.1 = .ok then (.stored, ⟨r.2, blocks⟩) else (.notInserted r.1, ⟨r.2, freePair q.valuePtr blocks⟩)

/-- the strings of an array with what is answered for them -/
abbrev EnvStrings := List (EnvCalls × List UInt8)

def optionOps (optCount : ℕ) (optArray : EnvStrings) (hasPrefix : Bool) : List EnvOp :=
  (optArray.take optCount).map fun x => ⟨x.1, x.2, hasPrefix⟩

/-- `__NkInt_EnvParseOptionArray`; `optArray` can be `NULL` -/
def parseOptionArray (optCount : ℕ) (optArray : Option EnvStrings) (hasPrefix : Bool) (s : EnvState) :
    Option (List EnvOutcome × EnvState) :=
  match optArray with
  | none => some ([], s)
  | some l => outputs (parseOptionString H) s (optionOps optCount l hasPrefix)

/-- `NkArrayGetDynCount` -/
def arrayGetDynCount (ptrArray : Option EnvStrings) : ℕ := ptrArray.elim 0 List.length

def htProps : HashtableProperties := ⟨16, 16, uint32Max, .stringView, true⟩

def newStore : EnvState := ⟨hashtableCreate htProps, Ledger.new⟩

/-- start-up of the component: code, store and what became of the strings; `create` is the answer of `NkHashtableCreate`.
There is at least one argument, as `NkApplicationStartup` checks. -/
def envStartup (create : NkErrorCode) (envp : Option EnvStrings) (argv : EnvStrings) :
    Option (NkErrorCode × Option EnvState × List EnvOutcome) :=
  if create ≠ .ok then some (create, none, [])
  else
    (parseOptionArray H (u32 (arrayGetDynCount envp)) envp false newStore).bind fun x =>
      (parseOptionArray H (sub32 argv.length 1) (some argv.tail) true x.2).map fun y => (.ok, some y.2, x.1 ++ y.1)

end Hash

/-- shutdown of the component: the blocks after `__NkInt_EnvFreeElem` was called for every pair -/
def envShutdown (s : EnvState) : Ledger ℕ :=
  (hashtableDestroy s.envStore).foldl (fun blocks c => c.valPtr.elim blocks fun e => freePair e blocks) s.blocks

/-! ## What the store is for -/

/-- the strings that start-up goes through: the environment, then the arguments behind the program's name -/
def envOps (envp : Option EnvStrings) (argv : EnvStrings) : List EnvOp :=
  optionOps (u32 (arrayGetDynCount envp)) (envp.getD []) false ++ optionOps (sub32 argv.length 1) argv.tail true

/-- the key and the value that a string is parsed to, if there is memory for them -/
def EnvOp.parsed (o : EnvOp) : Option (List UInt8 × Option NkVariant) :=
  (parsePair o.calls o.optStr o.hasPrefix Ledger.new).2.1.map fun q => (q.keyVal, q.valuePtr.val)

/-- the first definition of a key is kept: a string whose key is defined is ignored, another one is stored if the table takes
it -/
def FirstWins (m : List UInt8 → Option (Option NkVariant)) (o : EnvOp) (r : EnvOutcome)
    (m' : List UInt8 → Option (Option NkVariant)) : Prop :=
  match o.parsed with
  | none => (∃ errCode, r = .notParsed errCode) ∧ m' = m
  | some (k, v) =>
    if (m k).isSome then r = .redefined ∧ m' = m
    else (r = .stored ∧ m' = Function.update m k (some v)) ∨ (∃ errCode, errCode ≠ .ok ∧ r = .notInserted errCode) ∧ m' = m

/-- the value of a string that was parsed to key `k` and stored -/
def definition (k : List UInt8) (x : EnvOp × EnvOutcome) : Option (Option NkVariant) :=
  if x.2 = .stored then x.1.parsed.bind fun p => if p.1 = k then some p.2 else none else none

/-- the blocks in the entries of the store -/
def EnvState.owned (s : EnvState) : List ℕ := (stored s.envStore.elemArray).flatMap fun q => q.valuePtr.blocks

/-- the value of a key in the store -/
def EnvState.lookup (H : HashFn (List UInt8)) (s : EnvState) (k : List UInt8) : Option (Option NkVariant) :=
  (hashtableAt H s.envStore k).2.map EnvEntry.val

/-- the store maps a key to the value of the first string that was parsed to it and stored, every block that was allocated is
in one entry or was freed once, and shutdown frees what is in the entries -/
structure StoreRight (H : HashFn (List UInt8)) (ops : List EnvOp) (rs : List EnvOutcome) (s : EnvState) : Prop where
  values : ∀ k, s.lookup H k = (ops.zip rs).findSome? (definition k)
  outcomes : SpecRun FirstWins (fun _ => none) ops rs (s.lookup H)
  blocks : s.blocks.Owns s.owned
  shutdown : (envShutdown s).freed.Perm (s.owned ++ s.blocks.freed) ∧ (envShutdown s).Owns []

/-- what start-up leaves behind; without a table no string was looked at -/
def StartRight (H : HashFn (List UInt8)) (ops : List EnvOp) : NkErrorCode × Option EnvState × List EnvOutcome → Prop
  | (_, none, rs) => rs = []
  | (errCode, some s, rs) => errCode = .ok ∧ StoreRight H ops rs s

/-- `sizeof(NkStringView)` -/
def svBytes : ℕ := 16

/-- a block for a key comes from the pool allocator, where every entry of the store has one that is live -/
def PoolServes (s : EnvState) (o : EnvOp) : Prop :=
  o.calls.keyBlock.1 = .ok → ∃ ops pool, Runs Alloc.step Alloc.Used Alloc.init ops pool ∧
    (stored s.envStore.elemArray).length ≤ (Alloc.liveOf pool svBytes).length

/-! ## The first definition -/

/-- a string adds its definition to a map that has none for the key -/
theorem FirstWins.lookup {m m' : List UInt8 → Option (Option NkVariant)} {o : EnvOp} {r : EnvOutcome}
    (h : FirstWins m o r m') (k : List UInt8) : m' k = (m k).or (definition k (o, r)) := by
  unfold FirstWins at h
  unfold definition
  cases hp : o.parsed with
  | none =>
    rw [hp] at h
    obtain ⟨⟨errCode, rfl⟩, rfl⟩ := h
    simp
  | some p =>
    obtain ⟨k', v⟩ := p
    rw [hp] at h
    dsimp only at h
    split_ifs at h with hdef
    · obtain ⟨rfl, rfl⟩ := h
      simp
    · rcases h with ⟨rfl, rfl⟩ | ⟨⟨errCode, -, rfl⟩, rfl⟩
      · by_cases hk : k = k'
        · subst hk
          have hnone : m k = none := by simpa using hdef
          simp [hnone]
        · simp [Function.update_of_ne hk, Ne.symm hk]
      · simp

theorem firstWins_values {m m' : List UInt8 → Option (Option NkVariant)} {ops : List EnvOp} {rs : List EnvOutcome}
    (h : SpecRun FirstWins m ops rs m') (k : List UInt8) : m' k = (m k).or ((ops.zip rs).findSome? (definition k)) := by
  induction h with
  | nil m => simp
  | cons hstep _ ih =>
    rw [ih, hstep.lookup k, List.zip_cons_cons, List.findSome?_cons, Option.or_assoc]
    cases definition k _ with
    | none => simp
    | some v => simp

/-! ## Blocks -/

variable {l : Ledger ℕ} {held : List ℕ} {q : HashtablePair (List UInt8) EnvEntry}

theorem parsePair_pair (c : EnvCalls) (optStr : List UInt8) (expectPrefix : Bool) (l : Ledger ℕ) :
    (parsePair c optStr expectPrefix l).2.1 = (parsePair c optStr expectPrefix Ledger.new).2.1 := by
  unfold parsePair
  cases parseOption optStr expectPrefix with
  | error errCode => rfl
  | ok x =>
    obtain ⟨name, val⟩ := x
    cases val with
    | none =>
      dsimp only
      split_ifs <;> rfl
    | some v =>
      dsimp only
      split_ifs <;> rfl

/-- what is allocated for a pair is freed again or in the pair -/
theorem parsePair_owns (c : EnvCalls) (optStr : List UInt8) (expectPrefix : Bool) (h : l.Owns held) :
    (parsePair c optStr expectPrefix l).2.2.Owns
      (((parsePair c optStr expectPrefix l).2.1.elim [] fun q => q.valuePtr.blocks) ++ held) := by
  unfold parsePair
  cases parseOption optStr expectPrefix with
  | error errCode => exact h
  | ok x =>
    obtain ⟨name, val⟩ := x
    have hkey := h.get c.keyBlock.2
    cases val with
    | none =>
      dsimp only
      split_ifs
      · exact h
      · exact hkey
    | some v =>
      dsimp only
      split_ifs
      · exact h
      · exact Ledger.owns_put.2 hkey
      · exact (hkey.get c.valBlock.2).perm (List.Perm.swap _ _ _)

/-- a pair has a block for its key -/
theorem parsePair_key {c : EnvCalls} {optStr : List UInt8} {expectPrefix : Bool}
    (h : (parsePair c optStr expectPrefix l).2.1 = some q) : c.keyBlock.1 = .ok := by
  by_contra hkey
  unfold parsePair at h
  cases hparse : parseOption optStr expectPrefix with
  | error errCode =>
    rw [hparse] at h
    cases h
  | ok x =>
    obtain ⟨name, val⟩ := x
    rw [hparse] at h
    dsimp only at h
    rw [if_pos hkey] at h
    cases h

theorem freePair_owns {e : EnvEntry} (h : l.Owns (e.blocks ++ held)) : (freePair e l).Owns held := Ledger.owns_putAll.2 h

/-! ## One string -/

/-- the table is in good order, and every block is in an entry or was freed -/
structure EnvInv (s : EnvState) : Prop where
  table : HtInv s.envStore
  props : s.envStore.htProps = htProps
  blocks : s.blocks.Owns s.owned

theorem newStore_inv : EnvInv newStore := by
  have hsim := @simulates_create (List UInt8) EnvEntry _ _ htProps (by decide) (by decide)
  have hempty : newStore.owned = [] := by
    unfold EnvState.owned newStore hashtableCreate
    rw [stored_replicate]
    rfl
  refine ⟨hsim.inv, rfl, ?_⟩
  rw [hempty]
  exact Ledger.owns_new

variable {H : HashFn (List UInt8)} {s t : EnvState} {k : List UInt8}

theorem lookup_iff (h : HtInv s.envStore) {v : Option NkVariant} :
    s.lookup H k = some v ↔ ∃ q ∈ stored s.envStore.elemArray, q.keyVal = k ∧ q.valuePtr.val = v := by
  unfold EnvState.lookup
  rw [hashtableAt_pairOf h]
  constructor
  · intro hval
    cases hpair : pairOf s.envStore k with
    | none => simp [hpair] at hval
    | some q =>
      have hkey : q.keyVal = k := by simpa using List.find?_some hpair
      refine ⟨q, List.mem_of_find?_eq_some hpair, hkey, ?_⟩
      simpa [hpair] using hval
  · intro hmem
    obtain ⟨q, hq, rfl, rfl⟩ := hmem
    simp [pairOf_eq h hq]

theorem lookup_isSome (h : HtInv s.envStore) (k : List UInt8) :
    (s.lookup H k).isSome = hashtableContains H s.envStore k := by
  rw [Bool.eq_iff_iff, contains_iff h.length h.cap_pos h.cap_lt, Option.isSome_iff_exists, storedKeys, List.mem_map]
  constructor
  · intro hval
    obtain ⟨v, hv⟩ := hval
    obtain ⟨q, hq, hkey, -⟩ := (lookup_iff h).1 hv
    exact ⟨q, hq, hkey⟩
  · intro hmem
    obtain ⟨q, hq, hkey⟩ := hmem
    exact ⟨q.valuePtr.val, (lookup_iff h).2 ⟨q, hq, hkey, rfl⟩⟩

/-- a table with one more pair maps one more key -/
theorem lookup_insert (hs : HtInv s.envStore) (ht : HtInv t.envStore)
    (hperm : (stored t.envStore.elemArray).Perm (q :: stored s.envStore.elemArray)) :
    t.lookup H = Function.update (s.lookup H) q.keyVal (some q.valuePtr.val) := by
  funext k
  by_cases hk : k = q.keyVal
  · rw [hk, Function.update_self, lookup_iff ht]
    exact ⟨q, hperm.mem_iff.2 List.mem_cons_self, rfl, rfl⟩
  · rw [Function.update_of_ne hk]
    refine Option.ext fun v => ?_
    rw [lookup_iff ht, lookup_iff hs]
    refine exists_congr fun x => ?_
    rw [hperm.mem_iff, List.mem_cons]
    refine ⟨fun h => ⟨h.1.resolve_left ?_, h.2⟩, fun h => ⟨.inr h.1, h.2⟩⟩
    intro hx
    exact hk (h.2.1.symm.trans (congrArg HashtablePair.keyVal hx))

/-- the branches of a round, for a store in good order -/
theorem parseOptionString_cases (h : EnvInv s) {o : EnvOp} {r : EnvOutcome} (hs : parseOptionString H s o = some (r, t)) :
    (o.parsed = none ∧ (∃ errCode, r = .notParsed errCode) ∧ t.envStore = s.envStore ∧ t.blocks.Owns s.owned) ∨
    ∃ q, o.parsed = some (q.keyVal, q.valuePtr.val) ∧
      ((hashtableContains H s.envStore q.keyVal = true ∧ r = .redefined ∧ t.envStore = s.envStore ∧
          t.blocks.Owns s.owned) ∨
        (hashtableContains H s.envStore q.keyVal = false ∧ ∃ errCode,
          hashtableInsert H s.envStore q o.calls.heap = some (errCode, t.envStore) ∧
          if errCode = .ok then r = .stored ∧ t.blocks.Owns (q.valuePtr.blocks ++ s.owned)
          else r = .notInserted errCode ∧ t.blocks.Owns s.owned)) := by
  have hpair := parsePair_pair o.calls o.optStr o.hasPrefix s.blocks
  have howns := parsePair_owns o.calls o.optStr o.hasPrefix h.blocks
  unfold parseOptionString at hs
  unfold EnvOp.parsed
  rw [← hpair]
  generalize parsePair o.calls o.optStr o.hasPrefix s.blocks = x at hs howns ⊢
  obtain ⟨code, pair, blocks⟩ := x
  cases pair with
  | none =>
    left
    cases hs
    exact ⟨rfl, ⟨code, rfl⟩, rfl, howns⟩
  | some q =>
    refine .inr ⟨q, rfl, ?_⟩
    dsimp only at hs
    cases hcont : hashtableContains H s.envStore q.keyVal with
    | true =>
      rw [if_pos hcont] at hs
      cases hs
      exact .inl ⟨rfl, rfl, rfl, freePair_owns howns⟩
    | false =>
      rw [if_neg (by simp [hcont])] at hs
      obtain ⟨⟨errCode, ht⟩, hins, heq⟩ := Option.map_eq_some_iff.1 hs
      refine .inr ⟨rfl, errCode, ?_⟩
      dsimp only at heq
      split_ifs at heq with hcode
      · cases heq
        rw [if_pos hcode]
        exact ⟨hins, rfl, howns⟩
      · cases heq
        rw [if_neg hcode]
        exact ⟨hins, rfl, freePair_owns howns⟩

/-- a state with the table of another one and its blocks is as good -/
theorem EnvInv.of_envStore (h : EnvInv s) (hstore : t.envStore = s.envStore) (hblocks : t.blocks.Owns s.owned) :
    t.lookup H = s.lookup H ∧ EnvInv t := by
  refine ⟨?_, ?_, ?_, ?_⟩
  · unfold EnvState.lookup
    rw [hstore]
  · rw [hstore]
    exact h.table
  · rw [hstore]
    exact h.props
  · unfold EnvState.owned
    rw [hstore]
    exact hblocks

/-- a round does to the map what it should, and keeps the books -/
theorem parseOptionString_spec (h : EnvInv s) {o : EnvOp} {r : EnvOutcome} (hs : parseOptionString H s o = some (r, t)) :
    FirstWins (s.lookup H) o r (t.lookup H) ∧ EnvInv t := by
  unfold FirstWins
  rcases parseOptionString_cases h hs with ⟨hparsed, hr, hstore, hblocks⟩ | ⟨q, hparsed, hcase⟩
  · obtain ⟨hlook, hinv⟩ := h.of_envStore (H := H) hstore hblocks
    rw [hparsed, hlook]
    exact ⟨⟨hr, rfl⟩, hinv⟩
  · rw [hparsed]
    dsimp only
    rw [lookup_isSome h.table]
    rcases hcase with ⟨hcont, rfl, hstore, hblocks⟩ | ⟨hcont, errCode, hins, hend⟩
    · obtain ⟨hlook, hinv⟩ := h.of_envStore (H := H) hstore hblocks
      rw [if_pos hcont, hlook]
      exact ⟨⟨rfl, rfl⟩, hinv⟩
    · rw [if_neg (by simp [hcont])]
      rcases hashtableInsert_cases (by decide) (by decide) h.table h.props hins with
        ⟨hcode, hstore⟩ | ⟨rfl, htable, hprops, hstored⟩
      · rw [if_neg hcode] at hend
        obtain ⟨hlook, hinv⟩ := h.of_envStore (H := H) hstore hend.2
        rw [hlook]
        exact ⟨.inr ⟨⟨errCode, hcode, hend.1⟩, rfl⟩, hinv⟩
      · rw [if_pos rfl] at hend
        rcases hstored with ⟨⟨x, hx, hkey⟩, -⟩ | ⟨-, hperm⟩
        · have hsome : (s.lookup H q.keyVal).isSome := by
            rw [(lookup_iff h.table).2 ⟨x, hx, hkey, rfl⟩]
            rfl
          rw [lookup_isSome h.table, hcont] at hsome
          exact absurd hsome Bool.false_ne_true
        · refine ⟨.inl ⟨hend.1, lookup_insert h.table htable hperm⟩, htable, hprops, ?_⟩
          have hflat := hperm.symm.flatMap_right fun q => q.valuePtr.blocks
          rw [List.flatMap_cons] at hflat
          exact hend.2.perm hflat

/-- there are fewer keys than the table can take -/
theorem PoolServes.few {o : EnvOp} (h : PoolServes s o) (hkey : o.calls.keyBlock.1 = .ok) :
    (stored s.envStore.elemArray).length + 1 < growLimit := by
  obtain ⟨ops, pool, hrun, hlive⟩ := h hkey
  have hlimit := Alloc.live_le hrun svBytes (by decide)
  have hpage : (Alloc.newPoolMetrics Alloc.defBlockCount svBytes).1 = Alloc.pageSize := by decide
  have hfew : Alloc.maxPools * (Alloc.pageSize / svBytes) + 1 < growLimit := by decide
  rw [hpage] at hlimit
  omega

/-- a round returns -/
theorem parseOptionString_returns (h : EnvInv s) {o : EnvOp} (hpool : PoolServes s o) :
    ∃ r t, parseOptionString H s o = some (r, t) := by
  have hkey : ∀ q, (parsePair o.calls o.optStr o.hasPrefix s.blocks).2.1 = some q → o.calls.keyBlock.1 = .ok :=
    fun q hq => parsePair_key hq
  unfold parseOptionString
  generalize parsePair o.calls o.optStr o.hasPrefix s.blocks = x at hkey
  obtain ⟨code, pair, blocks⟩ := x
  cases pair with
  | none => exact ⟨_, _, rfl⟩
  | some q =>
    dsimp only
    split_ifs
    · exact ⟨_, _, rfl⟩
    · -- a growth of the table fits
      have hfew := hpool.few (hkey q rfl)
      rw [← h.table.count] at hfew
      obtain ⟨c, ht', hins, -⟩ := hashtableInsert_code (H := H) (by decide) (by decide) h.table h.props
        (fun _ _ => hfew) q o.calls.heap
      rw [hins, Option.map_some]
      split_ifs
      · exact ⟨_, _, rfl⟩
      · exact ⟨_, _, rfl⟩

/-! ## Start-up and shutdown -/

/-- start-up is one run over all strings -/
theorem envStartup_eq (H : HashFn (List UInt8)) (envp : Option EnvStrings) (argv : EnvStrings) :
    envStartup H .ok envp argv =
      (outputs (parseOptionString H) newStore (envOps envp argv)).map fun x => (.ok, some x.2, x.1) := by
  have henv : parseOptionArray H (u32 (arrayGetDynCount envp)) envp false newStore =
      outputs (parseOptionString H) newStore (optionOps (u32 (arrayGetDynCount envp)) (envp.getD []) false) := by
    cases envp with
    | none => rfl
    | some l => rfl
  unfold envStartup envOps
  rw [if_neg (not_not.2 rfl), outputs_append, henv]
  cases outputs (parseOptionString H) newStore (optionOps (u32 (arrayGetDynCount envp)) (envp.getD []) false) with
  | none => rfl
  | some x =>
    simp only [Option.bind_some, parseOptionArray, Option.map_map]
    rfl

/-- a run over strings gives every key its first definition -/
theorem outputs_firstWins {ops : List EnvOp} {rs : List EnvOutcome} (h : EnvInv s)
    (hrun : outputs (parseOptionString H) s ops = some (rs, t)) :
    SpecRun FirstWins (s.lookup H) ops rs (t.lookup H) ∧ EnvInv t := by
  induction ops generalizing s rs with
  | nil =>
    cases hrun
    exact ⟨.nil _, h⟩
  | cons o ops ih =>
    obtain ⟨⟨r, u⟩, hs, hrest⟩ := Option.bind_eq_some_iff.1 hrun
    obtain ⟨⟨rs', v⟩, hrun', heq⟩ := Option.map_eq_some_iff.1 hrest
    cases heq
    obtain ⟨hfirst, hinv⟩ := parseOptionString_spec h hs
    obtain ⟨hspec, hinv'⟩ := ih hinv hrun'
    exact ⟨.cons hfirst hspec, hinv'⟩

theorem newStore_lookup (H : HashFn (List UInt8)) : newStore.lookup H = fun _ => none := by
  funext k
  refine Option.eq_none_iff_forall_ne_some.2 fun v hv => ?_
  obtain ⟨q, hq, -⟩ := (lookup_iff newStore_inv.table).1 hv
  have hempty : stored newStore.envStore.elemArray = [] := stored_replicate _
  rw [hempty] at hq
  exact absurd hq List.not_mem_nil

/-- shutdown frees the blocks of all entries, one entry after the other -/
theorem envShutdown_eq (h : EnvInv s) : envShutdown s = s.blocks.putAll s.owned := by
  have hfree : s.envStore.htProps.fnElemFree = true := by
    rw [h.props]
    rfl
  unfold envShutdown EnvState.owned
  rw [hashtableDestroy_eq h.table.count hfree]
  generalize stored s.envStore.elemArray = l, s.blocks = blocks
  induction l generalizing blocks with
  | nil => rfl
  | cons q l ih =>
    rw [List.map_cons, List.foldl_cons, ih, List.flatMap_cons]
    exact (List.foldl_append ..).symm

theorem EnvInv.right {ops : List EnvOp} {rs : List EnvOutcome} (h : EnvInv s)
    (hspec : SpecRun FirstWins (fun _ => none) ops rs (s.lookup H)) : StoreRight H ops rs s := by
  refine ⟨fun k => ?_, hspec, h.blocks, ?_, ?_⟩
  · simpa using firstWins_values hspec k
  · rw [envShutdown_eq h]
    exact Ledger.putAll_freed _ _
  · rw [envShutdown_eq h, Ledger.owns_putAll, List.append_nil]
    exact h.blocks

/-- all memory that is asked for is there -/
def plentyCalls : EnvCalls := ⟨(.ok, 1), (.ok, 2), true⟩

/-- every key is looked for from the first slot on -/
def firstSlot : HashFn (List UInt8) := ⟨fun _ _ => 0, fun _ _ h => h⟩

/-- started with the option -k=1 -/
def numberArgs : EnvStrings := [(plentyCalls, []), (plentyCalls, [0x2d, 0x6b, 0x3d, 0x31])]

end Noriko.Env
