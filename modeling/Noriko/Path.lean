/-
The path service (`path.c`, `winpath.c`): the table of standard locations and the memory of its strings.

Start-up asks the system for the known folders and copies each path to heap memory; the game root is the string view of
the application itself. Shutdown frees the known folders, then every game location. `heap` is the ledger of `NkGPAlloc`
and `NkGPFree`. A call of the latter with `NULL` does nothing and is not entered.

The path service gives back what it obtained, each string once, as long as no game location holds a string: the shutdown
of a service that was started with a game root frees memory of the application (`ownPaths_iff`).
-/
import Noriko.Def
import Noriko.Lib.Ledger

namespace Noriko

open Lib

namespace Path

/-! ## Data -/

/-- `NkStdLocation` from `NkStdLoc_SystemRoot` on -/
inductive NkStdLocation where
  | systemRoot | desktop | documents | home | music | videos | downloads | fonts | appData | appDir
  | gameSaves | gameRoot | gameBin | gameData | gameDocs | gameCache | gameAssets | gameExt
deriving DecidableEq, Repr

open NkStdLocation

/-- `NkStdLoc_Unknown + 1 .. __NkStdLoc_Count__ - 1` -/
def stdLocations : List NkStdLocation :=
  [systemRoot, desktop, documents, home, music, videos, downloads, fonts, appData, appDir,
   gameSaves, gameRoot, gameBin, gameData, gameDocs, gameCache, gameAssets, gameExt]

/-- `gl_c_GameLocs` -/
def gameLocs : List NkStdLocation := [gameSaves, gameRoot, gameBin, gameData, gameDocs, gameCache, gameAssets, gameExt]

/-- `__NkInt_WindowsStandardPaths_MapToKNOWNFOLDERID` has a folder id -/
def hasFolderId : NkStdLocation → Bool
  | gameSaves | gameRoot | gameBin | gameData | gameDocs | gameCache | gameAssets | gameExt => false
  | _ => true

/-- the locations that have one -/
def folders : List NkStdLocation := stdLocations.filter hasFolderId

/-- `gl_StandardPaths`, and what was allocated and freed -/
structure PathSrv where
  standardPaths : NkStdLocation → NkStringView
  heap : Ledger ℕ

/-- before start-up -/
def init : PathSrv := ⟨fun _ => ⟨0, 7⟩, Ledger.new⟩

/-- what the system does for one known folder: no path, a path but no memory for it, or a path in memory at `addr` -/
inductive Answer where
  | noPath
  | noMemory
  | path (addr reqBytes : ℕ)
deriving DecidableEq, Repr

/-! ## Start-up and shutdown -/

/-- `NkGPFree` -/
def gpFree (heap : Ledger ℕ) (memPtr : ℕ) : Ledger ℕ := if memPtr = 0 then heap else heap.put memPtr

/-- the body of both loops that free strings -/
def freeEntry (s : PathSrv) (loc : NkStdLocation) : PathSrv where
  standardPaths := Function.update s.standardPaths loc { s.standardPaths loc with dataPtr := 0 }
  heap := gpFree s.heap (s.standardPaths loc).dataPtr

/-- `__NkInt_StandardPaths_DestroyPlatformLocs` -/
def destroyPlatformLocs (s : PathSrv) : PathSrv :=
  stdLocations.foldl (fun s loc => if hasFolderId loc then freeEntry s loc else s) s

/-- the loop of `__NkInt_StandardPaths_QueryPlatformLocs` over the locations that are left -/
def queryLocs (os : NkStdLocation → Answer) : List NkStdLocation → PathSrv → NkErrorCode × PathSrv
  | [], s => (.ok, s)
  | loc :: locs, s =>
    if hasFolderId loc then
      match os loc with
      | .noPath => (.queryStdLocation, destroyPlatformLocs s)
      | .noMemory => (.memoryAllocation, destroyPlatformLocs s)
      | .path addr reqBytes =>
        queryLocs os locs
          { standardPaths := Function.update s.standardPaths loc ⟨addr, reqBytes - 1⟩, heap := s.heap.get addr }
    else queryLocs os locs s

/-- `__NkInt_StandardPaths_QueryPlatformLocs` -/
def queryPlatformLocs (os : NkStdLocation → Answer) (s : PathSrv) : NkErrorCode × PathSrv := queryLocs os stdLocations s

/-- one round of the game-path loop -/
def gameEntry (gameRootDir : NkStringView) (s : PathSrv) (loc : NkStdLocation) : PathSrv :=
  if (s.standardPaths loc).dataPtr ≠ 0 then s
  else if loc = gameRoot then { s with standardPaths := Function.update s.standardPaths loc gameRootDir }
  else s

/-- start-up of the path service; `gameRootDir` is `m_gameRootDir` of the application specification -/
def startup (os : NkStdLocation → Answer) (gameRootDir : NkStringView) (s : PathSrv) : NkErrorCode × PathSrv :=
  match queryPlatformLocs os s with
  | (.ok, s) => (.ok, gameLocs.foldl (gameEntry gameRootDir) s)
  | (errCode, s) => (errCode, s)

/-- shutdown of the path service -/
def shutdown (s : PathSrv) : PathSrv := gameLocs.foldl freeEntry (destroyPlatformLocs s)

/-- the life of the service: a start-up, and a shutdown if it succeeded -/
def lifetime (os : NkStdLocation → Answer) (gameRootDir : NkStringView) : PathSrv :=
  match startup os gameRootDir init with
  | (.ok, s) => shutdown s
  | (_, s) => s

/-! ## Freeing -/

/-- a location's string, if it has one -/
def strAt (s : PathSrv) (loc : NkStdLocation) : Option ℕ :=
  if (s.standardPaths loc).dataPtr = 0 then none else some (s.standardPaths loc).dataPtr

theorem folders_nodup : folders.Nodup := by decide

theorem strAt_freeEntry (s : PathSrv) (loc : NkStdLocation) : strAt (freeEntry s loc) = Function.update (strAt s) loc none := by
  funext l
  by_cases hl : l = loc
  · subst hl
    simp [strAt, freeEntry]
  · simp [strAt, freeEntry, hl]

theorem freeEntry_heap (s : PathSrv) (loc : NkStdLocation) : (freeEntry s loc).heap = s.heap.putAll (strAt s loc).toList := by
  by_cases hp : (s.standardPaths loc).dataPtr = 0 <;> simp [freeEntry, gpFree, strAt, hp, Ledger.putAll]

/-- freeing locations gives back the strings that they hold -/
theorem freeAll_spec {ls : List NkStdLocation} (hnd : ls.Nodup) (s : PathSrv) :
    (ls.foldl freeEntry s).heap = s.heap.putAll (held (strAt s) ls) ∧
      ∀ l ∉ ls, strAt (ls.foldl freeEntry s) l = strAt s l := by
  induction ls generalizing s with
  | nil => exact ⟨rfl, fun _ _ => rfl⟩
  | cons loc ls ih =>
    obtain ⟨hloc, hnd⟩ := List.nodup_cons.1 hnd
    obtain ⟨hheap, hother⟩ := ih hnd (freeEntry s loc)
    have hrest : held (strAt (freeEntry s loc)) ls = held (strAt s) ls := by
      refine List.filterMap_congr fun l hl => ?_
      rw [strAt_freeEntry, Function.update_of_ne]
      rintro rfl
      exact hloc hl
    refine ⟨?_, fun l hl => ?_⟩
    · rw [List.foldl_cons, hheap, hrest, freeEntry_heap, Ledger.putAll, Ledger.putAll, Ledger.putAll, ← List.foldl_append]
      cases hstr : strAt s loc <;> simp [held, hstr]
    · rw [List.mem_cons, not_or] at hl
      rw [List.foldl_cons, hother l hl.2, strAt_freeEntry, Function.update_of_ne hl.1]

theorem destroyPlatformLocs_eq (s : PathSrv) : destroyPlatformLocs s = folders.foldl freeEntry s := by
  rw [destroyPlatformLocs, folders, List.foldl_filter]

/-! ## Querying -/

/-- the heap hands out memory that is not in use: no two strings share an address, and none has that of the game root -/
structure HeapOk (os : NkStdLocation → Answer) (gameRootDir : NkStringView) : Prop where
  ne_null : ∀ l addr n, hasFolderId l → os l = .path addr n → addr ≠ 0
  distinct : ∀ l l' addr n n', hasFolderId l → hasFolderId l' → os l = .path addr n → os l' = .path addr n' → l = l'
  ne_root : ∀ l addr n, hasFolderId l → os l = .path addr n → addr ≠ gameRootDir.dataPtr

/-- the query loop with the locations `rest` before it -/
structure Querying (os : NkStdLocation → Answer) (rest : List NkStdLocation) (s : PathSrv) : Prop where
  owns : s.heap.Owns (held (strAt s) folders)
  nodup : s.heap.got.Nodup
  source : ∀ p ∈ s.heap.got, ∃ l ∉ rest, hasFolderId l ∧ ∃ n, os l = .path p n
  empty : ∀ l ∈ rest, strAt s l = none
  game : ∀ l ∈ gameLocs, strAt s l = none

theorem querying_init (os : NkStdLocation → Answer) : Querying os stdLocations init :=
  ⟨Ledger.owns_new, List.nodup_nil, fun _ hp => absurd hp List.not_mem_nil, fun _ _ => rfl, fun _ _ => rfl⟩

/-- the system finds a path for the location and there is memory for it -/
def Found (os : NkStdLocation → Answer) (l : NkStdLocation) : Prop := ∃ addr n, os l = .path addr n

/-- a location without a folder id is passed over -/
theorem Querying.skip {os : NkStdLocation → Answer} {l : NkStdLocation} {rest : List NkStdLocation} {s : PathSrv}
    (h : Querying os (l :: rest) s) : Querying os rest s where
  owns := h.owns
  nodup := h.nodup
  source p hp := by
    obtain ⟨l', hl', hos⟩ := h.source p hp
    exact ⟨l', fun hin => hl' (List.mem_cons_of_mem l hin), hos⟩
  empty l' hl' := h.empty l' (List.mem_cons_of_mem l hl')
  game := h.game

theorem strAt_store (s : PathSrv) (l : NkStdLocation) {addr : ℕ} (size : ℕ) (heap : Ledger ℕ) (hne : addr ≠ 0) :
    strAt ⟨Function.update s.standardPaths l ⟨addr, size⟩, heap⟩ = Function.update (strAt s) l (some addr) := by
  funext x
  by_cases hx : x = l
  · subst hx
    simp [strAt, hne]
  · simp [strAt, hx]

theorem mem_folders {l : NkStdLocation} (h : hasFolderId l) : l ∈ folders := by
  revert h
  cases l <;> decide

theorem not_hasFolderId {l : NkStdLocation} (h : l ∈ gameLocs) : hasFolderId l = false := by
  revert h
  cases l <;> decide

/-- a path that was found is stored -/
theorem Querying.store {os : NkStdLocation → Answer} {root : NkStringView} {l : NkStdLocation} {rest : List NkStdLocation}
    {s : PathSrv} {addr n : ℕ} (hok : HeapOk os root) (hnd : (l :: rest).Nodup) (hid : hasFolderId l)
    (hos : os l = .path addr n) (h : Querying os (l :: rest) s) :
    Querying os rest ⟨Function.update s.standardPaths l ⟨addr, n - 1⟩, s.heap.get addr⟩ := by
  have hstr := strAt_store s l (n - 1) (s.heap.get addr) (hok.ne_null l addr n hid hos)
  have hempty : strAt s l = none := h.empty l List.mem_cons_self
  have hskip := h.skip
  have hlrest : l ∉ rest := (List.nodup_cons.1 hnd).1
  refine ⟨?_, ?_, ?_, ?_, ?_⟩
  · rw [hstr]
    exact (h.owns.get addr).perm (held_fill folders_nodup (mem_folders hid) hempty).symm
  · refine List.nodup_cons.2 ⟨fun hin => ?_, h.nodup⟩
    obtain ⟨l', hl', hid', n', hos'⟩ := h.source addr hin
    rw [hok.distinct l l' addr n n' hid hid' hos hos'] at hl'
    exact hl' List.mem_cons_self
  · intro p hp
    rcases List.mem_cons.1 hp with rfl | hp
    · exact ⟨l, hlrest, hid, n, hos⟩
    · exact hskip.source p hp
  · intro x hx
    have hne : x ≠ l := by
      rintro rfl
      exact hlrest hx
    rw [hstr, Function.update_of_ne hne]
    exact hskip.empty x hx
  · intro x hx
    have hne : x ≠ l := by
      rintro rfl
      rw [not_hasFolderId hx] at hid
      cases hid
    rw [hstr, Function.update_of_ne hne]
    exact h.game x hx

/-- the strings of a query that fails are all given back -/
theorem Querying.destroy {os : NkStdLocation → Answer} {rest : List NkStdLocation} {s : PathSrv} (h : Querying os rest s) :
    (destroyPlatformLocs s).heap.Owns [] ∧ (destroyPlatformLocs s).heap.got = s.heap.got := by
  rw [destroyPlatformLocs_eq, (freeAll_spec folders_nodup s).1, Ledger.owns_putAll, List.append_nil, Ledger.putAll_got]
  exact ⟨h.owns, rfl⟩

/-- how the query loop ends that has the locations `rest` before it: with all of them found, or at one that is not -/
def QueryEnds (os : NkStdLocation → Answer) (rest : List NkStdLocation) (r : NkErrorCode × PathSrv) : Prop :=
  (r.1 = .ok ∧ Querying os [] r.2 ∧ ∀ l ∈ rest, hasFolderId l → Found os l) ∨
    (r.1 ≠ .ok ∧ (∃ u t, Querying os u t ∧ r.2 = destroyPlatformLocs t) ∧ ∃ l ∈ rest, hasFolderId l ∧ ¬ Found os l)

theorem QueryEnds.cons {os : NkStdLocation → Answer} {l : NkStdLocation} {rest : List NkStdLocation}
    {r : NkErrorCode × PathSrv} (h : QueryEnds os rest r) (hl : hasFolderId l → Found os l) : QueryEnds os (l :: rest) r := by
  rcases h with ⟨hr, hq, hall⟩ | ⟨hr, hq, x, hx, hxf⟩
  · refine Or.inl ⟨hr, hq, fun x hx hxid => ?_⟩
    rcases List.mem_cons.1 hx with rfl | hx
    · exact hl hxid
    · exact hall x hx hxid
  · exact Or.inr ⟨hr, hq, x, List.mem_cons_of_mem l hx, hxf⟩

theorem queryLocs_spec {os : NkStdLocation → Answer} {root : NkStringView} (hok : HeapOk os root) {rest : List NkStdLocation}
    {s : PathSrv} (hnd : rest.Nodup) (h : Querying os rest s) : QueryEnds os rest (queryLocs os rest s) := by
  induction rest generalizing s with
  | nil => exact Or.inl ⟨rfl, h, fun _ hl => absurd hl List.not_mem_nil⟩
  | cons l rest ih =>
    have hnd' : rest.Nodup := (List.nodup_cons.1 hnd).2
    by_cases hid : hasFolderId l
    · have hfails : ∀ e, e ≠ .ok → ¬ Found os l → QueryEnds os (l :: rest) (e, destroyPlatformLocs s) := fun e he hf =>
        Or.inr ⟨he, ⟨l :: rest, s, h, rfl⟩, l, List.mem_cons_self, hid, hf⟩
      rw [queryLocs, if_pos hid]
      cases hos : os l with
      | noPath => exact hfails .queryStdLocation (by decide) (by simp [Found, hos])
      | noMemory => exact hfails .memoryAllocation (by decide) (by simp [Found, hos])
      | path addr n => exact (ih hnd' (h.store hok hnd hid hos)).cons fun _ => ⟨addr, n, hos⟩
    · rw [queryLocs, if_neg hid]
      exact (ih hnd' h.skip).cons fun hid' => absurd hid' hid

/-! ## The life of the service -/

/-- the game-path loop sets the game root and nothing else -/
theorem gameEntries_eq {s : PathSrv} (root : NkStringView) (hgame : ∀ l ∈ gameLocs, strAt s l = none) :
    gameLocs.foldl (gameEntry root) s = { s with standardPaths := Function.update s.standardPaths gameRoot root } := by
  have hnull : ∀ l ∈ gameLocs, (s.standardPaths l).dataPtr = 0 := fun l hl => by
    by_contra hne
    have := hgame l hl
    rw [strAt, if_neg hne] at this
    cases this
  have hskip : ∀ l t, l ≠ gameRoot → gameEntry root t l = t := fun l t hl => by
    simp [gameEntry, hl]
  have hroot : gameEntry root s gameRoot = { s with standardPaths := Function.update s.standardPaths gameRoot root } := by
    simp [gameEntry, hnull gameRoot (by decide)]
  simp only [gameLocs, List.foldl_cons, List.foldl_nil]
  rw [hskip gameSaves _ (by decide), hroot]
  simp [hskip]

/-- what the path service frees is what it allocated, each string once, and the application's game root is not freed -/
def OwnPaths (os : NkStdLocation → Answer) (root : NkStringView) : Prop :=
  (lifetime os root).heap.freed.Perm (lifetime os root).heap.got ∧ (lifetime os root).heap.freed.Nodup ∧
    root.dataPtr ∉ (lifetime os root).heap.freed

/-- shutdown gives back the strings of the known folders, and that of the game root as well -/
theorem shutdown_heap {os : NkStdLocation → Answer} {s : PathSrv} (root : NkStringView) (h : Querying os [] s) :
    (shutdown (gameLocs.foldl (gameEntry root) s)).heap =
      (s.heap.putAll (held (strAt s) folders)).putAll (if root.dataPtr = 0 then [] else [root.dataPtr]) := by
  rw [gameEntries_eq root h.game, shutdown, destroyPlatformLocs_eq]
  set t : PathSrv := { s with standardPaths := Function.update s.standardPaths gameRoot root } with ht
  have hother : ∀ l, l ≠ gameRoot → strAt t l = strAt s l := fun l hl => by simp [strAt, ht, hl]
  obtain ⟨hheap, hkeep⟩ := freeAll_spec folders_nodup t
  have hfolders : held (strAt t) folders = held (strAt s) folders := by
    refine List.filterMap_congr fun l hl => hother l ?_
    rintro rfl
    exact absurd hl (by decide)
  have hgame : held (strAt (folders.foldl freeEntry t)) gameLocs = held (strAt t) gameLocs :=
    List.filterMap_congr fun l hl => hkeep l (by revert hl; cases l <;> decide)
  have hroot : held (strAt t) gameLocs = (strAt t gameRoot).toList :=
    held_single (by decide) (by decide) fun l hl hne => (hother l hne).trans (h.game l hl)
  rw [(freeAll_spec (by decide) _).1, hheap, hfolders, hgame, hroot]
  by_cases hp : root.dataPtr = 0 <;> simp [strAt, ht, hp]

/-- a service that was shut down has given back its own strings only if there was no game root -/
theorem shutdown_owns {os : NkStdLocation → Answer} {s : PathSrv} (root : NkStringView) (h : Querying os [] s) :
    (shutdown (gameLocs.foldl (gameEntry root) s)).heap.Owns [] ↔ root.dataPtr = 0 := by
  rw [shutdown_heap root h, Ledger.owns_putAll, Ledger.owns_putAll, List.append_nil]
  by_cases hroot : root.dataPtr = 0
  · simp only [hroot, if_true, List.append_nil, iff_true]
    exact h.owns
  · simp only [hroot, if_false, iff_false]
    intro h'
    have hlen := (h.owns.unique h').length_eq
    simp at hlen

/-- balanced books of addresses that the system found are those of `OwnPaths` -/
theorem own_of_owns {os : NkStdLocation → Answer} {root : NkStringView} (hok : HeapOk os root) {rest : List NkStdLocation}
    {s : PathSrv} (hq : Querying os rest s) {heap : Ledger ℕ} (hgot : heap.got = s.heap.got) (h : heap.Owns []) :
    heap.freed.Perm heap.got ∧ heap.freed.Nodup ∧ root.dataPtr ∉ heap.freed := by
  have hperm := Ledger.owns_nil.1 h
  refine ⟨hperm.symm, hperm.nodup_iff.1 (hgot ▸ hq.nodup), fun hin => ?_⟩
  have hin' : root.dataPtr ∈ s.heap.got := hgot ▸ hperm.mem_iff.2 hin
  obtain ⟨l, -, hid, n, hos⟩ := hq.source _ hin'
  exact hok.ne_root l _ n hid hos rfl

theorem lifetime_eq (os : NkStdLocation → Answer) (root : NkStringView) :
    lifetime os root =
      if (queryPlatformLocs os init).1 = .ok then shutdown (gameLocs.foldl (gameEntry root) (queryPlatformLocs os init).2)
      else (queryPlatformLocs os init).2 := by
  rw [lifetime, startup]
  rcases queryPlatformLocs os init with ⟨e, s⟩
  cases e <;> rfl

/-- the books balance if and only if start-up fails or the application has no game root -/
theorem ownPaths_iff (os : NkStdLocation → Answer) (root : NkStringView) (hok : HeapOk os root) :
    OwnPaths os root ↔ (∃ l, hasFolderId l ∧ ¬ Found os l) ∨ root.dataPtr = 0 := by
  rw [OwnPaths, lifetime_eq]
  rcases queryLocs_spec hok (by decide) (querying_init os) with ⟨hr, hq, hall⟩ | ⟨he, ⟨u, t, hq, hs⟩, l, -, hl⟩
  · have hno : ¬ ∃ l, hasFolderId l ∧ ¬ Found os l := by
      rintro ⟨l, hid, hl⟩
      exact hl (hall l (by cases l <;> decide) hid)
    rw [or_iff_right hno, queryPlatformLocs, if_pos hr, ← shutdown_owns root hq]
    refine ⟨fun h => Ledger.owns_nil.2 h.1.symm, fun h => own_of_owns hok hq ?_ h⟩
    rw [shutdown_heap root hq, Ledger.putAll_got, Ledger.putAll_got]
  · obtain ⟨howns, hgot⟩ := hq.destroy
    rw [queryPlatformLocs, if_neg he, hs]
    exact iff_of_true (own_of_owns hok hq hgot howns) (Or.inl ⟨l, hl⟩)

/-- all folders at different addresses -/
def allFound : NkStdLocation → Answer
  | systemRoot => .path 16 11 | desktop => .path 32 11 | documents => .path 48 11 | home => .path 64 11
  | music => .path 80 11 | videos => .path 96 11 | downloads => .path 112 11 | fonts => .path 128 11
  | appData => .path 144 11 | appDir => .path 160 11 | _ => .noPath

theorem allFound_heapOk (root : NkStringView) (h : root.dataPtr = 0 ∨ 160 < root.dataPtr) : HeapOk allFound root := by
  refine ⟨?_, ?_, ?_⟩
  · intro l addr n hid
    cases l <;> simp [allFound] <;> omega
  · intro l l' addr n n' hid hid'
    cases l <;> cases l' <;> simp [allFound] <;> omega
  · intro l addr n hid
    cases l <;> simp [allFound] <;> omega

theorem ownPaths_noRoot : OwnPaths allFound ⟨0, 7⟩ :=
  (ownPaths_iff allFound ⟨0, 7⟩ (allFound_heapOk _ (Or.inl rfl))).2 (Or.inr rfl)

/-- a game root at 4096 is freed with the paths -/
theorem root_freed : HeapOk allFound ⟨4096, 12⟩ ∧ 4096 ∈ (lifetime allFound ⟨4096, 12⟩).heap.freed ∧
    ¬ OwnPaths allFound ⟨4096, 12⟩ := by
  have hfreed : 4096 ∈ (lifetime allFound ⟨4096, 12⟩).heap.freed := by decide
  exact ⟨allFound_heapOk _ (Or.inr (by decide)), hfreed, fun h => h.2.2 hfreed⟩

end Path

end Noriko
