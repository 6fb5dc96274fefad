/-
  MfsMaster.Data.HashTables
  **THE TABLES OF CHUNKS, NODES AND EDGES ARE FINITE MAPS** (`chunks.c`, `filesystem.c`).

  The three tables are one algorithm with three hashes (`Lib.HashMap`).  In front of the
  table of chunks stands a cache of one entry, `lastchunkid` and `lastchunkptr`.  An empty
  cache is the pair of 0 and `NULL`: it answers a look-up of chunk 0 as well.

      hash_tables_are_maps — look-ups, chains and counters of the three tables, over all
                             runs without a chunk 0
-/
import MfsMaster.Chunk.Disconnect
import MfsMaster.Types

namespace MfsMaster

open Lib (HashConf HashEvent HashTab run)

/-! ## §1. The tables of nodes and edges. -/

/-- `HASHTAB_MOVEFACTOR`. -/
def hashtabMovefactor : Nat := 5

/-- The loop of `fsnodes_calc_hash_size`; an element count has 32 bits. -/
def calcHashSizeLoop : Nat → Nat → Nat → Nat
  | 0, _, res => res
  | fuel + 1, elements, res =>
    if elements = 0 then res else calcHashSizeLoop fuel (elements / 2) (2 * (res % 2 ^ 31))

/-- `fsnodes_calc_hash_size`. -/
def fsnodesCalcHashSize (elements : UInt32) : Nat :=
  let res := calcHashSizeLoop 32 elements.toNat 1
  let res := if res = 0 then 0x80000000 else res
  if res < hashtabLosize then hashtabLosize else res

/-- `fsnodes_hash`. -/
def fsnodesHash (parentid : UInt32) (name : Name) : UInt32 :=
  name.foldl (fun hash c => hash * 33 + c.toUInt32)
    (parentid * 0x5F2318BD + UInt32.ofNat name.length)

theorem calcHashSizeLoop_even (fuel elements res : Nat) :
    calcHashSizeLoop fuel elements res = res ∨ calcHashSizeLoop fuel elements res % 2 = 0 := by
  induction fuel generalizing elements res with
  | zero => exact .inl rfl
  | succ fuel ih =>
    unfold calcHashSizeLoop
    split
    · exact .inl rfl
    rcases ih (elements / 2) (2 * (res % 2 ^ 31)) with heq | heven
    · exact .inr (by omega)
    · exact .inr heven

theorem fsnodesCalcHashSize_even {elements : UInt32} :
    2 * (fsnodesCalcHashSize elements / 2) = fsnodesCalcHashSize elements
      ∧ 0 < fsnodesCalcHashSize elements := by
  have hloop := calcHashSizeLoop_even 32 elements.toNat 1
  unfold fsnodesCalcHashSize hashtabLosize
  dsimp only
  generalize calcHashSizeLoop 32 elements.toNat 1 = res at hloop ⊢
  split <;> split at * <;> omega

/-- The table of nodes; `hashelements` is the number of elements that was expected. -/
def nodeTab (hashelements : UInt32) : HashConf Nat :=
  { hash := fun inode => (hash32 (UInt32.ofNat inode)).toNat, factor := hashtabMovefactor
    first := fsnodesCalcHashSize hashelements, grows := hashtabGrows
    even := fsnodesCalcHashSize_even.1
    pos := fsnodesCalcHashSize_even.2 }

/-- The table of edges, by parent and name. -/
def edgeTab (hashelements : UInt32) : HashConf (Nat × Name) :=
  { nodeTab hashelements with
    hash := fun key => (fsnodesHash (UInt32.ofNat key.1) key.2).toNat }

/-! ## §2. The cache of the table of chunks. -/

/-- The table of chunks with its cache, beside the numbers that were added and not deleted since.
A chunk stands for the pointer to it. -/
structure ChunkFinder where
  tab : HashTab Nat
  stored : Finset Nat
  lastchunkid : Nat
  lastchunkptr : Option Nat

variable {s : ChunkFinder}

namespace ChunkFinder

def init : ChunkFinder :=
  { tab := HashConf.init, stored := ∅, lastchunkid := 0, lastchunkptr := none }

variable (s)

/-- `chunk_new`. -/
def chunkNew (chunkid : Nat) (junk : Nat → List Nat) : ChunkFinder :=
  { tab := chunkTab.add junk s.tab chunkid, stored := insert chunkid s.stored
    lastchunkid := chunkid, lastchunkptr := some chunkid }

/-- `chunk_find`. -/
def chunkFind (chunkid : Nat) : ChunkFinder × Option Nat :=
  if s.lastchunkid = chunkid then (s, s.lastchunkptr)
  else
    let (tab, found) := chunkTab.find s.tab chunkid
    if found then
      ({ s with tab := tab, lastchunkid := chunkid, lastchunkptr := some chunkid }, some chunkid)
    else ({ s with tab := tab }, none)

/-- `chunk_delete`. -/
def chunkDelete (chunkid : Nat) : ChunkFinder :=
  let s :=
    if s.lastchunkptr = some chunkid then { s with lastchunkid := 0, lastchunkptr := none } else s
  { s with tab := chunkTab.delete s.tab chunkid, stored := s.stored.erase chunkid }

def step : HashEvent Nat → ChunkFinder
  | .add chunkid junk => s.chunkNew chunkid junk
  | .find chunkid => (s.chunkFind chunkid).1
  | .delete chunkid => s.chunkDelete chunkid

/-- A chunk that is added is not there, can be counted, and is not chunk 0. -/
def Fresh : HashEvent Nat → Prop
  | .add chunkid _ => chunkid ≠ 0 ∧ chunkid ∉ s.stored ∧ s.stored.card + 1 < 2 ^ 32
  | _ => True

variable {s}

instance (s : ChunkFinder) : (e : HashEvent Nat) → Decidable (s.Fresh e)
  | .add .. => inferInstanceAs (Decidable (_ ∧ _ ∧ _))
  | .find _ | .delete _ => isTrue trivial

/-- The cache has a chunk of the table, or nothing under number 0. -/
structure Inv (s : ChunkFinder) : Prop where
  stores : chunkTab.Stores s.tab s.stored
  nonzero : 0 ∉ s.stored
  last : ∀ chunkid, s.lastchunkptr = some chunkid → chunkid = s.lastchunkid ∧ chunkid ∈ s.stored
  empty : s.lastchunkptr = none → s.lastchunkid = 0

/-- **The cache answers as the table does.** -/
theorem Inv.chunkFind (h : s.Inv) {chunkid : Nat} :
    (s.chunkFind chunkid).1.Inv
      ∧ (s.chunkFind chunkid).2 = if chunkid ∈ s.stored then some chunkid else none := by
  unfold ChunkFinder.chunkFind
  split
  next hlast =>
    refine ⟨h, ?_⟩
    cases hptr : s.lastchunkptr with
    | none =>
      have hzero : chunkid = 0 := hlast.symm.trans (h.empty hptr)
      rw [if_neg (hzero ▸ h.nonzero)]
    | some c =>
      obtain ⟨hid, hmem⟩ := h.last c hptr
      have heq : c = chunkid := hid.trans hlast
      rw [if_pos (heq ▸ hmem), heq]
  · obtain ⟨hstores, hfound⟩ := HashConf.find_spec h.stores
    dsimp only
    split
    next hin =>
      have hmem := hfound.mp hin
      rw [if_pos hmem]
      refine ⟨⟨hstores, h.nonzero, fun c hc => ?_, nofun⟩, rfl⟩
      cases hc
      exact ⟨rfl, hmem⟩
    next hout =>
      rw [if_neg fun hmem => hout (hfound.mpr hmem)]
      exact ⟨⟨hstores, h.nonzero, h.last, h.empty⟩, rfl⟩

theorem Inv.chunkDelete (h : s.Inv) {chunkid : Nat} : (s.chunkDelete chunkid).Inv := by
  have hnonzero : 0 ∉ s.stored.erase chunkid := fun hmem => h.nonzero (Finset.mem_of_mem_erase hmem)
  have hstores := HashConf.stores_delete h.stores chunkid
  unfold ChunkFinder.chunkDelete
  split
  · exact ⟨hstores, hnonzero, nofun, fun _ => rfl⟩
  next hother =>
    refine ⟨hstores, hnonzero, fun c hc => ?_, h.empty⟩
    obtain ⟨hid, hmem⟩ := h.last c hc
    exact ⟨hid, Finset.mem_erase.mpr ⟨fun heq => hother (heq ▸ hc), hmem⟩⟩

theorem Inv.step {s : ChunkFinder} (h : s.Inv) {e : HashEvent Nat} (he : s.Fresh e) :
    (s.step e).Inv := by
  cases e with
  | add chunkid junk =>
    obtain ⟨hne, hnew, hsmall⟩ := he
    refine ⟨HashConf.stores_add h.stores hnew hsmall, fun hmem => ?_, fun c hc => ?_, nofun⟩
    · rcases Finset.mem_insert.mp hmem with heq | hmem
      · exact hne heq.symm
      · exact h.nonzero hmem
    · cases hc
      exact ⟨rfl, Finset.mem_insert_self _ _⟩
  | find chunkid => exact h.chunkFind.1
  | delete chunkid => exact h.chunkDelete

theorem inv_init : init.Inv :=
  ⟨HashConf.stores_init, Finset.notMem_empty 0, nofun, fun _ => rfl⟩

end ChunkFinder

/-! ## §3. Runs. -/

/-- Every key of the set, and nothing else, is in a chain, once and in the chain its hash selects
at the present position of the rehash; the counter is their number. -/
structure HoldsKeys {κ : Type} (hash : κ → Nat) (t : HashTab κ) (stored : Finset κ) : Prop where
  present : ∀ k, k ∈ stored ↔ ∃ b < t.rehashpos, k ∈ t.bucket b
  homes : ∀ b < t.rehashpos, ∀ k ∈ t.bucket b, t.home hash k = b
  once : ∀ b < t.rehashpos, (t.bucket b).Nodup
  elem : t.elem = stored.card

theorem holdsKeys {κ : Type} {conf : HashConf κ} {t : HashTab κ} {stored : Finset κ}
    (h : conf.Stores t stored) : HoldsKeys conf.hash t stored :=
  ⟨fun k => (h.mem k).symm, h.wf.homes, h.wf.nodup, h.elem⟩

/-- The table holds the keys of the set, and look-ups find them. -/
def IsMap {κ : Type} [DecidableEq κ] (conf : HashConf κ) (s : HashTab κ × Finset κ) : Prop :=
  HoldsKeys conf.hash s.1 s.2 ∧ ∀ k, (conf.find s.1 k).2 = true ↔ k ∈ s.2

/-- **The three tables are finite maps** after every run in which keys that are added are new,
fewer than 2^32 are stored, and none of them is chunk 0. -/
theorem hash_tables_are_maps (hashelements : UInt32) (chunks nodes : List (HashEvent Nat))
    (edges : List (HashEvent (Nat × Name)))
    (hchunks : Lib.StepsMeet ChunkFinder.step ChunkFinder.Fresh .init chunks)
    (hnodes : Lib.StepsMeet (nodeTab hashelements).step HashConf.Fresh (HashConf.init, ∅) nodes)
    (hedges : Lib.StepsMeet (edgeTab hashelements).step HashConf.Fresh (HashConf.init, ∅) edges) :
    (HoldsKeys chunkHash (run ChunkFinder.step .init chunks).tab
        (run ChunkFinder.step .init chunks).stored
      ∧ ∀ k, ((run ChunkFinder.step .init chunks).chunkFind k).2
        = if k ∈ (run ChunkFinder.step .init chunks).stored then some k else none)
    ∧ IsMap (nodeTab hashelements) (run (nodeTab hashelements).step (HashConf.init, ∅) nodes)
    ∧ IsMap (edgeTab hashelements)
        (run (edgeTab hashelements).step (HashConf.init, ∅) edges) := by
  have hc : (run ChunkFinder.step .init chunks).Inv :=
    Lib.run_invariant (fun _ _ h he => h.step he) chunks _ ChunkFinder.inv_init hchunks
  have hn := HashConf.stores_run hnodes
  have he := HashConf.stores_run hedges
  exact ⟨⟨holdsKeys hc.stores, fun k => hc.chunkFind.2⟩,
    ⟨holdsKeys hn, fun k => (HashConf.find_spec hn).2⟩,
    ⟨holdsKeys he, fun k => (HashConf.find_spec he).2⟩⟩

/-- Two chunks, two nodes and an edge; one chunk is deleted again. -/
theorem hash_tables_small :
    let chunks : List (HashEvent Nat) := [.add 5 zeros, .add 6 zeros, .find 5, .delete 5]
    (((run ChunkFinder.step .init chunks).chunkFind 6).2 = some 6
      ∧ ((run ChunkFinder.step .init chunks).chunkFind 5).2 = none)
    ∧ ((nodeTab 0).find (run (nodeTab 0).step (HashConf.init, ∅) [.add 1 zeros, .add 2 zeros]).1 2).2
      = true
    ∧ ((edgeTab 0).find (run (edgeTab 0).step (HashConf.init, ∅)
      [.add (1, [97]) zeros]).1 (1, [97])).2 = true := by
  have h := hash_tables_are_maps 0 [.add 5 zeros, .add 6 zeros, .find 5, .delete 5]
    [.add 1 zeros, .add 2 zeros] [.add (1, [97]) zeros] (by decide) (by decide) (by decide)
  obtain ⟨⟨_, hchunks⟩, ⟨_, hnodes⟩, ⟨_, hedges⟩⟩ := h
  refine ⟨⟨?_, ?_⟩, (hnodes 2).mpr (by decide), (hedges (1, [97])).mpr (by decide)⟩
  · exact (hchunks 6).trans (by decide)
  · exact (hchunks 5).trans (by decide)

/-- A server reports chunk 0 as damaged, which adds it (`chunk_damaged`); then the chunk used last
is deleted.  Chunk 0 is still stored, and not found. -/
theorem chunk_zero_not_found :
    let s := run ChunkFinder.step .init [.add 0 zeros, .add 5 zeros, .delete 5]
    0 ∈ s.stored ∧ (s.chunkFind 0).2 = none := by
  decide

end MfsMaster
