/-
  MfsMaster.Chunk.Disconnect
  **SERVER NUMBERS ARE REUSED ONLY WHEN NO CHUNK MENTIONS THEM** (`chunks.c`).

  A chunk server has a number (`csid`) while it is connected.  After it disconnected its
  entries stay in the chunk records until `chunk_server_disconnection_loop` has gone
  through the whole table of chunks, a few buckets at a time; then the number is appended
  to the free list.  Meanwhile chunks are looked up, added and moved between the old and
  the new half of the table, servers connect and disconnect.

  The loop follows the chain of a bucket through its pointers.  Dropping the entries of a
  lost server may end an operation of the chunk, and then requests that waited for it are
  tried again within the loop; their look-ups may split the very bucket that is walked.
  If the next chunk goes to the new half, the rest of the old chain is never visited.

      chunkTab              — the table of chunks (`Lib.HashMap`)
      DiscState.step        — all that happens to numbers and table
      free_csid_unmentioned — in every run in which the buckets that are walked are not split
      pass_ends             — a pass that is left alone ends
      free_csid_missed      — number 0 becomes free while a chunk mentions it
-/
import MfsMaster.Chunk.Control
import MfsMaster.Lib.HashMap

namespace MfsMaster

open Lib (HashConf HashTab run)

/-! ## §1. The table of chunks. -/

/-- `hash32`. -/
def hash32 (key : UInt32) : UInt32 :=
  let key := ~~~key + (key <<< 15)
  let key := key ^^^ (key >>> 12)
  let key := key + (key <<< 2)
  let key := key ^^^ (key >>> 4)
  let key := key * 2057
  key ^^^ (key >>> 16)

/-- The hash of a chunk; the upper half of the number is not used. -/
def chunkHash (chunkid : Nat) : Nat := (hash32 (UInt32.ofNat chunkid)).toNat

/-- `HASHTAB_LOSIZE`. -/
def hashtabLosize : Nat := 2 ^ 24

/-- `HASHTAB_HISIZE`. -/
def hashtabHisize : Nat := 0x80000000 / hashtabLosize

/-- `CHUNKHASH_MOVEFACTOR`. -/
def chunkhashMovefactor : Nat := 5

/-- `(size>>HASHTAB_LOBITS)<HASHTAB_HISIZE`. -/
def hashtabGrows (size : Nat) : Bool := size / hashtabLosize < hashtabHisize

/-- The table of chunks: `chunk_hash_find`, `chunk_hash_add` and `chunk_hash_delete` are the calls
of `Lib.HashMap`. -/
def chunkTab : HashConf Nat :=
  { hash := chunkHash, factor := chunkhashMovefactor, first := hashtabLosize
    grows := hashtabGrows, even := by decide, pos := by decide }

/-- Memory that held zeros. -/
def zeros {κ : Type} : Nat → List κ := fun _ => []

/-! ## §2. Dropping the entries of lost servers. -/

/-- The beginning of `chunk_remove_disconnected_chunks`, up to the end of an operation; `true`
when the operation of the chunk is to be ended. -/
def dropEntries (valid : Nat → Bool) (c : Chunk) : Chunk × Bool :=
  if c.slist.all fun s => valid s.csid then (c, false)
  else
    let c := { c with slist := c.slist.filter fun s => valid s.csid, needverincrease := true }
    if c.operation = .none then (chunkStateFix c, false)
    else if c.slist.any fun s => s.valid.pending then
      (chunkStateFix { c with interrupted := c.interrupted || !isReplication c.operation }, false)
    else (c, true)

theorem slist_dropEntries (valid : Nat → Bool) (c : Chunk) :
    (dropEntries valid c).1.slist = c.slist.filter fun s => valid s.csid := by
  unfold dropEntries
  split
  next hall => exact (List.filter_eq_self.mpr (List.all_eq_true.mp hall)).symm
  dsimp only
  split
  · rfl
  split <;> rfl

/-! ## §3. States and events. -/

/-- Numbers, chunks and the position of the loop; `walk` is the variable `cn` while a bucket is
walked, `ended` says that the last visit ended an operation. -/
structure DiscState where
  table : HashTab Nat
  chunks : Nat → Option Chunk
  /-- `cstab[csid].valid`. -/
  valid : Nat → Bool
  /-- The list from `csfreehead` to `csfreetail`. -/
  free : List Nat
  discservers : List Nat
  discserversNext : List Nat
  discserverspos : Nat
  walk : Option (Option Nat)
  ended : Bool

inductive DiscEvent where
  /-- `chunk_server_connected`. -/
  | connected
  /-- `chunk_server_disconnected`. -/
  | disconnected (csid : Nat)
  /-- `chunk_find` of a chunk that was not the last one. -/
  | find (chunkid : Nat)
  /-- `chunk_new`; `junk` is what the memory of a new half of the table holds. -/
  | add (chunkid : Nat) (junk : Nat → List Nat)
  /-- Some function changes the record of a chunk. -/
  | change (chunkid : Nat) (c : Chunk)
  /-- `chunk_delete`. -/
  | delete (chunkid : Nat)
  /-- The next bit of `chunk_server_disconnection_loop`. -/
  | loop

variable {chunkid k : Nat} {s : DiscState}

namespace DiscState

/-- The start of the master; `maxCsCount` is `MAXCSCOUNT`. -/
def start (maxCsCount : Nat) : DiscState :=
  { table := HashConf.init, chunks := fun _ => none, valid := fun _ => false
    free := List.range maxCsCount, discservers := [], discserversNext := [], discserverspos := 0
    walk := none, ended := false }

/-- Functions other than the loop run between two buckets, or when a visit ended an operation
and waiting requests are tried again. -/
def othersRun (s : DiscState) : Bool := s.walk.isNone || s.ended

/-- A function may add entries of connected servers only. -/
def mayBecome (s : DiscState) (c c' : Chunk) : Bool :=
  c'.slist.all fun e => s.valid e.csid || c.slist.any fun e' => e'.csid == e.csid

def setChunk (s : DiscState) (chunkid : Nat) (c : Option Chunk) : DiscState :=
  { s with chunks := fun i => if i = chunkid then c else s.chunks i }

theorem chunks_setChunk_ne {i : Nat} {c : Option Chunk} (h : i ≠ chunkid) :
    (s.setChunk chunkid c).chunks i = s.chunks i := if_neg h

theorem chunks_setChunk_cases {o : Option Chunk} {c : Chunk}
    (h : (s.setChunk chunkid o).chunks k = some c) :
    (k = chunkid ∧ o = some c) ∨ s.chunks k = some c := by
  unfold setChunk at h
  dsimp only at h
  split at h
  next heq => exact .inl ⟨heq, h⟩
  · exact .inr h

variable (s)

/-- `chunk_server_connected`. -/
def chunkServerConnected : DiscState :=
  match s.free with
  | [] => s
  | csid :: rest =>
    { s with free := rest, valid := fun i => if i = csid then true else s.valid i }

/-- `chunk_server_disconnected`; the chunks with operations on the server are looked up and
changed by the events that follow. -/
def chunkServerDisconnected (csid : Nat) : DiscState :=
  { s with
    discserversNext := csid :: s.discserversNext
    valid := fun i => if i = csid then false else s.valid i }

/-- One visit of the loop: `cn=c->next; chunk_remove_disconnected_chunks(c)`. -/
def visit (chunkid : Nat) : DiscState :=
  match s.chunks chunkid with
  | none => { s with walk := some (s.table.next chunkHash chunkid), ended := false }
  | some c =>
    let d := dropEntries s.valid c
    { s.setChunk chunkid (some d.1) with
      walk := some (s.table.next chunkHash chunkid), ended := d.2 }

/-- The next bit of `chunk_server_disconnection_loop`: enter a bucket, visit a chunk, leave the
bucket, end the pass, or start the next one. -/
def loop : DiscState :=
  if s.discservers ≠ [] then
    match s.walk with
    | none =>
      if s.discserverspos < s.table.rehashpos then
        { s with walk := some (s.table.bucket s.discserverspos).head?, ended := false }
      else
        -- `chunk_server_remove_csid` for each of them
        { s with free := s.free ++ s.discservers, discservers := [] }
    | some (some chunkid) => s.visit chunkid
    | some none =>
      { s with walk := none, discserverspos := s.discserverspos + 1, ended := false }
  else if s.discserversNext ≠ [] then
    { s with discservers := s.discserversNext, discserversNext := [], discserverspos := 0 }
  else s

/-- One event; what cannot happen in the state leaves it as it is. -/
def step : DiscEvent → DiscState
  | .connected => if s.walk.isNone then s.chunkServerConnected else s
  | .disconnected csid =>
    if s.walk.isNone ∧ s.valid csid then s.chunkServerDisconnected csid else s
  | .find chunkid =>
    if s.othersRun then { s with table := (chunkTab.find s.table chunkid).1 } else s
  | .add chunkid junk =>
    if s.othersRun ∧ (s.chunks chunkid).isNone then
      { s.setChunk chunkid (some chunkNew) with table := chunkTab.add junk s.table chunkid }
    else s
  | .change chunkid c' =>
    match s.chunks chunkid with
    | none => s
    | some c => if s.othersRun ∧ s.mayBecome c c' then s.setChunk chunkid (some c') else s
  | .delete chunkid =>
    match s.chunks chunkid with
    | none => s
    | some c =>
      -- `chunk_counters_in_progress()==0`
      if s.walk.isNone ∧ s.discservers = [] ∧ s.discserversNext = [] ∧ c.slist = [] then
        { s.setChunk chunkid none with table := chunkTab.delete s.table chunkid }
      else s
  | .loop => s.loop

/-- No chunk of the table has an entry of a number in the free list. -/
def Unmentioned : Prop :=
  ∀ csid ∈ s.free, ∀ chunkid c, s.table.Mem chunkid → s.chunks chunkid = some c →
    ∀ e ∈ c.slist, e.csid ≠ csid

/-- The chunk has no entry of the servers that the pass is about. -/
def Clean (chunkid : Nat) : Prop :=
  ∀ c, s.chunks chunkid = some c → ∀ e ∈ c.slist, e.csid ∉ s.discservers

/-- A look-up or an addition within the loop does not split the bucket that is walked. -/
def Calm : DiscEvent → Prop
  | .find _ | .add _ _ =>
    s.walk ≠ none → HashTab.Untouched chunkhashMovefactor s.table s.discserverspos
  | _ => True

/-! ## §4. The invariant. -/

variable {s}

structure Inv (s : DiscState) : Prop where
  wf : s.table.Wf chunkHash
  known : ∀ chunkid, s.table.Mem chunkid → s.chunks chunkid ≠ none
  idle : s.discservers = [] → s.walk = none
  freeInvalid : ∀ csid ∈ s.free, s.valid csid = false
  discInvalid : ∀ csid ∈ s.discservers ++ s.discserversNext, s.valid csid = false
  nodup : (s.free ++ (s.discservers ++ s.discserversNext)).Nodup
  unmentioned : s.Unmentioned
  covered : s.discservers ≠ [] → HashTab.Covered s.table s.discserverspos s.walk s.Clean

theorem inv_start {maxCsCount : Nat} : Inv (start maxCsCount) where
  wf := (HashConf.stores_init : chunkTab.Stores _ _).wf
  known := fun _ h => by
    obtain ⟨b, hb, _⟩ := h
    cases hb
  idle := fun _ => rfl
  freeInvalid := fun _ _ => rfl
  discInvalid := nofun
  nodup := by
    show (List.range maxCsCount ++ []).Nodup
    rw [List.append_nil]
    exact List.nodup_range
  unmentioned := fun _ _ _ _ _ hc => by cases hc
  covered := fun h => absurd rfl h

/-! ### Events of the table. -/

theorem inv_find (h : Inv s)
    (hcalm : s.walk ≠ none → HashTab.Untouched chunkhashMovefactor s.table s.discserverspos) :
    Inv { s with table := (chunkTab.find s.table chunkid).1 } := by
  have hfind : (chunkTab.find s.table chunkid).1 = s.table
      ∨ (chunkTab.find s.table chunkid).1 = chunkTab.advance s.table := by
    unfold HashConf.find
    split
    · exact .inl rfl
    · exact .inr rfl
  rcases hfind with hsame | hadv
  · rw [hsame]
    exact h
  rw [hadv]
  have hold : s.table.Wf chunkTab.hash := h.wf
  obtain ⟨hwf, hmem, _⟩ := HashConf.advance_spec hold
  exact
    { wf := hwf
      known := fun k hk => h.known k ((hmem k).mp hk)
      idle := h.idle
      freeInvalid := h.freeInvalid
      discInvalid := h.discInvalid
      nodup := h.nodup
      unmentioned := fun csid hcsid k c hk => h.unmentioned csid hcsid k c ((hmem k).mp hk)
      covered := fun hdisc =>
        HashConf.covered_advance hold (by decide) (h.covered hdisc) hcalm }

theorem inv_add (h : Inv s) {junk : Nat → List Nat} (hnone : s.chunks chunkid = none)
    (hcalm : s.walk ≠ none → HashTab.Untouched chunkhashMovefactor s.table s.discserverspos) :
    Inv { s.setChunk chunkid (some chunkNew) with table := chunkTab.add junk s.table chunkid } := by
  have hnew : ¬ s.table.Mem chunkid := fun hk => h.known chunkid hk hnone
  have hold : s.table.Wf chunkTab.hash := h.wf
  obtain ⟨hwf, hmem, hcov⟩ := HashConf.add_spec hold hnew junk
  have hrecord : ∀ k c, (s.setChunk chunkid (some chunkNew)).chunks k = some c →
      c.slist = [] ∨ s.chunks k = some c := by
    intro k c hc
    refine (chunks_setChunk_cases hc).imp_left fun hnew => ?_
    cases hnew.2
    rfl
  refine ⟨hwf, fun k hk => ?_, h.idle, h.freeInvalid, h.discInvalid, h.nodup,
    fun csid hcsid k c hk hc e he => ?_, fun hdisc => ?_⟩
  · show (if k = chunkid then some chunkNew else s.chunks k) ≠ none
    split
    · exact nofun
    next hne => exact h.known k (((hmem k).mp hk).resolve_left hne)
  · rcases hrecord k c hc with hnil | hold
    · rw [hnil] at he
      cases he
    rcases (hmem k).mp hk with rfl | hk
    · rw [hnone] at hold
      cases hold
    · exact h.unmentioned csid hcsid k c hk hold e he
  · refine hcov (by decide) _ _ _ ((h.covered hdisc).mono fun k _ hclean c hc e he => ?_)
      (fun c hc e he => ?_) hcalm
    · rcases hrecord k c hc with hnil | hc
      · rw [hnil] at he
        cases he
      · exact hclean c hc e he
    · rcases hrecord chunkid c hc with hnil | hold
      · rw [hnil] at he
        cases he
      · rw [hnone] at hold
        cases hold

/-! ### Records. -/

theorem inv_change (h : Inv s) {c c' : Chunk} (hc : s.chunks chunkid = some c)
    (hmay : s.mayBecome c c' = true) : Inv (s.setChunk chunkid (some c')) := by
  -- an entry of the new record is one of the old, or of a connected server
  have hentry : ∀ e ∈ c'.slist, s.valid e.csid = true ∨ ∃ e' ∈ c.slist, e'.csid = e.csid := by
    intro e he
    rcases Bool.or_eq_true _ _ ▸ List.all_eq_true.mp hmay e he with hvalid | hold
    · exact .inl hvalid
    · obtain ⟨e', he', heq⟩ := List.any_eq_true.mp hold
      exact .inr ⟨e', he', beq_iff_eq.mp heq⟩
  refine ⟨h.wf, fun k hk => ?_, h.idle, h.freeInvalid, h.discInvalid, h.nodup,
    fun csid hcsid k c'' hk hc'' e he => ?_, fun hdisc => ?_⟩
  · show (if k = chunkid then some c' else s.chunks k) ≠ none
    split
    · exact nofun
    · exact h.known k hk
  · rcases chunks_setChunk_cases hc'' with ⟨rfl, ⟨⟩⟩ | hc''
    · rcases hentry e he with hvalid | ⟨e', he', heq⟩
      · rintro rfl
        rw [h.freeInvalid _ hcsid] at hvalid
        cases hvalid
      · exact heq ▸ h.unmentioned csid hcsid k c hk hc e' he'
    · exact h.unmentioned csid hcsid k c'' hk hc'' e he
  · refine (h.covered hdisc).mono fun k _ hclean c'' hc'' e he => ?_
    rcases chunks_setChunk_cases hc'' with ⟨rfl, ⟨⟩⟩ | hc''
    · rcases hentry e he with hvalid | ⟨e', he', heq⟩
      · intro hin
        rw [h.discInvalid _ (List.mem_append_left _ hin)] at hvalid
        cases hvalid
      · exact heq ▸ hclean c hc e' he'
    · exact hclean c'' hc'' e he

theorem inv_delete (h : Inv s) {chunkid : Nat} (hdisc : s.discservers = []) :
    Inv { s.setChunk chunkid none with table := chunkTab.delete s.table chunkid } := by
  have hold : s.table.Wf chunkTab.hash := h.wf
  obtain ⟨hwf, hmem⟩ := HashConf.delete_spec (k := chunkid) hold
  have hrecord : ∀ k c, (s.setChunk chunkid none).chunks k = some c → s.chunks k = some c :=
    fun k c hc => (chunks_setChunk_cases hc).resolve_left fun hnew => nomatch hnew.2
  refine ⟨hwf, fun k hk => ?_, h.idle, h.freeInvalid, h.discInvalid, h.nodup,
    fun csid hcsid k c hk hc =>
      h.unmentioned csid hcsid k c ((hmem k).mp hk).2 (hrecord k c hc),
    fun hno => absurd hdisc hno⟩
  obtain ⟨hne, hk⟩ := (hmem k).mp hk
  show (if k = chunkid then none else s.chunks k) ≠ none
  rw [if_neg hne]
  exact h.known k hk

/-! ### Servers. -/

theorem inv_chunkServerConnected (h : Inv s) : Inv s.chunkServerConnected := by
  unfold chunkServerConnected
  split
  · exact h
  next csid rest hfree =>
  have hnodup := h.nodup
  rw [hfree, List.cons_append, List.nodup_cons] at hnodup
  have hin : ∀ i ∈ rest, i ∈ s.free := fun i hi => hfree ▸ List.mem_cons_of_mem _ hi
  refine ⟨h.wf, h.known, h.idle, fun i hi => ?_, fun i hi => ?_, hnodup.2,
    fun i hi => h.unmentioned i (hin i hi), h.covered⟩
  · show (if i = csid then true else s.valid i) = false
    rw [if_neg]
    · exact h.freeInvalid i (hin i hi)
    · rintro rfl
      exact hnodup.1 (List.mem_append_left _ hi)
  · show (if i = csid then true else s.valid i) = false
    rw [if_neg]
    · exact h.discInvalid i hi
    · rintro rfl
      exact hnodup.1 (List.mem_append_right _ hi)

theorem inv_chunkServerDisconnected (h : Inv s) {csid : Nat}
    (hvalid : s.valid csid = true) : Inv (s.chunkServerDisconnected csid) := by
  have hnew : csid ∉ s.free ++ (s.discservers ++ s.discserversNext) := by
    intro hin
    have hno : s.valid csid = false := by
      rcases List.mem_append.mp hin with hfree | hdisc
      · exact h.freeInvalid csid hfree
      · exact h.discInvalid csid hdisc
    rw [hno] at hvalid
    cases hvalid
  have hinvalid : ∀ i, s.valid i = false → (if i = csid then false else s.valid i) = false := by
    intro i hi
    split
    · rfl
    · exact hi
  have hperm : (s.free ++ (s.discservers ++ csid :: s.discserversNext)).Perm
      (csid :: (s.free ++ (s.discservers ++ s.discserversNext))) := by
    rw [← List.append_assoc, ← List.append_assoc]
    exact List.perm_middle
  refine ⟨h.wf, h.known, h.idle, fun i hi => hinvalid i (h.freeInvalid i hi), fun i hi => ?_,
    hperm.nodup_iff.mpr (List.nodup_cons.mpr ⟨hnew, h.nodup⟩), h.unmentioned, h.covered⟩
  have hi : i ∈ s.discservers ++ csid :: s.discserversNext := hi
  show (if i = csid then false else s.valid i) = false
  rw [List.mem_append, List.mem_cons] at hi
  by_cases heq : i = csid
  · rw [if_pos heq]
  rw [if_neg heq]
  refine h.discInvalid i (List.mem_append.mpr ?_)
  tauto

/-! ### The loop. -/

theorem inv_visit (h : Inv s) (hdisc : s.discservers ≠ [])
    (hwalk : s.walk = some (some chunkid)) : Inv (s.visit chunkid) := by
  have hcov := h.covered hdisc
  rw [hwalk] at hcov
  have hidle : s.discservers = [] → some (s.table.next chunkHash chunkid) = none :=
    fun hno => absurd hno hdisc
  unfold visit
  split
  next hnone =>
    have hmem : s.table.Mem chunkid := ⟨_, hcov.within nofun, hcov.pointer chunkid rfl⟩
    exact absurd hnone (h.known chunkid hmem)
  next c hc =>
  -- what is left are entries of connected servers
  have hleft : ∀ e ∈ (dropEntries s.valid c).1.slist, e ∈ c.slist ∧ s.valid e.csid = true := by
    intro e he
    rw [slist_dropEntries] at he
    exact ⟨(List.mem_filter.mp he).1, (List.mem_filter.mp he).2⟩
  have hmay : s.mayBecome c (dropEntries s.valid c).1 = true := by
    refine List.all_eq_true.mpr fun e he => ?_
    rw [(hleft e he).2, Bool.true_or]
  have hset := inv_change h hc hmay
  refine ⟨hset.wf, hset.known, hidle, hset.freeInvalid, hset.discInvalid, hset.nodup,
    hset.unmentioned, fun _ => ?_⟩
  have hcov' := hset.covered hdisc
  rw [show (s.setChunk chunkid (some (dropEntries s.valid c).1)).walk = some (some chunkid)
    from hwalk] at hcov'
  refine hcov'.visit h.wf fun c' hc' e he hin => ?_
  have hc' : (if chunkid = chunkid then some (dropEntries s.valid c).1 else s.chunks chunkid)
    = some c' := hc'
  rw [if_pos rfl] at hc'
  cases hc'
  have hvalid := (hleft e he).2
  rw [h.discInvalid _ (List.mem_append_left _ hin)] at hvalid
  cases hvalid

/-- **The loop frees only numbers that no chunk mentions.** -/
theorem inv_loop (h : Inv s) : Inv s.loop := by
  unfold loop
  split
  next hdisc =>
    have hcov := h.covered hdisc
    split
    next hwalk =>
      rw [hwalk] at hcov
      split
      next hlt =>
        exact ⟨h.wf, h.known, fun hno => absurd hno hdisc, h.freeInvalid, h.discInvalid, h.nodup,
          h.unmentioned, fun _ => hcov.enter hlt⟩
      next hend =>
      -- the end of the pass: every chunk is clean
      have hclean := hcov.done (Nat.not_lt.mp hend)
      refine ⟨h.wf, h.known, fun _ => hwalk, fun i hi => ?_, fun i hi => ?_, ?_,
        fun csid hcsid k c hk hc e he => ?_, fun hno => absurd rfl hno⟩
      · rcases List.mem_append.mp hi with hi | hi
        · exact h.freeInvalid i hi
        · exact h.discInvalid i (List.mem_append_left _ hi)
      · exact h.discInvalid i (List.mem_append_right _ hi)
      · have hnodup := h.nodup
        rw [← List.append_assoc] at hnodup
        exact hnodup
      rcases List.mem_append.mp hcsid with hfree | hin
      · exact h.unmentioned csid hfree k c hk hc e he
      · rintro rfl
        exact hclean k hk c hc e he hin
    next chunkid hwalk => exact inv_visit h hdisc hwalk
    next hwalk =>
      rw [hwalk] at hcov
      exact ⟨h.wf, h.known, fun _ => rfl, h.freeInvalid, h.discInvalid, h.nodup, h.unmentioned,
        fun _ => hcov.leave⟩
  next hdisc =>
    have hdisc : s.discservers = [] := not_not.mp hdisc
    have hwalk := h.idle hdisc
    split
    · have hnodup := h.nodup
      have hinvalid := h.discInvalid
      rw [hdisc, List.nil_append] at hnodup hinvalid
      refine ⟨h.wf, h.known, fun _ => hwalk, h.freeInvalid, fun i hi => ?_, ?_, h.unmentioned,
        fun _ => ?_⟩
      · exact hinvalid i (List.append_nil s.discserversNext ▸ hi)
      · show (s.free ++ (s.discserversNext ++ [])).Nodup
        rw [List.append_nil]
        exact hnodup
      show HashTab.Covered s.table 0 s.walk _
      rw [hwalk]
      exact HashTab.covered_start
    · exact h

theorem inv_step (h : Inv s) {e : DiscEvent} (hcalm : s.Calm e) : Inv (s.step e) := by
  cases e with
  | connected =>
    unfold step
    dsimp only
    split
    · exact inv_chunkServerConnected h
    · exact h
  | disconnected csid =>
    unfold step
    dsimp only
    split
    next hok => exact inv_chunkServerDisconnected h hok.2
    · exact h
  | find chunkid =>
    unfold step
    dsimp only
    split
    · exact inv_find h hcalm
    · exact h
  | add chunkid junk =>
    unfold step
    dsimp only
    split
    next hok => exact inv_add h (Option.isNone_iff_eq_none.mp hok.2) hcalm
    · exact h
  | change chunkid c' =>
    unfold step
    dsimp only
    split
    · exact h
    next c hc =>
      split
      next hok => exact inv_change h hc hok.2
      · exact h
  | delete chunkid =>
    unfold step
    dsimp only
    split
    · exact h
    split
    next hok => exact inv_delete h hok.2.1
    · exact h
  | loop => exact inv_loop h

/-! ## §5. A pass that is left alone. -/

/-- `n` bits of the loop. -/
def loops (s : DiscState) (n : Nat) : DiscState := run step s (List.replicate n .loop)

theorem loops_succ (n : Nat) : s.loops (n + 1) = s.loop.loops n := rfl

theorem loops_add (m n : Nat) : s.loops (m + n) = (s.loops m).loops n := by
  unfold loops run
  rw [List.replicate_add, List.foldl_append]

/-- What the walk of a bucket leaves as it is. -/
structure Passed (s s' : DiscState) : Prop where
  table : s'.table = s.table
  free : s'.free = s.free
  disc : s'.discservers = s.discservers
  chunks : ∀ k, k ∉ s.table.bucket s.discserverspos → s'.chunks k = s.chunks k

theorem loop_visit (hdisc : s.discservers ≠ []) (hwalk : s.walk = some (some chunkid))
    (hmem : chunkid ∈ s.table.bucket s.discserverspos) :
    Passed s s.loop ∧ s.loop.discserverspos = s.discserverspos
      ∧ s.loop.walk = some (s.table.next chunkHash chunkid) := by
  have hloop : s.loop = s.visit chunkid := by
    unfold loop
    rw [if_pos hdisc, hwalk]
  rw [hloop]
  unfold visit
  split
  · exact ⟨⟨rfl, rfl, rfl, fun _ _ => rfl⟩, rfl, rfl⟩
  · refine ⟨⟨rfl, rfl, rfl, fun k hk => chunks_setChunk_ne ?_⟩, rfl, rfl⟩
    rintro rfl
    exact hk hmem

/-- The rest of a bucket is walked to its end. -/
theorem bucket_ends (hwf : s.table.Wf chunkHash) (hdisc : s.discservers ≠ [])
    (hlt : s.discserverspos < s.table.rehashpos) (pre cs : List Nat)
    (hchain : s.table.bucket s.discserverspos = pre ++ cs) (hwalk : s.walk = some cs.head?) :
    ∃ n, Passed s (s.loops n) ∧ (s.loops n).discserverspos = s.discserverspos + 1
      ∧ (s.loops n).walk = none := by
  induction cs generalizing s pre with
  | nil =>
    have hloop : s.loop
        = { s with walk := none, discserverspos := s.discserverspos + 1, ended := false } := by
      unfold loop
      rw [if_pos hdisc, hwalk]
      rfl
    refine ⟨1, ?_⟩
    rw [loops_succ, hloop]
    exact ⟨⟨rfl, rfl, rfl, fun _ _ => rfl⟩, rfl, rfl⟩
  | cons c cs ih =>
    have hmem : c ∈ s.table.bucket s.discserverspos := by
      rw [hchain]
      exact List.mem_append_right _ List.mem_cons_self
    have hnext : s.table.next chunkHash c = cs.head? := by
      have hnodup := hwf.nodup _ hlt
      unfold HashTab.next
      rw [hwf.homes _ hlt c hmem, hchain]
      rw [hchain] at hnodup
      rw [HashTab.dropWhile_append_of_nodup hnodup]
      rfl
    obtain ⟨hpass, hpos, hwalk'⟩ := loop_visit hdisc hwalk hmem
    obtain ⟨n, hn, hend⟩ := ih (s := s.loop) (hpass.table ▸ hwf) (hpass.disc ▸ hdisc)
      (by rw [hpass.table, hpos]; exact hlt) (pre ++ [c])
      (by rw [hpass.table, hpos, hchain, List.append_assoc]; rfl) (hwalk'.trans (by rw [hnext]))
    refine ⟨n + 1, ⟨hn.table.trans hpass.table, hn.free.trans hpass.free,
      hn.disc.trans hpass.disc, fun k hk => ?_⟩, hpos ▸ hend⟩
    rw [loops_succ, hn.chunks k (by rw [hpass.table, hpos]; exact hk), hpass.chunks k hk]

/-- **A pass that is left alone ends**: its numbers are freed, and it changes the chunks of the
buckets it still had to walk only. -/
theorem pass_ends (hwf : s.table.Wf chunkHash) (hdisc : s.discservers ≠ []) (hwalk : s.walk = none) :
    ∃ n, (s.loops n).table = s.table ∧ (s.loops n).free = s.free ++ s.discservers
      ∧ ∀ k, (∀ b, s.discserverspos ≤ b → b < s.table.rehashpos → k ∉ s.table.bucket b) →
        (s.loops n).chunks k = s.chunks k := by
  -- on the number of buckets ahead
  generalize hahead : s.table.rehashpos - s.discserverspos = ahead
  induction ahead generalizing s with
  | zero =>
    have hloop : s.loop = { s with free := s.free ++ s.discservers, discservers := [] } := by
      unfold loop
      rw [if_pos hdisc, hwalk]
      exact if_neg (by omega)
    refine ⟨1, ?_⟩
    rw [loops_succ, hloop]
    exact ⟨rfl, rfl, fun _ _ => rfl⟩
  | succ ahead ih =>
    have hlt : s.discserverspos < s.table.rehashpos := by omega
    have hloop : s.loop
        = { s with walk := some (s.table.bucket s.discserverspos).head?, ended := false } := by
      unfold loop
      rw [if_pos hdisc, hwalk]
      exact if_pos hlt
    obtain ⟨m, hm, hpos, hwalk'⟩ := bucket_ends (s := s.loop) (by rwa [hloop]) (by rwa [hloop])
      (by rwa [hloop]) [] _ rfl (by rw [hloop])
    rw [hloop] at hm hpos hwalk'
    generalize hs' : ({ s with walk := _, ended := false } : DiscState).loops m = s'
      at hm hpos hwalk'
    obtain ⟨n, htable, hfree, hchunks⟩ := ih (s := s') (hm.table ▸ hwf) (hm.disc ▸ hdisc) hwalk'
      (by rw [hm.table, hpos]; dsimp only; omega)
    refine ⟨m + n + 1, ?_⟩
    rw [loops_succ, loops_add, hloop, hs']
    refine ⟨htable.trans hm.table, by rw [hfree, hm.free, hm.disc], fun k hk => ?_⟩
    rw [hchunks k, hm.chunks k (hk _ le_rfl hlt)]
    rw [hm.table, hpos]
    exact fun b hb => hk b (Nat.le_of_succ_le hb)

/-! ## §6. Runs. -/

theorem inv_run {maxCsCount : Nat} {es : List DiscEvent}
    (hcalm : Lib.StepsMeet step Calm (start maxCsCount) es) :
    Inv (run step (start maxCsCount) es) := by
  have hrun : ∀ (es : List DiscEvent) (s : DiscState), s.Inv →
      Lib.StepsMeet step Calm s es → (run step s es).Inv :=
    Lib.run_invariant fun _ _ h hcalm => inv_step h hcalm
  exact hrun es _ inv_start hcalm

end DiscState

/-- **A number in the free list is mentioned by no chunk**, after every run in which look-ups and
additions within the loop do not split the bucket that is walked. -/
theorem free_csid_unmentioned (maxCsCount : Nat) (es : List DiscEvent)
    (hcalm : Lib.StepsMeet DiscState.step DiscState.Calm (.start maxCsCount) es) :
    (run DiscState.step (.start maxCsCount) es).Unmentioned :=
  (DiscState.inv_run hcalm).unmentioned

namespace DiscState

/-- A chunk of the first bucket. -/
def ending : Nat := 3221192703

/-- Its record: a copy on server 0 is replicated to server 1, where the new copy was reported
damaged. -/
def endingChunk : Chunk :=
  { chunkNew with
    version := 1, sclassid := 2, fhead := .few 1, operation := .replicate
    slist := [⟨0, .valid, 0, 1⟩, ⟨1, .invalid, 0, 0⟩] }

/-- Server 0 is lost while the chunk is replicated from it.  The visit ends the replication, and
a client that waited looks the chunk up. -/
def servedWithin : List DiscEvent :=
  [.connected, .connected, .add ending zeros, .change ending endingChunk, .disconnected 0,
    .loop, .loop, .loop, .find ending, .loop]

theorem calm_servedWithin : Lib.StepsMeet step Calm (.start 3) servedWithin :=
  ⟨trivial, trivial, fun h => absurd rfl h, trivial, trivial, trivial, trivial, trivial,
    fun _ => .inl (by decide), trivial, trivial⟩

theorem calm_loops (n : Nat) : Lib.StepsMeet step Calm s (List.replicate n .loop) := by
  induction n generalizing s with
  | zero => trivial
  | succ n ih => exact ⟨trivial, ih⟩

end DiscState

/-- The rest of the pass frees the number of the lost server. -/
theorem free_csid_served_within : ∃ n,
    let es := DiscState.servedWithin ++ List.replicate n .loop
    (run DiscState.step (.start 3) es).free = [2, 0]
      ∧ (run DiscState.step (.start 3) es).Unmentioned := by
  obtain ⟨n, _, hfree, _⟩ := DiscState.pass_ends (DiscState.inv_run DiscState.calm_servedWithin).wf
    (by decide) (by decide)
  refine ⟨n, ?_, free_csid_unmentioned 3 _
    (Lib.stepsMeet_append DiscState.calm_servedWithin (DiscState.calm_loops n))⟩
  rw [Lib.run_append]
  exact hfree.trans (by decide)

/-! ## §7. A pass that misses a chunk.

The table has just started to grow.  Five chunks are in the first bucket, in this order:

    ending   hash 0        see `endingChunk`
    moving   hash 2^24     goes to the new half
    missed   hash 2^25     has a copy on server 0
    tail1, tail2           have no copies

Server 0 is lost.  The visit of `ending` ends its replication; a client that waited for it is
served, which looks the chunk up and splits the bucket.  The loop goes on with `moving`, which is
the only one in its new chain.  `missed` is never visited. -/

namespace DiscState

def moving : Nat := 996809067
def missed : Nat := 1848490778
def tail1 : Nat := 475788853
def tail2 : Nat := 2397314727

/-- A chunk with one copy, on server 0. -/
def missedChunk : Chunk :=
  { chunkNew with
    version := 1, sclassid := 2, fhead := .few 1, slist := [⟨0, .valid, 0, 1⟩] }

/-- Chunks that fill another bucket. -/
def filler (k : Nat) : Nat := 1 + k * 2 ^ 32

theorem chunkHash_filler (k : Nat) : chunkHash (filler k) = chunkHash 1 := by
  have hsame : UInt32.ofNat (filler k) = UInt32.ofNat 1 := by
    apply UInt32.toNat_inj.mp
    rw [UInt32.toNat_ofNat', UInt32.toNat_ofNat']
    unfold filler
    omega
  unfold chunkHash
  rw [hsame]

/-- The table after the chunks of `l` were made, the first one last, before it is full. -/
def filled (l : List Nat) : HashTab Nat :=
  { size := 2 ^ 24, rehashpos := 2 ^ 24, elem := l.length
    bucket := fun b => l.filter fun k => chunkHash k % 2 ^ 24 == b }

/-- Two servers are connected, and the table has the new chunks of `l`. -/
def made (t : HashTab Nat) (l free : List Nat) : DiscState :=
  { table := t, chunks := fun k => if k ∈ l then some chunkNew else none
    valid := fun csid => csid < 2, free := free, discservers := [], discserversNext := []
    discserverspos := 0, walk := none, ended := false }

variable {l : List Nat}

theorem home_filled : (filled l).home chunkHash k = chunkHash k % 2 ^ 24 :=
  if_neg (Nat.not_le.mpr (Nat.mod_lt _ (Nat.two_pow_pos 24)))

theorem insert_filled (hlen : l.length + 1 < 2 ^ 32) :
    chunkTab.insert (filled l) k = filled (k :: l) := by
  unfold HashConf.insert HashConf.setElem HashTab.insert
  rw [show (filled l).home chunkTab.hash k = _ from home_filled]
  unfold filled
  simp only [List.length_cons, Nat.mod_eq_of_lt hlen, HashTab.mk.injEq, true_and]
  funext b
  rw [List.filter_cons]
  by_cases hb : b = chunkHash k % 2 ^ 24
  · rw [if_pos hb, if_pos (beq_iff_eq.mpr hb.symm)]
  · rw [if_neg hb, if_neg (by simpa using Ne.symm hb)]

/-- A new chunk goes to its bucket; the table grows with the one that is too many. -/
theorem add_filled (hlen : l.length ≤ 2 ^ 24) : chunkTab.add zeros (filled l) k
      = if l.length < 2 ^ 24 then filled (k :: l)
        else HashConf.growInto zeros (filled (k :: l)) := by
  have hstart : chunkTab.start (filled l) = filled l := if_neg (by decide : 2 ^ 24 ≠ 0)
  unfold HashConf.add
  rw [hstart]
  dsimp only
  rw [if_neg (show ¬ (filled l).rehashpos < (filled l).size from lt_irrefl (2 ^ 24)),
    insert_filled (by omega)]
  have hgrows : chunkTab.grows (2 ^ 24) = true := by decide
  by_cases hlt : l.length < 2 ^ 24
  · rw [if_pos hlt, if_neg]
    rintro ⟨hfull, _⟩
    exact absurd hfull (Nat.not_lt.mpr hlt)
  · rw [if_neg hlt, if_pos ⟨Nat.lt_succ_of_le (Nat.not_lt.mp hlt), hgrows⟩]

theorem step_made (t : HashTab Nat) (free : List Nat) (hk : k ∉ l) :
    (made t l free).step (.add k zeros) = made (chunkTab.add zeros t k) (k :: l) free := by
  have hnone : ((made t l free).chunks k).isNone = true := by
    show (if k ∈ l then some chunkNew else none).isNone = true
    rw [if_neg hk]
    rfl
  unfold step
  dsimp only
  rw [if_pos ⟨rfl, hnone⟩]
  unfold setChunk made
  congr 1
  funext i
  by_cases hi : i = k <;> simp [hi]

/-- Any chunks can be made while the table is not full. -/
theorem exists_made (m k : Nat) (hl : (l ++ [k]).Nodup) (hlen : l.length < 2 ^ 24) :
    ∃ es, run step (start (m + 2)) es
      = made (filled (l ++ [k])) (l ++ [k]) (List.range' 2 m) := by
  induction l with
  | nil =>
    have hfree : List.range (m + 2) = 0 :: 1 :: List.range' 2 m := List.range_eq_range'
    refine ⟨[.connected, .connected, .add k zeros], ?_⟩
    have hmade : run step (start (m + 2)) [.connected, .connected]
        = made HashConf.init [] (List.range' 2 m) := by
      unfold start
      rw [hfree]
      show DiscState.mk _ _ _ _ _ _ _ _ _ = DiscState.mk _ _ _ _ _ _ _ _ _
      congr 1
      funext i
      rcases i with _ | _ | i <;> rfl
    have hadd : chunkTab.add zeros HashConf.init k = chunkTab.add zeros (filled []) k := rfl
    have hlast := step_made (l := []) (k := k) HashConf.init (List.range' 2 m) List.not_mem_nil
    rw [hadd, add_filled (Nat.zero_le _), if_pos hlen, ← hmade] at hlast
    exact hlast
  | cons i l ih =>
    obtain ⟨hi, hl⟩ := List.nodup_cons.mp hl
    obtain ⟨es, h⟩ := ih hl (Nat.lt_of_succ_lt hlen)
    refine ⟨es ++ [.add i zeros], ?_⟩
    rw [Lib.run_append, h]
    refine (step_made _ _ hi).trans ?_
    have hlt : (l ++ [k]).length < 2 ^ 24 := by rwa [List.length_append]
    rw [add_filled hlt.le, if_pos hlt]
    rfl

/-- The chunks of the first bucket, and the rest of a table that is full. -/
def firstChain : List Nat := [ending, moving, missed, tail1, tail2]

/-- The numbers of the fillers and of the first bucket are different ones. -/
theorem nodup_fillers (hl : l.Nodup) : (l.map filler ++ firstChain).Nodup := by
  refine List.nodup_append.mpr ⟨?_, by decide, fun i hi j hj heq => ?_⟩
  · exact hl.map fun i j hij => by unfold filler at hij; omega
  obtain ⟨m, _, rfl⟩ := List.mem_map.mp hi
  have hmod : ∀ i ∈ firstChain, i % 2 ^ 32 ≠ 1 := by decide
  refine hmod j hj ?_
  rw [← heq]
  unfold filler
  omega

theorem chain_fillers : (filled (l.map filler ++ firstChain)).bucket 0 = firstChain := by
  have hnone : (l.map filler).filter (fun k => chunkHash k % 2 ^ 24 == 0) = [] := by
    refine List.filter_eq_nil_iff.mpr fun k hk => ?_
    obtain ⟨i, _, rfl⟩ := List.mem_map.mp hk
    rw [chunkHash_filler]
    decide
  show List.filter _ _ = _
  rw [List.filter_append, hnone]
  decide

theorem wf_filled (hl : l.Nodup) : (filled l).Wf chunkHash := by
  refine ⟨?_, ?_, ?_, fun b hb k hk => ?_, fun b _ => hl.filter _⟩
  · show 2 * (2 ^ 24 / 2) = 2 ^ 24
    decide
  · show 2 ^ 24 / 2 ≤ 2 ^ 24
    decide
  · exact (filled l).size.le_refl
  · rw [home_filled]
    exact beq_iff_eq.mp (List.mem_filter.mp hk).2

/-- `ending` and `missed` get their copies, server 0 is lost, the loop enters the first bucket, and
a client is served within it. -/
def lostWithin : List DiscEvent :=
  [.change ending endingChunk, .change missed missedChunk, .disconnected 0, .loop, .loop, .loop,
    .find ending, .loop, .loop]

section Missed

variable {t : HashTab Nat} (hsize : t.size = 2 ^ 25) (hpos : t.rehashpos = 2 ^ 24)
  (hchain : t.bucket 0 = firstChain)
include hsize hpos hchain

/-- The look-up of the client that waited splits the first bucket, and only that; `moving` is then
alone in its chain, and `missed` is in the bucket that the loop is about to leave. -/
theorem find_ending : (chunkTab.find t ending).1 = t.split chunkHash
      ∧ t.next chunkHash ending = some moving
      ∧ (t.split chunkHash).next chunkHash moving = none
      ∧ missed ∈ (t.split chunkHash).bucket 0 := by
  have hlow : t.low = 0 := by
    unfold HashTab.low
    rw [hsize, hpos]
    decide
  refine ⟨?_, ?_, ?_, ?_⟩
  · have hfuel : t.size - t.rehashpos = (2 ^ 24 - 1) + 1 := by
      rw [hsize, hpos]
      rfl
    unfold HashConf.find HashConf.advance HashTab.move
    rw [if_neg (by rw [hsize]; decide), if_pos (by rw [hsize, hpos]; decide), hfuel]
    unfold HashTab.moveLoop
    rw [if_neg (by rw [hlow, hchain]; decide)]
    rfl
  · have hhome : t.home chunkHash ending = 0 := by
      unfold HashTab.home
      rw [hsize, hpos]
      decide
    unfold HashTab.next
    rw [hhome, hchain]
    decide
  · have hhome : (t.split chunkHash).home chunkHash moving = 2 ^ 24 := by
      have hnew : chunkHash moving % 2 ^ 25 = 2 ^ 24 := by decide
      unfold HashTab.home
      rw [show (t.split chunkHash).size = 2 ^ 25 from hsize, hnew]
      have hnext : (t.split chunkHash).rehashpos = 2 ^ 24 + 1 := congrArg (· + 1) hpos
      exact if_neg (by rw [hnext]; decide)
    unfold HashTab.next
    rw [hhome]
    unfold HashTab.split
    dsimp only
    rw [if_pos hpos.symm, hlow, hchain, hsize, hpos]
    decide
  · rw [HashTab.mem_bucket_split, if_neg (by rw [hpos]; decide), hchain, hsize, hpos]
    exact ⟨by decide, fun _ => by decide⟩

theorem run_lostWithin (free : List Nat) (hl : ∀ k ∈ firstChain, k ∈ l) :
    let s := run step (made t l free) lostWithin
    s.table = t.split chunkHash ∧ s.chunks missed = some missedChunk ∧ s.discservers = [0]
      ∧ s.discserverspos = 1 ∧ s.walk = none := by
  obtain ⟨hfind, hnext, hlast, _⟩ := find_ending hsize hpos hchain
  let f : Nat → Option Chunk := fun k => if k = missed then some missedChunk else
    if k = ending then some endingChunk else (made t l free).chunks k
  let v : Nat → Bool := fun csid => if csid = 0 then false else csid < 2
  have hcopies : run step (made t l free) [.change ending endingChunk, .change missed missedChunk]
      = { made t l free with chunks := f } := by
    have hne : missed ≠ ending := by decide
    simp [step, made, othersRun, mayBecome, setChunk, hl ending (by decide), hl missed (by decide),
      endingChunk, missedChunk, hne, f]
  have hin : run step { made t l free with chunks := f } [.disconnected 0, .loop, .loop]
      = { made t l free with
          chunks := f, valid := v, discservers := [0], walk := some (some ending) } := by
    simp [step, made, loop, chunkServerDisconnected, hpos, hchain, firstChain, v]
  have hvisit : run step { made t l free with
          chunks := f, valid := v, discservers := [0], walk := some (some ending) }
        [.loop, .find ending]
      = { made (t.split chunkHash) l free with
          chunks := fun k => if k = ending then some (dropEntries v endingChunk).1 else f k
          valid := v, discservers := [0], walk := some (some moving), ended := true } := by
    have hne : ending ≠ missed := by decide
    have hended : (dropEntries v endingChunk).2 = true := by decide
    simp [step, loop, visit, made, setChunk, othersRun, f, hne, hnext, hended, hfind]
  have hne : missed ≠ ending ∧ missed ≠ moving ∧ moving ≠ ending ∧ moving ≠ missed := by decide
  have hrun : run step (made t l free) lostWithin
      = run step (run step (run step (run step (made t l free)
          [.change ending endingChunk, .change missed missedChunk])
          [.disconnected 0, .loop, .loop]) [.loop, .find ending]) [.loop, .loop] := rfl
  rw [hrun, hcopies, hin, hvisit]
  simp [step, loop, visit, made, setChunk, f, hne, hlast, hl moving (by decide)]

end Missed

/-- **A number becomes free while a chunk mentions it.** -/
theorem free_csid_missed : ∃ es, ¬ (run step (start 10000) es).Unmentioned := by
  obtain ⟨n, hn⟩ : ∃ n, n + 5 = 2 ^ 24 := ⟨2 ^ 24 - 5, rfl⟩
  -- the first bucket is made, the table is filled, and one more chunk makes it grow
  generalize hl : (n :: List.range n).map filler ++ firstChain = l
  have hnodup : l.Nodup := hl ▸ nodup_fillers
    (List.nodup_cons.mpr ⟨List.not_mem_range_self, List.nodup_range⟩)
  have hgrown : ∃ es, run step (start 10000) es
      = made (HashConf.growInto zeros (filled l)) l (List.range' 2 9998) := by
    have hcons : l = filler n :: (((List.range n).map filler ++ firstChain.dropLast) ++ [tail2]) := by
      rw [← hl, List.append_assoc]
      rfl
    rw [hcons] at hnodup ⊢
    obtain ⟨hnew, hrest⟩ := List.nodup_cons.mp hnodup
    have hlen : ((List.range n).map filler ++ firstChain.dropLast).length + 1 = 2 ^ 24 := by
      rw [List.length_append, List.length_map, List.length_range]
      exact hn
    obtain ⟨es, hes⟩ := exists_made 9998 tail2 hrest (by omega)
    refine ⟨es ++ [.add (filler n) zeros], ?_⟩
    rw [← List.length_concat (a := tail2), List.concat_eq_append] at hlen
    rw [Lib.run_append, hes]
    refine (step_made _ _ hnew).trans ?_
    rw [add_filled hlen.le, if_neg hlen.not_lt]
  obtain ⟨es, hes⟩ := hgrown
  generalize ht : HashConf.growInto zeros (filled l) = t at hes
  have hwf : t.Wf chunkHash := ht ▸ HashConf.agrees_growInto.wf
    (HashTab.wf_grow (wf_filled hnodup) (Nat.two_pow_pos 24) rfl)
  have hchain : t.bucket 0 = firstChain := by
    have hlow : (filled l).bucket 0 = firstChain := hl ▸ chain_fillers
    have hgrow : Lib.HashTab.Agrees (filled l).grow t := ht ▸ HashConf.agrees_growInto
    exact (hgrow.bucket 0 (Nat.two_pow_pos 24)).trans hlow
  have hsize : t.size = 2 ^ 25 := by
    rw [← ht]
    exact (by decide : 2 * 2 ^ 24 = 2 ^ 25)
  have hpos : t.rehashpos = 2 ^ 24 := by
    rw [← ht]
    exact (rfl : 2 ^ 24 = 2 ^ 24)
  obtain ⟨htable, hrec, hdisc, hat, hwalk⟩ := run_lostWithin hsize hpos hchain
    (List.range' 2 9998) fun k hk => hl ▸ List.mem_append_right _ hk
  obtain ⟨_, _, _, hmissed⟩ := find_ending hsize hpos hchain
  generalize hs : run step (made t l (List.range' 2 9998)) lostWithin = s at *
  have hsplit := HashTab.wf_split hwf (by rw [hsize, hpos]; decide)
  -- the rest of the pass does not come back to the first bucket
  obtain ⟨m, htab, hfree, hchunks⟩ := pass_ends (s := s) (htable ▸ hsplit)
    (by rw [hdisc]; decide) hwalk
  have hkept := hchunks missed fun b hb hlt hk => by
    rw [htable] at hlt hk
    have hzero := hsplit.homes 0 (Nat.succ_pos _) missed hmissed
    have hhome := hsplit.homes b hlt missed hk
    omega
  refine ⟨es ++ lostWithin ++ List.replicate m .loop, fun hno => ?_⟩
  rw [Lib.run_append, Lib.run_append, hes, hs] at hno
  refine hno 0 ?_ missed missedChunk ?_ (hkept.trans hrec) ⟨0, .valid, 0, 1⟩ List.mem_cons_self rfl
  · show 0 ∈ (s.loops m).free
    rw [hfree, hdisc]
    exact List.mem_append_right _ List.mem_cons_self
  · show (s.loops m).table.Mem missed
    rw [htab, htable]
    exact ⟨0, Nat.succ_pos _, hmissed⟩

end DiscState

end MfsMaster
