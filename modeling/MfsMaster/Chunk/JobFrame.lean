/-
  MfsMaster.Chunk.JobFrame
  **WHAT A RUN OF THE JOBS CAN DO TO A CHUNK.**

  Whatever stage ends a run, the files, flags and lock of the chunk stay, and every entry
  of the new list comes from one of the old list by an `EntryStep`, or is a new one that a
  server was asked for (`BUSY`).  An operation of the chunk is under way only while some
  entry is `BUSY` or `TDBUSY`, so that an answer will end it (`Awaited`).

      JobFrame             — this, as a relation between the chunk before and after
      jobFrame_chunkDoJobs — every run is in the relation
      awaited_chunkDoJobs  — the jobs start an operation with a busy entry only, and end one
                             that nobody is busy with
      Jobs.of              — the jobs as the other chunk functions see them
-/
import MfsMaster.Chunk.Jobs
import MfsMaster.Chunk.Keep

namespace MfsMaster

variable {s' x : SEntry} {f : SEntry → SEntry} {valid : Nat → Bool} {code : SEntry → Bool}
  {best : Nat}

/-! ## §1. Deleting some entries. -/

/-- Some of the entries that a test is true of are marked `DEL`. -/
def DelSome (p : SEntry → Bool) (l l' : List SEntry) : Prop :=
  ∀ i : Nat, l'[i]? = l[i]? ∨ ∃ s, l[i]? = some s ∧ p s = true ∧ l'[i]? = some (s.setValid .del)

theorem DelSome.refl (p : SEntry → Bool) (l : List SEntry) : DelSome p l l := fun _ => .inl rfl

variable {l : List SEntry} {p : SEntry → Bool} {s : SEntry} {i : Nat} {env : JobEnv} {c' : Chunk}
  {l' : List SEntry} {c : Chunk} {v : Valid}

theorem DelSome.trans {l'' : List SEntry} (h : DelSome p l l')
    (h' : DelSome p l' l'') : DelSome p l l'' := by
  intro i
  rcases h i with hsame | ⟨s, hs, hp, hdel⟩
  · rcases h' i with hsame' | ⟨s', hs', hp', hdel'⟩
    · exact .inl (hsame'.trans hsame)
    · exact .inr ⟨s', hsame.symm.trans hs', hp', hdel'⟩
  rcases h' i with hsame' | ⟨s', hs', _, hdel'⟩
  · exact .inr ⟨s, hs, hp, hsame'.trans hdel⟩
  -- deleted twice
  have heq : s' = s.setValid .del := Option.some.inj (hs'.symm.trans hdel)
  subst heq
  exact .inr ⟨s, hs, hp, hdel'⟩

theorem DelSome.mono {q : SEntry → Bool} (h : DelSome p l l')
    (hpq : ∀ s ∈ l, p s = true → q s = true) : DelSome q l l' := by
  intro i
  rcases h i with hsame | ⟨s, hs, hp, hdel⟩
  · exact .inl hsame
  · exact .inr ⟨s, hs, hpq s (List.mem_of_getElem? hs) hp, hdel⟩

theorem DelSome.mem (h : DelSome p l l')
    (hs' : s' ∈ l') : s' ∈ l ∨ ∃ s ∈ l, p s = true ∧ s' = s.setValid .del := by
  obtain ⟨i, hi⟩ := List.mem_iff_getElem?.mp hs'
  rcases h i with hsame | ⟨s, hs, hp, hdel⟩
  · exact .inl (List.mem_of_getElem? (hsame.symm.trans hi))
  · exact .inr ⟨s, List.mem_of_getElem? hs, hp, Option.some.inj (hi.symm.trans hdel)⟩

theorem DelSome.stays (h : DelSome p l l') (hs : s ∈ l) (hp : p s = false) : s ∈ l' := by
  obtain ⟨i, hi⟩ := List.mem_iff_getElem?.mp hs
  rcases h i with hsame | ⟨s', hs', hp', _⟩
  · exact List.mem_of_getElem? (hsame.trans hi)
  have heq : s' = s := Option.some.inj (hs'.symm.trans hi)
  rw [heq, hp] at hp'
  cases hp'

theorem delWhere_delSome : DelSome p l (delWhere env p l) := by
  intro i
  unfold delWhere
  rw [List.getElem?_mapIdx]
  cases hi : l[i]? with
  | none => exact .inl rfl
  | some s =>
    rw [Option.map_some]
    by_cases hp : (p s && env.sent i) = true
    · rw [if_pos hp]
      exact .inr ⟨s, rfl, (Bool.and_eq_true _ _ ▸ hp).1, rfl⟩
    · rw [if_neg hp]
      exact .inl rfl

theorem delAt_delSome (hp : ∀ s, l[i]? = some s → p s = true) : DelSome p l (delAt i l) := by
  intro j
  unfold delAt
  rw [List.getElem?_modify]
  by_cases hij : i = j
  · subst hij
    cases hi : l[i]? with
    | none => exact .inl rfl
    | some s =>
      exact .inr ⟨s, rfl, hp s hi, congrArg some (if_pos rfl)⟩
  · rw [show (fun a => if i = j then SEntry.setValid .del a else a) = id from
      funext fun a => if_neg hij]
    exact .inl (by cases l[j]? <;> rfl)

theorem tryDelAt_delSome
    (hp : ∀ s, l[i]? = some s → p s = true) : DelSome p l (tryDelAt env i l) := by
  unfold tryDelAt
  split
  · exact delAt_delSome hp
  · exact .refl p l

theorem firstSent_spec (h : firstSent env p l = some i) : ∀ s, l[i]? = some s → p s = true := by
  intro s hs
  obtain ⟨hlt, hi, _⟩ := List.findIdx?_eq_some_iff_getElem.mp h
  have hget : (l.mapIdx fun i s => p s && env.sent i)[i]? = some (p s && env.sent i) := by
    rw [List.getElem?_mapIdx, hs]
    rfl
  rw [List.getElem?_eq_getElem hlt] at hget
  rw [Option.some.inj hget] at hi
  exact (Bool.and_eq_true _ _ ▸ hi).1

theorem findIdx?_at (h : l.findIdx? p = some i) : ∀ s, l[i]? = some s → p s = true := by
  intro s hs
  obtain ⟨hlt, hi, _⟩ := List.findIdx?_eq_some_iff_getElem.mp h
  rw [List.getElem?_eq_getElem hlt] at hs
  rwa [Option.some.inj hs] at hi

theorem placeOn_spec {csid : Option Nat}
    (h : placeOn csid p l = some i) : ∀ s, l[i]? = some s → p s = true := by
  rcases Option.or_eq_some_iff.mp h with h | ⟨_, h⟩
  · exact fun s hs => (Bool.and_eq_true _ _ ▸ findIdx?_at h s hs).1
  · exact findIdx?_at h

theorem delOn_delSome (env : JobEnv) (ecid : Nat) (csids : List Nat) (n : Nat) (l : List SEntry) :
    DelSome (fun s => s.valid.isValid && s.ecid == ecid) l (delOn env ecid csids n l) := by
  induction csids generalizing n l with
  | nil => exact .refl _ l
  | cons csid rest ih =>
    cases n with
    | zero => exact .refl _ l
    | succ n =>
      unfold delOn
      split
      · exact ih (n + 1) l
      next i hi =>
      split
      next hvalid =>
        split
        · refine (delAt_delSome fun s hs => ?_).trans (ih n (delAt i l))
          rw [hs, Option.any_some] at hvalid
          have hfound := findIdx?_at hi s hs
          rw [Bool.and_eq_true] at hfound ⊢
          exact ⟨hvalid, hfound.2⟩
        · exact .refl _ l
      · exact ih (n + 1) l

theorem delOverParts_delSome {m : JobMode} {ecids : List Nat} :
    DelSome (fun s => s.valid.isValid) l (ecids.foldl (delOverPart env m) l) := by
  refine List.foldlRecOn (motive := DelSome (fun s => s.valid.isValid) l) ecids _ (.refl _ l)
    fun l' hl e _ => hl.trans ?_
  exact (delOn_delSome env e _ _ l').mono fun s _ hp => (Bool.and_eq_true _ _ ▸ hp).1

theorem DelSome.csids (h : DelSome p l l') : l'.map SEntry.csid = l.map SEntry.csid := by
  apply List.ext_getElem?
  intro i
  rw [List.getElem?_map, List.getElem?_map]
  rcases h i with hsame | ⟨s, hs, _, hdel⟩
  · rw [hsame]
  · rw [hs, hdel]
    rfl

/-! ## §2. Operations and those they wait for. -/

/-- Some entry is `BUSY` or `TDBUSY`. -/
def AnyPending (l : List SEntry) : Prop := ∃ s ∈ l, s.valid.pending = true

/-- An operation is under way only while an entry waits for an answer. -/
def Awaited (c : Chunk) : Prop := c.operation ≠ .none → AnyPending c.slist

instance (l : List SEntry) : Decidable (AnyPending l) :=
  inferInstanceAs (Decidable (∃ s ∈ l, s.valid.pending = true))

instance (c : Chunk) : Decidable (Awaited c) :=
  inferInstanceAs (Decidable (c.operation ≠ .none → AnyPending c.slist))

theorem awaited_of_none (h : c.operation = .none) : Awaited c :=
  fun hop => absurd h hop

theorem Awaited.of_keeps (h : Awaited c) (hop : c'.operation = c.operation)
    (hkeeps : AnyPending c.slist → AnyPending c'.slist) : Awaited c' :=
  fun hne => hkeeps (h (hop ▸ hne))

theorem AnyPending.map (h : AnyPending l)
    (hf : ∀ s ∈ l, s.valid.pending = true → (f s).valid.pending = true) : AnyPending (l.map f) := by
  obtain ⟨s, hs, hp⟩ := h
  exact ⟨f s, List.mem_map_of_mem hs, hf s hs hp⟩

theorem pending_of_isValid (h : v.isValid = true) : v.pending = false := by
  cases v <;> first | rfl | cases h

theorem pending_of_isValid_and {b : Bool} (h : (v.isValid && b) = true) : v.pending = false :=
  pending_of_isValid (Bool.and_eq_true _ _ ▸ h).1

theorem pending_of_isTdvalid (h : v.isTdvalid = true) : v.pending = false := by
  cases v <;> first | rfl | cases h

theorem pending_of_readable (h : v.readable = true) : v.pending = false := by
  cases v <;> first | rfl | cases h

theorem pending_of_deletable (h : deletable env s = true) : s.valid.pending = false := by
  unfold deletable at h
  revert h
  cases s.valid <;> simp [Valid.useless, Valid.pending]

/-! ## §3. Entries before and after. -/

/-- The list is ordered by server. -/
def Ordered (l : List SEntry) : Prop := (l.map SEntry.csid).Pairwise (· ≤ ·)

theorem Ordered.congr (h : Ordered l)
    (hcsids : l'.map SEntry.csid = l.map SEntry.csid) : Ordered l' := by
  unfold Ordered
  rwa [hcsids]

theorem ordered_cons : Ordered (s :: l) ↔ (∀ x ∈ l, s.csid ≤ x.csid) ∧ Ordered l := by
  unfold Ordered
  rw [List.map_cons, List.pairwise_cons]
  simp only [List.mem_map, forall_exists_index, and_imp, forall_apply_eq_imp_iff₂]

theorem mem_chunkNewCopy : x ∈ chunkNewCopy s l ↔ x = s ∨ x ∈ l := by
  induction l with
  | nil => exact List.mem_singleton.trans ⟨.inl, fun h => h.resolve_right List.not_mem_nil⟩
  | cons si l ih =>
    unfold chunkNewCopy
    split
    · rw [List.mem_cons, ih, List.mem_cons]
      tauto
    · rw [List.mem_cons]

theorem Ordered.chunkNewCopy (h : Ordered l) : Ordered (chunkNewCopy s l) := by
  induction l with
  | nil => exact List.pairwise_singleton _ _
  | cons si l ih =>
    obtain ⟨hle, hl⟩ := ordered_cons.mp h
    unfold MfsMaster.chunkNewCopy
    split
    next hlt =>
      refine ordered_cons.mpr ⟨fun x hx => ?_, ih hl⟩
      rcases mem_chunkNewCopy.mp hx with heq | hmem
      · rw [heq]
        omega
      · exact hle x hmem
    next hge =>
      have hfirst : s.csid ≤ si.csid := by omega
      exact ordered_cons.mpr
        ⟨List.forall_mem_cons.mpr ⟨hfirst, fun x hx => hfirst.trans (hle x hx)⟩, h⟩

theorem Ordered.foldl_newCopy (h : Ordered l) {α : Type} {f : α → SEntry}
    {xs : List α} : Ordered (xs.foldl (fun l x => MfsMaster.chunkNewCopy (f x) l) l) :=
  List.foldlRecOn (motive := Ordered) xs _ h fun _ hl _ _ => hl.chunkNewCopy

/-- What a run can do to an entry. -/
inductive EntryStep (s : SEntry) : SEntry → Prop where
  | same : EntryStep s s
  | delete : EntryStep s (s.setValid .del)
  | drop (h : s.valid.pending = true) : EntryStep s s.invalidate
  | adopt (h : s.valid = .wver) : EntryStep s (s.setValid .valid)
  | adoptMarked (h : s.valid = .tdwver) : EntryStep s (s.setValid .tdvalid)

theorem EntryStep.csid (h : EntryStep s s') : s'.csid = s.csid := by
  cases h <;> rfl

/-- The state of a chunk for the counters of the master, and what they were told. -/
def Chunk.counted (c : Chunk) : ChunkState × List (ChunkState × ChunkState) := (c.state, c.moves)

/-- What a run of the jobs leaves alone. -/
def Chunk.kept (c : Chunk) :
    ((FHead × Nat) × (Bool × Bool) × UInt32) × ChunkState × List (ChunkState × ChunkState) :=
  (c.view, c.counted)

/-- The chunk before and after a run. -/
structure JobFrame (c c' : Chunk) : Prop where
  kept : c'.kept = c.kept
  entries : ∀ s' ∈ c'.slist, (∃ s ∈ c.slist, EntryStep s s') ∨ s'.valid = .busy
  ordered : Ordered c.slist → Ordered c'.slist
  awaited : Awaited c → Awaited c'

/-- A stage that leaves the version alone. -/
structure StageFrame (c c' : Chunk) : Prop extends JobFrame c c' where
  version : c'.version = c.version

theorem StageFrame.refl (c : Chunk) : StageFrame c c :=
  ⟨⟨rfl, fun s hs => .inl ⟨s, hs, .same⟩, id, id⟩, rfl⟩

/-- Marking entries `DEL` that are not busy. -/
theorem StageFrame.of_delSome (hkept : c'.kept = c.kept) (hversion : c'.version = c.version)
    (hop : c'.operation = c.operation) (h : DelSome p c.slist c'.slist)
    (hp : ∀ s, p s = true → s.valid.pending = false) : StageFrame c c' := by
  refine ⟨⟨hkept, fun s' hs' => .inl ?_, fun hord => hord.congr h.csids,
    fun haw => haw.of_keeps hop fun ⟨s, hs, hpend⟩ => ⟨s, h.stays hs ?_, hpend⟩⟩, hversion⟩
  · rcases h.mem hs' with hmem | ⟨s, hs, _, heq⟩
    · exact ⟨s', hmem, .same⟩
    · exact ⟨s, hs, heq ▸ .delete⟩
  rw [← Bool.not_eq_true]
  intro hps
  rw [hp s hps] at hpend
  cases hpend

theorem JobFrame.of_map (hkept : c'.kept = c.kept)
    (hlist : c'.slist = c.slist.map f) (hf : ∀ s, EntryStep s (f s))
    (haw : Awaited c → Awaited c') : JobFrame c c' := by
  have hcsids : c'.slist.map SEntry.csid = c.slist.map SEntry.csid := by
    rw [hlist, List.map_map]
    exact List.map_congr_left fun s _ => (hf s).csid
  refine ⟨hkept, fun s' hs' => .inl ?_, fun hord => hord.congr hcsids, haw⟩
  rw [hlist] at hs'
  obtain ⟨s, hs, heq⟩ := List.mem_map.mp hs'
  exact ⟨s, hs, heq ▸ hf s⟩

theorem entryStep_dropPending (s : SEntry) : EntryStep s (dropPending s) := by
  unfold dropPending
  split
  next h => exact .drop h
  · exact .same

theorem entryStep_adopt (s : SEntry) : EntryStep s (adopt valid code best s) := by
  unfold adopt
  split
  · split
    next h => exact .adopt h
    next h => exact .adoptMarked h
    · exact .same
  · exact .same

/-- Wrong versions are adopted, which no busy entry has part in. -/
theorem JobFrame.of_adopt (hkept : c'.kept = c.kept) (hop : c'.operation = c.operation)
    (hlist : c'.slist = c.slist.map (adopt valid code best)) : JobFrame c c' := by
  refine .of_map hkept hlist entryStep_adopt fun haw => haw.of_keeps hop fun hany =>
    hlist ▸ hany.map fun s _ hp => ?_
  unfold adopt
  split
  · revert hp
    cases hv : s.valid <;> simp [Valid.pending, hv]
  · exact hp

/-- Only busy entries are added. -/
structure Adds (c c' : Chunk) : Prop where
  kept : c'.kept = c.kept
  version : c'.version = c.version
  new : ∀ s' ∈ c'.slist, s' ∈ c.slist ∨ s'.valid = .busy
  ordered : Ordered c.slist → Ordered c'.slist
  awaited : Awaited c → Awaited c'

theorem Adds.refl (c : Chunk) : Adds c c := ⟨rfl, rfl, fun _ h => .inl h, id, id⟩

theorem Adds.trans {c'' : Chunk} (h : Adds c c') (h' : Adds c' c'') : Adds c c'' where
  kept := h'.kept.trans h.kept
  version := h'.version.trans h.version
  new := fun s hs => (h'.new s hs).elim (h.new s) .inr
  ordered := fun hord => h'.ordered (h.ordered hord)
  awaited := fun haw => h'.awaited (h.awaited haw)

theorem Adds.frame (h : Adds c c') : StageFrame c c' :=
  ⟨⟨h.kept, fun s' hs' => (h.new s' hs').imp_left fun hs => ⟨s', hs, .same⟩, h.ordered, h.awaited⟩,
    h.version⟩

theorem adds_chunkReplicate {ecid dst : Nat}
    (h : chunkReplicate env c ecid dst = some c') : Adds c c' := by
  unfold chunkReplicate at h
  split at h
  · cases h
  cases h
  refine ⟨rfl, rfl, fun s' hs' => ?_, fun hord => hord.chunkNewCopy,
    fun _ _ => ⟨_, mem_chunkNewCopy.mpr (.inl rfl), rfl⟩⟩
  rcases mem_chunkNewCopy.mp hs' with heq | hs
  · exact .inr (heq ▸ rfl)
  · exact .inl hs

theorem adds_replicate_getD {ecid dst : Nat} : Adds c ((chunkReplicate env c ecid dst).getD c) := by
  cases h : chunkReplicate env c ecid dst with
  | none => exact .refl c
  | some c' => exact adds_chunkReplicate h

theorem adds_replicateAll {todo : List (Nat × Nat)} (c : Chunk) :
    Adds c (replicateAll env todo c).1 := by
  induction todo generalizing c with
  | nil => exact .refl c
  | cons p todo ih =>
    unfold replicateAll
    split
    next c' h => exact (adds_chunkReplicate h).trans (ih c')
    · exact .refl c

theorem adds_replicateAny {todo : List (Nat × Nat)} : Adds c (replicateAny env c todo) := by
  unfold replicateAny
  cases h : todo.findSome? fun p => chunkReplicate env c p.1 p.2 with
  | none => exact .refl c
  | some c' =>
    obtain ⟨p, _, hp⟩ := List.exists_of_findSome?_eq_some h
    exact adds_chunkReplicate hp

theorem mem_foldl_newCopy {src lo version : Nat} {parts : List Nat} :
    x ∈ parts.foldl (fun l i => chunkNewCopy ⟨src, .busy, lo + i, version⟩ l) l
      ↔ x ∈ l ∨ ∃ i ∈ parts, x = ⟨src, .busy, lo + i, version⟩ := by
  induction parts generalizing l with
  | nil => simp
  | cons i parts ih =>
    rw [List.foldl_cons, ih, mem_chunkNewCopy]
    simp only [List.mem_cons, exists_eq_or_imp]
    tauto

/-! ## §4. The stages. -/

section
variable {env : JobEnv} {m : JobMode} {c c' : Chunk}

/-- A stage of the form "under a condition, do one thing". -/
theorem frame_of_ite {R : Chunk → Prop} {P : Prop} [Decidable P] {d : Chunk}
    (h : (if P then some d else none) = some c') (hd : R d) : R c' := by
  split at h
  · cases h
    exact hd
  · cases h

/-- A stage that deletes some of the entries that are not busy. -/
theorem stageFrame_delWhere (hp : ∀ s, p s = true → s.valid.pending = false) :
    StageFrame c (c.setSlist (delWhere env p c.slist)) :=
  .of_delSome rfl rfl rfl delWhere_delSome hp

theorem stageFrame_fixBusy (h : fixBusy c = some c') : StageFrame c c' := by
  unfold fixBusy at h
  split at h
  next hnone =>
    cases h
    exact ⟨.of_map rfl rfl entryStep_dropPending fun _ => awaited_of_none hnone.2.1, rfl⟩
  · cases h

theorem jobFrame_fixVersion {goal : Nat} (h : fixVersion env goal c = some c') : JobFrame c c' := by
  unfold fixVersion at h
  split at h
  · split at h
    · exact frame_of_ite h (.of_adopt rfl rfl rfl)
    split at h
    · exact frame_of_ite h (.of_adopt rfl rfl rfl)
    split at h
    · exact frame_of_ite h (.of_adopt rfl rfl rfl)
    · cases h
  · cases h

theorem stageFrame_deleteInvalid (h : deleteInvalid env m c = some c') : StageFrame c c' := by
  unfold deleteInvalid at h
  split at h
  · cases h
  split at h
  · exact frame_of_ite h (stageFrame_delWhere fun _ => pending_of_deletable)
  split at h
  · obtain ⟨i, hi, rfl⟩ := Option.map_eq_some_iff.mp h
    exact .of_delSome rfl rfl rfl (delAt_delSome (firstSent_spec hi)) fun _ => pending_of_deletable
  · cases h

theorem stageFrame_deleteMarkedPart (h : deleteMarkedPart env m c = some c') : StageFrame c c' := by
  unfold deleteMarkedPart at h
  dsimp only at h
  split at h
  · split at h
    next i hi =>
      cases h
      refine .of_delSome rfl rfl rfl (delAt_delSome (firstSent_spec hi)) fun s hs => ?_
      simp only [Bool.and_eq_true] at hs
      exact pending_of_isTdvalid hs.1.1
    · cases h
      exact .refl c
  · cases h

theorem stageFrame_sameServer (h : sameServer env m c = some c') : StageFrame c c' := by
  unfold sameServer at h
  dsimp only at h
  split at h
  · cases h
  split at h
  next i hi =>
    cases h
    exact .of_delSome rfl rfl rfl (tryDelAt_delSome (placeOn_spec hi))
      fun _ => pending_of_isValid_and
  · split at h
    next i hi =>
      cases h
      refine .of_delSome rfl rfl rfl (tryDelAt_delSome (placeOn_spec hi)) fun s hs => ?_
      simp only [Bool.and_eq_true] at hs
      exact pending_of_isValid hs.1.1
    · split at h
      · cases h
        exact .refl c
      split at h
      · split at h
        · cases h
          exact adds_replicate_getD.frame
        · cases h
          exact .refl c
      · cases h
        exact .refl c

/-- A split makes at least one part. -/
theorem adds_localSplit (h : localSplit env m c = some c') : Adds c c' := by
  unfold localSplit at h
  split at h
  · cases h
  dsimp only at h
  split at h
  next hdo =>
    split at h
    · cases h
      obtain ⟨i, hi⟩ := List.exists_mem_of_ne_nil _ hdo.2.2.2
      refine ⟨rfl, rfl, fun s' hs' => ?_, fun hord => hord.foldl_newCopy,
        fun _ _ => ⟨_, mem_foldl_newCopy.mpr (.inr ⟨i, hi, rfl⟩), rfl⟩⟩
      rcases mem_foldl_newCopy.mp hs' with hs | ⟨i, _, heq⟩
      · exact .inl hs
      · exact .inr (heq ▸ rfl)
    · cases h
      exact .refl c
  · cases h

theorem adds_moveLabelledParts (h : moveLabelledParts env m c = some c') : Adds c c' := by
  unfold moveLabelledParts at h
  dsimp only at h
  split at h
  · have hfirst : ∀ (b : Bool) (parts servers : List Nat),
        Adds c (if b = true then makeParts env m.minecid parts servers c else (c, true)).1 := by
      intro b parts servers
      split
      · exact adds_replicateAll c
      · exact .refl c
    have hsecond : ∀ (b : Bool) (parts servers : List Nat) (d : Chunk), Adds c d →
        Adds c (if b = true then (makeParts env m.minecid parts servers d).1 else d) := by
      intro b parts servers d hd
      split
      · exact hd.trans (adds_replicateAll d)
      · exact hd
    cases h
    exact hsecond _ _ _ _ (hfirst _ _ _)
  · cases h

theorem stageFrame_deleteExtraCopies (h : deleteExtraCopies env m c = some c') :
    StageFrame c c' := by
  unfold deleteExtraCopies at h
  dsimp only at h
  split at h
  · split at h
    all_goals
      cases h
      exact .of_delSome rfl rfl rfl (delOn_delSome env 0 _ _ _) fun _ => pending_of_isValid_and
  · cases h

theorem stageFrame_deleteMarkedCopy (h : deleteMarkedCopy env m c = some c') : StageFrame c c' := by
  unfold deleteMarkedCopy at h
  dsimp only at h
  split at h
  · obtain ⟨i, hi, rfl⟩ := Option.map_eq_some_iff.mp h
    refine .of_delSome rfl rfl rfl (delAt_delSome (firstSent_spec hi)) fun s hs => ?_
    simp only [Bool.and_eq_true] at hs
    exact pending_of_isTdvalid hs.1.1
  · cases h

theorem adds_replicateCopy (h : replicateCopy env m c = some c') : Adds c c' := by
  have htried : ∀ (P : Prop) [Decidable P] (todo : List (Nat × Nat)),
      (if P then some (replicateAny env c todo) else some c) = some c' → Adds c c' := by
    intro P _ todo h
    split at h
    · cases h
      exact adds_replicateAny
    · cases h
      exact .refl c
  unfold replicateCopy at h
  dsimp only at h
  split at h
  · exact htried _ _ h
  · cases h

theorem adds_rebalance (h : rebalance env m c = some c') : Adds c c' := by
  unfold rebalance at h
  dsimp only at h
  split at h
  · cases h
    exact .refl c
  split at h
  · split at h
    · cases h
      exact adds_replicate_getD
    · cases h
      exact .refl c
  · cases h
    exact .refl c

/-- **Only the correction of wrong versions changes the version**, on a chunk that nothing else
works on. -/
theorem stages_cases (h : some c' ∈ stages env m c) : StageFrame c c'
    ∨ ((c.lockedto < env.now ∧ !env.replock) ∧ fixVersion env m.goal c = some c') := by
  have hall : ∀ todo, StageFrame c (replicateAll env todo c).1 :=
    fun todo => (adds_replicateAll c).frame
  rcases List.mem_append.mp h with h | h
  · unfold idleStages at h
    split at h
    next hidle =>
      simp only [List.mem_cons, List.not_mem_nil, or_false] at h
      rcases h with h | h | h
      · exact .inl (stageFrame_fixBusy h.symm)
      · exact .inr ⟨hidle, h.symm⟩
      · exact .inl (frame_of_ite h.symm (.refl c))
    · cases h
  · left
    simp only [List.mem_cons, List.not_mem_nil, or_false] at h
    rcases h with h | h | h | h | h | h | h | h | h | h | h | h | h | h | h | h | h | h | h | h | h
      | h | h | h
    · exact stageFrame_deleteInvalid h.symm
    · exact frame_of_ite h.symm
        ⟨.of_map rfl rfl entryStep_dropPending fun _ => awaited_of_none rfl, rfl⟩
    · exact frame_of_ite h.symm (.refl c)
    · exact frame_of_ite h.symm (stageFrame_delWhere fun _ => pending_of_readable)
    · exact frame_of_ite h.symm (.refl c)
    · exact stageFrame_deleteMarkedPart h.symm
    · exact stageFrame_sameServer h.symm
    · exact frame_of_ite h.symm
        (.of_delSome rfl rfl rfl delOverParts_delSome fun _ => pending_of_isValid)
    · exact frame_of_ite h.symm (.refl c)
    · exact frame_of_ite h.symm (hall _)
    · exact frame_of_ite h.symm (hall _)
    · exact frame_of_ite h.symm (hall _)
    · exact (adds_localSplit h.symm).frame
    · exact frame_of_ite h.symm (hall _)
    · exact frame_of_ite h.symm (hall _)
    · exact frame_of_ite h.symm (hall _)
    · exact frame_of_ite h.symm (stageFrame_delWhere fun _ => pending_of_isValid_and)
    · exact frame_of_ite h.symm (stageFrame_delWhere fun _ => pending_of_isValid_and)
    · exact frame_of_ite h.symm (stageFrame_delWhere fun _ => pending_of_isValid_and)
    · exact (adds_moveLabelledParts h.symm).frame
    · exact stageFrame_deleteExtraCopies h.symm
    · exact stageFrame_deleteMarkedCopy h.symm
    · exact (adds_replicateCopy h.symm).frame
    · exact (adds_rebalance h.symm).frame

end

variable {tab : SClassTab}

/-- The jobs begin by ending an operation that no server is busy with. -/
theorem awaited_settle : Awaited (settle env c) := by
  intro hop
  unfold settle at hop
  split at hop
  next hany =>
    obtain ⟨s, hs, hp⟩ := List.any_eq_true.mp hany
    exact ⟨s, hs, (Bool.and_eq_true _ _ ▸ hp).2⟩
  · exact absurd rfl hop

theorem chunkDoJobs_cases :
    StageFrame (settle env c) (chunkDoJobs env tab c)
      ∨ ∃ m, jobMode env tab c = some m ∧ (c.lockedto < env.now ∧ !env.replock)
        ∧ fixVersion env m.goal (settle env c) = some (chunkDoJobs env tab c) := by
  unfold chunkDoJobs
  dsimp only
  split
  · exact .inl (.refl _)
  next m hm =>
  cases hres : (stages env m (settle env c)).findSome? id with
  | none => exact .inl (.refl _)
  | some c' =>
    obtain ⟨o, ho, heq⟩ := List.exists_of_findSome?_eq_some hres
    have hstage : o = some c' := heq
    exact (stages_cases (hstage ▸ ho)).imp_right fun h => ⟨m, hm, h⟩

theorem jobFrame_settle : JobFrame (settle env c) (chunkDoJobs env tab c) := by
  rcases chunkDoJobs_cases with h | ⟨_, _, _, h⟩
  · exact h.toJobFrame
  · exact jobFrame_fixVersion h

/-- **After the jobs** an operation has somebody to wait for, whatever was before. -/
theorem awaited_chunkDoJobs : Awaited (chunkDoJobs env tab c) :=
  jobFrame_settle.awaited awaited_settle

/-- **Every run of the jobs** keeps files, flags and lock, and changes entries by an `EntryStep`. -/
theorem jobFrame_chunkDoJobs : JobFrame c (chunkDoJobs env tab c) :=
  have h := jobFrame_settle
  ⟨h.kept, h.entries, h.ordered, fun _ => awaited_chunkDoJobs⟩

/-! ## §5. The jobs for the other functions. -/

/-- The jobs as the other chunk functions call them; what a call meets may depend on the state
the chunk is in by then. -/
def Jobs.of (env : Chunk → JobEnv) (tab : SClassTab) : Jobs where
  run := fun c => chunkDoJobs (env c) tab c
  fhead := fun _ => congrArg (fun v => v.1.1.1) jobFrame_chunkDoJobs.kept
  sclassid := fun _ => congrArg (fun v => v.1.1.2) jobFrame_chunkDoJobs.kept
  flags := fun _ => ⟨congrArg (fun v => v.1.2.1.1) jobFrame_chunkDoJobs.kept,
    congrArg (fun v => v.1.2.1.2) jobFrame_chunkDoJobs.kept⟩
  lockedto := fun _ => congrArg (fun v => v.1.2.2) jobFrame_chunkDoJobs.kept

end MfsMaster
