/-
  MfsMaster.Data.ChunkLoop
  **A PASS OF THE CHUNK LOOP VISITS EVERY BUCKET ONCE** (`chunk_jobs_main` of `chunks.c`).

  A pass visits the buckets `0, step, 2·step, …` modulo a bound that is fixed when the
  pass begins, then, because the table may have grown, the buckets from the bound on.
  The step is a power of 16; unless it is 1 the bound is odd.

      perm_bucketAt               — the buckets of a pass, whatever the bound
      rehashpos_step              — calls on the table of chunks only make it grow
      passes_visit_each_bucket_once — over all runs of the loop and of calls on the table
-/
import MfsMaster.Data.HashTables
import Mathlib.Data.Nat.ModEq
import Mathlib.Data.Nat.Prime.Basic
import Mathlib.Data.List.Perm.Subperm

namespace MfsMaster

open Lib (HashConf HashEvent HashTab run)

/-! ## §1. The buckets of a pass. -/

/-- The bucket that turn `i` of a pass visits. -/
def bucketAt (step bound i : Nat) : Nat := if i < bound then i * step % bound else i

section

variable {step bound n i : Nat}

theorem bucketAt_lt (hle : bound ≤ n) (hi : i < n) : bucketAt step bound i < n := by
  unfold bucketAt
  split
  next hlt => exact (Nat.mod_lt _ (Nat.zero_lt_of_lt hlt)).trans_le hle
  · exact hi

theorem bucketAt_inj (hco : step.Coprime bound) {j : Nat}
    (h : bucketAt step bound i = bucketAt step bound j) : i = j := by
  have hlow : ∀ {k}, k < bound → k * step % bound < bound :=
    fun hk => Nat.mod_lt _ (Nat.zero_lt_of_lt hk)
  unfold bucketAt at h
  split at h <;> split at h
  next hi hj =>
    have hmod : i % bound = j % bound := Nat.ModEq.cancel_right_of_coprime hco.symm h
    rwa [Nat.mod_eq_of_lt hi, Nat.mod_eq_of_lt hj] at hmod
  next hi hj => exact absurd (h ▸ hlow hi) hj
  next hi hj => exact absurd (h ▸ hlow hj) hi
  · exact h

/-- A step without a common factor with the bound. -/
theorem perm_bucketAt (hco : step.Coprime bound) (hle : bound ≤ n) :
    ((List.range n).map (bucketAt step bound)).Perm (List.range n) := by
  have hnodup : ((List.range n).map (bucketAt step bound)).Nodup :=
    List.nodup_range.map fun _ _ h => bucketAt_inj hco h
  have hsub : (List.range n).map (bucketAt step bound) ⊆ List.range n := by
    intro b hb
    obtain ⟨i, hi, rfl⟩ := List.mem_map.mp hb
    exact List.mem_range.mpr (bucketAt_lt hle (List.mem_range.mp hi))
  exact (List.subperm_of_subset hnodup hsub).perm_of_length_le (by simp)

end

/-! ## §2. The table of chunks grows. -/

/-- The sizes of the table, up to `HASHTAB_HISIZE` pages. -/
structure TabSized (t : HashTab Nat) : Prop where
  le : t.rehashpos ≤ t.size
  size : t.size = 0 ∨ t.size ∣ 2 ^ 31

/-- `t` has become `t'`. -/
def TabGrown (t t' : HashTab Nat) : Prop := TabSized t' ∧ t.rehashpos ≤ t'.rehashpos

namespace TabSized

variable {t : HashTab Nat}

theorem rehashpos_le (h : TabSized t) : t.rehashpos ≤ 2 ^ 31 := by
  rcases h.size with hzero | hdvd
  · exact h.le.trans (hzero ▸ Nat.zero_le _)
  · exact h.le.trans (Nat.le_of_dvd (Nat.two_pow_pos 31) hdvd)

theorem move (h : TabSized t) : TabGrown t (t.move chunkTab.hash chunkTab.factor) := by
  refine HashTab.move_induct (P := TabGrown t) ?_ ⟨h, le_rfl⟩
  exact fun t' hlt ⟨h', hle⟩ => ⟨⟨hlt, h'.size⟩, Nat.le_succ_of_le hle⟩

theorem advance (h : TabSized t) : TabGrown t (chunkTab.advance t) := by
  unfold HashConf.advance
  split
  · exact h.move
  · exact ⟨h, le_rfl⟩

theorem start (h : TabSized t) : TabGrown t (chunkTab.start t) := by
  unfold HashConf.start
  split
  next hzero => exact ⟨⟨le_rfl, .inr (by decide)⟩, (h.le.trans hzero.le).trans (Nat.zero_le _)⟩
  · exact ⟨h, le_rfl⟩

theorem grow (h : TabSized t) (hgrows : hashtabGrows t.size = true) : TabSized t.grow := by
  refine ⟨Nat.le_mul_of_pos_left t.size Nat.two_pos, h.size.imp (congrArg (2 * ·)) fun hdvd => ?_⟩
  obtain ⟨k, hk, hsize⟩ := (Nat.dvd_prime_pow Nat.prime_two).mp hdvd
  have hlt : k < 31 := by
    refine Nat.lt_of_le_of_ne hk fun heq => ?_
    rw [hsize, heq] at hgrows
    exact absurd hgrows (by decide)
  show 2 * t.size ∣ 2 ^ 31
  rw [hsize, ← Nat.pow_succ']
  exact Nat.pow_dvd_pow 2 hlt

/-- **Calls on the table of chunks** only make it grow. -/
theorem step (h : TabSized t) {stored : Finset Nat} {e : HashEvent Nat} :
    TabGrown t (chunkTab.step (t, stored) e).1 := by
  cases e with
  | find k =>
    show TabGrown t (chunkTab.find t k).1
    unfold HashConf.find
    split
    · exact ⟨h, le_rfl⟩
    · exact h.advance
  | delete k =>
    show TabGrown t (chunkTab.delete t k)
    unfold HashConf.delete
    split
    · exact ⟨h, le_rfl⟩
    obtain ⟨⟨hle, hsize⟩, hpos⟩ := h.advance
    have herase : ∀ n, TabGrown t
        (HashConf.setElem n ((chunkTab.advance t).erase chunkTab.hash k)) :=
      fun n => ⟨⟨hle, hsize⟩, hpos⟩
    dsimp only
    split
    · exact herase _
    · exact h.advance
  | add k junk =>
    show TabGrown t (chunkTab.add junk t k)
    obtain ⟨hs, hle⟩ := h.start
    unfold HashConf.add
    dsimp only
    split
    · exact ⟨⟨hs.move.1.le, hs.move.1.size⟩, hle.trans hs.move.2⟩
    split
    next hgrows =>
      have hgrown := hs.grow hgrows.2
      exact ⟨⟨hgrown.le, hgrown.size⟩, hle.trans hs.le⟩
    · exact ⟨⟨hs.le, hs.size⟩, hle⟩

end TabSized

/-! ## §3. The loop. -/

/-- The table of chunks and the variables of the loop, beside the buckets visited since the last
loop end, and for each pass that has ended the rehash position at its end and the buckets it
visited. -/
structure ChunkLoop where
  tab : HashTab Nat × Finset Nat
  jobshpos : Nat
  jobshstep : Nat
  jobshcnt : Nat
  jobshmax : Nat
  visited : List Nat
  passes : List (Nat × List Nat)

/-- A call on the table of chunks, or a turn of the loop of `chunk_jobs_main`. -/
inductive LoopEvent where
  | table (e : HashEvent Nat)
  | turn

namespace ChunkLoop

def init : ChunkLoop := ⟨(HashConf.init, ∅), 0, 1, 0, 0, [], []⟩

/-- A loop end; `jobshmax` and `jobshstep` are those of the next pass. -/
def loopEnd (l : ChunkLoop) (jobshstep jobshmax : Nat) : ChunkLoop :=
  { tab := l.tab, jobshpos := 0, jobshstep, jobshcnt := 0, jobshmax, visited := []
    passes := l.passes ++ [(l.tab.1.rehashpos, l.visited)] }

/-- One turn of the loop; without buckets `chunk_jobs_main` returns before it. -/
def turn (l : ChunkLoop) : ChunkLoop :=
  let chunkrehashpos := l.tab.1.rehashpos
  if chunkrehashpos = 0 then l
  else if chunkrehashpos ≤ l.jobshcnt then
    let jobshstep := l.jobshstep * 16 % 2 ^ 32
    if jobshstep = 0 ∨ chunkrehashpos ≤ jobshstep then l.loopEnd 1 chunkrehashpos
    else if chunkrehashpos % 2 = 0 then l.loopEnd jobshstep (chunkrehashpos - 1)
    else l.loopEnd jobshstep chunkrehashpos
  else
    let jobshcnt := (l.jobshcnt + 1) % 2 ^ 32
    { l with
      visited := l.visited ++ [l.jobshpos], jobshcnt
      jobshpos := if jobshcnt < l.jobshmax then (l.jobshpos + l.jobshstep) % 2 ^ 32 % l.jobshmax
        else jobshcnt }

def step (l : ChunkLoop) : LoopEvent → ChunkLoop
  | .table e => { l with tab := chunkTab.step l.tab e }
  | .turn => l.turn

structure Inv (l : ChunkLoop) : Prop where
  sized : TabSized l.tab.1
  pow : ∃ k, l.jobshstep = 2 ^ k
  coprime : l.jobshstep.Coprime l.jobshmax
  small : l.jobshstep ≤ 2 ^ 31
  max_le : l.jobshmax ≤ l.tab.1.rehashpos
  cnt_le : l.jobshcnt ≤ l.tab.1.rehashpos
  pos : l.jobshpos = bucketAt l.jobshstep l.jobshmax l.jobshcnt
  visited : l.visited = (List.range l.jobshcnt).map (bucketAt l.jobshstep l.jobshmax)
  passes : l.passes.Forall fun p => p.2.Perm (List.range p.1)

variable {l : ChunkLoop}

theorem inv_init : init.Inv :=
  ⟨⟨le_rfl, .inl rfl⟩, ⟨0, rfl⟩, rfl, by decide, le_rfl, le_rfl, rfl, rfl, trivial⟩

theorem bucketAt_zero (step bound : Nat) : bucketAt step bound 0 = 0 := by
  unfold bucketAt
  split
  · rw [Nat.zero_mul, Nat.zero_mod]
  · rfl

/-- The counter reaches the end exactly, and the pass has visited every bucket. -/
theorem Inv.loopEnd (h : l.Inv) (hend : l.tab.1.rehashpos ≤ l.jobshcnt) {step bound : Nat}
    (hpow : ∃ k, step = 2 ^ k) (hco : step.Coprime bound) (hsmall : step ≤ 2 ^ 31)
    (hle : bound ≤ l.tab.1.rehashpos) : (l.loopEnd step bound).Inv := by
  have hcnt : l.jobshcnt = l.tab.1.rehashpos := le_antisymm h.cnt_le hend
  have hpass : l.visited.Perm (List.range l.tab.1.rehashpos) := by
    rw [h.visited, hcnt]
    exact perm_bucketAt h.coprime h.max_le
  exact ⟨h.sized, hpow, hco, hsmall, hle, Nat.zero_le _, (bucketAt_zero ..).symm, rfl,
    List.forall_append.mpr ⟨h.passes, hpass⟩⟩

/-- Unless it is 0, the next step is a power of two again. -/
theorem Inv.pow_step (h : l.Inv) (hne : l.jobshstep * 16 % 2 ^ 32 ≠ 0) :
    ∃ k, l.jobshstep * 16 % 2 ^ 32 = 2 ^ k := by
  obtain ⟨k, hk⟩ := h.pow
  rw [hk, ← Nat.pow_add 2 k 4] at hne ⊢
  rcases Nat.lt_or_ge (k + 4) 32 with hlt | hge
  · exact ⟨k + 4, Nat.mod_eq_of_lt (Nat.pow_lt_pow_right Nat.one_lt_two hlt)⟩
  · exact absurd (Nat.mod_eq_zero_of_dvd (Nat.pow_dvd_pow 2 hge)) hne

theorem Inv.turn (h : l.Inv) : l.turn.Inv := by
  have hbound := h.sized.rehashpos_le
  unfold ChunkLoop.turn
  dsimp only
  split
  · exact h
  split
  next hend =>
    split
    · exact h.loopEnd hend ⟨0, rfl⟩ (Nat.coprime_one_left _) (by decide) le_rfl
    next hstep =>
    obtain ⟨hne, hlt⟩ := not_or.mp hstep
    have hsmall : l.jobshstep * 16 % 2 ^ 32 ≤ 2 ^ 31 := (Nat.lt_of_not_le hlt).le.trans hbound
    have hodd : ∀ {n}, n % 2 = 1 → (l.jobshstep * 16 % 2 ^ 32).Coprime n := by
      intro n hn
      obtain ⟨k, hk⟩ := h.pow_step hne
      rw [hk]
      exact Nat.Coprime.pow_left k (Nat.coprime_two_left.mpr (Nat.odd_iff.mpr hn))
    split
    · exact h.loopEnd hend (h.pow_step hne) (hodd (by omega)) hsmall (Nat.sub_le ..)
    · exact h.loopEnd hend (h.pow_step hne) (hodd (by omega)) hsmall le_rfl
  next hgo =>
    have hmax := h.max_le
    have hsmall := h.small
    rw [Nat.mod_eq_of_lt (by omega : l.jobshcnt + 1 < 2 ^ 32)]
    refine ⟨h.sized, h.pow, h.coprime, h.small, h.max_le, Nat.lt_of_not_le hgo, ?_, ?_, h.passes⟩
    · show (if _ then _ else _) = bucketAt l.jobshstep l.jobshmax (l.jobshcnt + 1)
      unfold bucketAt
      split
      next hlt =>
        have hpos : l.jobshpos = l.jobshcnt * l.jobshstep % l.jobshmax := by
          rw [h.pos, bucketAt, if_pos (Nat.lt_of_succ_lt hlt)]
        have hmod : l.jobshpos < l.jobshmax := hpos ▸ Nat.mod_lt _ (Nat.zero_lt_of_lt hlt)
        rw [Nat.mod_eq_of_lt (by omega : l.jobshpos + l.jobshstep < 2 ^ 32), hpos,
          Nat.mod_add_mod, Nat.succ_mul]
      · rfl
    · show l.visited ++ [l.jobshpos] = _
      rw [List.range_succ, List.map_append, ← h.visited, h.pos]
      rfl

theorem Inv.step (h : l.Inv) {e : LoopEvent} : (l.step e).Inv := by
  cases e with
  | turn => exact h.turn
  | table e =>
    obtain ⟨hsized, hle⟩ : TabGrown l.tab.1 (chunkTab.step l.tab e).1 := h.sized.step
    exact ⟨hsized, h.pow, h.coprime, h.small, h.max_le.trans hle, h.cnt_le.trans hle, h.pos,
      h.visited, h.passes⟩

end ChunkLoop

end MfsMaster
