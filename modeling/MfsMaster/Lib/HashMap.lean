/-
  MfsMaster.Lib.HashMap
  **A HASH TABLE THAT GROWS WHILE IT IS USED IS A FINITE MAP** (general, no file system here).

  Additions, look-ups and deletions on the table of `Lib.HashScan`, each of which first
  splits a few chains.  The new half of a table that begins to grow holds whatever the
  memory held (`junk`); nobody looks at a chain before it has been split.

      Stores        — chains in order, the keys of a set, and their number
      find_spec     — a look-up finds the keys of the set
      stores_run    — over whole runs that add keys that are not there
-/
import Mathlib.Data.Finset.Card
import MfsMaster.Lib.HashScan
import MfsMaster.Lib.Replay

namespace MfsMaster.Lib

open HashTab

/-- What a table is made with: the hash of a key, the keys a move looks at, the size of the first
table, and the sizes that may be doubled. -/
structure HashConf (κ : Type*) where
  hash : κ → Nat
  factor : Nat
  first : Nat
  grows : Nat → Bool
  even : 2 * (first / 2) = first
  pos : 0 < first

/-- One call. -/
inductive HashEvent (κ : Type*) where
  | add (k : κ) (junk : Nat → List κ)
  | find (k : κ)
  | delete (k : κ)

namespace HashConf

variable {κ : Type*} (conf : HashConf κ)

/-! ## §1. Calls. -/

/-- No table yet. -/
def init : HashTab κ := { size := 0, rehashpos := 0, elem := 0, bucket := fun _ => [] }

/-- What every call does first. -/
def advance (t : HashTab κ) : HashTab κ :=
  if t.rehashpos < t.size then t.move conf.hash conf.factor else t

/-- The table after a look-up, and whether the key was in its chain. -/
def find [DecidableEq κ] (t : HashTab κ) (k : κ) : HashTab κ × Bool :=
  if t.size = 0 then (t, false)
  else
    let t := conf.advance t
    (t, (t.bucket (t.home conf.hash k)).contains k)

def setElem (n : Nat) (t : HashTab κ) : HashTab κ := { t with elem := n }

/-- The counter has 32 bits. -/
def insert (t : HashTab κ) (k : κ) : HashTab κ :=
  setElem ((t.elem + 1) % 2 ^ 32) (t.insert conf.hash k)

def delete [DecidableEq κ] (t : HashTab κ) (k : κ) : HashTab κ :=
  if t.size = 0 then t
  else
    let t := conf.advance t
    if (t.bucket (t.home conf.hash k)).contains k then
      setElem ((t.elem + (2 ^ 32 - 1)) % 2 ^ 32) (t.erase conf.hash k)
    else t

/-- The first key makes the table. -/
def start (t : HashTab κ) : HashTab κ :=
  if t.size = 0 then
    { size := conf.first, rehashpos := conf.first, elem := 0, bucket := fun _ => [] }
  else t

/-- The table begins to grow; its new half is not initialised. -/
def growInto (junk : Nat → List κ) (t : HashTab κ) : HashTab κ :=
  { t.grow with bucket := fun b => if b < t.size then t.bucket b else junk b }

def add (junk : Nat → List κ) (t : HashTab κ) (k : κ) : HashTab κ :=
  let t := conf.start t
  if t.rehashpos < t.size then conf.insert (t.move conf.hash conf.factor) k
  else
    let t := conf.insert t k
    if t.size < t.elem ∧ conf.grows t.size then growInto junk t else t

/-- One call on the table, beside the set of the keys that were added and not deleted since. -/
def step [DecidableEq κ] (s : HashTab κ × Finset κ) : HashEvent κ → HashTab κ × Finset κ
  | .add k junk => (conf.add junk s.1 k, Insert.insert k s.2)
  | .find k => ((conf.find s.1 k).1, s.2)
  | .delete k => (conf.delete s.1 k, s.2.erase k)

/-- A key that is added is not there, and the counter can count it. -/
def Fresh (s : HashTab κ × Finset κ) : HashEvent κ → Prop
  | .add k _ => k ∉ s.2 ∧ s.2.card + 1 < 2 ^ 32
  | _ => True

instance [DecidableEq κ] (s : HashTab κ × Finset κ) : (e : HashEvent κ) → Decidable (Fresh s e)
  | .add .. => inferInstanceAs (Decidable (_ ∧ _))
  | .find _ | .delete _ => isTrue trivial

/-! ## §2. Chains in order, whatever is counted. -/

variable {conf} {t : HashTab κ} {stored : Finset κ} {k : κ}

theorem agrees_setElem {n : Nat} : Agrees t (setElem n t) := ⟨rfl, rfl, fun _ _ => rfl⟩

/-- What the memory of the new half holds does not matter. -/
theorem agrees_growInto {junk : Nat → List κ} : Agrees t.grow (growInto junk t) :=
  ⟨rfl, rfl, fun _ hb => if_pos hb⟩

theorem mem_erase [DecidableEq κ] (hwf : t.Wf conf.hash) {j : κ} :
    (t.erase conf.hash k).Mem j ↔ j ≠ k ∧ t.Mem j := by
  constructor
  · intro hj
    exact ⟨fun heq => not_mem_erase hwf (heq ▸ hj), mem_of_mem_erase hj⟩
  rintro ⟨hne, b, hb, hj⟩
  refine ⟨b, hb, ?_⟩
  unfold erase
  dsimp only
  split
  · exact (List.mem_erase_of_ne hne).mpr hj
  · exact hj

theorem mem_iff_home (hwf : t.Wf conf.hash) (hpos : 0 < t.size) :
    t.Mem k ↔ k ∈ t.bucket (t.home conf.hash k) := by
  constructor
  · rintro ⟨b, hb, hk⟩
    rwa [hwf.homes b hb k hk]
  · intro hk
    exact ⟨_, home_lt hwf hpos, hk⟩

/-- Before the first key there is nothing. -/
theorem not_mem_of_size (hwf : t.Wf conf.hash) (hzero : t.size = 0) : ¬ t.Mem k := by
  rintro ⟨b, hb, _⟩
  have := hwf.le
  omega

/-- Splitting some chains changes no key. -/
theorem advance_spec (hwf : t.Wf conf.hash) :
    (conf.advance t).Wf conf.hash ∧ (∀ k, (conf.advance t).Mem k ↔ t.Mem k)
      ∧ (conf.advance t).size = t.size ∧ (conf.advance t).elem = t.elem := by
  unfold advance
  split
  · obtain ⟨hwf', hmem, hsize, _, helem, _⟩ := move_spec hwf conf.factor
    exact ⟨hwf', hmem, hsize, helem⟩
  · exact ⟨hwf, fun _ => .rfl, rfl, rfl⟩

theorem delete_spec [DecidableEq κ] (hwf : t.Wf conf.hash) :
    (conf.delete t k).Wf conf.hash ∧ ∀ j, (conf.delete t k).Mem j ↔ j ≠ k ∧ t.Mem j := by
  obtain ⟨hadv, hmem, hsize, _⟩ := advance_spec hwf
  unfold delete
  split
  next hzero =>
    refine ⟨hwf, fun j => ?_⟩
    have hno : ¬ t.Mem j := not_mem_of_size hwf hzero
    exact iff_of_false hno fun hj => hno hj.2
  next hne =>
  dsimp only
  split
  · refine ⟨agrees_setElem.wf (wf_erase hadv), fun j => ?_⟩
    rw [agrees_setElem.mem, mem_erase hadv, hmem]
  next hout =>
    refine ⟨hadv, fun j => (hmem j).trans (iff_and_self.mpr fun hj heq => hout ?_)⟩
    rw [List.contains_iff_mem, ← mem_iff_home hadv (by omega), hmem]
    exact heq ▸ hj

section Scan

variable [DecidableEq κ] {pos : Nat} {walk : Option (Option κ)} {clean : κ → Prop}

theorem covered_advance (hwf : t.Wf conf.hash) (hfactor : 0 < conf.factor)
    (hcov : Covered t pos walk clean) (hsafe : walk ≠ none → Untouched conf.factor t pos) :
    Covered (conf.advance t) pos walk clean := by
  unfold advance
  split
  · exact hcov.move hwf hfactor hsafe
  · exact hcov

/-- The first key makes the table; before, it is empty. -/
theorem start_spec (hwf : t.Wf conf.hash) :
    (conf.start t).Wf conf.hash ∧ 0 < (conf.start t).size
      ∧ (∀ k, (conf.start t).Mem k ↔ t.Mem k)
      ∧ ∀ pos walk clean, Covered t pos walk clean → Covered (conf.start t) pos walk clean := by
  unfold start
  split
  next hzero =>
    have hnone : t.rehashpos = 0 := Nat.le_zero.mp (hzero ▸ hwf.le)
    refine ⟨⟨conf.even, Nat.div_le_self _ _, le_rfl, nofun, fun _ _ => List.nodup_nil⟩, conf.pos,
      fun k => iff_of_false ?_ (not_mem_of_size hwf hzero), fun pos walk clean hcov => ?_⟩
    · rintro ⟨_, _, hk⟩
      cases hk
    have hpos : pos = 0 := Nat.le_zero.mp (hnone ▸ hcov.pos_le)
    have hwalk : walk = none := by
      by_contra hwalk
      have := hcov.within hwalk
      omega
    subst hpos hwalk
    exact covered_start
  next hsize => exact ⟨hwf, Nat.pos_of_ne_zero hsize, fun _ => .rfl, fun _ _ _ => id⟩

/-- **A new key is in the table**, whether or not it grows, and a scan goes on. -/
theorem add_spec (hwf : t.Wf conf.hash) (hnew : ¬ t.Mem k) (junk : Nat → List κ) :
    (conf.add junk t k).Wf conf.hash ∧ (∀ j, (conf.add junk t k).Mem j ↔ j = k ∨ t.Mem j)
      ∧ (0 < conf.factor → ∀ pos walk clean, Covered t pos walk clean → clean k →
        (walk ≠ none → Untouched conf.factor t pos) →
        Covered (conf.add junk t k) pos walk clean) := by
  obtain ⟨hstart, hsize, hmem, hcov⟩ := start_spec hwf
  have hnew' : ¬ (conf.start t).Mem k := fun hk => hnew ((hmem k).mp hk)
  have hins : ∀ t : HashTab κ, Agrees (t.insert conf.hash k) (conf.insert t k) := fun t =>
    agrees_setElem
  unfold add
  dsimp only
  split
  · obtain ⟨hwfm, hmemm, hsizem, _⟩ := move_spec hstart conf.factor
    have hnewm : ¬ ((conf.start t).move conf.hash conf.factor).Mem k :=
      fun hk => hnew' ((hmemm k).mp hk)
    refine ⟨(hins _).wf (wf_insert hwfm hnewm), fun j => ?_,
      fun hfactor pos walk clean hc hk hsafe => ?_⟩
    · rw [(hins _).mem, HashTab.mem_insert hwfm (hsizem ▸ hsize), hmemm, hmem]
    refine (hins _).covered (Covered.insert
      ((hcov pos walk clean hc).move hstart hfactor fun hwalk => ?_) hnewm hk)
    -- a walk is under way, so the table is there already
    have hfirst : conf.start t = t := by
      refine if_neg fun hzero => ?_
      have := hc.within hwalk
      have := hwf.le
      omega
    rw [hfirst]
    exact hsafe hwalk
  next hge =>
  have hdone : (conf.start t).rehashpos = (conf.start t).size :=
    le_antisymm hstart.le (Nat.not_lt.mp hge)
  have hwfi := (hins _).wf (wf_insert hstart hnew')
  have hmemi : ∀ j, (conf.insert (conf.start t) k).Mem j ↔ j = k ∨ t.Mem j := fun j => by
    rw [(hins _).mem, HashTab.mem_insert hstart hsize, hmem]
  have hcovi : ∀ pos walk clean, Covered t pos walk clean → clean k →
      Covered (conf.insert (conf.start t) k) pos walk clean := fun pos walk clean hc hk =>
    (hins _).covered ((hcov pos walk clean hc).insert hnew' hk)
  split
  · refine ⟨agrees_growInto.wf (wf_grow hwfi hsize hdone), fun j => ?_,
      fun _ pos walk clean hc hk _ =>
        agrees_growInto.covered ((hcovi pos walk clean hc hk).grow hdone)⟩
    rw [agrees_growInto.mem, ← hmemi j]
    unfold HashTab.Mem HashTab.grow
    rw [show (conf.insert (conf.start t) k).size = (conf.insert (conf.start t) k).rehashpos
      from hdone.symm]
  · exact ⟨hwfi, hmemi, fun _ pos walk clean hc hk _ => hcovi pos walk clean hc hk⟩

end Scan

/-! ## §3. What the table stores. -/

/-- Chains in order, with the keys of the set, which are counted. -/
structure Stores (conf : HashConf κ) (t : HashTab κ) (stored : Finset κ) : Prop where
  wf : t.Wf conf.hash
  mem : ∀ k, t.Mem k ↔ k ∈ stored
  elem : t.elem = stored.card
  small : stored.card < 2 ^ 32

section

variable (h : conf.Stores t stored) [DecidableEq κ]
include h

omit [DecidableEq κ] in
theorem Stores.eq_empty (hzero : t.size = 0) : stored = ∅ :=
  Finset.eq_empty_of_forall_notMem fun k hk => not_mem_of_size h.wf hzero ((h.mem k).mpr hk)

/-- The chain of a key tells whether it is stored. -/
theorem contains_iff (hpos : t.size ≠ 0) :
    ((conf.advance t).bucket ((conf.advance t).home conf.hash k)).contains k = true
      ↔ k ∈ stored := by
  obtain ⟨hwf, hmem, hsize, _⟩ := advance_spec h.wf
  rw [List.contains_iff_mem, ← mem_iff_home hwf (by omega), hmem, h.mem]

/-- **A look-up finds exactly what is stored.** -/
theorem find_spec :
    conf.Stores (conf.find t k).1 stored ∧ ((conf.find t k).2 = true ↔ k ∈ stored) := by
  unfold find
  split
  next hzero =>
    rw [h.eq_empty hzero]
    exact ⟨h.eq_empty hzero ▸ h, iff_of_false Bool.false_ne_true (Finset.notMem_empty k)⟩
  next hne =>
    obtain ⟨hwf, hmem, _, helem⟩ := advance_spec h.wf
    exact ⟨⟨hwf, fun j => (hmem j).trans (h.mem j), helem.trans h.elem, h.small⟩,
      contains_iff h hne⟩

theorem stores_delete (k : κ) : conf.Stores (conf.delete t k) (stored.erase k) := by
  obtain ⟨hwf, hmem⟩ := delete_spec (k := k) h.wf
  have hsmall := h.small
  refine ⟨hwf, fun j => by rw [hmem, Finset.mem_erase, h.mem], ?_,
    (Finset.card_erase_le).trans_lt hsmall⟩
  unfold delete
  split
  next hzero =>
    have hempty := h.eq_empty hzero
    rw [hempty, Finset.erase_empty, ← hempty, h.elem]
  next hne =>
  have helem := (advance_spec h.wf).2.2.2.trans h.elem
  dsimp only
  split
  next hin =>
    have hcard := Finset.card_erase_add_one ((contains_iff h hne).mp hin)
    show ((conf.advance t).elem + (2 ^ 32 - 1)) % 2 ^ 32 = _
    rw [helem]
    omega
  next hout => rw [Finset.erase_eq_of_notMem fun hk => hout ((contains_iff h hne).mpr hk), helem]

/-- **A new key is stored**, and counted. -/
theorem stores_add (hk : k ∉ stored) (hsmall : stored.card + 1 < 2 ^ 32) {junk : Nat → List κ} :
    conf.Stores (conf.add junk t k) (Insert.insert k stored) := by
  obtain ⟨hwf, hmem, _⟩ := add_spec h.wf (fun hin => hk ((h.mem k).mp hin)) junk
  have hcard := Finset.card_insert_of_notMem hk
  have hstart : (conf.start t).elem = stored.card := by
    unfold start
    split
    next hzero => rw [h.eq_empty hzero, Finset.card_empty]
    · exact h.elem
  refine ⟨hwf, fun j => by rw [hmem, Finset.mem_insert, h.mem], ?_, hcard ▸ hsmall⟩
  have helem : (conf.add junk t k).elem = ((conf.start t).elem + 1) % 2 ^ 32 := by
    unfold add
    dsimp only
    split
    · show (((conf.start t).move conf.hash conf.factor).elem + 1) % 2 ^ 32 = _
      rw [(move_spec (start_spec h.wf).1 conf.factor).2.2.2.2.1]
    split <;> rfl
  rw [helem, hstart, hcard, Nat.mod_eq_of_lt hsmall]

end

theorem stores_init : conf.Stores init ∅ := by
  refine ⟨⟨?_, ?_, Nat.le_refl 0, nofun, nofun⟩, fun k => ?_, rfl, Nat.two_pow_pos 32⟩
  · simp only [init, Nat.zero_div, Nat.mul_zero]
  · simp only [init, Nat.zero_div, Nat.le_refl]
  exact iff_of_false (fun ⟨_, hb, _⟩ => nomatch hb) (Finset.notMem_empty k)

/-- **Runs.** -/
theorem stores_run [DecidableEq κ] {es : List (HashEvent κ)}
    (hfresh : StepsMeet conf.step Fresh (init, ∅) es) :
    conf.Stores (run conf.step (init, ∅) es).1 (run conf.step (init, ∅) es).2 := by
  have hstep : ∀ s e, conf.Stores s.1 s.2 → Fresh s e →
      conf.Stores (conf.step s e).1 (conf.step s e).2 := by
    intro s e h he
    cases e with
    | add k junk => exact stores_add h he.1 he.2
    | find k => exact (find_spec h).1
    | delete k => exact stores_delete h k
  exact run_invariant hstep es _ stores_init hfresh

end HashConf

end MfsMaster.Lib
