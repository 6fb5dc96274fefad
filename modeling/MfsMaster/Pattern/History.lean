/-
  MfsMaster.Pattern.History
  **WHICH TABLES OF CREATION PATTERNS ARE LOADED BACK.**

  Patterns are added and deleted by requests and by the change log, they go with their
  storage class, and the table is stored and loaded when the master restarts.  Each sort
  on the way may be done by another routine.

      wf_history              — what every table keeps
      patterns_load_back_iff  — a table comes back exactly when it is not full and its
                                names have no more than 254 bytes
      full_patterns_refused   — 1024 patterns that are lost
-/
import MfsMaster.Lib.Replay
import MfsMaster.Pattern.Store

namespace MfsMaster

/-! ## §1. Histories. -/

inductive PatternEvent where
  /-- `patterns_add`, with the class its name stands for. -/
  | add (q : Sorter) (sclass : UInt8) (p : PatternEntry)
  /-- `patterns_mr_add`. -/
  | mrAdd (q : Sorter) (p : PatternEntry)
  /-- `patterns_delete` and `patterns_mr_delete`. -/
  | delete (q : Sorter) (key : NameBytes × UInt32 × UInt32)
  /-- `patterns_sclass_delete`. -/
  | sclassDelete (q : Sorter) (scid : UInt8)
  /-- The table is stored and loaded. -/
  | reload (q : Sorter)

variable {t t' : PatternTab} {p : PatternEntry}

namespace PatternTab

/-- The table after an event; `none` when the master does not get past it. -/
def step (t : PatternTab) : PatternEvent → Option PatternTab
  | .add q sclass p => (patternsAdd q t sclass p).map Prod.snd
  | .mrAdd q p => (patternsUnivAdd q t p).map Prod.snd
  | .delete q key => some (patternsUnivDelete q t key).2
  | .sclassDelete q scid => some (patternsSclassDelete q t scid)
  | .reload q => (patternsStore t).bind (patternsLoad q 0x11 false)

/-- The table a history ends with. -/
def After (es : List PatternEvent) (t : PatternTab) : Prop := Lib.replay step [] es = some t

/-! ## §2. What every table keeps. -/

theorem wf_nil : Wf [] := ⟨nofun, nofun, List.nodup_nil, Nat.zero_le _⟩

/-- A pattern that was added: where it went, and what was tested. -/
theorem univAdd_cases {q : Sorter} (h : (patternsUnivAdd q t p).map Prod.snd = some t') :
    t' = t ∨ (t' = q.sort (t ++ [p]) ∧ p.acceptable = true ∧ (globNew p.gname).isSome = true
      ∧ (∀ p' ∈ t, p'.key ≠ p.key) ∧ t.length < patternsMax) := by
  unfold patternsUnivAdd patternsHaveChanged at h
  split at h
  · exact .inl (Option.some.inj h).symm
  next hacc =>
  split at h
  · exact .inl (Option.some.inj h).symm
  next hkey =>
  split at h
  · exact .inl (Option.some.inj h).symm
  next hroom =>
  split at h
  next hglob =>
    refine .inr ⟨(Option.some.inj h).symm, ?_, ?_, fun p' hp' heq => ?_,
      Nat.not_le.mp hroom⟩
    · exact Bool.not_eq_false _ ▸ fun hno => hacc (by rw [hno]; rfl)
    · exact List.all_eq_true.mp hglob p List.mem_cons_self
    · exact hkey (List.any_eq_true.mpr ⟨p', hp', beq_iff_eq.mpr heq⟩)
  · cases h

theorem univAdd_sorts {q : Sorter} (hwf : t.Wf)
    (h : (patternsUnivAdd q t p).map Prod.snd = some t') :
    t' = t ∨ ∃ (q : Sorter) (l : PatternTab), l.Wf ∧ t' = q.sort l := by
  rcases univAdd_cases h with rfl | ⟨rfl, hacc, hglob, hkey, hroom⟩
  · exact .inl rfl
  refine .inr ⟨q, t ++ [p], ⟨fun p' hp' => ?_, fun p' hp' => ?_, ?_, ?_⟩, rfl⟩
  · rcases List.mem_append.mp hp' with hp' | hp'
    · exact hwf.acceptable p' hp'
    · rw [List.mem_singleton.mp hp']
      exact hacc
  · rcases List.mem_append.mp hp' with hp' | hp'
    · exact hwf.made p' hp'
    · rw [List.mem_singleton.mp hp']
      exact hglob
  · rw [List.map_append]
    refine List.nodup_append.mpr ⟨hwf.keys, List.nodup_singleton _, fun k hk k' hk' heq => ?_⟩
    obtain ⟨p', hp', rfl⟩ := List.mem_map.mp hk
    rw [List.map_singleton, List.mem_singleton] at hk'
    exact hkey p' hp' (heq.trans hk')
  · rw [List.length_append]
    exact hroom

/-- **What an event does**: nothing, or patterns come or go and the table is sorted again. -/
theorem step_cases {e : PatternEvent} (hwf : t.Wf) (h : t.step e = some t') :
    t' = t ∨ ∃ (q : Sorter) (l : PatternTab), l.Wf ∧ t' = q.sort l := by
  cases e with
  | add q sclass p =>
    unfold step patternsAdd at h
    dsimp only at h
    split at h
    · split at h
      · exact .inl (Option.some.inj h).symm
      · exact univAdd_sorts hwf h
    · exact univAdd_sorts hwf h
  | mrAdd q p => exact univAdd_sorts hwf h
  | delete q key =>
    have h : (patternsUnivDelete q t key).2 = t' := Option.some.inj h
    unfold patternsUnivDelete at h
    split at h
    · exact .inr ⟨q, _, hwf.filter, h.symm⟩
    · exact .inl h.symm
  | sclassDelete q scid => exact .inr ⟨q, _, hwf.filter, (Option.some.inj h).symm⟩
  | reload q =>
    obtain ⟨stream, hstore, h⟩ := Option.bind_eq_some_iff.mp h
    rw [patternsStore_eq] at hstore
    split at hstore
    case isFalse => cases hstore
    cases hstore
    rcases Nat.lt_or_eq_of_le hwf.fits with hroom | hfull
    · rw [patternsLoad_stream hwf hroom] at h
      exact .inr ⟨q, t, hwf, (Option.some.inj h).symm⟩
    · rw [patternsLoad_full hwf hfull] at h
      cases h

theorem wf_step (t : PatternTab) (e : PatternEvent) (t' : PatternTab) (hwf : t.Wf)
    (h : t.step e = some t') : t'.Wf := by
  rcases step_cases hwf h with rfl | ⟨q, l, hl, rfl⟩
  · exact hwf
  · exact hl.perm (q.perm l)

/-- **The tables of all histories.** -/
theorem wf_history {es : List PatternEvent} (h : After es t) : t.Wf :=
  Lib.replay_invariant wf_step es [] t wf_nil h

end PatternTab

/-! ## §3. Loading back. -/

/-- **The stored patterns load back exactly when** the table is not full and no name has 255
bytes. -/
theorem patterns_load_back_iff (es : List PatternEvent) (t : PatternTab)
    (h : PatternTab.After es t) (q : Sorter) :
    (∃ t', (patternsStore t).bind (patternsLoad q 0x11 false) = some t' ∧ t'.Perm t)
      ↔ t.length < patternsMax ∧ ∀ p ∈ t, p.gname.val.length ≤ 254 := by
  have hwf := PatternTab.wf_history h
  rw [patternsStore_eq]
  by_cases hnames : ∀ p ∈ t, p.gname.val.length ≤ 254
  · rw [if_pos hnames, Option.bind_some, and_iff_left hnames]
    constructor
    · rintro ⟨t', hload, _⟩
      refine lt_of_le_of_ne hwf.fits fun hfull => ?_
      rw [patternsLoad_full hwf hfull] at hload
      cases hload
    · intro hroom
      exact ⟨q.sort t, patternsLoad_stream hwf hroom, q.perm t⟩
  · rw [if_neg hnames]
    exact iff_of_false (fun ⟨_, hload, _⟩ => nomatch hload) fun hfits => hnames hfits.2

/-- A pattern for all objects of a user, which keeps them for a day in the trash. -/
def userPattern (i : Nat) : PatternEntry :=
  { gname := ⟨[chAsterisk], by decide⟩, euid := UInt32.ofNat i, egid := patternEugidAny
    priority := 0, omask := 0x02, scid := 0, trashretention := 24, seteattr := 0, clreattr := 0 }

/-- One request for each of `n` users. -/
def userPatterns (n : Nat) : List PatternEvent :=
  (List.range n).map fun i => .add mergeSorter 0 (userPattern i)

theorem userPattern_key {i j : Nat} (hi : i < 2 ^ 32) (hj : j < 2 ^ 32)
    (h : (userPattern i).key = (userPattern j).key) : i = j := by
  have heuid : UInt32.ofNat i = UInt32.ofNat j := congrArg (fun k => k.2.1) h
  have hnat := congrArg UInt32.toNat heuid
  rwa [UInt32.toNat_ofNat', UInt32.toNat_ofNat', Nat.mod_eq_of_lt hi, Nat.mod_eq_of_lt hj] at hnat

/-- One more user, while there is room. -/
theorem step_userPattern {n : Nat} (hn : n < patternsMax)
    (hperm : t.Perm ((List.range n).map userPattern)) :
    t.step (.add mergeSorter 0 (userPattern n))
      = some (mergeSorter.sort (t ++ [userPattern n])) := by
  have hmax : patternsMax = 1024 := rfl
  have hlen : t.length = n := by rw [hperm.length_eq, List.length_map, List.length_range]
  have hkey : (t.any fun p' => p'.key == (userPattern n).key) = false := by
    refine List.any_eq_false.mpr fun p' hp' hsame => ?_
    obtain ⟨i, hi, rfl⟩ := List.mem_map.mp (hperm.mem_iff.mp hp')
    have hi := List.mem_range.mp hi
    have := userPattern_key (by omega) (by omega) (beq_iff_eq.mp hsame)
    omega
  have hsclass : ¬ (((userPattern n).omask &&& patternOmaskSclass != 0) = true) := by
    show ¬ (((0x02 : UInt8) &&& patternOmaskSclass != 0) = true)
    decide
  have hacc : (userPattern n).acceptable = true := by
    unfold PatternEntry.acceptable userPattern
    dsimp only
    decide
  have hsame : { userPattern n with scid := 0 } = userPattern n := rfl
  unfold PatternTab.step patternsAdd
  dsimp only
  rw [if_neg hsclass, hsame]
  unfold patternsUnivAdd
  rw [hacc, hkey, if_neg (by decide),
    if_neg (by decide), if_neg (by omega)]
  rfl

theorem after_userPatterns_one : PatternTab.After (userPatterns 1) [userPattern 0] := by
  show Lib.replay PatternTab.step [] [.add mergeSorter 0 (userPattern 0)] = _
  rw [Lib.replay_singleton, step_userPattern (n := 0) (t := []) (by decide) (.refl _)]
  exact congrArg some (List.mergeSort_singleton _)

theorem patterns_load_back_one :
    PatternTab.After (userPatterns 1) [userPattern 0]
      ∧ ∃ t', (patternsStore [userPattern 0]).bind (patternsLoad mergeSorter 0x11 false) = some t'
        ∧ t'.Perm [userPattern 0] :=
  ⟨after_userPatterns_one,
    (patterns_load_back_iff _ _ after_userPatterns_one mergeSorter).mpr (by decide)⟩

/-- The table can be filled up. -/
theorem after_userPatterns {n : Nat} (hn : n ≤ patternsMax) :
    ∃ t, PatternTab.After (userPatterns n) t ∧ t.Perm ((List.range n).map userPattern) := by
  induction n with
  | zero => exact ⟨[], rfl, .refl _⟩
  | succ n ih =>
    obtain ⟨t, hafter, hperm⟩ := ih (Nat.le_of_succ_le hn)
    refine ⟨mergeSorter.sort (t ++ [userPattern n]), ?_, ?_⟩
    · unfold PatternTab.After userPatterns at hafter ⊢
      rw [List.range_succ, List.map_append, Lib.replay_append, hafter]
      show Lib.replay PatternTab.step t [_] = _
      rw [Lib.replay_singleton, step_userPattern hn hperm]
    · rw [List.range_succ, List.map_append]
      exact (mergeSorter.perm _).trans (hperm.append_right _)

/-- A full table is stored and does not load back. -/
theorem full_patterns_refused :
    ∃ es t stream, PatternTab.After es t ∧ patternsStore t = some stream
      ∧ patternsLoad mergeSorter 0x11 false stream = none := by
  obtain ⟨t, hafter, hperm⟩ := after_userPatterns le_rfl
  refine ⟨userPatterns patternsMax, t, patternsStream t, hafter, ?_, ?_⟩
  · rw [patternsStore_eq]
    refine if_pos fun p hp => ?_
    obtain ⟨i, _, rfl⟩ := List.mem_map.mp (hperm.mem_iff.mp hp)
    exact (by decide : 1 ≤ 254)
  · refine patternsLoad_full (PatternTab.wf_history hafter) ?_
    rw [hperm.length_eq, List.length_map, List.length_range]

end MfsMaster
