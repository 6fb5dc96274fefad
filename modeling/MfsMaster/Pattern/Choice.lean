/-
  MfsMaster.Pattern.Choice
  **WHICH CREATION PATTERN IS APPLIED.**

  The comparison knows the priority, the class and the name of a pattern, and not its
  user and group.  Two patterns it calls equal can both be for one object, and then the
  sort decides between them.  Besides, a match may depend on what stands behind the name
  in memory (see `MfsMaster.Pattern.Glob`).

      exists_history_of_perm       — every sorted order of a table is reached
      pattern_choice_fixed_iff     — when the set of patterns decides
      pattern_choice_by_the_sort   — two histories, one set, two answers
-/
import MfsMaster.Pattern.History

namespace MfsMaster

open PatternEntry

/-! ## §1. Tables are sorted. -/

/-- A routine that gives a certain sorted list, and sorts the others in some way. -/
def Sorter.giving (t : PatternTab) (ht : Lib.Ordered le t) : Sorter where
  sort := fun l => if l.Perm t then t else mergeSorter.sort l
  perm := fun l => by
    split
    next h => exact h.symm
    · exact mergeSorter.perm l
  ordered := fun l => by
    split
    · exact ht
    · exact mergeSorter.ordered l

variable {t : PatternTab} {es : List PatternEvent} {t' : PatternTab}

theorem Sorter.sort_giving {l : PatternTab} (ht : Lib.Ordered le t)
    (hperm : l.Perm t) : (Sorter.giving t ht).sort l = t := if_pos hperm

namespace PatternTab

theorem ordered_step (t : PatternTab) (e : PatternEvent) (t' : PatternTab)
    (hinv : t.Wf ∧ Lib.Ordered le t) (h : t.step e = some t') : t'.Wf ∧ Lib.Ordered le t' := by
  refine ⟨wf_step t e t' hinv.1 h, ?_⟩
  rcases step_cases hinv.1 h with rfl | ⟨q, l, _, rfl⟩
  · exact hinv.2
  · exact q.ordered l

theorem ordered_history (h : After es t) : Lib.Ordered le t :=
  (Lib.replay_invariant ordered_step es [] t ⟨wf_nil, List.Pairwise.nil⟩ h).2

/-! ## §2. Every order is reached. -/

/-- Deleting a pattern and adding it again sorts the table anew. -/
theorem exists_history_of_perm (h : After es t)
    (hperm : t'.Perm t) (hord : Lib.Ordered le t') : ∃ es', After es' t' := by
  have hwf := wf_history h
  cases t with
  | nil => exact ⟨es, hperm.eq_nil ▸ h⟩
  | cons p t =>
    have hkeys := List.nodup_cons.mp (List.map_cons ▸ hwf.keys)
    -- only `p` itself has its key
    have hrest : ∀ p' ∈ t, p'.key ≠ p.key := fun p' hp' heq =>
      hkeys.1 (heq ▸ List.mem_map.mpr ⟨p', hp', rfl⟩)
    have hfilter : (p :: t).filter (fun p' => p'.key != p.key) = t := by
      rw [List.filter_cons, if_neg (by rw [bne_self_eq_false]; exact Bool.false_ne_true)]
      exact List.filter_eq_self.mpr fun p' hp' => bne_iff_ne.mpr (hrest p' hp')
    have hdel : step (p :: t) (.delete mergeSorter p.key) = some (mergeSorter.sort t) := by
      unfold step patternsUnivDelete
      dsimp only
      rw [if_pos (by rw [List.any_cons, beq_self_eq_true, Bool.true_or]), hfilter]
    have hback : (mergeSorter.sort t ++ [p]).Perm t' :=
      ((mergeSorter.perm t).append_right [p]).trans
        ((List.perm_append_singleton p t).trans hperm.symm)
    have hnokey : ((mergeSorter.sort t).any fun p' => p'.key == p.key) = false := by
      refine List.any_eq_false.mpr fun p' hp' hsame => ?_
      exact hrest p' ((mergeSorter.perm t).mem_iff.mp hp') (beq_iff_eq.mp hsame)
    have hroom : ¬ patternsMax ≤ (mergeSorter.sort t).length := by
      have hfits := hwf.fits
      rw [List.length_cons] at hfits
      rw [(mergeSorter.perm t).length_eq]
      omega
    have hadd : step (mergeSorter.sort t) (.mrAdd (Sorter.giving t' hord) p) = some t' := by
      unfold step patternsUnivAdd patternsHaveChanged
      dsimp only
      rw [hwf.acceptable p List.mem_cons_self, hnokey, if_neg (by decide), if_neg (by decide),
        if_neg hroom, if_pos (by rw [List.all_cons, hwf.made p List.mem_cons_self]; rfl),
        Sorter.sort_giving hord hback]
      rfl
    refine ⟨es ++ [.delete mergeSorter p.key, .mrAdd (Sorter.giving t' hord) p], ?_⟩
    unfold After at h ⊢
    rw [Lib.replay_append, h, Option.bind_some, Lib.replay_cons, hdel, Option.bind_some,
      Lib.replay_singleton, hadd]

/-! ## §3. When the set of patterns decides. -/

/-- The tables have the same patterns. -/
def Same (t t' : PatternTab) : Prop := ∀ p, p ∈ t ↔ p ∈ t'

/-- Whatever the history and the memory, an object gets the same pattern. -/
def ChoiceFixed (t : PatternTab) : Prop :=
  ∀ es' t', After es' t' → Same t t' → ∀ (o : NewObject) (behind : Nat → UInt8),
    t.patternsFindMatching o = t'.patternsFindMatching { o with behind := behind }

/-- The matches for an object that no match comes before have one effect, and this does not
depend on what is in memory behind the name. -/
def Unambiguous (t : PatternTab) : Prop :=
  ∀ (o : NewObject) (behind : Nat → UInt8),
    (∀ p p', Lib.Best le (hits o) t p →
      Lib.Best le (hits { o with behind := behind }) t p' →
      p.effect = p'.effect)
    ∧ ((∃ p ∈ t, p.hits o = true) → ∃ p ∈ t, p.hits { o with behind := behind } = true)

/-- What the search answers is the effect of a best match. -/
theorem find_cases (h : After es t) {o : NewObject} :
    (t.patternsFindMatching o = none ∧ ∀ p ∈ t, p.hits o = false)
      ∨ ∃ p, t.patternsFindMatching o = some p.effect
        ∧ Lib.Best le (hits o) t p := by
  unfold PatternTab.patternsFindMatching
  cases hfind : t.find? (hits o) with
  | none =>
    refine .inl ⟨rfl, fun p hp => ?_⟩
    exact Bool.eq_false_iff.mpr (List.find?_eq_none.mp hfind p hp)
  | some p =>
    exact .inr ⟨p, rfl, Lib.best_of_find? le_refl (ordered_history h) hfind⟩

theorem choiceFixed_of_unambiguous (h : After es t) (hone : t.Unambiguous) : t.ChoiceFixed := by
  intro es' t' h' hsame o behind
  rcases find_cases h with ⟨hnone, hmiss⟩ | ⟨p, hsome, hbest⟩
  · rcases find_cases h' with ⟨hnone', _⟩ | ⟨p', _, hbest'⟩
    · rw [hnone, hnone']
    -- a match with the other memory is a match with this one
    obtain ⟨p, hp, hhit⟩ := (hone { o with behind := behind } o.behind).2
      ⟨p', (hsame p').mpr hbest'.mem, hbest'.matched⟩
    have hno := hmiss p hp
    rw [show p.hits o = true from hhit] at hno
    cases hno
  · rcases find_cases h' with ⟨_, hmiss'⟩ | ⟨p', hsome', hbest'⟩
    · obtain ⟨p', hp', hhit⟩ := (hone o behind).2 ⟨p, hbest.mem, hbest.matched⟩
      rw [hmiss' p' ((hsame p').mp hp')] at hhit
      cases hhit
    · rw [hsome, hsome', (hone o behind).1 p p' hbest
        (hbest'.of_mem_iff fun q => (hsame q).symm)]

theorem unambiguous_of_choiceFixed (h : After es t) (hfixed : t.ChoiceFixed) : t.Unambiguous := by
  -- any best match is the answer after some history
  have hreached : ∀ o p, Lib.Best le (hits o) t p →
      t.patternsFindMatching o = some p.effect := by
    intro o p hbest
    obtain ⟨t', hperm, hord, hfind⟩ :=
      Lib.exists_sorted_find? le_trans le_total hbest
    obtain ⟨es', h'⟩ := exists_history_of_perm h hperm hord
    rw [hfixed es' t' h' (fun q => hperm.mem_iff.symm) o o.behind]
    unfold PatternTab.patternsFindMatching
    rw [hfind]
    rfl
  intro o behind
  have hself := hfixed es t h (fun _ => .rfl) o behind
  refine ⟨fun p p' hbest hbest' => ?_, fun ⟨p, hp, hhit⟩ => ?_⟩
  · rw [hreached o p hbest, hreached _ p' hbest'] at hself
    exact Option.some.inj hself
  by_contra hnone
  rcases find_cases h with ⟨_, hmiss⟩ | ⟨p', hsome, _⟩
  · rw [hmiss p hp] at hhit
    cases hhit
  rcases find_cases h with ⟨hnone', _⟩ | ⟨p'', _, hbest''⟩
  · rw [hsome, hnone'] at hself
    cases hself
  · exact hnone ⟨p'', hbest''.mem, hbest''.matched⟩

end PatternTab

/-- **The set of patterns decides exactly when it is unambiguous.** -/
theorem pattern_choice_fixed_iff (es : List PatternEvent) (t : PatternTab)
    (h : PatternTab.After es t) : t.ChoiceFixed ↔ t.Unambiguous :=
  ⟨PatternTab.unambiguous_of_choiceFixed h, PatternTab.choiceFixed_of_unambiguous h⟩

/-- Everything made by the user 7 stays a day in the trash, ... -/
def ofUser : PatternEntry := { userPattern 7 with euid := 7 }

/-- ... and everything made in the group 5 two days. -/
def ofGroup : PatternEntry :=
  { userPattern 0 with euid := patternEugidAny, egid := 5, trashretention := 48 }

/-- The same with a higher priority. -/
def ofGroupFirst : PatternEntry := { ofGroup with priority := 1 }

theorem ordered_user : Lib.Ordered le [ofUser] := List.pairwise_singleton _ _

theorem ordered_first : Lib.Ordered le [ofGroupFirst, ofUser] := by
  unfold Lib.Ordered
  decide

theorem after_first : PatternTab.After [.add (.giving _ ordered_user) 0 ofUser,
    .add (.giving _ ordered_first) 0 ofGroupFirst] [ofGroupFirst, ofUser] := by
  unfold PatternTab.After
  decide

/-- With two priorities the group goes first, for whoever is in it. -/
theorem pattern_choice_fixed_one : PatternTab.After [.add (.giving _ ordered_user) 0 ofUser,
        .add (.giving _ ordered_first) 0 ofGroupFirst] [ofGroupFirst, ofUser]
      ∧ PatternTab.ChoiceFixed [ofGroupFirst, ofUser] := by
  refine ⟨after_first, (pattern_choice_fixed_iff _ _ after_first).mpr fun o behind => ?_⟩
  -- an asterisk matches without a look at the name
  have hits_behind : ∀ p ∈ [ofGroupFirst, ofUser], p.hits { o with behind := behind } = p.hits o := by
    intro p hp
    rcases List.mem_pair.mp hp with rfl | rfl <;> rfl
  refine ⟨fun p p' hbest hbest' => ?_, fun ⟨p, hp, hhit⟩ => ⟨p, hp, hits_behind p hp ▸ hhit⟩⟩
  have hmatch := hits_behind p hbest.mem ▸ hbest.matched
  have hmatch' := hits_behind p' hbest'.mem ▸ hbest'.matched
  have hle := hbest.least p' hbest'.mem hmatch'
  have hle' := hbest'.least p hbest.mem hmatch
  have hone : ∀ p ∈ [ofGroupFirst, ofUser], ∀ p' ∈ [ofGroupFirst, ofUser],
      p.le p' = true → p'.le p = true → p.effect = p'.effect := by decide
  exact hone p hbest.mem p' hbest'.mem hle hle'

/-- The user 7 in the group 5 makes an object `a`. -/
def inBoth : NewObject := { uid := 7, gid := [5], name := ⟨[97], by decide⟩, behind := fun _ => 0 }

theorem ordered_user_group : Lib.Ordered le [ofUser, ofGroup] := by
  unfold Lib.Ordered
  decide

theorem ordered_group_user : Lib.Ordered le [ofGroup, ofUser] := by
  unfold Lib.Ordered
  decide

/-- The second request, with two routines that sort. -/
def userFirst : List PatternEvent :=
  [.add (.giving _ ordered_user) 0 ofUser, .add (.giving _ ordered_user_group) 0 ofGroup]

def groupFirst : List PatternEvent :=
  [.add (.giving _ ordered_user) 0 ofUser, .add (.giving _ ordered_group_user) 0 ofGroup]

/-- Two histories of one set of patterns; the sort decides which of them is applied. -/
theorem pattern_choice_by_the_sort :
    PatternTab.After userFirst [ofUser, ofGroup] ∧ PatternTab.After groupFirst [ofGroup, ofUser]
      ∧ PatternTab.Same [ofUser, ofGroup] [ofGroup, ofUser]
      ∧ PatternTab.patternsFindMatching [ofUser, ofGroup] inBoth = some (0x02, 0, 24, 0, 0)
      ∧ PatternTab.patternsFindMatching [ofGroup, ofUser] inBoth = some (0x02, 0, 48, 0, 0) := by
  refine ⟨?_, ?_, fun p => ?_, ?_, ?_⟩
  · unfold PatternTab.After
    decide
  · unfold PatternTab.After
    decide
  · rw [List.mem_pair, List.mem_pair]
    exact or_comm
  · decide
  · decide

end MfsMaster
