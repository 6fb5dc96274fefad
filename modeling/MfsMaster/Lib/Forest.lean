/-
  MfsMaster.Lib.Forest
  **WAYS UP IN A FOREST** given by parent lists (general, no file system here).

  `up d` lists the parents of `d`, once per edge.  `Chain up d l` says that `l` is the way
  from `d` to a node without a parent, and that every node on it but the last has exactly
  one parent.

      Chain.unique, Chain.of_mem   — there is one way up, and it is shared from a node on
      Chain.diverge                — two ways are disjoint up to where they meet
      Chain.mem_iff_above          — the nodes of the way are those at or above its start
      Chain.length_le              — a bound for walks that use fuel
-/
import Mathlib.Data.List.Nodup
import Mathlib.Data.List.Perm.Subperm
import Mathlib.Logic.Relation

namespace MfsMaster.Lib

variable {κ : Type*}

/-- `l` is the way from `d` upwards. -/
inductive Chain (up : κ → List κ) : κ → List κ → Prop where
  | top {d : κ} (h : up d = []) : Chain up d [d]
  | step {d p : κ} {l : List κ} (h : up d = [p]) (hp : Chain up p l) : Chain up d (d :: l)

/-- `p` is `d` or above it. -/
def Above (up : κ → List κ) (p d : κ) : Prop :=
  Relation.ReflTransGen (fun c q => q ∈ up c) d p

namespace Chain

variable {up : κ → List κ} {d d' c p : κ} {l l' : List κ}

theorem mem_self (h : Chain up d l) : d ∈ l := by
  cases h <;> exact List.mem_cons_self

/-- There is one way up. -/
theorem unique (h : Chain up d l) (h' : Chain up d l') : l = l' := by
  induction h generalizing l' with
  | top htop =>
    cases h' with
    | top => rfl
    | step hstep => rw [htop] at hstep; cases hstep
  | step hstep _ ih =>
    cases h' with
    | top htop => rw [htop] at hstep; cases hstep
    | step hstep' hp' =>
      rw [hstep] at hstep'
      cases hstep'
      rw [ih hp']

/-- The way from a node on the way is the rest of the way. -/
theorem of_mem (h : Chain up d l) (hc : c ∈ l) : ∃ lc, Chain up c lc ∧ lc <:+ l := by
  induction h with
  | top htop =>
    cases List.mem_singleton.mp hc
    exact ⟨_, .top htop, List.suffix_rfl⟩
  | @step d p l hstep hp ih =>
    rcases List.mem_cons.mp hc with rfl | hc
    · exact ⟨_, .step hstep hp, List.suffix_rfl⟩
    · obtain ⟨lc, hlc, hsuf⟩ := ih hc
      exact ⟨lc, hlc, hsuf.trans (List.suffix_cons d l)⟩

/-- Nothing above a node leads back to it: the way from there would be longer than itself. -/
theorem not_mem_of_step (hstep : up d = [p]) (hp : Chain up p l) : d ∉ l := by
  intro hd
  obtain ⟨ld, hld, hsuf⟩ := hp.of_mem hd
  have hlen := hsuf.length_le
  rw [hld.unique (.step hstep hp), List.length_cons] at hlen
  omega

theorem nodup (h : Chain up d l) : l.Nodup := by
  induction h with
  | top => exact List.nodup_singleton _
  | step hstep hp ih => exact List.nodup_cons.mpr ⟨not_mem_of_step hstep hp, ih⟩

/-- **Two ways up** are disjoint until they meet, and one from then on. -/
theorem diverge [DecidableEq κ] (h : Chain up d l) (h' : Chain up d' l') :
    ∃ a b m, l = a ++ m ∧ l' = b ++ m ∧ (∀ x ∈ a, x ∉ l') ∧ ∀ x ∈ b, x ∉ l := by
  -- when the start of `l` is on the other way, the rest of that way is `l`
  have hmeet : ∀ {d l}, Chain up d l → d ∈ l' →
      ∃ a b m, l = a ++ m ∧ l' = b ++ m ∧ (∀ x ∈ a, x ∉ l') ∧ ∀ x ∈ b, x ∉ l := by
    intro d l h hd
    obtain ⟨ld, hld, b, hb⟩ := h'.of_mem hd
    rw [hld.unique h] at hb
    have hdisj := (List.nodup_append'.mp (hb ▸ h'.nodup)).2.2
    exact ⟨[], b, l, rfl, hb.symm, nofun,
      fun x hx hxl => hdisj hx hxl⟩
  induction h with
  | @top d htop =>
    by_cases hd : d ∈ l'
    · exact hmeet (.top htop) hd
    refine ⟨[d], l', [], rfl, (List.append_nil l').symm, fun x hx => ?_, fun x hx hxd => ?_⟩
    · rwa [List.mem_singleton.mp hx]
    · exact hd (List.mem_singleton.mp hxd ▸ hx)
  | @step d p l hstep hp ih =>
    by_cases hd : d ∈ l'
    · exact hmeet (.step hstep hp) hd
    obtain ⟨a, b, m, hl, hl', ha, hb⟩ := ih
    refine ⟨d :: a, b, m, by rw [hl]; rfl, hl', List.forall_mem_cons.mpr ⟨hd, ha⟩,
      fun x hx hxd => ?_⟩
    rcases List.mem_cons.mp hxd with rfl | hxl
    · exact hd (hl' ▸ List.mem_append_left m hx)
    · exact hb x hx hxl

/-- The way consists of what is at or above its start. -/
theorem mem_iff_above (h : Chain up d l) : c ∈ l ↔ Above up c d := by
  constructor
  · intro hc
    induction h with
    | top => rw [List.mem_singleton.mp hc]; exact .refl
    | step hstep _ ih =>
      rcases List.mem_cons.mp hc with rfl | hc
      · exact .refl
      · exact .head (hstep ▸ List.mem_cons_self) (ih hc)
  · intro hc
    induction hc with
    | refl => exact h.mem_self
    | @tail x y _ hxy ih =>
      obtain ⟨lx, hlx, hsuf⟩ := h.of_mem ih
      cases hlx with
      | top htop => rw [htop] at hxy; cases hxy
      | step hstep hq =>
        rw [hstep, List.mem_singleton] at hxy
        subst hxy
        exact hsuf.subset (List.mem_cons_of_mem _ hq.mem_self)

/-- The nodes of a way, but for the last one, have parents: a list of those that have one
bounds its length. -/
theorem length_le [DecidableEq κ] (h : Chain up d l) {es : List κ}
    (hes : ∀ c ∈ l, up c ≠ [] → c ∈ es) : l.length ≤ es.length + 1 := by
  have hsub : ∀ c ∈ l.dropLast, c ∈ es := by
    induction h with
    | top => exact nofun
    | @step d p l hstep hp ih =>
      intro c hc
      have hne : l ≠ [] := List.ne_nil_of_mem hp.mem_self
      rw [List.dropLast_cons_of_ne_nil hne] at hc
      rcases List.mem_cons.mp hc with rfl | hc
      · exact hes c List.mem_cons_self (by rw [hstep]; exact List.cons_ne_nil p [])
      · exact ih (fun c hc => hes c (List.mem_cons_of_mem d hc)) c hc
  have hnodup : l.dropLast.Nodup := h.nodup.sublist (List.dropLast_sublist l)
  have hlen := (List.subperm_of_subset hnodup hsub).length_le
  rw [List.length_dropLast] at hlen
  omega

end Chain

end MfsMaster.Lib
