/-
  MfsMaster.Lib.Exclusion
  **LOCKS AS A RELATION BETWEEN HOLDERS, RESOURCES AND MODES.**

  Two modes may exclude each other on a resource that both are held on.  A request asks
  for one mode on a set of resources.

      Exclusive.grant   — a request nobody blocks keeps exclusion
      Exclusive.mono    — so does giving something up
      Blocked.grant     — who was blocked stays blocked, unless the grant weakens a mode
-/
import Mathlib.Logic.Basic

namespace MfsMaster.Lib

variable {H B M : Type} (conflict : M → M → Prop)

/-- No two holders have modes on one resource that exclude each other. -/
def Exclusive (held : H → B → M → Prop) : Prop :=
  ∀ h h' b m m', h ≠ h' → held h b m → held h' b m' → ¬ conflict m m'

/-- A request for a mode on some resources meets a mode of another holder that excludes it. -/
def Blocked (held : H → B → M → Prop) (h : H) (m : M) (s : B → Prop) : Prop :=
  ∃ h' b m', h' ≠ h ∧ s b ∧ held h' b m' ∧ conflict m m'

variable {conflict} {held held' : H → B → M → Prop} {h : H} {m : M} {s : B → Prop}

/-- Giving something up. -/
theorem Exclusive.mono (hex : Exclusive conflict held)
    (hle : ∀ h b m, held' h b m → held h b m) : Exclusive conflict held' := by
  intro h₁ h₂ b m₁ m₂ hne hm₁ hm₂
  exact hex h₁ h₂ b m₁ m₂ hne (hle h₁ b m₁ hm₁) (hle h₂ b m₂ hm₂)

/-- A grant adds no more than what was asked for. -/
theorem Exclusive.grant (hsymm : ∀ {m₁ m₂}, conflict m₁ m₂ → conflict m₂ m₁)
    (hex : Exclusive conflict held) (hfree : ¬ Blocked conflict held h m s)
    (hle : ∀ h' b m', held' h' b m' → held h' b m' ∨ (h' = h ∧ s b ∧ m' = m)) :
    Exclusive conflict held' := by
  intro h₁ h₂ b m₁ m₂ hne hm₁ hm₂ hc
  rcases hle h₁ b m₁ hm₁ with hold₁ | ⟨hh₁, hs, hnew₁⟩
  · rcases hle h₂ b m₂ hm₂ with hold₂ | ⟨hh₂, hs, hnew₂⟩
    · exact hex h₁ h₂ b m₁ m₂ hne hold₁ hold₂ hc
    · exact hfree ⟨h₁, b, m₁, fun heq => hne (heq.trans hh₂.symm), hs, hold₁, hnew₂ ▸ hsymm hc⟩
  rcases hle h₂ b m₂ hm₂ with hold₂ | ⟨hh₂, _, _⟩
  · exact hfree ⟨h₂, b, m₂, fun heq => hne (hh₁.trans heq.symm), hs, hold₂, hnew₁ ▸ hc⟩
  · exact hne (hh₁.trans hh₂.symm)

/-- A grant that weakens nothing leaves every blocked request blocked. -/
theorem Blocked.grant {h₁ : H} {m₁ : M} {s₁ : B → Prop} (hb : Blocked conflict held h₁ m₁ s₁)
    (hkeep : ∀ h' b m', held h' b m' → held' h' b m' ∨ (h' = h ∧ s b ∧ held' h' b m))
    (hweak : ∀ b m', s b → held h b m' → conflict m₁ m' → conflict m₁ m) :
    Blocked conflict held' h₁ m₁ s₁ := by
  obtain ⟨h', b, m', hne, hs, hm', hc⟩ := hb
  rcases hkeep h' b m' hm' with hold | ⟨hh, hin, hnew⟩
  · exact ⟨h', b, m', hne, hs, hold, hc⟩
  · exact ⟨h', b, m, hne, hs, hnew, hweak b m' hin (hh ▸ hm') hc⟩

end MfsMaster.Lib
