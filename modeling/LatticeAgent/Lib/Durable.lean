/-! # Visible and durable state

A directory as a crash sees it: `visible` is what every reader sees now, `durable` what a
power loss leaves. Creating, replacing and unlinking files changes the visible state at
once (`Synced.write`); a successful directory sync makes the visible state durable
(`Synced.sync`); a power loss makes the durable state the visible one
(`Synced.powerLoss`). -/

/-- Contents of type `φ`, as seen now and as a power loss would leave them. -/
structure Synced (φ : Type) where
  visible : φ
  durable : φ
deriving DecidableEq, Repr

namespace Synced
variable {φ : Type} (s : Synced φ) (f : φ → φ)

/-- Change what is visible. -/
def write : Synced φ := { s with visible := f s.visible }

/-- Make what is visible durable. -/
def sync : Synced φ := { s with durable := s.visible }

/-- Fall back to what is durable. -/
def powerLoss : Synced φ := { s with visible := s.durable }

@[simp] theorem write_visible : (s.write f).visible = f s.visible := rfl
@[simp] theorem write_durable : (s.write f).durable = s.durable := rfl
@[simp] theorem sync_visible : s.sync.visible = s.visible := rfl
@[simp] theorem sync_durable : s.sync.durable = s.visible := rfl
@[simp] theorem powerLoss_visible : s.powerLoss.visible = s.durable := rfl
@[simp] theorem powerLoss_durable : s.powerLoss.durable = s.durable := rfl

end Synced
