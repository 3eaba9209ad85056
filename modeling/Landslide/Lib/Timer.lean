import Mathlib.Tactic.Common

/-! # Timers

The timers of Go 1.22. A timer runs until it fires, and then puts one tick into its channel.
`Stop` and `Reset` do not look at the channel, so a tick stays there until it is received. A
timer that is not running and whose channel is empty never ticks again by itself.
-/
namespace Landslide

structure Timer where
  running : Bool
  tick : Bool
  deriving DecidableEq

namespace Timer

def new : Timer := ⟨true,false⟩

def fire (_ : Timer) : Timer := ⟨false,true⟩

def stop (t : Timer) : Bool × Timer := (t.running,{ t with running := false })

def reset (t : Timer) : Timer := { t with running := true }

/-- A receive takes the tick, if there is one. -/
def receive (t : Timer) : Timer := { t with tick := false }

/-- A receive will succeed at some time: either the timer runs, or it has fired. -/
def Armed (t : Timer) : Prop := t = ⟨true,false⟩ ∨ t = ⟨false,true⟩

/-- A receive will never succeed. -/
def Spent (t : Timer) : Prop := t = ⟨false,false⟩

theorem armed_fire (t : Timer) : t.fire.Armed := .inr rfl

theorem Spent.not_armed {t : Timer} (h : t.Spent) : ¬t.Armed := by
  rcases h with rfl
  exact nofun

end Timer
end Landslide
