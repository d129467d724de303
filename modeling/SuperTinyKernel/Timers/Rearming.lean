import SuperTinyKernel.Timers.Commands
import SuperTinyKernel.Timers.Places

namespace SuperTinyKernel.Time

open Transition

namespace Board

variable {b b' : Board}

end Board

namespace TimerHost

variable {h h' : TimerHost threads} {size : Nat}

-- An asynchronous re-arm command for the timer is queued, or its caller is still writing it.
def Rearming (h : TimerHost threads) (commands : List (TimerCommand threads)) (t : TimerId) : Prop :=
  (∃ c ∈ commands,c.rearmed = some t) ∨ ∃ k c,(h.stages k).pushes = some c ∧ c.rearmed = some t

theorem Rearming.update {queue : List (TimerCommand threads)} (rearming : h.Rearming queue t)
    (outside : (h.stages k).pushes = none) (stages : h'.stages = Function.update h.stages k next) : h'.Rearming queue t := by
  rcases rearming with queued | ⟨k',c,pushing,rearms⟩
  · exact .inl queued
  · have other : k' ≠ k := by
      rintro rfl
      rw [outside] at pushing
      cases pushing
    refine .inr ⟨k',c,?_,rearms⟩
    rw [stages,Function.update_of_ne other]
    exact pushing

theorem Rearming.complete {queue : List (TimerCommand threads)} (rearming : h.Rearming queue t) (owned : h.Owned)
    (read : h.commands = c :: rest) (stages : h'.stages = h.completed c r info) : h'.Rearming queue t := by
  rcases rearming with queued | ⟨k,c',pushing,rearms⟩
  · exact .inl queued
  · have other : c.completion ≠ some k := by
      intro own
      have waiting := owned.awaited c (by simp [read]) k own
      rw [Stage.awaits_of_pushes pushing] at waiting
      cases waiting
    refine .inr ⟨k,c',?_,rearms⟩
    rw [stages,completed_other other]
    exact pushing

theorem Rearming.read (rearming : h.Rearming (c :: rest) t) (last : c.rearmed = some t → h.Rearming rest t) : h.Rearming rest t := by
  rcases rearming with ⟨c',member,rearms⟩ | callers
  · rcases List.mem_cons.mp member with rfl | later
    · exact last rearms
    · exact .inl ⟨c',later,rearms⟩
  · exact .inr callers

theorem Rearming.write (rearming : h.Rearming h.commands t) (pushing : (h.stages k).pushes = some c) :
    ({h with commands := h.commands ++ [c]}.setStage k next).Rearming (h.commands ++ [c]) t := by
  rcases rearming with ⟨c',member,rearms⟩ | ⟨k',c',pushes,rearms⟩
  · exact .inl ⟨c',List.mem_append_left _ member,rearms⟩
  · by_cases own : k' = k
    · subst own
      rw [pushing] at pushes
      cases pushes
      exact .inl ⟨c,List.mem_append_right _ List.mem_cons_self,rearms⟩
    · refine .inr ⟨k',c',?_,rearms⟩
      simpa [setStage,own] using pushes

theorem Rearming.fail (rearming : h.Rearming h.commands t) (pushing : (h.stages k).pushes = some c) (other : c.rearmed ≠ some t) :
    {h with board := h.reverted c,stages := Function.update h.stages k (.returned r none)}.Rearming h.commands t := by
  rcases rearming with queued | ⟨k',c',pushes,rearms⟩
  · exact .inl queued
  · have apart : k' ≠ k := by
      rintro rfl
      rw [pushing] at pushes
      cases pushes
      exact other rearms
    refine .inr ⟨k',c',?_,rearms⟩
    simpa [apart] using pushes

end TimerHost
end SuperTinyKernel.Time
