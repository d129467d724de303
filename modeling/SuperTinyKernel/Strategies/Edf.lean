import SuperTinyKernel.Strategies.TwoLists

namespace SuperTinyKernel.Edf

open List

-- A later task is taken for a strictly earlier deadline only.
def earlier (v : Views n) (next i : Fin n) : Fin n :=
  if (v i).hrtRelativeDeadline < (v next).hrtRelativeDeadline then i else next

def getNext (v : Views n) (s : Lists n) : Option (Fin n) :=
  match s.tasks with
  | [] => none
  | start :: rest => some (rest.foldl (earlier v) start)

-- SwitchStrategyEDF.
def strategy (n : Nat) : Strategy n where
  api := ⟨false,true,false,false,false,false⟩
  State := Lists n
  initial := ⟨[],[]⟩
  addTask _ := Lists.addTask
  removeTask _ := Lists.removeTask
  getNext v s := some (getNext v s,s)
  getFirst := Lists.getFirst
  getSize := Lists.getSize
  onTaskSleep _ := Lists.onTaskSleep
  onTaskWake _ := Lists.onTaskWake
  onTaskWeightChange _ _ _ s := some s
  onTaskYield _ _ s := some (false,s)
  onTaskTimeSlice _ _ s := some (false,s)
  onTaskDeadlineMissed _ s := some (false,s)
  runnableLists s := [s.tasks]
  sleepList := Lists.sleep

variable {s : Lists n} {i : Fin n} {v : Views n}

theorem foldl_earlier_mem (start : Fin n) (rest : List (Fin n)) : rest.foldl (earlier v) start ∈ start :: rest := by
  induction rest generalizing start with
  | nil => simp
  | cons i rest ih =>
    have inside := ih (earlier v start i)
    have picked : earlier v start i = start ∨ earlier v start i = i := by
      unfold earlier; split <;> simp
    rcases mem_cons.mp inside with here | later
    · rw [foldl_cons,here]
      rcases picked with first | second <;> simp [*]
    · simp [later]

theorem earlier_le (start i : Fin n) :
    (v (earlier v start i)).hrtRelativeDeadline ≤ (v start).hrtRelativeDeadline ∧
      (v (earlier v start i)).hrtRelativeDeadline ≤ (v i).hrtRelativeDeadline := by
  unfold earlier; split <;> omega

theorem foldl_earlier_le (start : Fin n) (rest : List (Fin n)) : ∀ i ∈ start :: rest,
    (v (rest.foldl (earlier v) start)).hrtRelativeDeadline ≤ (v i).hrtRelativeDeadline := by
  induction rest generalizing start with
  | nil => simp
  | cons j rest ih =>
    intro i member
    have best := ih (earlier v start j)
    have first := best (earlier v start j) (by simp)
    rcases mem_cons.mp member with rfl | member
    · exact first.trans (earlier_le i j).1
    · rcases mem_cons.mp member with rfl | later
      · exact first.trans (earlier_le start i).2
      · exact best i (by simp [later])

theorem getNext_mem (chosen : getNext v s = some i) :
    i ∈ s.tasks ∧ ∀ j ∈ s.tasks,(v i).hrtRelativeDeadline ≤ (v j).hrtRelativeDeadline := by
  unfold getNext at chosen
  split at chosen
  · cases chosen
  · rename_i start rest tasks
    cases chosen
    rw [tasks]
    exact ⟨foldl_earlier_mem start rest,foldl_earlier_le start rest⟩

theorem getNext_none (idle : getNext v s = none) : s.tasks = [] := by
  unfold getNext at idle
  split at idle
  · assumption
  · cases idle

def lists (n : Nat) : TwoLists (strategy n) where
  tasks := Lists.tasks
  runnableLists _ := rfl
  noInheritance := rfl
  aware := rfl
  initial := ⟨rfl,rfl⟩
  add := Lists.addTask_parts
  join _ i := Lists.addTask i
  leave _ i s := do return {s with tasks := ← unlink i s.tasks}
  rest l s := {s with sleep := l}
  join_parts := Lists.addTask_parts
  join_defined absent := ⟨_,Option.bind_eq_some_iff.mpr ⟨_,linkBack_defined absent,rfl⟩⟩
  leave_parts left := by
    obtain ⟨tasks,unlinked,rfl⟩ := of_return left
    exact ⟨(unlink_parts unlinked).1,(unlink_parts unlinked).2,rfl⟩
  leave_defined linked := ⟨_,Option.bind_eq_some_iff.mpr ⟨_,unlink_defined linked,rfl⟩⟩
  rest_parts _ _ := ⟨rfl,rfl⟩
  removeTask _ _ _ := rfl
  onTaskSleep _ i s := by
    cases removed : unlink i s.tasks <;> simp [strategy,Lists.onTaskSleep,removed]
  onTaskWake _ _ _ := rfl
  next called := by
    cases called
    exact ⟨rfl,rfl,fun i chosen => (getNext_mem chosen).1,getNext_none⟩
  first := head?_append_ite _ _
  size := rfl
  yield called := by cases called; exact ⟨rfl,rfl⟩
  timeSlice := rfl
  deadlineMissed := rfl

def lawful (n : Nat) : Lawful (strategy n) := (lists n).lawful

end SuperTinyKernel.Edf
