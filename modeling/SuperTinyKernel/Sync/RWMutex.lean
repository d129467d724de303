import SuperTinyKernel.Sync.Wait

set_option linter.unusedSectionVars false

namespace SuperTinyKernel.RWMutex

open Monitor Transition
open List hiding after

-- sync::RWMutex. ReadLock() and Lock() start again behind a cancellation and panic on any
-- other failure.

inductive Request where
  | readLock (timeout : Option Int)
  | readUnlock
  | lock (timeout : Option Int)
  | unlock
  deriving DecidableEq,Repr

-- m_cv_readers and m_cv_writers.
inductive Cond where
  | readers | writers
  deriving DecidableEq,Repr

-- The counters are uint16_t. The contract keeps them below READERS_MAX and WRITERS_MAX.
structure State where
  readers : Nat := 0
  writersWaiting : Nat := 0
  writerActive : Bool := false
  deriving DecidableEq,Repr

def readersMax : Nat := 65534
def writersMax : Nat := 65534

-- A task in the loop of TimedReadLockEx or TimedLockEx, or about to call it again. `forever`
-- marks ReadLock() and Lock().
inductive Rest where
  | reading (budget : Budget) (forever : Bool)
  | writing (budget : Budget) (forever : Bool)
  | readAgain
  | writeAgain
  deriving DecidableEq,Repr

inductive Note where
  | readLocked | readUnlocked | locked | unlocked
  deriving DecidableEq,Repr

abbrev Sect := Section State Cond Rest Wakeup Note
abbrev Mutex (T : Type) := Hall T Request State Cond Rest Wakeup Note

def readFailed (s : State) (forever : Bool) (result : Wakeup) : Option Sect :=
  if forever then if result = .canceled then some {shared := s,ending := .pause .readAgain} else none
  else some {shared := s,ending := .done result}

-- TimedReadLockEx from the head of its loop on.
def timedReadLockEx (env : Ambient) (s : State) (budget : Budget) (forever : Bool) : Option Sect :=
  if s.writerActive = true ∨ s.writersWaiting ≠ 0 then
    waitEx env .readers (budget.remaining env.now) (.reading budget forever) s (readFailed s forever)
  else if s.readers < readersMax then
    some {shared := {s with readers := s.readers + 1},log := [.readLocked],ending := .done .signal}
  else none

def readUnlock (s : State) : Option Sect :=
  if s.readers ≠ 0 then
    some {shared := {s with readers := s.readers - 1},notices := if s.readers = 1 then [.one .writers] else [],
          log := [.readUnlocked],ending := .done .signal}
  else none

-- A writer that gives up lets the readers in, or passes on a notice it may have taken.
def withdrawn (s : State) : List (Notification Cond) :=
  if s.writerActive then []
  else if s.writersWaiting = 0 then [.all .readers]
  else if s.readers = 0 then [.one .writers]
  else []

def writeFailed (s : State) (forever : Bool) (result : Wakeup) : Option Sect :=
  let s := {s with writersWaiting := s.writersWaiting - 1}
  if forever then
    if result = .canceled then some {shared := s,notices := withdrawn s,ending := .pause .writeAgain} else none
  else some {shared := s,notices := withdrawn s,ending := .done result}

-- TimedLockEx from the head of its loop on. Behind the loop the lock is free, so the check
-- does not panic.
def timedLockEx (env : Ambient) (s : State) (budget : Budget) (forever : Bool) : Option Sect :=
  if s.writerActive = true ∨ s.readers ≠ 0 then
    waitEx env .writers (budget.remaining env.now) (.writing budget forever) s (writeFailed s forever)
  else
    some {shared := {s with writersWaiting := s.writersWaiting - 1,writerActive := true},log := [.locked],
          ending := .done .signal}

def startLock (env : Ambient) (s : State) (timeout : Option Int) : Option Sect :=
  if s.writersWaiting < writersMax then
    timedLockEx env {s with writersWaiting := s.writersWaiting + 1} (.of env.now (timeout.getD waitInfinite)) timeout.isNone
  else none

def unlock (s : State) : Option Sect :=
  if s.writerActive then
    some {shared := {s with writerActive := false},
          notices := if s.writersWaiting ≠ 0 then [.one .writers] else [.all .readers],
          log := [.unlocked],ending := .done .signal}
  else none

def enter (env : Ambient) (s : State) : Request → Option Sect
  | .readLock timeout => timedReadLockEx env s (.of env.now (timeout.getD waitInfinite)) timeout.isNone
  | .readUnlock => readUnlock s
  | .lock timeout => startLock env s timeout
  | .unlock => unlock s

def resume (env : Ambient) (s : State) : Rest → Wakeup → Option Sect
  | .reading budget forever,.signal => timedReadLockEx env s budget forever
  | .reading _ forever,result => readFailed s forever result
  | .writing budget forever,.signal => timedLockEx env s budget forever
  | .writing _ forever,result => writeFailed s forever result
  | .readAgain,_ => timedReadLockEx env s (.of env.now waitInfinite) true
  | .writeAgain,_ => startLock env s none

def program : Program Request State Cond Rest Wakeup Note := ⟨enter,resume⟩

structure Holding (T : Type) where
  readers : List T := []
  writers : List T := []

def Holding.after [DecidableEq T] (p : Holding T) : T × Note → Holding T
  | (t,.readLocked) => {p with readers := t :: p.readers}
  | (t,.readUnlocked) => {p with readers := p.readers.erase t}
  | (t,.locked) => {p with writers := t :: p.writers}
  | (t,.unlocked) => {p with writers := p.writers.erase t}

variable {T : Type} [DecidableEq T] {h h' : Mutex T}

def holding (h : Mutex T) : Holding T := h.log.foldl Holding.after {}

def respects (h : Mutex T) : Happening T Request → Bool
  | .call t .readUnlock _ _ => decide (t ∈ (holding h).readers)
  | .call t .unlock _ _ => decide (t ∈ (holding h).writers)
  | _ => true

def Rest.cond : Rest → Option Cond
  | .reading _ _ => some .readers
  | .writing _ _ => some .writers
  | .readAgain | .writeAgain => none

def Rest.writes (rest : Rest) : Bool := decide (rest.cond = some .writers)

-- `ahead` is 1 while a counted writer is in its critical section. A free lock with a waiting
-- writer has another on its way, and a waiting reader has a writer before it.
structure Ordered (ahead : Nat) (h : Mutex T) : Prop where
  counted : h.shared.writersWaiting = ahead + h.inside.countP fun x => x.2.writes
  waits : ∀ w ∈ h.waiting,w.rest.cond = some w.cond
  wakes : ∀ d ∈ h.due,d.rest.cond = some d.cond
  pauses : ∀ p ∈ h.paused,p.rest.cond = none
  passed : ∀ w ∈ h.waiting,w.cond = .writers → h.shared.readers = 0 → h.shared.writerActive = false →
    ahead ≠ 0 ∨ ∃ d ∈ h.due,d.cond = .writers
  behind : ∀ w ∈ h.waiting,w.cond = .readers → h.shared.writerActive = true ∨ h.shared.writersWaiting ≠ 0
  alone : h.shared.writerActive = true → h.shared.readers = 0

theorem Ordered.writers (ordered : Ordered 0 h) (waits : w ∈ h.waiting) (writer : w.cond = .writers) :
    h.shared.writersWaiting ≠ 0 := by
  have writes : w.rest.writes = true := by
    rw [Rest.writes,ordered.waits w waits,writer]
    rfl
  have positive := countP_pos_iff (p := fun x : Visit T Request Note × Rest => x.2.writes).mpr
    ⟨_,Hall.mem_inside_waiting waits,writes⟩
  rw [ordered.counted]
  omega

structure Keeps (h : Mutex T) (sec : Sect) : Prop where
  waits : ∀ c left rest,sec.ending = .wait c left rest → rest.cond = some c
  pauses : ∀ rest,sec.ending = .pause rest → rest.cond = none
  counted : ∀ call : Visit T Request Note,sec.shared.writersWaiting =
    (Hall.remains call sec.ending).countP (fun x => x.2.writes) + h.inside.countP fun x => x.2.writes
  passed : ∀ w ∈ h.waiting,w.cond = .writers → sec.shared.readers = 0 → sec.shared.writerActive = false →
    sec.notices = [.one .writers] ∨ ∃ d ∈ h.due,d.cond = .writers
  busy : ∀ left rest,sec.ending = .wait .writers left rest →
    ¬(sec.shared.readers = 0 ∧ sec.shared.writerActive = false)
  behind : ∀ w ∈ h.waiting,w.cond = .readers →
    .all .readers ∈ sec.notices ∨ sec.shared.writerActive = true ∨ sec.shared.writersWaiting ≠ 0
  follows : ∀ left rest,sec.ending = .wait .readers left rest →
    sec.shared.writerActive = true ∨ sec.shared.writersWaiting ≠ 0
  alone : sec.shared.writerActive = true → sec.shared.readers = 0

theorem Ordered.perform (ordered : Ordered ahead h) (keeps : Keeps h sec) (call : Visit T Request Note) :
    Ordered 0 (h.perform call sec) := by
  refine ⟨?_,?_,?_,?_,?_,?_,?_⟩
  · rw [Hall.perform_shared,(Hall.perform_inside h call sec).countP_eq,countP_append,Nat.zero_add]
    exact keeps.counted _
  · intro w member
    rcases Hall.perform_waiting member with ⟨before,_⟩ | ⟨c,left,rest,ending,rfl⟩
    · exact ordered.waits w before
    · exact keeps.waits c left rest ending
  · intro d member
    rcases Hall.perform_due member with before | ⟨w,waiting,rfl⟩
    · exact ordered.wakes d before
    · exact ordered.waits w waiting
  · intro p member
    rcases Hall.perform_paused member with before | ⟨rest,ending,rfl⟩
    · exact ordered.pauses p before
    · exact keeps.pauses rest ending
  · intro w member writer free idle
    rw [Hall.perform_shared] at free idle
    refine .inr ?_
    rcases Hall.perform_waiting member with ⟨before,_⟩ | ⟨c,left,rest,ending,rfl⟩
    · rcases keeps.passed w before writer free idle with notice | ⟨d,due,writes⟩
      · obtain ⟨d,due,at_,_⟩ := Hall.perform_someone call before (.inl (writer ▸ notice))
        exact ⟨d,due,at_.trans writer⟩
      · exact ⟨d,Hall.perform_keeps_due call sec due,writes⟩
    · cases writer
      exact absurd ⟨free,idle⟩ (keeps.busy left rest ending)
  · intro w member reader
    rw [Hall.perform_shared]
    rcases Hall.perform_waiting member with ⟨before,absent⟩ | ⟨c,left,rest,ending,rfl⟩
    · rcases keeps.behind w before reader with all | blocked
      · exact absurd (reader ▸ all) absent
      · exact blocked
    · cases reader
      exact keeps.follows left rest ending
  · rw [Hall.perform_shared]
    exact keeps.alone

section

variable (ordered : Ordered 0 h)
include ordered

theorem Ordered.still {sec : Sect} (shared : sec.shared = h.shared)
    (waits : ∀ c left rest,sec.ending = .wait c left rest →
      c = .readers ∧ rest.cond = some .readers ∧ (h.shared.writerActive = true ∨ h.shared.writersWaiting ≠ 0))
    (pauses : ∀ rest,sec.ending = .pause rest → rest.cond = none) : Keeps h sec := by
  refine ⟨?_,pauses,?_,?_,?_,?_,?_,?_⟩
  · intro c left rest ending
    obtain ⟨rfl,reads,_⟩ := waits c left rest ending
    exact reads
  · intro call
    have none : (Hall.remains call sec.ending).countP (fun x => x.2.writes) = 0 := by
      refine countP_eq_zero.mpr ?_
      intro x member
      cases ending : sec.ending with
      | wait c left rest =>
        rw [ending] at member
        rw [mem_singleton.mp member,Rest.writes,(waits c left rest ending).2.1]
        decide
      | pause rest =>
        rw [ending] at member
        rw [mem_singleton.mp member,Rest.writes,pauses rest ending]
        decide
      | done answer => rw [ending] at member; cases member
    rw [none,shared,ordered.counted]
  · intro w member writer free idle
    rw [shared] at free idle
    rcases ordered.passed w member writer free idle with none | due
    · exact absurd rfl none
    · exact .inr due
  · intro left rest ending
    cases (waits .writers left rest ending).1
  · intro w member reader
    rw [shared]
    exact .inr (ordered.behind w member reader)
  · intro left rest ending
    rw [shared]
    exact (waits .readers left rest ending).2.2
  · rw [shared]
    exact ordered.alone

theorem readFailed_keeps (taken : readFailed h.shared forever result = some sec) : Keeps h sec := by
  unfold readFailed at taken
  split at taken
  · split at taken
    · cases taken
      refine ordered.still rfl (by simp) ?_
      intro rest ending
      cases ending
      rfl
    · cases taken
  · cases taken
    exact ordered.still rfl (by simp) (by simp)

theorem timedReadLockEx_keeps (taken : timedReadLockEx env h.shared budget forever = some sec) :
    Keeps h sec := by
  unfold timedReadLockEx at taken
  split at taken
  · rename_i blocked
    rcases waitEx_cases taken with ⟨_,taken⟩ | ⟨_,taken⟩ | ⟨_,rfl⟩
    · exact readFailed_keeps ordered taken
    · exact readFailed_keeps ordered taken
    · refine ordered.still rfl ?_ (by simp)
      intro c left rest ending
      cases ending
      exact ⟨rfl,rfl,blocked⟩
  · rename_i open_
    simp only [not_or,Bool.not_eq_true,not_not] at open_
    split at taken
    · cases taken
      have counted := ordered.counted
      refine ⟨by simp,by simp,?_,?_,by simp,?_,by simp,?_⟩
      · intro call
        simpa [Hall.remains] using counted
      · intro w waits writer free
        cases free
      · intro w waits reader
        exact .inr (ordered.behind w waits reader)
      · intro active
        rw [open_.1] at active
        cases active
    · cases taken

theorem readUnlock_keeps (taken : readUnlock h.shared = some sec) : Keeps h sec := by
  unfold readUnlock at taken
  split at taken
  · rename_i held
    cases taken
    have counted := ordered.counted
    refine ⟨by simp,by simp,?_,?_,by simp,?_,by simp,?_⟩
    · intro call
      simpa [Hall.remains] using counted
    · intro w waits writer free idle
      have last : h.shared.readers = 1 := by
        have : h.shared.readers - 1 = 0 := free
        omega
      exact .inl (by simp [last])
    · intro w waits reader
      exact .inr (ordered.behind w waits reader)
    · intro active
      exact absurd (ordered.alone active) held
  · cases taken

theorem unlock_keeps (taken : unlock h.shared = some sec) : Keeps h sec := by
  unfold unlock at taken
  split at taken
  · cases taken
    have counted := ordered.counted
    refine ⟨by simp,by simp,?_,?_,by simp,?_,by simp,by simp⟩
    · intro call
      simpa [Hall.remains] using counted
    · intro w waits writer _ _
      exact .inl (by simp [ordered.writers waits writer])
    · intro w waits reader
      by_cases none : h.shared.writersWaiting = 0
      · exact .inl (by simp [none])
      · exact .inr (.inr none)
  · cases taken

end

theorem writeFailed_keeps (ordered : Ordered 1 h) (taken : writeFailed h.shared forever result = some sec) : Keeps h sec := by
  have counted := ordered.counted
  have kept : ∀ ending : Exit Cond Rest Wakeup,(∃ r,ending = .done r) ∨ ending = .pause .writeAgain →
      Keeps h {shared := {h.shared with writersWaiting := h.shared.writersWaiting - 1},
               notices := withdrawn {h.shared with writersWaiting := h.shared.writersWaiting - 1},ending} := by
    intro ending ends
    have ended : ∀ c left rest,ending ≠ .wait c left rest := by
      intro c left rest same
      rcases ends with ⟨r,rfl⟩ | rfl <;> cases same
    refine ⟨fun c left rest same => absurd same (ended c left rest),?_,?_,?_,
      fun left rest same => absurd same (ended _ left rest),?_,fun left rest same => absurd same (ended _ left rest),
      ordered.alone⟩
    · intro rest same
      rcases ends with ⟨r,rfl⟩ | rfl <;> cases same
      rfl
    · intro call
      rcases ends with ⟨r,rfl⟩ | rfl <;> simp [Hall.remains,Rest.cond,Rest.writes] at counted ⊢ <;> omega
    · intro w waits writer free idle
      have free : h.shared.readers = 0 := free
      have idle : h.shared.writerActive = false := idle
      have writes : w.rest.writes = true := by
        rw [Rest.writes,ordered.waits w waits,writer]
        rfl
      have positive := countP_pos_iff (p := fun x : Visit T Request Note × Rest => x.2.writes).mpr
        ⟨_,Hall.mem_inside_waiting waits,writes⟩
      refine .inl ?_
      have more : h.shared.writersWaiting - 1 ≠ 0 := by omega
      simp [withdrawn,idle,free,more]
    · intro w waits reader
      by_cases active : h.shared.writerActive = true
      · exact .inr (.inl active)
      · by_cases none : h.shared.writersWaiting - 1 = 0
        · exact .inl (by simp [withdrawn,active,none])
        · exact .inr (.inr none)
  unfold writeFailed at taken
  dsimp only at taken
  split at taken
  · split at taken
    · cases taken
      exact kept _ (.inr rfl)
    · cases taken
  · cases taken
    exact kept _ (.inl ⟨result,rfl⟩)

theorem timedLockEx_keeps (ordered : Ordered 1 h) (taken : timedLockEx env h.shared budget forever = some sec) :
    Keeps h sec := by
  have counted := ordered.counted
  unfold timedLockEx at taken
  split at taken
  · rename_i blocked
    rcases waitEx_cases taken with ⟨_,taken⟩ | ⟨_,taken⟩ | ⟨_,rfl⟩
    · exact writeFailed_keeps ordered taken
    · exact writeFailed_keeps ordered taken
    · refine ⟨?_,by simp,?_,?_,?_,?_,by simp,ordered.alone⟩
      · intro c left rest same
        cases same
        rfl
      · intro call
        simpa [Hall.remains,Rest.cond,Rest.writes] using counted
      · intro w waits writer free idle
        have free : h.shared.readers = 0 := free
        have idle : h.shared.writerActive = false := idle
        exact absurd blocked (by simp [free,idle])
      · intro left rest same both
        have both : h.shared.readers = 0 ∧ h.shared.writerActive = false := both
        exact absurd blocked (by simp [both])
      · intro w waits reader
        exact .inr (ordered.behind w waits reader)
  · rename_i free
    simp only [not_or,Bool.not_eq_true,not_not] at free
    cases taken
    refine ⟨by simp,by simp,?_,?_,by simp,by simp,by simp,fun _ => free.2⟩
    · intro call
      simp only [Hall.remains,countP_nil]
      omega
    · intro w waits writer _ idle
      cases idle

theorem startLock_keeps (ordered : Ordered 0 h) (taken : startLock env h.shared timeout = some sec) : Keeps h sec := by
  unfold startLock at taken
  split at taken
  · have queued : Ordered 1 {h with shared := {h.shared with writersWaiting := h.shared.writersWaiting + 1}} := by
      have counted := ordered.counted
      refine ⟨?_,ordered.waits,ordered.wakes,ordered.pauses,fun _ _ _ _ _ => .inl (by simp),?_,ordered.alone⟩
      · show h.shared.writersWaiting + 1 = 1 + h.inside.countP _
        omega
      · intro w waits reader
        exact .inr (by simp)
    have kept := timedLockEx_keeps queued taken
    exact ⟨kept.waits,kept.pauses,kept.counted,kept.passed,kept.busy,kept.behind,kept.follows,kept.alone⟩
  · cases taken

theorem Ordered.quiet (ordered : Ordered 0 h) (quiet : Hall.Quiet h h') : Ordered 0 h' := by
  obtain ⟨new,due,woken⟩ := quiet.due
  refine ⟨?_,?_,?_,?_,?_,?_,?_⟩
  · rw [quiet.shared,quiet.inside.countP_eq]
    exact ordered.counted
  · intro w member
    obtain ⟨v,before,_,cond,rest⟩ := quiet.waiting w member
    rw [← rest,← cond]
    exact ordered.waits v before
  · intro d member
    rw [due] at member
    rcases mem_append.mp member with old | fresh
    · exact ordered.wakes d old
    · obtain ⟨_,w,before,_,cond,rest⟩ := woken d fresh
      rw [← rest,← cond]
      exact ordered.waits w before
  · rw [quiet.paused]
    exact ordered.pauses
  · intro w member writer free idle
    rw [quiet.shared] at free idle
    obtain ⟨v,before,_,cond,rest⟩ := quiet.waiting w member
    rcases ordered.passed v before (cond.trans writer) free idle with none | ⟨d,old,writes⟩
    · exact absurd rfl none
    · exact .inr ⟨d,by rw [due]; exact mem_append_left _ old,writes⟩
  · intro w member reader
    rw [quiet.shared]
    obtain ⟨v,before,_,cond,rest⟩ := quiet.waiting w member
    exact ordered.behind v before (cond.trans reader)
  · rw [quiet.shared]
    exact ordered.alone

theorem Ordered.run (ordered : Ordered 0 h) (split : h.due = before ++ d :: after) :
    Ordered (if d.rest.writes then 1 else 0) {h with due := before ++ after} := by
  have member : d ∈ h.due := by simp [split]
  refine ⟨?_,ordered.waits,?_,ordered.pauses,?_,ordered.behind,ordered.alone⟩
  · have counted := ordered.counted
    rw [(Hall.run_inside split).countP_eq,countP_cons] at counted
    dsimp only at counted ⊢
    omega
  · intro e later
    refine ordered.wakes e ?_
    rw [split]
    exact ((sublist_cons_self d after).append_left before).subset later
  · intro w waits writer free idle
    rcases ordered.passed w waits writer free idle with none | ⟨e,due,writes⟩
    · exact absurd rfl none
    · rw [split] at due
      rcases mem_append.mp due with left | right
      · exact .inr ⟨e,mem_append_left _ left,writes⟩
      · rcases mem_cons.mp right with rfl | right
        · refine .inl ?_
          rw [Rest.writes,ordered.wakes e member,writes]
          decide
        · exact .inr ⟨e,mem_append_right _ right,writes⟩

theorem Ordered.step (ordered : Ordered 0 h) (step : Hall.Step program h e h') : Ordered 0 h' := by
  cases step with
  | @call _ _ _ q sec _ entered =>
    refine ordered.perform ?_ _
    cases q with
    | readLock timeout => exact timedReadLockEx_keeps ordered entered
    | readUnlock => exact readUnlock_keeps ordered entered
    | lock timeout => exact startLock_keeps ordered entered
    | unlock => exact unlock_keeps ordered entered
  | @run before d after _ _ sec split _ resumed =>
    have known := ordered.wakes d (by simp [split])
    have ran := ordered.run split
    refine ran.perform ?_ _
    rcases d with ⟨call,cond,rest,result⟩
    cases rest with
    | reading budget forever =>
      cases result with
      | signal => exact timedReadLockEx_keeps ran resumed
      | timeout | canceled | fail => exact readFailed_keeps ran resumed
    | writing budget forever =>
      cases result with
      | signal => exact timedLockEx_keeps ran resumed
      | timeout | canceled | fail => exact writeFailed_keeps ran resumed
    | readAgain | writeAgain => cases known
  | @proceed before p after _ _ sec split _ resumed =>
    have known := ordered.pauses p (by simp [split])
    have went : Ordered 0 {h with paused := before ++ after} := by
      refine ⟨?_,ordered.waits,ordered.wakes,?_,ordered.passed,ordered.behind,ordered.alone⟩
      · have counted := ordered.counted
        rw [(Hall.proceed_inside split).countP_eq,countP_cons,Rest.writes,known] at counted
        simpa using counted
      · intro q later
        refine ordered.pauses q ?_
        rw [split]
        exact ((sublist_cons_self p after).append_left before).subset later
    refine went.perform ?_ _
    rcases p with ⟨call,rest⟩
    cases rest with
    | reading budget forever | writing budget forever => cases known
    | readAgain => exact timedReadLockEx_keeps went resumed
    | writeAgain => exact startLock_keeps went resumed
  | tick => exact ordered.quiet h.elapse_quiet
  | cancel split _ => exact ordered.quiet (Hall.cancel_quiet split)

inductive Effect (s : State) (sec : Sect) : Prop where
  | nothing : sec.log = [] → sec.shared.readers = s.readers → sec.shared.writerActive = s.writerActive → Effect s sec
  | readLocked : sec.log = [.readLocked] → sec.shared.readers = s.readers + 1 →
      sec.shared.writerActive = s.writerActive → Effect s sec
  | locked : sec.log = [.locked] → sec.shared.readers = s.readers → s.writerActive = false →
      sec.shared.writerActive = true → Effect s sec

theorem readFailed_effect (taken : readFailed s forever result = some sec) : Effect s sec := by
  unfold readFailed at taken
  split at taken
  · split at taken
    · cases taken
      exact .nothing rfl rfl rfl
    · cases taken
  · cases taken
    exact .nothing rfl rfl rfl

theorem timedReadLockEx_effect (taken : timedReadLockEx env s budget forever = some sec) : Effect s sec := by
  unfold timedReadLockEx at taken
  split at taken
  · rcases waitEx_cases taken with ⟨_,taken⟩ | ⟨_,taken⟩ | ⟨_,rfl⟩
    · exact readFailed_effect taken
    · exact readFailed_effect taken
    · exact .nothing rfl rfl rfl
  · split at taken
    · cases taken
      exact .readLocked rfl rfl rfl
    · cases taken

theorem writeFailed_effect (taken : writeFailed s forever result = some sec) : Effect s sec := by
  unfold writeFailed at taken
  dsimp only at taken
  split at taken
  · split at taken
    · cases taken
      exact .nothing rfl rfl rfl
    · cases taken
  · cases taken
    exact .nothing rfl rfl rfl

theorem timedLockEx_effect (taken : timedLockEx env s budget forever = some sec) : Effect s sec := by
  unfold timedLockEx at taken
  split at taken
  · rcases waitEx_cases taken with ⟨_,taken⟩ | ⟨_,taken⟩ | ⟨_,rfl⟩
    · exact writeFailed_effect taken
    · exact writeFailed_effect taken
    · exact .nothing rfl rfl rfl
  · rename_i free
    simp only [not_or,Bool.not_eq_true] at free
    cases taken
    exact .locked rfl rfl free.1 rfl

theorem startLock_effect (taken : startLock env s timeout = some sec) : Effect s sec := by
  unfold startLock at taken
  split at taken
  · cases timedLockEx_effect taken with
    | nothing log readers active => exact .nothing log readers active
    | readLocked log readers active => exact .readLocked log readers active
    | locked log readers free active => exact .locked log readers free active
  · cases taken

theorem resume_effect (resumed : resume env s rest result = some sec) : Effect s sec := by
  cases rest with
  | reading budget forever =>
    cases result with
    | signal => exact timedReadLockEx_effect resumed
    | timeout | canceled | fail => exact readFailed_effect resumed
  | writing budget forever =>
    cases result with
    | signal => exact timedLockEx_effect resumed
    | timeout | canceled | fail => exact writeFailed_effect resumed
  | readAgain => exact timedReadLockEx_effect resumed
  | writeAgain => exact startLock_effect resumed

structure Matches (h : Mutex T) : Prop where
  readers : h.shared.readers = (holding h).readers.length
  writers : (holding h).writers.length = if h.shared.writerActive then 1 else 0

theorem holding_perform (h : Mutex T) (call : Visit T Request Note) (sec : Sect) :
    holding (h.perform call sec) = (sec.log.map fun o => (call.task,o)).foldl Holding.after (holding h) := by
  rw [holding,Hall.perform_log,foldl_append]
  rfl

theorem Matches.perform (agree : Matches h) (effect : Effect h.shared sec) (call : Visit T Request Note) :
    Matches (h.perform call sec) := by
  have readers := agree.readers
  have writers := agree.writers
  cases effect with
  | nothing log same active =>
    refine ⟨?_,?_⟩ <;> rw [Hall.perform_shared,holding_perform,log]
    · exact same.trans readers
    · rw [active]
      exact writers
  | readLocked log same active =>
    refine ⟨?_,?_⟩ <;> rw [Hall.perform_shared,holding_perform,log]
    · rw [same,readers]
      rfl
    · rw [active]
      exact writers
  | locked log same free active =>
    rw [free] at writers
    refine ⟨?_,?_⟩ <;> rw [Hall.perform_shared,holding_perform,log]
    · exact same.trans readers
    · rw [active]
      exact congrArg (· + 1) writers

theorem Matches.readUnlock (agree : Matches h) (held : call.task ∈ (holding h).readers)
    (taken : readUnlock h.shared = some sec) : Matches (h.perform call sec) := by
  have readers := agree.readers
  unfold RWMutex.readUnlock at taken
  split at taken
  · cases taken
    refine ⟨?_,?_⟩ <;> rw [Hall.perform_shared,holding_perform]
    · show h.shared.readers - 1 = ((holding h).readers.erase call.task).length
      rw [length_erase_of_mem held,readers]
    · exact agree.writers
  · cases taken

theorem Matches.unlock (agree : Matches h) (held : call.task ∈ (holding h).writers)
    (taken : unlock h.shared = some sec) : Matches (h.perform call sec) := by
  have writers := agree.writers
  unfold RWMutex.unlock at taken
  split at taken
  · rename_i active
    rw [if_pos active] at writers
    cases taken
    refine ⟨?_,?_⟩ <;> rw [Hall.perform_shared,holding_perform]
    · exact agree.readers
    · show ((holding h).writers.erase call.task).length = 0
      rw [length_erase_of_mem held,writers]
  · cases taken

theorem Matches.step (agree : Matches h) (respected : respects h e = true) (step : Hall.Step program h e h') :
    Matches h' := by
  cases step with
  | @call _ _ _ q sec _ entered =>
    cases q with
    | readLock timeout => exact agree.perform (timedReadLockEx_effect entered) _
    | readUnlock => exact agree.readUnlock (of_decide_eq_true respected) entered
    | lock timeout => exact agree.perform (startLock_effect entered) _
    | unlock => exact agree.unlock (of_decide_eq_true respected) entered
  | @run before d after _ _ sec split _ resumed =>
    have before : Matches {h with due := before ++ after} := ⟨agree.readers,agree.writers⟩
    exact before.perform (resume_effect resumed) _
  | @proceed before p after _ _ sec split _ resumed =>
    have before : Matches {h with paused := before ++ after} := ⟨agree.readers,agree.writers⟩
    exact before.perform (resume_effect resumed) _
  | tick | cancel => exact ⟨agree.readers,agree.writers⟩

def initial (now : Int) : Mutex T := {now := now,shared := {}}

end SuperTinyKernel.RWMutex
