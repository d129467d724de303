import SuperTinyKernel.Locks
import SuperTinyKernel.Library.Inheritance

namespace SuperTinyKernel

open Function KernelTask List

-- The locks as a priority inheritance: owners, waits and inherited weights.

theorem foldl_max (f : α → Int) (l : List α) (start : Int) :
    start ≤ l.foldl (fun best x => max best (f x)) start ∧ (∀ x ∈ l,f x ≤ l.foldl (fun best x => max best (f x)) start) ∧
      (l.foldl (fun best x => max best (f x)) start = start ∨ ∃ x ∈ l,l.foldl (fun best x => max best (f x)) start = f x) := by
  induction l generalizing start with
  | nil => exact ⟨le_refl _,by simp,.inl rfl⟩
  | cons x rest ih =>
    obtain ⟨low,each,top⟩ := ih (max start (f x))
    refine ⟨(le_max_left _ _).trans low,fun y member => ?_,?_⟩
    · rcases mem_cons.mp member with rfl | later
      · exact (le_max_right _ _).trans low
      · exact each y later
    · rcases top with top | ⟨y,member,top⟩
      · rcases max_choice start (f x) with here | here
        · exact .inl (top.trans here)
        · exact .inr ⟨x,by simp,top.trans here⟩
      · exact .inr ⟨y,by simp [member],top⟩

namespace System

open Kernel

variable {c : Config n} {law : Lawful c.strategy} {s t : System c} {i a : Fin n} {o : SyncId → Option TId}

def inherited (w : Int) : Option Int := if w = noWeight then none else some w

def tenure (s : System c) (o : SyncId → Option TId) : Tenure (Fin n) SyncId Int where
  base i := (s.tasks i).getBaseWeight c.strategy.api
  boost i := if (s.tasks i).user = none then none else inherited (s.tasks i).rtWeight
  waits i := (s.tasks i).waitObj.syncObj
  owner m := (o m).bind s.kernel.findTaskByUserTask

structure Fit (law : Lawful c.strategy) (s : System c) : Prop where
  sound : Sound law s
  staying : ∀ i,(s.tasks i).removePending = false
  plain : ∀ i u,(s.tasks i).user = some u → (s.tasks i).baseWeight = noWeight ∧ 0 < u.weight
  unique : ∀ i j u v,(s.tasks i).user = some u → (s.tasks j).user = some v → u.id = v.id → i = j
  waiters : ∀ i,(s.tasks i).waitObj.syncObj ≠ none → (s.tasks i).user ≠ none ∧ c.mode.isSync = true

theorem Fit.finds (fit : Fit law s) (bound : (s.tasks i).user = some u) : s.kernel.findTaskByUserTask u.id = some i := by
  have present : (s.kernel.findTaskByUserTask u.id).isSome = true := by
    refine find?_isSome.mpr ⟨i,mem_finRange i,decide_eq_true ?_⟩
    rw [show (s.kernel.tasks i).user = some u from bound]; rfl
  obtain ⟨j,found⟩ := Option.isSome_iff_exists.mp present
  obtain ⟨v,other,same⟩ := found_user found
  rw [found,fit.unique j i v u other bound same]

section
variable (inherits : c.strategy.api.priorityInheritance = true)
include inherits

theorem Fit.base (fit : Fit law s) (bound : (s.tasks i).user = some u) : (s.tenure o).base i = u.weight := by
  have plain := (fit.plain i u bound).1
  simp [tenure,getBaseWeight,c.inheritance inherits,plain,bound]

theorem weight_tenure (bound : (s.tasks i).user = some u) :
    (s.tasks i).getWeight c.strategy.api = (s.tenure o).weight i := by
  unfold getWeight Tenure.weight tenure inherited
  simp only [bound,inherits]
  by_cases plain : (s.tasks i).rtWeight = noWeight <;> simp [plain]

end

theorem weightChange_tasks {k k' : Kernel c} {f : KernelTask → KernelTask} (changed : k.weightChange a f = some k') :
    k'.tasks = update k.tasks a (f (k.tasks a)) ∧ k'.waitList = k.waitList ∧ k'.kstate = k.kstate := by
  obtain ⟨σ,_,rfl⟩ := of_return changed
  exact ⟨rfl,rfl,rfl⟩

structure Reweighed (s t : System c) (a : Fin n) (w : Int) : Prop where
  tasks : t.kernel.tasks = update s.kernel.tasks a {s.kernel.tasks a with rtWeight := w}
  lists : t.kernel.waitList = s.kernel.waitList
  locked : t.kernel.kstate = s.kernel.kstate
  caller : t.caller = s.caller

theorem Reweighed.same (s : System c) (a : Fin n) : Reweighed s {s with kernel := s.kernel.fresh} a (s.tasks a).rtWeight :=
  ⟨(update_eq_self a s.kernel.tasks).symm,rfl,rfl,rfl⟩

theorem Reweighed.task (reweighed : Reweighed s t a w) (i : Fin n) :
    (t.tasks i).user = (s.tasks i).user ∧ (t.tasks i).baseWeight = (s.tasks i).baseWeight ∧
      (t.tasks i).waitObj = (s.tasks i).waitObj ∧ (t.tasks i).removePending = (s.tasks i).removePending := by
  rw [System.tasks,System.tasks,reweighed.tasks]
  by_cases at_ : i = a
  · subst at_; simp
  · simp [at_]

theorem Reweighed.fit (reweighed : Reweighed s t a w) (fit : Fit law s) (sound : Sound law t) : Fit law t := by
  refine ⟨sound,fun i => ?_,fun i u bound => ?_,fun i j u v left right same => ?_,fun i waits => ?_⟩
  · rw [(reweighed.task i).2.2.2]; exact fit.staying i
  · rw [(reweighed.task i).1] at bound
    rw [(reweighed.task i).2.1]; exact fit.plain i u bound
  · rw [(reweighed.task i).1] at left
    rw [(reweighed.task j).1] at right
    exact fit.unique i j u v left right same
  · rw [(reweighed.task i).2.2.1] at waits
    rw [(reweighed.task i).1]; exact fit.waiters i waits

theorem findTask_congr {k k' : Kernel c} (same : ∀ i,(k'.tasks i).user = (k.tasks i).user) :
    k'.findTaskByUserTask = k.findTaskByUserTask := by
  funext id
  unfold findTaskByUserTask
  simp only [same]

theorem Reweighed.tenure (reweighed : Reweighed s t a w) (bound : (s.tasks a).user ≠ none) :
    t.tenure o = (s.tenure o).settle a (inherited w) := by
  have users := fun i => (reweighed.task i).1
  have base : (t.tenure o).base = (s.tenure o).base := by
    funext i
    simp only [System.tenure,getBaseWeight,(reweighed.task i).1,(reweighed.task i).2.1]
  have boost : (t.tenure o).boost = update (s.tenure o).boost a (inherited w) := by
    funext i
    simp only [System.tenure,users]
    by_cases at_ : i = a
    · subst at_
      rw [if_neg bound,update_self,System.tasks,reweighed.tasks,update_self]
    · have same : t.tasks i = s.tasks i := by rw [System.tasks,reweighed.tasks,update_of_ne at_]; rfl
      rw [update_of_ne at_,same]
  have waits : (t.tenure o).waits = (s.tenure o).waits := by
    funext i
    simp only [System.tenure,(reweighed.task i).2.2.1]
  have owner : (t.tenure o).owner = (s.tenure o).owner := by
    simp only [System.tenure]
    rw [findTask_congr users]
  unfold Tenure.settle
  rw [← base,← boost,← waits,← owner]

section
variable (inherits : c.strategy.api.priorityInheritance = true)
include inherits

section

variable (fit : Fit law s)
include fit

section

variable (bound : (s.tasks a).user = some u)
include bound

theorem inherit_reweighed
    (taken : s.step (.inheritWeight u.id w) = some t) :
    Reweighed s t a (if w ≠ noWeight ∧ (s.tasks a).getWeight c.strategy.api < w then w else (s.tasks a).rtWeight) := by
  obtain ⟨k',called,rfl⟩ := of_return taken
  have weighs := c.inheritance inherits
  have kept : w = noWeight ∨ ¬(s.tasks a).getWeight c.strategy.api < w → k' = s.kernel.fresh →
      Reweighed s {s with kernel := k'} a
        (if w ≠ noWeight ∧ (s.tasks a).getWeight c.strategy.api < w then w else (s.tasks a).rtWeight) := by
    rintro none rfl
    rw [if_neg (by tauto)]
    exact .same s a
  unfold onInheritWeight at called
  split at called
  · rename_i usable
    have named : w ≠ noWeight := by simpa [weighs,inherits] using usable
    obtain ⟨j,found,called⟩ := of_bind called
    obtain rfl : a = j := Option.some.inj ((fit.finds bound).symm.trans found)
    split at called
    · rename_i below
      obtain ⟨tasks,lists,locked⟩ := weightChange_tasks called
      rw [if_pos ⟨named,below⟩]
      refine ⟨tasks.trans ?_,lists,locked,rfl⟩
      simp only [setCurrentWeight,weighs]; rfl
    · rename_i enough
      cases called
      exact kept (.inr enough) rfl
  · rename_i unused
    cases called
    exact kept (.inl (by simpa [weighs,inherits] using unused)) rfl

theorem inherit_tenure (named : w ≠ noWeight)
    (taken : s.step (.inheritWeight u.id w) = some t) :
    Fit law t ∧ t.tenure o = (s.tenure o).raise a w := by
  have reweighed := inherit_reweighed inherits fit bound taken
  refine ⟨reweighed.fit fit (fit.sound.step taken),?_⟩
  rw [reweighed.tenure (by simp [bound]),Tenure.raise,← weight_tenure inherits bound]
  by_cases below : (s.tasks a).getWeight c.strategy.api < w
  · rw [if_pos ⟨named,below⟩,if_pos below,inherited,if_neg named]
  · rw [if_neg (fun both => below both.2),if_neg below]
    have own : (s.tenure o).boost a = inherited (s.tasks a).rtWeight := by simp [System.tenure,bound]
    rw [← own,Tenure.settle,update_eq_self]

theorem restore_reweighed
    (taken : s.step (.restoreWeight u.id sobj) = some t) :
    Reweighed s t a (match sobj with
      | some m => s.kernel.findWeightHigherThan m ((s.tasks a).getWeight c.strategy.api)
      | none => noWeight) := by
  obtain ⟨k',called,rfl⟩ := of_return taken
  have weighs := c.inheritance inherits
  unfold onRestoreWeight at called
  rw [if_pos (by simp [weighs,inherits])] at called
  obtain ⟨j,found,called⟩ := of_bind called
  obtain rfl : a = j := Option.some.inj ((fit.finds bound).symm.trans found)
  obtain ⟨tasks,lists,locked⟩ := weightChange_tasks called
  refine ⟨tasks.trans ?_,lists,locked,rfl⟩
  simp only [setCurrentWeight,weighs,if_true]
  cases sobj <;> rfl

theorem reset_tenure
    (taken : s.step (.restoreWeight u.id none) = some t) :
    Fit law t ∧ t.tenure o = (s.tenure o).settle a none := by
  have reweighed := restore_reweighed inherits fit bound taken
  exact ⟨reweighed.fit fit (fit.sound.step taken),reweighed.tenure (by simp [bound])⟩

end

theorem findWeightHigherThan_highest (m : SyncId) (low : 0 ≤ w) :
    (s.tenure o).Highest m w (inherited (s.kernel.findWeightHigherThan m w)) := by
  have linked : ∀ j,j ∈ s.kernel.waitList m ↔ (s.tenure o).waits j = some m := fit.sound.filed.linked m
  have base : ∀ j,(s.tenure o).waits j = some m →
      (((s.kernel.tasks j).user.map UserTask.weight).getD noWeight) = (s.tenure o).base j := by
    intro j waits
    obtain ⟨u,bound⟩ := Option.ne_none_iff_exists'.mp (fit.waiters j (by
      rw [show (s.tasks j).waitObj.syncObj = some m from waits]; simp)).1
    rw [fit.base inherits bound,show (s.kernel.tasks j).user = some u from bound]; rfl
  obtain ⟨_,each,top⟩ := foldl_max (fun j => ((s.kernel.tasks j).user.map UserTask.weight).getD noWeight)
    (s.kernel.waitList m) noWeight
  unfold findWeightHigherThan
  dsimp only
  split
  · rename_i above
    rcases top with top | ⟨j,member,top⟩
    · rw [top] at above
      have := noWeight_lt_zero
      omega
    · have waits := (linked j).mp member
      rw [base j waits] at top
      rw [top] at above each ⊢
      rw [inherited,if_neg (fun none => by rw [none] at above; exact absurd above (by have := noWeight_lt_zero; omega))]
      exact .found waits above fun k waits => by
        rw [← base k waits]; exact each k ((linked k).mpr waits)
  · rename_i enough
    refine .nobody fun k waits => ?_
    rw [← base k waits]
    exact (each k ((linked k).mpr waits)).trans (not_lt.mp enough)

theorem restore_tenure (valid : (s.tenure o).Valid) (bound : (s.tasks a).user = some u)
    (taken : s.step (.restoreWeight u.id (some m)) = some t) :
    ∃ r,(s.tenure o).Highest m ((s.tenure o).weight a) r ∧ Fit law t ∧ t.tenure o = (s.tenure o).settle a r := by
  have reweighed := restore_reweighed inherits fit bound taken
  have low : 0 ≤ (s.tenure o).weight a :=
    (fit.plain a u bound).2.le.trans (fit.base inherits bound ▸ valid.base_le a)
  rw [weight_tenure (o := o) inherits bound] at reweighed
  exact ⟨_,findWeightHigherThan_highest inherits fit m low,reweighed.fit fit (fit.sound.step taken),
    reweighed.tenure (by simp [bound])⟩

end

end

theorem tasks_slots {k k' : Kernel c} {slot : Slot} (slots : k'.slot = update k.slot i slot) :
    k'.tasks = update k.tasks i slot.task := by
  funext j
  have here := congrArg Slot.task (congrFun slots j)
  by_cases at_ : j = i
  · subst at_; simpa using here
  · simpa [at_] using here

structure Relinked (s t : System c) (i : Fin n) (m : Option SyncId) : Prop where
  other : ∀ j,j ≠ i → t.tasks j = s.tasks j
  filing : (t.tasks i).filing = (s.tasks i).filing
  removed : (t.tasks i).removePending = (s.tasks i).removePending
  syncObj : (t.tasks i).waitObj.syncObj = m

theorem Relinked.fields (relinked : Relinked s t i m) (j : Fin n) :
    (t.tasks j).filing = (s.tasks j).filing ∧ (t.tasks j).removePending = (s.tasks j).removePending := by
  by_cases at_ : j = i
  · subst at_; exact ⟨relinked.filing,relinked.removed⟩
  · rw [relinked.other j at_]; exact ⟨rfl,rfl⟩

theorem Relinked.fit (relinked : Relinked s t i m) (fit : Fit law s) (sound : Sound law t)
    (linked : m ≠ none → (s.tasks i).user ≠ none ∧ c.mode.isSync = true) : Fit law t := by
  have users := fun j => user_filing (relinked.fields j).1
  refine ⟨sound,fun j => (relinked.fields j).2.trans (fit.staying j),fun j u bound => ?_,
    fun j k u v left right same => ?_,fun j waits => ?_⟩
  · rw [users] at bound
    rw [show (t.tasks j).baseWeight = (s.tasks j).baseWeight from congrArg (fun f => f.2.2) (relinked.fields j).1]
    exact fit.plain j u bound
  · rw [users] at left right
    exact fit.unique j k u v left right same
  · rw [users]
    by_cases at_ : j = i
    · subst at_
      rw [relinked.syncObj] at waits
      exact linked waits
    · rw [relinked.other j at_] at waits
      exact fit.waiters j waits

theorem Relinked.tenure (relinked : Relinked s t i m) : t.tenure o = (s.tenure o).wait i m := by
  have users := fun j => user_filing (relinked.fields j).1
  have weights := fun j => congrArg Prod.snd (relinked.fields j).1
  have base : (t.tenure o).base = (s.tenure o).base := by
    funext j
    have same : (t.tasks j).baseWeight = (s.tasks j).baseWeight := congrArg Prod.snd (weights j)
    simp only [System.tenure,getBaseWeight,users,same]
  have boost : (t.tenure o).boost = (s.tenure o).boost := by
    funext j
    have same : (t.tasks j).rtWeight = (s.tasks j).rtWeight := congrArg Prod.fst (weights j)
    simp only [System.tenure,users,same]
  have waits : (t.tenure o).waits = update (s.tenure o).waits i m := by
    funext j
    by_cases at_ : j = i
    · subst at_; rw [update_self]; exact relinked.syncObj
    · rw [update_of_ne at_]
      exact congrArg (fun t => t.waitObj.syncObj) (relinked.other j at_)
  have owner : (t.tenure o).owner = (s.tenure o).owner := by
    simp only [System.tenure]
    rw [findTask_congr users]
  unfold Tenure.wait
  rw [← base,← boost,← waits,← owner]

theorem wait_relinked (fit : Fit law s) (calls : s.caller = some i) (sync : c.mode.isSync = true)
    (unlocked : s.kernel.isLocked = false) (taken : s.step (.wait m timeout) = some t) :
    Fit law t ∧ Relinked s t i (some m) := by
  obtain ⟨j,called,stepped⟩ := of_bind taken
  obtain rfl : i = j := Option.some.inj (calls.symm.trans called)
  obtain ⟨r,waited,rfl⟩ := of_return stepped
  rcases wait_acts (fresh_filed fit.sound.filed) waited with ⟨_,_,_,call,acts⟩ | same
  · have tasks := tasks_slots acts.slots
    have relinked : Relinked s (blocked {s with kernel := s.kernel.fresh} i r) i (some m) := by
      have later : (blocked {s with kernel := s.kernel.fresh} i r).tasks = r.1.tasks := by
        unfold blocked; rw [call]; rfl
      refine ⟨fun j at_ => ?_,?_,?_,?_⟩
      · rw [later,tasks,update_of_ne at_]; rfl
      · rw [later,tasks,update_self]; rfl
      · rw [later,tasks,update_self]; rfl
      · rw [later,tasks,update_self]; rfl
    refine ⟨relinked.fit fit (fit.sound.step taken) fun _ => ⟨fit.sound.contexts.bound i calls,sync⟩,relinked⟩
  · subst same
    unfold Kernel.wait at waited
    rw [if_pos ⟨sync,unlocked⟩] at waited
    obtain ⟨k',_,same⟩ := of_bind waited
    exact absurd (congrArg Prod.snd (Option.some.inj same)) (by simp)

theorem wakeOne_relinked (fit : Fit law s) (first : s.kernel.waitList m = i :: rest)
    (taken : s.step (.wake m false) = some t) :
    Fit law t ∧ Relinked s t i none ∧ t.kernel.waitList m = rest := by
  obtain ⟨k',woke,rfl⟩ := of_return taken
  have names := (fit.sound.filed.linked m i).mp (by simp [first])
  have sync := (fit.waiters i (by rw [show (s.tasks i).waitObj.syncObj = some m from names]; simp)).2
  unfold Kernel.wake at woke
  rw [if_pos sync,if_neg Bool.false_ne_true] at woke
  obtain ⟨_,lists,slots⟩ := wakeOne_slots (fresh_filed fit.sound.filed) woke
  rw [show s.kernel.fresh.waitList m = i :: rest from first] at lists slots
  have relinked : Relinked s {s with kernel := k'} i none := by
    have own := congrArg Slot.task (slots i)
    rw [if_pos (by simp)] at own
    refine ⟨fun j at_ => ?_,?_,?_,?_⟩
    · have other := congrArg Slot.task (slots j)
      rw [if_neg (by simp [at_])] at other
      exact other
    · exact (congrArg KernelTask.filing own).trans rfl
    · exact (congrArg removePending own).trans rfl
    · exact (congrArg (fun t => t.waitObj.syncObj) own).trans rfl
  exact ⟨relinked.fit fit (fit.sound.step taken) fun linked => absurd rfl linked,relinked,lists⟩

theorem background_adds (usual : e.background = true) (adds : Event.adds (n := n) e = some u) : 0 < u.weight := by
  cases e with
  | addTask v | addTaskHrt v => cases adds; exact of_decide_eq_true usual
  | _ => cases adds

theorem Fit.background (inherits : c.strategy.api.priorityInheritance = true) (fit : Fit law s) (usual : e.background = true)
    (taken : s.step e = some t) : Fit law t ∧ ∀ i,Kept s i e (t.tasks i) := by
  have kept : ∀ i,Kept s i e (t.tasks i) := fun i =>
    ((fit.sound.stepped taken).change fit.sound i).keeps usual (fit.staying i)
  refine ⟨⟨fit.sound.step taken,fun i => (kept i).removed.trans (fit.staying i),fun i u bound => ?_,
    Unique.step fit.sound fit.unique taken,fun i waits => ?_⟩,kept⟩
  · rcases (kept i).bound_cases bound with ⟨before,filing⟩ | ⟨_,_,adds,filing⟩
    · rw [show (t.tasks i).baseWeight = (s.tasks i).baseWeight from congrArg (fun f => f.2.2) filing]
      exact fit.plain i u before
    · refine ⟨(congrArg (fun f => f.2.2) filing).trans ?_,background_adds usual adds⟩
      simp [KernelTask.filing,KernelTask.bind,c.inheritance inherits]
  · cases kept i with
    | same standing =>
      have identity := congrArg Prod.fst standing
      rw [syncObj_identity identity] at waits
      rw [user_filing (filing_identity identity)]
      exact fit.waiters i waits
    | bound u free _ _ standing =>
      have identity := congrArg Prod.fst standing
      rw [syncObj_identity identity] at waits
      exact absurd free (fit.waiters i waits).1
    | ended _ _ unlinked => exact absurd unlinked waits

end System

namespace Locks

open SuperTinyKernel.System

variable {c : Config n} {law : Lawful c.strategy} {l l' : Locks c} {kind : SyncId → LockKind}

def owners (l : Locks c) (m : SyncId) : Option TId := (l.lock m).owner
def tenure (l : Locks c) : Tenure (Fin n) SyncId Int := l.system.tenure l.owners

structure Fit (law : Lawful c.strategy) (l : Locks c) : Prop where
  system : System.Fit law l.system
  valid : l.tenure.Valid
  owned : ∀ m o,(l.lock m).owner = some o → ∃ a u,(l.system.tasks a).user = some u ∧ u.id = o

def busy (kind : SyncId → LockKind) (l : Locks c) (u : UserTask) (m : SyncId) : Bool :=
  decide ((l.lock m).owner ≠ some u.id) && match kind m with
    | .mutex => decide ((l.lock m).count ≠ 0)
    | .fastMutex => decide ((l.lock m).owner ≠ none)

-- The lock for which the step ends a wait without acquiring it.
def failing (kind : SyncId → LockKind) (l : Locks c) : LockEvent n → Option SyncId
  | .lock m (some timeout) => do
      let i ← l.system.caller
      let u ← (l.system.tasks i).user
      if l.busy kind u m = true ∧ timeout ≠ noWait ∧ ¬(c.mode.isSync = true ∧ l.system.kernel.isLocked = false) then some m
      else none
  | .finish => do
      let i ← l.system.caller
      match l.call i with
      | .ended m _ _ result => if result = .signal then none else some m
      | _ => none
  | _ => none

def unchanged (l : Locks c) : Bool :=
  match l.system.caller with
  | none => false
  | some i =>
    match l.call i with
    | .ended m owner _ _ => decide ((l.lock m).owner = some owner)
    | _ => false

def resets (kind : SyncId → LockKind) (l : Locks c) (m : SyncId) : Bool :=
  match kind m with
  | .mutex => decide ((l.lock m).unwind.count = 0)
  | .fastMutex => !(l.system.kernel.waitList m).isEmpty

-- What one step does. A release resets the weight, or there is nobody to hand the lock to.
inductive Effect (kind : SyncId → LockKind) (l l' : Locks c) : LockEvent n → Prop where
  | drift : l.tenure.Drifts l'.tenure → Effect kind l l' (.kernel e)
  | same : l.failing kind e = none → l'.tenure = l.tenure → Effect kind l l' e
  | take : l.failing kind (.lock m timeout) = none → l.tenure.owner m = none → l'.tenure = l.tenure.own m (some i) →
      Effect kind l l' (.lock m timeout)
  | block : l.failing kind (.lock m timeout) = none → l.tenure.owner m = some a → l'.tenure = l.tenure.block i a m →
      Effect kind l l' (.lock m timeout)
  | refuse : l.failing kind (.lock m (some timeout)) = some m → l.tenure.owner m = some a →
      (l.tenure.raise a (l.tenure.base i)).Highest m ((l.tenure.raise a (l.tenure.base i)).weight a) r →
      l'.tenure = (l.tenure.raise a (l.tenure.base i)).settle a r → Effect kind l l' (.lock m (some timeout))
  | release : l.system.caller = some i → l.tenure.owner m = some i → (∀ j,l.tenure.waits j ≠ some m) →
      l'.tenure = l.tenure.own m none → kind m = .fastMutex → (l.system.kernel.waitList m).isEmpty = true →
      Effect kind l l' (.unlock m)
  | reset : l.system.caller = some i → l.tenure.owner m = some i → (∀ j,l.tenure.waits j ≠ some m) →
      l'.tenure = (l.tenure.settle i none).own m none → l.resets kind m = true → Effect kind l l' (.unlock m)
  | handOver : l.system.caller = some i → l.tenure.owner m = some i → l.resets kind m = true →
      (((l.tenure.settle i none).wait a none).own m (some a)).Highest m (l.tenure.base a) r →
      l'.tenure = l.tenure.handOver i a m r → Effect kind l l' (.unlock m)
  | giveUp : l.failing kind .finish = some m → l.unchanged = true → l.tenure.owner m = some a →
      l.tenure.Highest m (l.tenure.weight a) r → l'.tenure = l.tenure.settle a r → Effect kind l l' .finish
  | late : l.failing kind .finish = some m → l.unchanged = false → l'.tenure = l.tenure → Effect kind l l' .finish

variable {i a : Fin n} {m : SyncId}

theorem tenure_own (s : System c) (o : SyncId → Option TId) (m : SyncId) (x : Option TId) :
    s.tenure (update o m x) = (s.tenure o).own m (x.bind s.kernel.findTaskByUserTask) := by
  have owner : (s.tenure (update o m x)).owner =
      update (s.tenure o).owner m (x.bind s.kernel.findTaskByUserTask) := by
    funext m'
    by_cases here : m' = m
    · subst here; simp [System.tenure]
    · simp [System.tenure,here]
  unfold Tenure.own
  rw [← owner]; rfl

theorem tenure_setLock (l : Locks c) (m : SyncId) (x : LockState) :
    (l.setLock m x).tenure = l.tenure.own m (x.owner.bind l.system.kernel.findTaskByUserTask) := by
  have owners : (l.setLock m x).owners = update l.owners m x.owner := by
    funext m'
    by_cases here : m' = m
    · subst here; simp [Locks.owners,setLock]
    · simp [Locks.owners,setLock,here]
  rw [Locks.tenure,owners]
  exact tenure_own l.system l.owners m x.owner

theorem tenure_recount (l : Locks c) (m : SyncId) {x : LockState} (same : x.owner = (l.lock m).owner) :
    (l.setLock m x).tenure = l.tenure := by
  rw [tenure_setLock,same]
  exact congrArg (fun f => {l.tenure with owner := f}) (update_eq_self m l.tenure.owner)

theorem Fit.owner (fit : Fit law l) (owns : (l.lock m).owner = some o) :
    ∃ a u,(l.system.tasks a).user = some u ∧ u.id = o ∧ l.tenure.owner m = some a := by
  obtain ⟨a,u,bound,rfl⟩ := fit.owned m o owns
  refine ⟨a,u,bound,rfl,?_⟩
  change (l.owners m).bind _ = some a
  rw [show l.owners m = some u.id from owns]
  exact fit.system.finds bound

theorem Fit.owner_self (fit : Fit law l) (bound : (l.system.tasks i).user = some u) (owns : (l.lock m).owner = some u.id) :
    l.tenure.owner m = some i := by
  change (l.owners m).bind _ = some i
  rw [show l.owners m = some u.id from owns]
  exact fit.system.finds bound

theorem Fit.next (fit : Fit law l) (system : System.Fit law l'.system) (valid : l'.tenure.Valid)
    (users : ∀ i,(l'.system.tasks i).user = (l.system.tasks i).user)
    (owners : ∀ m o,(l'.lock m).owner = some o → (l.lock m).owner = some o ∨ ∃ a u,(l.system.tasks a).user = some u ∧ u.id = o) :
    Fit law l' := by
  refine ⟨system,valid,fun m o owns => ?_⟩
  have known : ∃ a u,(l.system.tasks a).user = some u ∧ u.id = o := (owners m o owns).elim (fit.owned m o) id
  obtain ⟨a,u,bound,same⟩ := known
  exact ⟨a,u,(users a).trans bound,same⟩

theorem setLock_owner {x : LockState} {m' : SyncId} (owns : ((l.setLock m x).lock m').owner = some o) :
    (l.lock m').owner = some o ∨ x.owner = some o := by
  by_cases here : m' = m
  · subst here; simp only [setLock,update_self] at owns; exact .inr owns
  · simp only [setLock,update_of_ne here] at owns; exact .inl owns

theorem Fit.setLock (fit : Fit law l) {x : LockState} (valid : (l.setLock m x).tenure.Valid)
    (known : ∀ o,x.owner = some o → ∃ a u,(l.system.tasks a).user = some u ∧ u.id = o) : Fit law (l.setLock m x) :=
  fit.next fit.system valid (fun _ => rfl) fun _ o owns => (setLock_owner owns).imp id (known o)

theorem Fit.setCall (fit : Fit law l) (i : Fin n) (x : LockCall) : Fit law (l.setCall i x) :=
  ⟨fit.system,fit.valid,fit.owned⟩

theorem failing_lock (calls : l.system.caller = some i) (bound : (l.system.tasks i).user = some u)
    (open_ : l.busy kind u m = true → timeout ≠ some noWait → c.mode.isSync = true ∧ l.system.kernel.isLocked = false) :
    l.failing kind (.lock m timeout) = none := by
  cases timeout with
  | none => rfl
  | some ticks =>
    simp only [failing,calls,bound,Option.bind_eq_bind,Option.bind_some]
    rw [if_neg]
    rintro ⟨busy,waits,refused⟩
    exact refused (open_ busy (by simpa using waits))

theorem take_effect (fit : Fit law l) (calls : l.system.caller = some i) (bound : (l.system.tasks i).user = some u)
    (free : (l.lock m).owner = none) (idle : l.busy kind u m = false) (count : Nat) :
    Fit law ((l.setLock m ⟨some u.id,count⟩).setCall i .none) ∧
      Effect kind l ((l.setLock m ⟨some u.id,count⟩).setCall i .none) (.lock m timeout) := by
  have taken : (l.setLock m ⟨some u.id,count⟩).tenure = l.tenure.own m (some i) := by
    rw [tenure_setLock]
    exact congrArg (l.tenure.own m) (fit.system.finds bound)
  refine ⟨Fit.setCall (fit.setLock ?_ ?_) i _,?_⟩
  · rw [taken]; exact fit.valid.own (some i) (by simp)
  · rintro o ⟨⟩; exact ⟨i,u,bound,rfl⟩
  · refine .take (failing_lock calls bound fun busy => absurd busy (by simp [idle])) ?_ taken
    change (l.owners m).bind _ = none
    rw [show l.owners m = none from free]; rfl

section
variable (inherits : c.strategy.api.priorityInheritance = true)
include inherits

section

variable (fit : Fit law l)
include fit

theorem kernel_effect (taken : l.kernel e = some l') : Fit law l' ∧ Effect kind l l' (.kernel e) := by
  unfold kernel at taken
  split at taken
  · rename_i usual
    obtain ⟨t,stepped,rfl⟩ := of_return taken
    obtain ⟨system,kept⟩ := fit.system.background inherits usual.1 stepped
    have stays : ∀ {a u},(l.system.tasks a).user = some u → (t.tasks a).filing = (l.system.tasks a).filing :=
      fun {a u} bound => (kept a).filing (by simp [bound])
    have owned : ∀ m o,(l.lock m).owner = some o → ∃ a u,(t.tasks a).user = some u ∧ u.id = o := by
      intro m o owns
      obtain ⟨a,u,bound,same⟩ := fit.owned m o owns
      exact ⟨a,u,(user_filing (stays bound)).trans bound,same⟩
    have drifts : l.tenure.Drifts (t.tenure l.owners) := by
      refine ⟨funext fun m => ?_,fun a => ?_⟩
      · cases owns : (l.lock m).owner with
        | none => simp [Locks.tenure,System.tenure,Locks.owners,owns]
        | some o =>
          obtain ⟨a,u,bound,same,here⟩ := fit.owner owns
          rw [here]
          change (l.owners m).bind _ = some a
          rw [show l.owners m = some u.id from owns.trans (congrArg some same.symm)]
          exact system.finds ((user_filing (stays bound)).trans bound)
      · have filed : (t.tasks a).filing = (l.system.tasks a).filing →
            (t.tenure l.owners).base a = l.tenure.base a ∧ (t.tenure l.owners).boost a = l.tenure.boost a := by
          intro filing
          simp only [KernelTask.filing,Prod.mk.injEq] at filing
          simp only [Locks.tenure,System.tenure,getBaseWeight,filing,true_and]
        cases kept a with
        | same standing =>
          have identity := congrArg Prod.fst standing
          obtain ⟨base,boost⟩ := filed (filing_identity identity)
          exact .inl ⟨base,boost,.inl (syncObj_identity identity)⟩
        | bound u free _ _ standing =>
          have identity := congrArg Prod.fst standing
          have filing := filing_identity identity
          refine .inr ⟨fun m owns => ?_,?_,?_⟩
          · obtain ⟨o,_,found⟩ := of_bind owns
            obtain ⟨v,bound,_⟩ := Kernel.found_user found
            exact absurd (free.symm.trans bound) (by simp)
          · have plain : (t.tasks a).rtWeight = noWeight := by
              refine (congrArg (fun f => f.2.1) filing).trans ?_
              simp [KernelTask.filing,KernelTask.bind,inherits,c.inheritance inherits]
            simp [System.tenure,inherited,plain]
          · refine (syncObj_identity identity).trans ?_
            exact Decidable.byContradiction fun waits => (fit.system.waiters a waits).1 free
        | ended _ filing unlinked =>
          obtain ⟨base,boost⟩ := filed filing
          exact .inl ⟨base,boost,.inr unlinked⟩
    exact ⟨⟨system,fit.valid.drifts drifts,owned⟩,.drift drifts⟩
  · cases taken

section

variable (calls : l.system.caller = some i)
include calls

theorem block_effect (bound : (l.system.tasks i).user = some u)
    (busy : l.busy kind u m = true) (waits : timeout ≠ some noWait) (taken : l.block i u m timeout = some l') :
    Fit law l' ∧ Effect kind l l' (.lock m timeout) := by
  obtain ⟨o,owns,taken⟩ := of_bind taken
  obtain ⟨a,v,owner,rfl,owned⟩ := fit.owner owns
  obtain ⟨s,raised,taken⟩ := of_bind taken
  have base : l.tenure.base i = u.weight := fit.system.base inherits bound
  have named : u.weight ≠ noWeight := by
    have := (fit.system.plain i u bound).2
    have := noWeight_lt_zero
    omega
  have reweighed := inherit_reweighed inherits fit.system owner raised
  obtain ⟨system,lent⟩ := inherit_tenure (o := l.owners) inherits fit.system owner named raised
  rw [← base] at lent
  have lent : s.tenure l.owners = l.tenure.raise a (l.tenure.base i) := lent
  have users := fun j => (reweighed.task j).1
  have valid : (s.tenure l.owners).Valid := lent ▸ fit.valid.raise a _
  have locked : s.kernel.isLocked = l.system.kernel.isLocked := by unfold Kernel.isLocked; rw [reweighed.locked]
  split at taken
  · rename_i free
    obtain ⟨t,waited,rfl⟩ := of_return taken
    obtain ⟨system,relinked⟩ := wait_relinked system (reweighed.caller.trans calls) free.1 free.2 waited
    have blocked : t.tenure l.owners = l.tenure.block i a m := by
      rw [relinked.tenure,lent]; rfl
    refine ⟨Fit.setCall (l := {l with system := t}) (fit.next system ?_ (fun j => ?_) fun m o owns => .inl owns) i _,?_⟩
    · exact (show (t.tenure l.owners).Valid from blocked ▸ fit.valid.block owned i)
    · exact (user_filing (relinked.fields j).1).trans (users j)
    · exact .block (failing_lock calls bound fun _ _ => ⟨free.1,locked ▸ free.2⟩) owned blocked
  · rename_i refused
    split at taken
    · cases taken
    · rename_i finite
      obtain ⟨t,restored,rfl⟩ := of_return taken
      cases timeout with
      | none => exact absurd rfl finite
      | some ticks =>
        have owner : (s.tasks a).user = some v := (users a).trans owner
        obtain ⟨r,highest,later,settled⟩ := restore_tenure inherits system valid owner restored
        rw [lent] at highest settled
        have reset := restore_reweighed inherits system owner restored
        refine ⟨fit.next later ?_ (fun j => (reset.task j).1.trans (users j)) fun m o owns => .inl owns,?_⟩
        · have raised := fit.valid.raise a (l.tenure.base i)
          exact (show (t.tenure l.owners).Valid from settled ▸ raised.settle (highest.above raised))
        · refine .refuse ?_ owned highest settled
          have waits : ticks ≠ noWait := by simpa using waits
          simp only [failing,calls,bound,Option.bind_eq_bind,Option.bind_some]
          rw [if_pos ⟨busy,waits,by rw [← locked]; exact refused⟩]

theorem timedLockEx_effect (bound : (l.system.tasks i).user = some u)
    (taken : l.timedLockEx kind i u m timeout = some l') : Fit law l' ∧ Effect kind l l' (.lock m timeout) := by
  have failed : timeout = some noWait → Fit law l ∧ Effect kind l l (.lock m timeout) := fun none =>
    ⟨fit,.same (failing_lock calls bound fun _ waits => absurd none waits) rfl⟩
  unfold timedLockEx at taken
  cases type : kind m with
  | mutex =>
    simp only [type] at taken
    split at taken
    · rename_i own
      cases taken
      have same := tenure_recount l m (x := (l.lock m).deepen) (by simp)
      refine ⟨Fit.setCall (fit.setLock (x := (l.lock m).deepen) (by rw [same]; exact fit.valid)
        (by simpa using fit.owned m)) i _,.same ?_ same⟩
      exact failing_lock calls bound fun held => absurd held (by simp [busy,own.2])
    · rename_i other
      split at taken
      · rename_i zero
        split at taken
        · rename_i free
          cases taken
          exact take_effect fit calls bound free (by simp [busy,type,zero]) _
        · cases taken
      · rename_i held
        have foreign : l.busy kind u m = true := by
          simp only [busy,type,Bool.and_eq_true,decide_eq_true_eq]
          exact ⟨fun own => other ⟨held,own⟩,held⟩
        split at taken
        · exact block_effect inherits fit calls bound foreign ‹_› taken
        · rename_i none
          cases taken
          exact failed (Decidable.not_not.mp none)
  | fastMutex =>
    simp only [type] at taken
    split at taken
    · rename_i free
      cases taken
      exact take_effect fit calls bound free (by simp [busy,type,free]) _
    · rename_i held
      split at taken
      · cases taken
      · rename_i other
        have foreign : l.busy kind u m = true := by
          simp only [busy,type,Bool.and_eq_true,decide_eq_true_eq]
          exact ⟨other,held⟩
        split at taken
        · exact block_effect inherits fit calls bound foreign ‹_› taken
        · rename_i none
          cases taken
          exact failed (Decidable.not_not.mp none)

theorem finish_effect (taken : l.finish kind i u = some l') :
    Fit law l' ∧ Effect kind l l' .finish := by
  unfold finish at taken
  split at taken
  · rename_i m owner forever result ended
    split at taken
    · rename_i signaled
      split at taken
      · cases taken
        refine ⟨fit.setCall i _,.same ?_ rfl⟩
        simp [failing,calls,ended,signaled]
      · cases taken
    · rename_i failed
      have fails : l.failing kind .finish = some m := by
        simp only [failing,calls,ended,Option.bind_eq_bind,Option.bind_some]
        rw [if_neg failed]
      split at taken
      · cases taken
      · obtain ⟨t,restored,rfl⟩ := of_return taken
        have seen : l.unchanged = decide ((l.lock m).owner = some owner) := by simp only [unchanged,calls,ended]
        split at restored
        · rename_i owns
          obtain ⟨a,v,bound,rfl,owned⟩ := fit.owner owns
          obtain ⟨r,highest,later,settled⟩ := restore_tenure inherits fit.system fit.valid bound restored
          have reset := restore_reweighed inherits fit.system bound restored
          refine ⟨Fit.setCall (l := {l with system := t})
            (fit.next later ?_ (fun j => (reset.task j).1) fun m o owns => .inl owns) i _,?_⟩
          · exact (show (t.tenure l.owners).Valid from settled ▸ fit.valid.settle (highest.above fit.valid))
          · exact .giveUp fails (by rw [seen,decide_eq_true owns]) owned highest settled
        · rename_i moved
          cases restored
          exact ⟨fit.setCall i _,.late fails (by rw [seen,decide_eq_false moved]) rfl⟩
  · cases taken

theorem handOver_effect (bound : (l.system.tasks i).user = some u)
    (owns : (l.lock m).owner = some u.id) (resets : l.resets kind m = true)
    (reset : l.system.step (.restoreWeight u.id none) = some s) (taken : Locks.handOver kind {l with system := s} m = some l') :
    Fit law l' ∧ Effect kind l l' (.unlock m) := by
  have reweighed := restore_reweighed inherits fit.system bound reset
  obtain ⟨system,settled⟩ := reset_tenure (o := l.owners) inherits fit.system bound reset
  have users := fun j => (reweighed.task j).1
  have owned := fit.owner_self bound owns
  have settled : (Locks.mk s l.lock l.call).tenure = l.tenure.settle i none := settled
  have fit₁ : Fit law {l with system := s} :=
    fit.next system (by rw [settled]; exact fit.valid.settle (by simp)) users fun m o owns => .inl owns
  unfold handOver at taken
  dsimp only at taken
  split at taken
  · rename_i empty
    cases taken
    have nobody : ∀ j,l.tenure.waits j ≠ some m := by
      intro j waits
      have linked := (fit.system.sound.filed.linked m j).mpr waits
      rw [← reweighed.lists,empty] at linked
      cases linked
    have freed : ((Locks.mk s l.lock l.call).setLock m {}).tenure = (l.tenure.settle i none).own m none := by
      rw [tenure_setLock,settled]; rfl
    refine ⟨fit₁.setLock ?_ (fun o none => by cases none),.reset calls owned nobody freed resets⟩
    rw [freed]
    exact (fit.valid.settle (by simp)).own none fun _ => nobody
  · rename_i w rest first
    obtain ⟨v,heir,taken⟩ := of_bind taken
    obtain ⟨s₂,woken,taken⟩ := of_bind taken
    obtain ⟨t,lent,rfl⟩ := of_return taken
    obtain ⟨system₂,relinked,left⟩ := wakeOne_relinked system first woken
    have users₂ := fun j => user_filing (relinked.fields j).1
    have heir₂ : (s₂.tasks w).user = some v := (users₂ w).trans heir
    have waked : s₂.tenure l.owners = (l.tenure.settle i none).wait w none := by
      rw [relinked.tenure]; exact congrArg (fun p => p.wait w none) settled
    have base : l.tenure.base w = v.weight :=
      fit.system.base inherits ((users w).symm.trans heir)
    -- Ownership is assigned to the waiter before it is woken; the order is not visible outside.
    have given : s₂.tenure (update l.owners m (some v.id)) =
        ((l.tenure.settle i none).wait w none).own m (some w) := by
      rw [tenure_own,waked]
      exact congrArg (Tenure.own _ m) (system₂.finds heir₂)
    have owners : ∀ t : System c,((Locks.mk t l.lock l.call).setLock m ⟨some v.id,(kind m).once⟩).tenure =
        t.tenure (update l.owners m (some v.id)) := by
      intro t
      rw [tenure_setLock,tenure_own]; rfl
    have known : ∀ t : System c,(∀ j,(t.tasks j).user = (s₂.tasks j).user) → ∀ m' o,
        (((Locks.mk t l.lock l.call).setLock m ⟨some v.id,(kind m).once⟩).lock m').owner = some o →
        (l.lock m').owner = some o ∨ ∃ a u,(l.system.tasks a).user = some u ∧ u.id = o := by
      intro t same m' o owns
      refine (setLock_owner (l := Locks.mk t l.lock l.call) owns).imp id fun new => ?_
      cases new
      exact ⟨w,v,(users w).symm.trans heir,rfl⟩
    have low : 0 ≤ v.weight := (system₂.plain w v heir₂).2.le
    have finished : System.Fit law t ∧ (∀ j,(t.tasks j).user = (s₂.tasks j).user) ∧
        ∃ r,(((l.tenure.settle i none).wait w none).own m (some w)).Highest m (l.tenure.base w) r ∧
          t.tenure (update l.owners m (some v.id)) = l.tenure.handOver i w m r := by
      split at lent
      · rename_i none
        cases lent
        refine ⟨system₂,fun _ => rfl,Option.none,.nobody fun j waits => ?_,given⟩
        have linked := (system₂.sound.filed.linked m j).mpr ((congrFun (congrArg Tenure.waits given) j).trans waits)
        rw [isEmpty_iff.mp none] at linked
        cases linked
      · have reweighed := inherit_reweighed inherits system₂ heir₂ lent
        have highest := findWeightHigherThan_highest (o := update l.owners m (some v.id)) inherits system₂ m low
        rw [given,← base] at highest
        refine ⟨reweighed.fit system₂ (system₂.sound.step lent),fun j => (reweighed.task j).1,_,highest,?_⟩
        by_cases none : s₂.kernel.findWeightHigherThan m v.weight = noWeight
        · have kept := reweighed.tenure (o := update l.owners m (some v.id)) (by simp [heir₂])
          rw [base,none,inherited,if_pos rfl]
          rw [kept,none,if_neg (by simp)]
          have own : (s₂.tenure (update l.owners m (some v.id))).boost w = inherited (s₂.tasks w).rtWeight := by
            simp [System.tenure,heir₂]
          rw [← own,Tenure.settle,update_eq_self]
          exact given
        · rw [base,inherited,if_neg none]
          rw [(inherit_tenure inherits system₂ heir₂ none lent).2,given]; rfl
    obtain ⟨system,same,r,highest,passed⟩ := finished
    refine ⟨fit.next system ?_ (fun j => (same j).trans ((users₂ j).trans (users j))) (known t same),?_⟩
    · rw [owners,passed]; exact fit.valid.handOver i w m r
    · exact .handOver calls owned resets highest ((owners t).trans passed)

theorem unlock_effect (bound : (l.system.tasks i).user = some u)
    (taken : l.unlock kind u m = some l') : Fit law l' ∧ Effect kind l l' (.unlock m) := by
  unfold unlock at taken
  dsimp only at taken
  split at taken
  · rename_i owns
    cases type : kind m with
    | mutex =>
      simp only [type] at taken
      split at taken
      · rename_i last
        obtain ⟨s,reset,taken⟩ := of_bind taken
        exact handOver_effect inherits fit calls bound owns (by simp [Locks.resets,type,last]) reset taken
      · cases taken
        have same := tenure_recount l m (x := (l.lock m).unwind) (by simp)
        exact ⟨fit.setLock (x := (l.lock m).unwind) (by rw [same]; exact fit.valid)
          (by simpa using fit.owned m),.same rfl same⟩
    | fastMutex =>
      simp only [type] at taken
      split at taken
      · rename_i empty
        cases taken
        have nobody : ∀ j,l.tenure.waits j ≠ some m := by
          intro j waits
          have linked := (fit.system.sound.filed.linked m j).mpr waits
          rw [isEmpty_iff.mp empty] at linked
          cases linked
        have freed : (l.setLock m {}).tenure = l.tenure.own m none := tenure_setLock l m {}
        refine ⟨fit.setLock ?_ (fun o none => by cases none),
          .release calls (fit.owner_self bound owns) nobody freed type empty⟩
        rw [freed]
        exact fit.valid.own none fun _ => nobody
      · rename_i queued
        obtain ⟨s,reset,taken⟩ := of_bind taken
        exact handOver_effect inherits fit calls bound owns (by simp [resets,type,queued]) reset taken
  · cases taken

end

theorem step_effect (taken : l.step kind e = some l') : Fit law l' ∧ Effect kind l l' e := by
  cases e with
  | kernel e => exact kernel_effect inherits fit taken
  | lock m timeout =>
    obtain ⟨i,calls,taken⟩ := of_bind taken
    obtain ⟨u,bound,taken⟩ := of_bind taken
    split at taken
    · exact timedLockEx_effect inherits fit calls bound taken
    · cases taken
  | unlock m =>
    obtain ⟨i,calls,taken⟩ := of_bind taken
    obtain ⟨u,bound,taken⟩ := of_bind taken
    split at taken
    · exact unlock_effect inherits fit calls bound taken
    · cases taken
  | finish =>
    obtain ⟨i,calls,taken⟩ := of_bind taken
    obtain ⟨u,bound,taken⟩ := of_bind taken
    exact finish_effect inherits fit calls taken

end

end

theorem initial_fit (law : Lawful c.strategy) : Fit law (Locks.initial c) := by
  have unbound : ∀ i,((Locks.initial c).system.tasks i).user = none := fun _ => rfl
  refine ⟨⟨⟨initial_filed law,initial_contexts⟩,fun _ => rfl,fun i u bound => ?_,fun i j u v bound => ?_,fun i waits => ?_⟩,
    ⟨fun a w lent => ?_,fun i m waits => ?_⟩,fun m o owns => ?_⟩
  · cases bound
  · cases bound
  · exact absurd rfl waits
  · cases lent
  · cases waits
  · cases owns

end Locks
end SuperTinyKernel
