import Mathlib
import SuperTinyKernel.Timers.Commands
import SuperTinyKernel.Timers.Lifecycle

namespace SuperTinyKernel.Time

open Transition

theorem Shift.queued {h : TimerHost threads} (shift : Shift h e t p q) (queued : q.queued) :
    p.queued ∨ e = .tickTask ∧ h.polled = false ∧ ∃ rest sleep,h.tick = .scanning (t :: rest) sleep := by
  cases shift with
  | keep | unlink | release => exact .inl queued
  | command cause at_ read on other done =>
    cases done with
    | keep => exact .inl queued
    | arm | cancel => exact .inl queued.2
  | stop => exact .inl queued.2
  | visit cause at_ visited =>
    cases visited with
    | keep | unlink => exact .inl queued
    | periodic tasks => exact .inr ⟨cause,tasks,_,_,at_⟩
    | oneShot =>
      rcases queued with tasks | before
      · exact .inr ⟨cause,tasks,_,_,at_⟩
      · exact .inl before
  | claim | skip => exact queued.elim

theorem Shift.absent {h : TimerHost threads} (shift : Shift h e t p q) (absent : ¬p.linked ∧ ¬p.queued)
    (uncommanded : e = .tickTask → ∀ sleep since c rest,h.tick = .reading sleep since → h.commands = c :: rest → c.timer ≠ some t)
    (unscanned : ∀ rest sleep,h.tick ≠ .scanning (t :: rest) sleep) : ¬q.linked ∧ ¬q.queued := by
  cases shift with
  | keep => exact absent
  | command cause at_ read on other done | stop cause at_ read on stop => exact absurd on (uncommanded cause _ _ _ _ at_ read)
  | release cause polled linked => exact absurd linked absent.1
  | visit cause at_ visited => exact absurd at_ (unscanned _ _)
  | unlink cause at_ => exact ⟨id,absent.2⟩
  | claim first pending | skip first handled => exact ⟨absent.1,id⟩

namespace TimerHost

variable {h h' : TimerHost threads} {size : Nat}

theorem vacant_dead (vacant : h.vacant = true) (i : Fin threads) : (h.handlers i).alive = false := by
  simp only [TimerHost.vacant,Bool.and_eq_true,List.all_eq_true] at vacant
  simpa using vacant.2 i (List.mem_finRange i)

def serving (h : TimerHost threads) : Prop :=
  h.polled = false ∧ ((∃ sleep since,h.tick = .reading sleep since) ∨ ∃ rest sleep,h.tick = .scanning rest sleep)

-- Handlers live as long as the tick task scans, and the last one leaves an empty list.
structure Staffed (h : TimerHost threads) : Prop where
  alive : h.serving → h.shutdown = false ∧ ∀ i,(h.handlers i).alive = true
  drained : (∀ i,(h.handlers i).alive = false) → h.board.readyList = []
  polled : h.polled = true → h.board.readyList = []

structure Scanned (h : TimerHost threads) : Prop where
  listed : h.board.Listed
  rest : ∀ rest sleep,h.tick = .scanning rest sleep → rest.Nodup ∧ ∀ t ∈ rest,t ∈ h.board.active

structure Slotted (h : TimerHost threads) : Prop where
  shown : ∀ i slot t,h.handlers i = .calling slot t → ∃ s,slot = some s ∧ h.running s = some t
  held : ∀ s t,h.running s = some t → ∃ i,h.handlers i = .calling (some s) t
  apart : ∀ i j s t u,h.handlers i = .calling (some s) t → h.handlers j = .calling (some s) u → i = j

theorem Scanned.step (scanned : h.Scanned) (taken : HostStep size h e h') : h'.Scanned := by
  obtain ⟨listed,shifts⟩ := taken.shift scanned.listed
  refine ⟨listed,?_⟩
  cases taken with
  | start => rintro rest sleep ⟨⟩; simp
  | startPolled | process | execute | release | leave | read | processed | close | unlink => rintro rest sleep ⟨⟩
  | scan => rintro rest sleep ⟨⟩; exact ⟨listed.active,fun _ => id⟩
  | @visit t rest sleep board next at_ visited =>
    rintro _ _ ⟨⟩
    obtain ⟨distinct,inside⟩ := scanned.rest _ _ at_
    obtain ⟨once,later⟩ := List.nodup_cons.mp distinct
    obtain ⟨-,others,-⟩ := Board.visit_place scanned.listed visited
    refine ⟨later,fun u member => ?_⟩
    have other : u ≠ t := by
      rintro rfl
      exact once member
    have place := congrArg Place.linked (others u other)
    exact place.mpr (inside u (List.mem_cons_of_mem _ member))
  | fail pushing full res e cause => simpa using scanned.rest
  | _ => exact scanned.rest

theorem Staffed.step [NeZero threads] (staffed : h.Staffed) (scanned : h.Scanned) (taken : HostStep size h e h') :
    h'.Staffed := by
  obtain ⟨-,shifts⟩ := taken.shift scanned.listed
  -- A list that was empty stays so unless handlers are there for it.
  have empty : h.board.readyList = [] → (∀ i,(h.handlers i).alive = false) ∨ h.polled = true → h'.board.readyList = [] := by
    intro before nobody
    refine List.eq_nil_iff_forall_not_mem.mpr fun t member => ?_
    rcases (shifts t).queued member with queued | ⟨-,tasks,rest,sleep,at_⟩
    · have queued : t ∈ h.board.readyList := queued
      rw [before] at queued
      cases queued
    · rcases nobody with dead | polled
      · have living := (staffed.alive ⟨tasks,.inr ⟨_,_,at_⟩⟩).2 (Fin.ofNat threads 0)
        rw [dead] at living
        cases living
      · rw [polled] at tasks
        cases tasks
  have dead : (∀ i,(h.handlers i).alive = false) → h'.board.readyList = [] := fun dead => empty (staffed.drained dead) (.inl dead)
  have polled : h.polled = true → h'.board.readyList = [] := fun polled => empty (staffed.polled polled) (.inr polled)
  cases taken with
  | start vacant => exact ⟨fun _ => ⟨rfl,fun _ => rfl⟩,fun _ => dead (vacant_dead vacant),by simp⟩
  | startFailed vacant =>
    refine ⟨fun busy => ?_,dead,by simp⟩
    simp only [TimerHost.vacant,Bool.and_eq_true,decide_eq_true_eq] at vacant
    rcases busy.2 with ⟨sleep,since,at_⟩ | ⟨rest,sleep,at_⟩
    all_goals rcases vacant.1 with off | off <;> rw [show h.tick = _ from at_] at off <;> cases off
  | startPolled vacant => exact ⟨by simp [serving],fun _ => dead (vacant_dead vacant),fun _ => dead (vacant_dead vacant)⟩
  | process isPolled idle => exact ⟨by simp [serving,isPolled],dead,polled⟩
  | release at_ read on cmd isPolled => exact ⟨by simp [serving,isPolled],dead,polled⟩
  | execute at_ | scan at_ none e cause => exact ⟨fun busy => staffed.alive ⟨busy.1,.inl ⟨_,_,at_⟩⟩,dead,polled⟩
  | visit at_ visited => exact ⟨fun busy => staffed.alive ⟨busy.1,.inr ⟨_,_,at_⟩⟩,dead,polled⟩
  | read at_ tasks => exact ⟨fun _ => staffed.alive ⟨tasks,.inr ⟨_,_,at_⟩⟩,dead,polled⟩
  | leave at_ | processed at_ isPolled | close at_ | unlink at_ => exact ⟨by simp [serving],dead,polled⟩
  | @claim i t rest loop first pending slot free | @finish i slot t calling =>
    refine ⟨fun busy => ?_,fun nobody => ?_,polled⟩
    · obtain ⟨open_,alive⟩ := staffed.alive busy
      refine ⟨open_,fun j => ?_⟩
      by_cases own : j = i
      · subst own; simp [Handler.alive]
      · simpa [own] using alive j
    · have living := nobody i
      simp [Handler.alive] at living
  | @exit i loop none shut =>
    refine ⟨fun busy => ?_,fun _ => none,polled⟩
    have open_ := (staffed.alive busy).1
    rw [shut] at open_
    cases open_
  | _ => exact ⟨staffed.alive,dead,polled⟩

theorem Slotted.free (slotted : h.Slotted) (loop : h.handlers i = .looping) : ∃ s,h.running s = none := by
  by_contra occupied
  have taken : ∀ s,∃ i t,h.handlers i = .calling (some s) t := by
    intro s
    cases running : h.running s with
    | none => exact absurd ⟨s,running⟩ occupied
    | some t =>
      obtain ⟨j,calling⟩ := slotted.held s t running
      exact ⟨j,t,calling⟩
  choose holder timer calling using taken
  have injective : Function.Injective holder := by
    intro s s' same
    have one := calling s
    rw [same,calling s'] at one
    cases one
    rfl
  obtain ⟨s,found⟩ := Finite.injective_iff_surjective.mp injective i
  have busy := calling s
  rw [found,loop] at busy
  cases busy

theorem Slotted.step (slotted : h.Slotted) (taken : HostStep size h e h') : h'.Slotted := by
  cases taken with
  | start vacant =>
    refine ⟨by simp,fun s t running => ?_,by simp⟩
    obtain ⟨i,calling⟩ := slotted.held s t running
    have dead := vacant_dead vacant i
    rw [calling] at dead
    cases dead
  | @claim i t rest loop first pending slot free =>
    obtain ⟨s,unused⟩ := slotted.free loop
    have found : slot.isSome = true := by
      rw [← free,List.find?_isSome]
      exact ⟨s,List.mem_finRange s,by simp [unused]⟩
    obtain ⟨s,rfl⟩ := Option.isSome_iff_exists.mp found
    have unused : h.running s = none := by simpa using List.find?_some free
    have apart : ∀ j u,h.handlers j ≠ .calling (some s) u := by
      intro j u calling
      obtain ⟨s',same,running⟩ := slotted.shown j _ u calling
      cases same
      rw [unused] at running
      cases running
    refine ⟨fun j slot u calling => ?_,fun s' u running => ?_,fun j j' s' u u' one two => ?_⟩
    · by_cases own : j = i
      · subst own
        simp only [Function.update_self,Handler.calling.injEq] at calling
        obtain ⟨rfl,rfl⟩ := calling
        exact ⟨s,rfl,by simp [setRunning]⟩
      · simp only [Function.update_of_ne own] at calling
        obtain ⟨s',rfl,running⟩ := slotted.shown j _ u calling
        have other : s' ≠ s := by
          rintro rfl
          exact apart j u calling
        exact ⟨s',rfl,by simpa [setRunning,other] using running⟩
    · by_cases here : s' = s
      · subst here
        obtain rfl : t = u := by simpa [setRunning] using running
        exact ⟨i,by simp⟩
      · obtain ⟨j,calling⟩ := slotted.held s' u (by simpa [setRunning,here] using running)
        have own : j ≠ i := by
          rintro rfl
          rw [loop] at calling
          cases calling
        exact ⟨j,by simpa [own] using calling⟩
    · by_cases own : j = i
      · subst own
        by_cases own' : j' = j
        · exact own'.symm
        · simp only [Function.update_self,Handler.calling.injEq] at one
          simp only [Function.update_of_ne own'] at two
          obtain ⟨rfl⟩ := Option.some.inj one.1
          exact absurd two (apart j' u')
      · by_cases own' : j' = i
        · subst own'
          simp only [Function.update_self,Handler.calling.injEq] at two
          simp only [Function.update_of_ne own] at one
          obtain ⟨rfl⟩ := Option.some.inj two.1
          exact absurd one (apart j u)
        · simp only [Function.update_of_ne own] at one
          simp only [Function.update_of_ne own'] at two
          exact slotted.apart j j' s' u u' one two
  | @exit i loop none shut =>
    have other : ∀ {j slot u},Function.update h.handlers i .exited j = .calling slot u → h.handlers j = .calling slot u := by
      intro j slot u calling
      by_cases own : j = i
      · subst own; simp at calling
      · simpa [own] using calling
    refine ⟨fun j slot u calling => slotted.shown j slot u (other calling),fun s u running => ?_,
      fun j j' s u u' one two => slotted.apart j j' s u u' (other one) (other two)⟩
    obtain ⟨j,calling⟩ := slotted.held s u running
    have own : j ≠ i := by
      rintro rfl
      rw [loop] at calling
      cases calling
    exact ⟨j,by simpa [own] using calling⟩
  | @finish i slot t calling =>
    obtain ⟨s,rfl,running⟩ := slotted.shown i slot t calling
    have other : ∀ {j slot u},Function.update h.handlers i .looping j = .calling slot u →
        j ≠ i ∧ h.handlers j = .calling slot u := by
      intro j slot u calling
      by_cases own : j = i
      · subst own; simp at calling
      · exact ⟨own,by simpa [own] using calling⟩
    refine ⟨fun j slot u busy => ?_,fun s' u busy => ?_,
      fun j j' s u u' one two => slotted.apart j j' s u u' (other one).2 (other two).2⟩
    · obtain ⟨own,before⟩ := other busy
      obtain ⟨s',rfl,shown⟩ := slotted.shown j _ u before
      have apart : s' ≠ s := by
        rintro rfl
        exact own (slotted.apart j i _ u t before calling)
      exact ⟨s',rfl,by simpa [setRunning,apart] using shown⟩
    · have apart : s' ≠ s := by
        rintro rfl
        simp [setRunning] at busy
      obtain ⟨j,before⟩ := slotted.held s' u (by simpa [setRunning,apart] using busy)
      have own : j ≠ i := by
        rintro rfl
        rw [calling] at before
        cases before
        exact apart rfl
      exact ⟨j,by simpa [own] using before⟩
  | _ => exact ⟨slotted.shown,slotted.held,slotted.apart⟩

end TimerHost

-- What is known of the last StopSync() of a context: its command was executed, or the call
-- also returned, and no other command on the timer was executed since.
inductive StopWatch where
  | unknown
  | executed (t : TimerId)
  | returned (t : TimerId)
  deriving DecidableEq,Repr

def StopWatch.timer : StopWatch → Option TimerId
  | .unknown => none
  | .executed t | .returned t => some t

namespace TimerHost

variable {h h' : TimerHost threads} {size : Nat}

def watchCommand (c : TimerCommand threads) (w : Context threads → StopWatch) (k : Context threads) : StopWatch :=
  match c.timer with
  | none => w k
  | some t =>
    if c.cmd = .stop ∧ c.completion = some k then .executed t
    else if (w k).timer = some t then .unknown else w k

def watchReturn (stage : Stage threads) (x : StopWatch) : StopWatch :=
  match stage,x with
  | .polling _ _ slot false,.executed t => if threads ≤ slot then .returned t else .executed t
  | _,x => x

def watchStop (h : TimerHost threads) (e : HostEvent threads) (_ : TimerHost threads) (w : Context threads → StopWatch) :
    Context threads → StopWatch :=
  match e,h.tick,h.commands with
  | .tickTask,.reading _ _,c :: _ => watchCommand c w
  | .poll k,_,_ => Function.update w k (watchReturn (h.stages k) (w k))
  | _,_,_ => w

def Absent (h : TimerHost threads) (t : TimerId) : Prop := t ∉ h.board.active ∧ t ∉ h.board.readyList

-- A caller in WaitCallbackDone that has not seen its timer finds it in none of the slots
-- behind it.
structure Watched (h : TimerHost threads) (w : Context threads → StopWatch) : Prop where
  absent : ∀ k t,(w k).timer = some t → h.Absent t
  completed : ∀ k c r info t,h.stages k = .completed c r info → c.cmd = .stop → c.timer = some t →
    w k = .unknown ∨ w k = .executed t
  polling : ∀ k t r slot seen,h.stages k = .polling t r slot seen →
    w k = .unknown ∨ w k = .executed t ∧ (seen = false → ∀ s : Fin threads,s < slot → h.running s ≠ some t)
  returned : ∀ k t,w k = .returned t → ∀ i slot,h.handlers i ≠ .calling slot t

structure Orderly (h : TimerHost threads) : Prop where
  owned : h.Owned
  scanned : h.Scanned
  staffed : h.Staffed
  slotted : h.Slotted

theorem Orderly.initial : ({} : TimerHost threads).Orderly :=
  ⟨.initial,⟨⟨List.nodup_nil,List.nodup_nil⟩,by simp⟩,⟨by simp [serving],fun _ => rfl,by simp⟩,⟨by simp,by simp,by simp⟩⟩

theorem Orderly.step [NeZero threads] (orderly : h.Orderly) (taken : HostStep size h e h') : h'.Orderly :=
  ⟨orderly.owned.step taken.traffic,orderly.scanned.step taken,orderly.staffed.step orderly.scanned taken,
    orderly.slotted.step taken⟩

theorem Absent.step (orderly : h.Orderly) (absent : h.Absent t) (taken : HostStep size h e h')
    (uncommanded : e = .tickTask → ∀ sleep since c rest,h.tick = .reading sleep since → h.commands = c :: rest → c.timer ≠ some t) :
    h'.Absent t := by
  obtain ⟨-,shifts⟩ := taken.shift orderly.scanned.listed
  exact (shifts t).absent absent uncommanded fun rest sleep at_ =>
    absent.1 ((orderly.scanned.rest _ _ at_).2 t List.mem_cons_self)

theorem watchCommand_timer (known : (watchCommand c w k).timer = some t) :
    c.cmd = .stop ∧ c.completion = some k ∧ c.timer = some t ∨ (w k).timer = some t ∧ c.timer ≠ some t := by
  unfold watchCommand at known
  split at known
  · rename_i none
    exact .inr ⟨known,by simp [none]⟩
  · rename_i u on
    split at known
    · rename_i own
      obtain rfl : u = t := Option.some.inj known
      exact .inl ⟨own.1,own.2,on⟩
    · split at known
      · cases known
      · rename_i other
        refine .inr ⟨known,?_⟩
        rw [on]
        rintro ⟨⟩
        exact other known

@[simp] theorem watchReturn_timer : (watchReturn stage x).timer = x.timer := by
  unfold watchReturn
  split
  · split <;> rfl
  · rfl

theorem watchCommand_other (other : c.completion ≠ some k) : watchCommand c w k = .unknown ∨ watchCommand c w k = w k := by
  unfold watchCommand
  split
  · exact .inr rfl
  · rw [if_neg fun own => other own.2]
    split
    · exact .inl rfl
    · exact .inr rfl

theorem watchStop_reading (at_ : h.tick = .reading sleep since) (read : h.commands = c :: rest) :
    watchStop h .tickTask h' w = watchCommand c w := by simp [watchStop,at_,read]

theorem watchStop_none (on : c.timer = none) : watchCommand c w = w := by
  funext k
  simp [watchCommand,on]

theorem absent_stop {b : Board} (orderly : h.Orderly) (stop : c.cmd = .stop)
    (done : h.board.execute h.polled c t sleep = some (b,next,r)) : t ∉ b.active ∧ t ∉ b.readyList := by
  obtain ⟨-,-,own⟩ := Board.execute_stop orderly.scanned.listed stop done
  have linked := congrArg Place.linked own
  have queued := congrArg Place.queued own
  refine ⟨fun member => linked.mp member,fun member => ?_⟩
  obtain ⟨polled,before⟩ := queued.mp member
  have empty : t ∈ h.board.readyList := before
  rw [orderly.staffed.polled polled] at empty
  cases empty

section

variable (watched : Watched h w)
include watched

theorem Watched.known (orderly : h.Orderly) (taken : HostStep size h e h') (k : Context threads) (t : TimerId)
    (known : (watchStop h e h' w k).timer = some t) : h'.Absent t := by
  have kept : (w k).timer = some t → (e = .tickTask → ∀ sleep since c rest,h.tick = .reading sleep since →
      h.commands = c :: rest → c.timer ≠ some t) → h'.Absent t := fun before uncommanded =>
    (watched.absent k t before).step orderly taken uncommanded
  cases taken with
  | @execute sleep since c rest u board next r at_ read on done info =>
    rw [watchStop_reading at_ read] at known
    rcases watchCommand_timer known with ⟨stop,-,timer⟩ | ⟨before,other⟩
    · obtain rfl : u = t := Option.some.inj (on.symm.trans timer)
      simpa [Absent] using absent_stop orderly stop done
    · refine kept before fun _ sleep' since' c' rest' at_' read' => ?_
      obtain ⟨rfl,-⟩ := List.cons.inj (read.symm.trans read')
      exact other
  | release at_ read on cmd polled | leave at_ read on cmd tasks =>
    rw [watchStop_reading at_ read,watchStop_none on] at known
    refine kept known fun _ sleep' since' c' rest' at_' read' => ?_
    obtain ⟨rfl,-⟩ := List.cons.inj (read.symm.trans read')
    simp [on]
  | scan at_ empty e cause =>
    refine kept ?_ fun _ sleep' since' c' rest' at_' read' => by rw [empty] at read'; cases read'
    rcases cause with rfl | rfl
    · simpa [watchStop,at_,empty] using known
    · exact known
  | visit at_ | read at_ | processed at_ | close at_ | unlink at_ =>
    refine kept ?_ fun _ sleep' since' c' rest' at_' => by rw [at_] at at_'; cases at_'
    simpa [watchStop,at_] using known
  | @poll k' | @again k' | @return_ k' =>
    refine kept ?_ (by rintro ⟨⟩)
    by_cases own : k = k'
    · subst own; simpa [watchStop] using known
    · simpa [watchStop,own] using known
  | fail pushing full res e cause =>
    rcases cause with ⟨mayWait,rfl⟩ | rfl
    · exact kept known (by rintro ⟨⟩)
    · exact kept known (by rintro ⟨⟩)
  | _ => exact kept known (by rintro ⟨⟩)

theorem Watched.move (absent : ∀ k t,(w k).timer = some t → h'.Absent t)
    (stages : h'.stages = Function.update h.stages k next) (running : h'.running = h.running)
    (handlers : h'.handlers = h.handlers)
    (completed : ∀ c r info t,next = .completed c r info → c.cmd = .stop → c.timer = some t → w k = .unknown ∨ w k = .executed t)
    (polling : ∀ t r slot seen,next = .polling t r slot seen →
      w k = .unknown ∨ w k = .executed t ∧ (seen = false → ∀ s : Fin threads,s < slot → h.running s ≠ some t)) :
    Watched h' w := by
  refine ⟨absent,fun k' c r info t at_ => ?_,fun k' t r slot seen at_ => ?_,by rw [handlers]; exact watched.returned⟩
  · rw [stages] at at_
    by_cases own : k' = k
    · subst own; exact completed c r info t (by simpa using at_)
    · exact watched.completed k' c r info t (by simpa [own] using at_)
  · rw [stages] at at_
    rw [running]
    by_cases own : k' = k
    · subst own; exact polling t r slot seen (by simpa using at_)
    · exact watched.polling k' t r slot seen (by simpa [own] using at_)

theorem Watched.slots (absent : ∀ k t,(w k).timer = some t → h'.Absent t) (stages : h'.stages = h.stages)
    (running : ∀ s t,h'.running s = some t → h.running s = some t ∨ t ∈ h.board.readyList)
    (handlers : ∀ i slot t,h'.handlers i = .calling slot t → h.handlers i = .calling slot t ∨ t ∈ h.board.readyList) :
    Watched h' w := by
  refine ⟨absent,by rw [stages]; exact watched.completed,fun k t r slot seen at_ => ?_,fun k t known i slot calling => ?_⟩
  · rw [stages] at at_
    rcases watched.polling k t r slot seen at_ with unknown | ⟨executed,clear⟩
    · exact .inl unknown
    · refine .inr ⟨executed,fun unseen s before shown => ?_⟩
      rcases running s t shown with same | queued
      · exact clear unseen s before same
      · exact (watched.absent k t (by rw [executed]; rfl)).2 queued
  · rcases handlers i slot t calling with same | queued
    · exact watched.returned k t known i slot same
    · exact (watched.absent k t (by rw [known]; rfl)).2 queued

theorem Watched.complete (absent : ∀ k t,(watchCommand c w k).timer = some t → h'.Absent t)
    (stages : h'.stages = h.completed c r info) (running : h'.running = h.running) (handlers : h'.handlers = h.handlers) :
    Watched h' (watchCommand c w) := by
  refine ⟨absent,fun k c' r' info' t at_ stop on => ?_,fun k t r' slot seen at_ => ?_,fun k t known => ?_⟩
  · by_cases own : c.completion = some k
    · rw [stages,completed_own own] at at_
      cases at_
      right
      simp [watchCommand,on,stop,own]
    · rw [stages,completed_other own] at at_
      rcases watchCommand_other (w := w) own with unknown | same
      · exact .inl unknown
      · rw [same]
        exact watched.completed k c' r' info' t at_ stop on
  · by_cases own : c.completion = some k
    · rw [stages,completed_own own] at at_
      cases at_
    · rw [stages,completed_other own] at at_
      rcases watchCommand_other (w := w) own with unknown | same
      · exact .inl unknown
      · rw [same,running]
        exact watched.polling k t r' slot seen at_
  · have before : w k = .returned t := by
      unfold watchCommand at known
      split at known
      · exact known
      · split at known
        · cases known
        · split at known
          · cases known
          · exact known
    rw [handlers]
    exact watched.returned k t before

theorem Watched.step (orderly : h.Orderly) (taken : HostStep size h e h') :
    Watched h' (watchStop h e h' w) := by
  have absent := watched.known orderly taken
  cases taken with
  | execute at_ read on done info | release at_ read on cmd polled | leave at_ read on cmd tasks =>
    rw [watchStop_reading at_ read] at absent ⊢
    exact watched.complete absent rfl rfl rfl
  | start vacant => exact watched.slots absent rfl (fun _ _ => .inl) (by simp)
  | @claim i t rest loop first pending slot free =>
    have queued : t ∈ h.board.readyList := by rw [first]; exact List.mem_cons_self
    refine watched.slots absent rfl (fun s u shown => ?_) fun j slot u calling => ?_
    · cases slot with
      | none => exact .inl shown
      | some s' =>
        by_cases here : s = s'
        · subst here
          obtain rfl : t = u := by simpa [setRunning] using shown
          exact .inr queued
        · exact .inl (by simpa [setRunning,here] using shown)
    · by_cases own : j = i
      · subst own
        simp only [Function.update_self,Handler.calling.injEq] at calling
        exact .inr (calling.2 ▸ queued)
      · exact .inl (by simpa [own] using calling)
  | @exit i loop empty shut =>
    refine watched.slots absent rfl (fun _ _ => .inl) fun j slot u calling => ?_
    by_cases own : j = i
    · subst own; simp at calling
    · exact .inl (by simpa [own] using calling)
  | @finish i slot t calling =>
    refine watched.slots absent rfl (fun s u shown => ?_) fun j slot u busy => ?_
    · cases slot with
      | none => exact .inl shown
      | some s' =>
        by_cases here : s = s'
        · subst here; simp [setRunning] at shown
        · exact .inl (by simpa [setRunning,here] using shown)
    · by_cases own : j = i
      · subst own; simp at busy
      · exact .inl (by simpa [own] using busy)
  | scan at_ empty e cause =>
    have same : watchStop h e h.scan w = w := by
      rcases cause with rfl | rfl
      · simp [watchStop,at_,empty]
      · rfl
    rw [same] at absent ⊢
    exact watched.slots absent rfl (fun _ _ => .inl) fun _ _ _ => .inl
  | visit at_ visited | read at_ tasks | processed at_ polled | close at_ | unlink at_ =>
    have same : ∀ h',watchStop h .tickTask h' w = w := fun h' => by simp [watchStop,at_]
    rw [same] at absent ⊢
    exact watched.slots absent rfl (fun _ _ => .inl) fun _ _ _ => .inl
  | refuse able res info | push able ready plain own blocking accepted
  | pushRearm able ready rearms unset blocking accepted | block pushing | collect completed result => exact watched.move absent rfl rfl rfl (by simp) (by simp)
  | write pushing room next waits =>
    refine watched.move absent rfl rfl rfl ?_ ?_
    · rcases waits with ⟨rfl,-⟩ | ⟨rfl,-⟩ <;> simp
    · rcases waits with ⟨rfl,-⟩ | ⟨rfl,-⟩ <;> simp
  | fail pushing full res e cause =>
    have same : ∀ h',watchStop h e h' w = w := by
      rcases cause with ⟨mayWait,rfl⟩ | rfl <;> exact fun _ => rfl
    rw [same] at absent ⊢
    exact watched.move absent rfl rfl rfl (by simp) (by simp)
  | @await k c r info t completed on stop outsider =>
    refine watched.move absent rfl rfl rfl (by simp) ?_
    rintro t' r' slot seen ⟨⟩
    refine (watched.completed k c r info t completed stop on).imp_right fun executed => ⟨executed,?_⟩
    intro _ s before
    simp at before
  | @poll k t r slot running polling inside =>
    have same : watchReturn (h.stages k) (w k) = w k := by
      rw [polling]
      cases running <;> cases w k <;> simp [watchReturn,Nat.not_le.mpr inside]
    simp only [watchStop,same,Function.update_eq_self] at absent ⊢
    refine watched.move absent rfl rfl rfl (by simp) ?_
    rintro t' r' slot' seen ⟨⟩
    refine (watched.polling k t r slot running polling).imp_right fun ⟨executed,clear⟩ => ⟨executed,fun unseen s before => ?_⟩
    obtain ⟨unseen,other⟩ := Bool.or_eq_false_iff.mp unseen
    by_cases here : s.val = slot
    · have same : s = ⟨slot,inside⟩ := Fin.ext here
      rw [same]
      exact of_decide_eq_false other
    · exact clear unseen s (by omega)
  | @again k t r slot polling =>
    have same : watchReturn (h.stages k) (w k) = w k := by rw [polling]; rfl
    simp only [watchStop,same,Function.update_eq_self] at absent ⊢
    refine watched.move absent rfl rfl rfl (by simp) ?_
    rintro t' r' slot' seen ⟨⟩
    refine (watched.polling k t r slot true polling).imp_right fun ⟨executed,clear⟩ => ⟨executed,?_⟩
    intro _ s before
    simp at before
  | @return_ k t r slot polling all =>
    have moved : Watched (h.setStage k (.returned r none)) w := by
      refine watched.move (fun k' t' known => absent k' t' ?_) rfl rfl rfl (by simp) (by simp)
      by_cases own : k' = k
      · subst own; simpa [watchStop] using known
      · simpa [watchStop,own] using known
    refine ⟨absent,fun k' c r' info t' at_ stop on => ?_,fun k' t' r' slot' seen at_ => ?_,fun k' t' known i slot' calling => ?_⟩
    · have own : k' ≠ k := by rintro rfl; simp [setStage] at at_
      simpa [watchStop,own] using moved.completed k' c r' info t' at_ stop on
    · have own : k' ≠ k := by rintro rfl; simp [setStage] at at_
      simpa [watchStop,own] using moved.polling k' t' r' slot' seen at_
    · by_cases own : k' = k
      · subst own
        simp only [watchStop,Function.update_self,polling,watchReturn] at known
        rcases watched.polling k' t r slot false polling with unknown | ⟨executed,clear⟩
        · simp [unknown] at known
        · simp only [executed,all,↓reduceIte,StopWatch.returned.injEq] at known
          subst known
          obtain ⟨s,-,shown⟩ := orderly.slotted.shown i slot' t calling
          exact clear rfl s (lt_of_lt_of_le s.isLt all) shown
      · exact moved.returned k' t' (by simpa [watchStop,own] using known) i slot' calling
  | _ => exact watched.slots absent rfl (fun _ _ => .inl) fun _ _ _ => .inl

end

-- A StopSync() has returned, and no other command on its timer was executed since the stop:
-- the timer is in neither list and no handler runs its callback.
theorem stopSync_quiet [NeZero threads]
    (run : Run (observe (TimerHost.step size) watchStop) (fun _ _ => True)
      (({} : TimerHost threads),fun _ => .unknown) (h,w))
    (returned : w k = .returned t) :
    t ∉ h.board.active ∧ t ∉ h.board.readyList ∧ ∀ i slot,h.handlers i ≠ .calling slot t := by
  obtain ⟨-,watched⟩ := run.keeps (I := fun p => p.1.Orderly ∧ Watched p.1 p.2)
    ⟨.initial,⟨by simp [StopWatch.timer],by simp,by simp,by simp⟩⟩ fun p e q before _ observed => by
      obtain ⟨taken,seen⟩ := observe_some observed
      exact ⟨before.1.step (step_inv taken),seen ▸ before.2.step before.1 (step_inv taken)⟩
  obtain ⟨inactive,unqueued⟩ := watched.absent k t (by simp only at returned ⊢; rw [returned]; rfl)
  exact ⟨inactive,unqueued,watched.returned k t returned⟩

def stopRunning : List (HostEvent 1) :=
  [.initializeTasks true,.call (.task 0) (.start 0 1 1) true,.write (.task 0) true,.tickTask,.tickTask,.time,.tickTask,.tickTask,
    .claim soleHandler,.tickTask,.call (.task 0) (.stopSync 0) true,.write (.task 0) true,.tickTask,.collect (.task 0),.poll (.task 0),
    .poll (.task 0),.finish soleHandler,.poll (.task 0),.poll (.task 0)]

theorem stopRunning_quiet : ∃ (h : TimerHost 1) (w : Context 1 → StopWatch),
    exec (observe (TimerHost.step 32) watchStop) ({},fun _ => .unknown) stopRunning = some (h,w) ∧
      h.stages (.task 0) = .returned .ok none ∧
      0 ∉ h.board.active ∧ 0 ∉ h.board.readyList ∧ ∀ i slot,h.handlers i ≠ .calling slot 0 := by
  have found : ∃ p,exec (observe (TimerHost.step 32) watchStop) (({} : TimerHost 1),fun _ => .unknown)
      stopRunning = some p ∧ p.1.stages (.task 0) = .returned .ok none ∧ p.2 (.task 0) = .returned 0 := by decide
  obtain ⟨⟨h,w⟩,ran,returned,seen⟩ := found
  exact ⟨h,w,ran,returned,stopSync_quiet (.ofExec ran) seen⟩

-- Another task restarts the timer between the stop and the return of the call.
def stopThenRestart : List (HostEvent 1) :=
  [.initializeTasks true,.call (.task 0) (.start 0 5 5) true,.write (.task 0) true,.tickTask,.tickTask,
    .call (.task 0) (.stopSync 0) true,.write (.task 0) true,.tickTask,.call (.task 1) (.restart 0 5 5) true,
    .write (.task 1) true,.tickTask,.collect (.task 0),.poll (.task 0),.poll (.task 0)]

theorem stopThenRestart_active : ∃ h : TimerHost 1,Run (TimerHost.step 32) (fun _ _ => True) {} h ∧
    h.stages (.task 0) = .returned .ok none ∧ 0 ∈ h.board.active := by
  exact Run.found stopThenRestart (by decide)

theorem callbacks_hold_slots [NeZero threads] (run : Run (TimerHost.step size) (fun _ _ => True) ({} : TimerHost threads) h) :
    (∀ i slot t,h.handlers i = .calling slot t → ∃ s,slot = some s ∧ h.running s = some t ∧
      ∀ j u,h.handlers j = .calling (some s) u → i = j) ∧
      (∀ s t,h.running s = some t → ∃ i,h.handlers i = .calling (some s) t) ∧ h.board.active.Nodup ∧ h.board.readyList.Nodup ∧
      ((∀ i,(h.handlers i).alive = false) → h.board.readyList = []) ∧ (h.commands.filterMap TimerCommand.completion).Nodup := by
  have orderly : h.Orderly := run.keeps .initial fun h e h' orderly _ taken => orderly.step (step_inv taken)
  refine ⟨fun i slot t calls => ?_,orderly.slotted.held,orderly.scanned.listed.active,orderly.scanned.listed.ready,
    orderly.staffed.drained,orderly.owned.once⟩
  obtain ⟨s,rfl,shown⟩ := orderly.slotted.shown i slot t calls
  exact ⟨s,rfl,shown,fun j u other => orderly.slotted.apart i j s t u calls other⟩

theorem stopRunning_slots : ∃ h : TimerHost 1,exec (TimerHost.step 32) {} (stopRunning.take 9) = some h ∧
    ∃ i,h.handlers i = .calling (some 0) 0 :=
  exec_shows (P := fun h => h.running 0 = some 0) (by decide) fun _ ran shown =>
    (callbacks_hold_slots (.ofExec ran)).2.1 0 0 shown

end TimerHost
end SuperTinyKernel.Time
