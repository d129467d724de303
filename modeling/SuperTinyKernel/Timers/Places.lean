import Mathlib.Data.List.Nodup
import SuperTinyKernel.Timers.Steps

namespace SuperTinyKernel.Time

open Function

def Timer.reload (now : Int) (x : Timer) : Timer := {x with timestamp := now,pending := true,deadline := x.deadline + x.period}

structure Place where
  active : Bool
  linked : Prop
  pending : Bool
  queued : Prop

namespace Board

variable {b b' : Board}

def place (b : Board) (t : TimerId) : Place :=
  ⟨(b.timers t).active,t ∈ b.active,(b.timers t).pending,t ∈ b.readyList⟩

structure Listed (b : Board) : Prop where
  active : b.active.Nodup
  ready : b.readyList.Nodup
@[simp] theorem modify_active : (b.modify t f).active = b.active := rfl
@[simp] theorem modify_readyList : (b.modify t f).readyList = b.readyList := rfl

@[simp] theorem modify_same : (b.modify t f).timers t = f (b.timers t) := by simp [modify]
theorem modify_other (other : u ≠ t) : (b.modify t f).timers u = b.timers u := by simp [modify,other]

@[simp] theorem unlink_timers : (b.unlink t).timers = b.timers := rfl
@[simp] theorem unlink_readyList : (b.unlink t).readyList = b.readyList := rfl

@[simp] theorem cancelPending_active : (b.cancelPending polled t).active = b.active := by
  unfold cancelPending; split <;> rfl

@[simp] theorem cancelPending_timers :
    (b.cancelPending polled t).timers = (b.modify t fun x => {x with pending := false}).timers := by
  unfold cancelPending; split <;> rfl

theorem modify_field {α : Type} (g : Timer → α) {f : Timer → Timer} (keeps : g (f (b.timers t)) = g (b.timers t)) (u : TimerId) :
    g ((b.modify t f).timers u) = g (b.timers u) := by
  by_cases own : u = t
  · subst own; simpa using keeps
  · rw [modify_other own]

theorem link_some (linked : b.link t = some b') : t ∉ b.active ∧ b' = {b with active := b.active ++ [t]} := by
  unfold link at linked
  split at linked
  · cases linked
  · rename_i unlinked
    cases linked
    exact ⟨unlinked,rfl⟩

theorem linkReady_some (linked : b.linkReady t = some b') :
    t ∉ b.readyList ∧ b' = {b with readyList := b.readyList ++ [t]} := by
  unfold linkReady at linked
  split at linked
  · cases linked
  · rename_i unlinked
    cases linked
    exact ⟨unlinked,rfl⟩

-- The timer as the arming commands leave it, but for its flag m_pending.
def armed (c : TimerCommand threads) (x : Timer) : Timer :=
  match c.cmd with
  | .activate => {x with deadline := c.timestamp + x.delay,active := true}
  | .start => {x with deadline := c.timestamp + c.delay,delay := c.delay,period := c.period,active := true}
  | _ => {x with deadline := c.timestamp + c.delay,delay := c.delay,period := c.period,active := true,rearming := false}

inductive Executed (b : Board) (polled : Bool) (c : TimerCommand threads) (t : TimerId) (sleep : Int) : Board → Int → Prop where
  | rejected (cmd : c.cmd ≠ .stop ∧ c.cmd ≠ .restart) (unfit : c.cmd ≠ .reset ∨ (b.timers t).active = false ∨ (b.timers t).period = 0)
      (active : c.cmd = .start ∨ c.cmd = .activate ∨ c.cmd = .startOrReset → (b.timers t).active = true)
      (rest : next = sleep ∧ c.cmd ≠ .startOrReset ∨ next = noWait) : Executed b polled c t sleep b next
  | stopped (cmd : c.cmd = .stop) :
      Executed b polled c t sleep (((b.modify t fun x => {x with active := false}).cancelPending polled t).unlink t) sleep
  | armed (free : d = b ∧ (b.timers t).active = false ∧ (c.cmd = .start ∨ c.cmd = .activate ∨ c.cmd = .startOrReset) ∨
        d = b.unlink t ∧ c.cmd = .restart)
      (linked : ((d.modify t (armed c)).cancelPending polled t).link t = some after) : Executed b polled c t sleep after noWait
  | reset (cmd : c.cmd = .reset ∨ c.cmd = .startOrReset) (active : (b.timers t).active = true) (periodic : (b.timers t).period ≠ 0) :
      Executed b polled c t sleep ((b.modify t fun x => {x with deadline := c.timestamp + x.period}).cancelPending polled t) noWait
  | written (cmd : c.cmd = .setPeriod ∧ delay = (b.timers t).delay ∨
        c.cmd = .change ∧ delay = c.delay ∧ (b.timers t).active = false) :
      Executed b polled c t sleep (b.modify t fun x => {x with delay,period := c.period}) sleep

theorem execute_inv {c : TimerCommand threads} (done : b.execute polled c t sleep = some (b',next,r)) :
    Executed b polled c t sleep b' next := by
  have linking : ∀ {d : Board} {f : Timer → Timer},f = armed c → (d = b ∧ (b.timers t).active = false ∧
        (c.cmd = .start ∨ c.cmd = .activate ∨ c.cmd = .startOrReset) ∨ d = b.unlink t ∧ c.cmd = .restart) →
      ((((d.modify t f).cancelPending polled t).link t).bind fun linked => some (linked,noWait,HostResult.ok)) =
        some (b',next,r) → Executed b polled c t sleep b' next := by
    intro d f same free done
    obtain ⟨board,linked,done⟩ := of_bind done
    cases done
    exact .armed free (same ▸ linked)
  cases cmd : c.cmd with
  | shutdown => simp [execute,cmd] at done
  | start | activate =>
    simp only [execute,cmd] at done
    split at done
    · rename_i active
      cases done
      exact .rejected (by simp [cmd]) (by simp [cmd]) (fun _ => active) (.inl ⟨rfl,by simp [cmd]⟩)
    · rename_i inactive
      exact linking (by funext x; simp [armed,cmd]) (.inl ⟨rfl,by simpa using inactive,by simp [cmd]⟩) done
  | stop =>
    simp only [execute,cmd] at done
    cases done
    exact .stopped cmd
  | reset =>
    simp only [execute,cmd] at done
    split at done
    · rename_i fit
      cases done
      exact .reset (.inl cmd) fit.1 fit.2
    · rename_i unfit
      cases done
      refine .rejected (by simp [cmd]) ?_ (by simp [cmd]) (.inl ⟨rfl,by simp [cmd]⟩)
      grind
  | restart =>
    simp only [execute,cmd] at done
    exact linking (by funext x; simp [armed,cmd]) (.inr ⟨rfl,cmd⟩) done
  | startOrReset =>
    simp only [execute,cmd] at done
    split at done
    · rename_i active
      split at done
      · rename_i periodic
        cases done
        exact .reset (.inr cmd) active periodic
      · cases done
        exact .rejected (by simp [cmd]) (by simp [cmd]) (fun _ => active) (.inr rfl)
    · rename_i inactive
      exact linking (by funext x; simp [armed,cmd]) (.inl ⟨rfl,by simpa using inactive,by simp [cmd]⟩) done
  | setPeriod =>
    simp only [execute,cmd] at done
    split at done
    · cases done
      exact .written (.inl ⟨cmd,rfl⟩)
    · cases done
      exact .rejected (by simp [cmd]) (by simp [cmd]) (by simp [cmd]) (.inl ⟨rfl,by simp [cmd]⟩)
  | change =>
    simp only [execute,cmd] at done
    split at done
    · cases done
      exact .rejected (by simp [cmd]) (by simp [cmd]) (by simp [cmd]) (.inl ⟨rfl,by simp [cmd]⟩)
    · rename_i inactive
      cases done
      exact .written (.inr ⟨cmd,rfl,by simpa using inactive⟩)
  | query =>
    simp only [execute,cmd] at done
    cases done
    exact .rejected (by simp [cmd]) (by simp [cmd]) (by simp [cmd]) (.inl ⟨rfl,by simp [cmd]⟩)

inductive Orders (c : TimerCommand threads) (x : Timer) : Timer → Prop where
  | rejected (cmd : c.cmd ≠ .stop ∧ c.cmd ≠ .restart) (active : c.cmd = .startOrReset → x.active = true) : Orders c x x
  | stopped (cmd : c.cmd = .stop) : Orders c x {x with active := false,pending := false}
  | armed (cmd : c.cmd = .restart ∨ x.active = false ∧ (c.cmd = .start ∨ c.cmd = .activate ∨ c.cmd = .startOrReset)) :
      Orders c x {armed c x with pending := false}
  | reset (cmd : c.cmd = .reset ∨ c.cmd = .startOrReset) (active : x.active = true) (periodic : x.period ≠ 0) :
      Orders c x {x with deadline := c.timestamp + x.period,pending := false}
  | written (cmd : c.cmd = .setPeriod ∧ delay = x.delay ∨ c.cmd = .change ∧ delay = c.delay) :
      Orders c x {x with delay,period := c.period}

theorem execute_timers {c : TimerCommand threads} (done : b.execute polled c t sleep = some (b',next,r)) :
    ∃ x,Orders c (b.timers t) x ∧ b'.timers = update b.timers t x := by
  cases execute_inv done with
  | rejected cmd _ active =>
    exact ⟨_,.rejected cmd fun starts => active (.inr (.inr starts)),(update_eq_self _ _).symm⟩
  | stopped cmd => exact ⟨_,.stopped cmd,by simp [modify]⟩
  | @armed d after free linked =>
    have timers : d.timers = b.timers := by rcases free with ⟨rfl,_⟩ | ⟨rfl,_⟩ <;> rfl
    obtain ⟨-,rfl⟩ := link_some linked
    refine ⟨_,.armed (free.symm.imp And.right And.right),?_⟩
    simp [modify,timers]
  | reset cmd active periodic => exact ⟨_,.reset cmd active periodic,by simp [modify]⟩
  | written cmd => exact ⟨_,.written (cmd.imp id fun changed => ⟨changed.1,changed.2.1⟩),by simp [modify]⟩

theorem modify_place_other (other : u ≠ t) : (b.modify t f).place u = b.place u := by simp [place,modify_other other]

theorem unlink_listed (listed : b.Listed) : (b.unlink t).Listed := ⟨listed.active.erase t,listed.ready⟩

theorem unlink_place (listed : b.Listed) (u : TimerId) :
    (b.unlink t).place u = {b.place u with linked := u ≠ t ∧ u ∈ b.active} := by
  simp [place,unlink,listed.active.mem_erase_iff]

theorem cancelPending_listed (listed : b.Listed) (polled : Bool) (t : TimerId) : (b.cancelPending polled t).Listed := by
  unfold cancelPending
  split
  · exact ⟨listed.active,listed.ready⟩
  · exact ⟨listed.active,listed.ready.erase t⟩

theorem cancelPending_place (listed : b.Listed) :
    (b.cancelPending polled t).place t = {b.place t with pending := false,queued := polled = true ∧ t ∈ b.readyList} := by
  unfold cancelPending
  cases polled <;> simp [place,listed.ready.mem_erase_iff]

theorem cancelPending_place_other (other : u ≠ t) : (b.cancelPending polled t).place u = b.place u := by
  unfold cancelPending
  cases polled <;> simp [place,modify_other other,List.mem_erase_of_ne other]

theorem link_listed (listed : b.Listed) (linked : b.link t = some b') : b'.Listed := by
  obtain ⟨fresh,rfl⟩ := link_some linked
  exact ⟨List.nodup_append.mpr ⟨listed.active,List.nodup_singleton t,by
    intro x member y single same
    rw [List.mem_singleton] at single
    exact fresh (single ▸ same ▸ member)⟩,listed.ready⟩

theorem link_place (linked : b.link t = some b') (u : TimerId) :
    b'.place u = {b.place u with linked := u = t ∨ u ∈ b.active} := by
  obtain ⟨fresh,rfl⟩ := link_some linked
  simp [place,or_comm]

theorem linkReady_listed (listed : b.Listed) (linked : b.linkReady t = some b') : b'.Listed := by
  obtain ⟨fresh,rfl⟩ := linkReady_some linked
  exact ⟨listed.active,List.nodup_append.mpr ⟨listed.ready,List.nodup_singleton t,by
    intro x member y single same
    rw [List.mem_singleton] at single
    exact fresh (single ▸ same ▸ member)⟩⟩

theorem linkReady_place (linked : b.linkReady t = some b') (u : TimerId) :
    b'.place u = {b.place u with queued := u = t ∨ u ∈ b.readyList} := by
  obtain ⟨fresh,rfl⟩ := linkReady_some linked
  simp [place,or_comm]

end Board

-- What a command other than CMD_STOP makes of the place of its timer.
inductive Commanded (polled : Bool) (p : Place) : Place → Prop where
  | keep : Commanded polled p p
  | arm : Commanded polled p ⟨true,True,false,polled = true ∧ p.queued⟩
  | cancel : Commanded polled p {p with pending := false,queued := polled = true ∧ p.queued}

inductive Visited (polled : Bool) (p : Place) : Place → Prop where
  | keep : Visited polled p p
  | periodic : polled = false → Visited polled p {p with pending := true,queued := True}
  | oneShot : Visited polled p ⟨false,False,!polled,polled = false ∨ p.queued⟩
  | unlink : p.active = false → Visited polled p {p with linked := False}

namespace Board

variable {b b' : Board}

section

variable (listed : b.Listed)
include listed

theorem armed_place (starts : (f (b.timers t)).active = true)
    (linked : ((b.modify t f).cancelPending polled t).link t = some b') :
    b'.Listed ∧ (∀ u,u ≠ t → b'.place u = b.place u) ∧
      b'.place t = ⟨true,True,false,polled = true ∧ (b.place t).queued⟩ := by
  have same : (b.modify t f).Listed := ⟨listed.active,listed.ready⟩
  refine ⟨link_listed (cancelPending_listed same _ _) linked,fun u other => ?_,?_⟩
  · rw [link_place linked,cancelPending_place_other other,modify_place_other other]
    simp [place,other]
  · rw [link_place linked,cancelPending_place same]
    simp [place,starts]

theorem cancelled_place (polled : Bool) (keeps : (f (b.timers t)).active = (b.timers t).active) :
    ((b.modify t f).cancelPending polled t).Listed ∧
      (∀ u,u ≠ t → ((b.modify t f).cancelPending polled t).place u = b.place u) ∧
      ((b.modify t f).cancelPending polled t).place t = {b.place t with pending := false,queued := polled = true ∧ (b.place t).queued} := by
  have same : (b.modify t f).Listed := ⟨listed.active,listed.ready⟩
  refine ⟨cancelPending_listed same _ _,fun u other => ?_,?_⟩
  · rw [cancelPending_place_other other,modify_place_other other]
  · rw [cancelPending_place same]
    simp [place,keeps]

theorem written_place (active : (f (b.timers t)).active = (b.timers t).active)
    (pending : (f (b.timers t)).pending = (b.timers t).pending) :
    (b.modify t f).Listed ∧ ∀ u,(b.modify t f).place u = b.place u := by
  refine ⟨⟨listed.active,listed.ready⟩,fun u => ?_⟩
  by_cases own : u = t
  · subst own; simp [place,active,pending]
  · exact modify_place_other own

theorem execute_stop {c : TimerCommand threads} (stop : c.cmd = .stop)
    (done : b.execute polled c t sleep = some (b',next,r)) :
    b'.Listed ∧ (∀ u,u ≠ t → b'.place u = b.place u) ∧ b'.place t = ⟨false,False,false,polled = true ∧ (b.place t).queued⟩ := by
  simp only [execute,stop,Option.some.injEq,Prod.mk.injEq] at done
  obtain ⟨rfl,-,-⟩ := done
  have same : (b.modify t fun x => {x with active := false}).Listed := ⟨listed.active,listed.ready⟩
  have cancelled := cancelPending_listed same polled t
  refine ⟨unlink_listed cancelled,fun u other => ?_,?_⟩
  · rw [unlink_place cancelled,cancelPending_place_other other,modify_place_other other]
    simp [place,other]
  · rw [unlink_place cancelled,cancelPending_place same]
    simp [place]

theorem execute_place {c : TimerCommand threads} (other : c.cmd ≠ .stop)
    (done : b.execute polled c t sleep = some (b',next,r)) :
    b'.Listed ∧ (∀ u,u ≠ t → b'.place u = b.place u) ∧ Commanded polled (b.place t) (b'.place t) := by
  have active : ∀ x,(armed c x).active = true := fun x => by unfold armed; split <;> rfl
  cases execute_inv done with
  | rejected => exact ⟨listed,fun _ _ => rfl,.keep⟩
  | stopped cmd => exact absurd cmd other
  | armed free linked =>
    rcases free with ⟨rfl,_⟩ | ⟨rfl,_⟩
    · obtain ⟨listed,others,own⟩ := armed_place listed (active _) linked
      exact ⟨listed,others,own ▸ .arm⟩
    · obtain ⟨after,others,own⟩ := armed_place (unlink_listed (t := t) listed) (active _) linked
      refine ⟨after,fun u apart => ?_,own ▸ ?_⟩
      · rw [others u apart,unlink_place listed]
        simp [place,apart]
      · rw [unlink_place listed]
        exact .arm
  | reset =>
    obtain ⟨listed,others,own⟩ := cancelled_place (f := fun x => {x with deadline := c.timestamp + x.period}) listed polled rfl
    exact ⟨listed,others,own ▸ .cancel⟩
  | @written delay cmd =>
    obtain ⟨listed,same⟩ := written_place (f := fun x => {x with delay,period := c.period}) listed rfl rfl
    exact ⟨listed,fun u _ => same u,same t ▸ .keep⟩

end

inductive Visits (b : Board) (polled : Bool) (now : Int) (t : TimerId) (sleep : Int) : Board → Int → Prop where
  | pending (active : (b.timers t).active = true) (pending : (b.timers t).pending = true) : Visits b polled now t sleep b sleep
  | ahead (active : (b.timers t).active = true) (idle : (b.timers t).pending = false) (ahead : now < (b.timers t).deadline) :
      Visits b polled now t sleep b (nextSleep sleep ((b.timers t).deadline - now))
  | reload (active : (b.timers t).active = true) (idle : (b.timers t).pending = false) (due : (b.timers t).deadline ≤ now)
      (periodic : (b.timers t).period ≠ 0)
      (handed : (b.modify t (Timer.reload now)).handOver polled t = some after) :
      Visits b polled now t sleep after (nextSleep sleep ((after.timers t).deadline - now))
  | oneShot (active : (b.timers t).active = true) (idle : (b.timers t).pending = false) (due : (b.timers t).deadline ≤ now)
      (single : (b.timers t).period = 0)
      (handed : ((b.unlink t).modify t fun x => {x with timestamp := now,pending := true,active := false}).handOver polled t =
        some after) : Visits b polled now t sleep after sleep
  | unlink (inactive : (b.timers t).active = false) : Visits b polled now t sleep (b.unlink t) sleep

theorem visit_inv (visited : b.visit polled now t sleep = some (b',next)) : Visits b polled now t sleep b' next := by
  unfold visit at visited
  dsimp only at visited
  split at visited
  · rename_i active
    split at visited
    · rename_i pending
      cases visited
      exact .pending active pending
    · rename_i idle
      have idle : (b.timers t).pending = false := eq_false_of_ne_true idle
      split at visited
      · rename_i due
        split at visited
        · rename_i periodic
          obtain ⟨handed,hands,visited⟩ := of_bind visited
          cases visited
          refine .reload active idle (by omega) periodic ?_
          have same : (b.timers t).deadline + (b.timers t).period =
            now + (b.timers t).period - (now - (b.timers t).deadline) := by omega
          rw [← hands,modify,modify,Timer.reload,same]
        · rename_i single
          obtain ⟨handed,hands,visited⟩ := of_bind visited
          cases visited
          exact .oneShot active idle (by omega) (not_not.mp single) hands
      · cases visited
        exact .ahead active idle (by omega)
  · rename_i inactive
    cases visited
    exact .unlink (eq_false_of_ne_true inactive)

inductive Meets (polled : Bool) (now : Int) (x : Timer) : Timer → Prop where
  | passed (why : x.active = true → x.pending = true ∨ now < x.deadline) : Meets polled now x x
  | reload (active : x.active = true) (idle : x.pending = false) (due : x.deadline ≤ now) (periodic : x.period ≠ 0) :
      Meets polled now x {x.reload now with pending := !polled}
  | oneShot (active : x.active = true) (idle : x.pending = false) (due : x.deadline ≤ now) (single : x.period = 0) :
      Meets polled now x {x with timestamp := now,pending := !polled,active := false}

theorem handOver_timers {f : Timer → Timer} (expired : (f (b.timers t)).pending = true)
    (handed : (b.modify t f).handOver polled t = some b') :
    b'.timers = update b.timers t {f (b.timers t) with pending := !polled} := by
  unfold handOver at handed
  split at handed
  · rename_i inline_
    cases handed
    simp [modify,inline_]
  · rename_i tasks
    obtain ⟨-,rfl⟩ := linkReady_some handed
    simp [modify,tasks,← expired]

theorem visit_timers (visited : b.visit polled now t sleep = some (b',next)) :
    ∃ x,Meets polled now (b.timers t) x ∧ b'.timers = update b.timers t x := by
  cases visit_inv visited with
  | pending active pending => exact ⟨_,.passed fun _ => .inl pending,(update_eq_self _ _).symm⟩
  | ahead active idle ahead => exact ⟨_,.passed fun _ => .inr ahead,(update_eq_self _ _).symm⟩
  | reload active idle due periodic hands => exact ⟨_,.reload active idle due periodic,handOver_timers rfl hands⟩
  | oneShot active idle due single hands =>
    exact ⟨_,.oneShot active idle due single,handOver_timers (b := b.unlink t) rfl hands⟩
  | unlink inactive =>
    exact ⟨_,.passed fun active => absurd (inactive.symm.trans active) Bool.false_ne_true,(update_eq_self _ _).symm⟩

theorem handOver_place (listed : b.Listed) (handed : b.handOver polled t = some b') :
    b'.Listed ∧ (∀ u,u ≠ t → b'.place u = b.place u) ∧
      b'.place t = {b.place t with pending := !polled && (b.place t).pending,queued := polled = false ∨ (b.place t).queued} := by
  unfold handOver at handed
  split at handed
  · rename_i isPolled
    cases handed
    refine ⟨⟨listed.active,listed.ready⟩,fun u other => modify_place_other other,?_⟩
    simp [place,isPolled]
  · rename_i tasks
    obtain rfl : polled = false := by simpa using tasks
    refine ⟨linkReady_listed listed handed,fun u other => ?_,?_⟩
    · rw [linkReady_place handed]
      simp [place,other]
    · rw [linkReady_place handed]
      simp [place]

theorem visit_place (listed : b.Listed) (visited : b.visit polled now t sleep = some (b',next)) :
    b'.Listed ∧ (∀ u,u ≠ t → b'.place u = b.place u) ∧ Visited polled (b.place t) (b'.place t) := by
  cases visit_inv visited with
  | pending | ahead => exact ⟨listed,fun _ _ => rfl,.keep⟩
  | reload active idle due periodic hands =>
    obtain ⟨after,others,own⟩ := handOver_place (b := b.modify t _) ⟨listed.active,listed.ready⟩ hands
    refine ⟨after,fun u other => (others u other).trans (modify_place_other other),?_⟩
    rw [own]
    cases polled with
    | true =>
      have same : ({b.place t with pending := false} : Place) = b.place t := by simp [place,idle]
      have kept : Visited true (b.place t) {b.place t with pending := false} := same.symm ▸ .keep
      simpa [place,Timer.reload] using kept
    | false => simpa [place,Timer.reload] using (Visited.periodic rfl : Visited false (b.place t) _)
  | oneShot active idle due single hands =>
    have unlinked := unlink_listed (t := t) listed
    obtain ⟨after,others,own⟩ := handOver_place (b := (b.unlink t).modify t _) ⟨unlinked.active,unlinked.ready⟩ hands
    refine ⟨after,fun u other => ?_,?_⟩
    · rw [others u other,modify_place_other other,unlink_place listed]
      simp [place,other]
    · rw [own]
      simpa [place,unlink,listed.active.mem_erase_iff] using (Visited.oneShot : Visited polled (b.place t) _)
  | unlink inactive =>
    refine ⟨unlink_listed listed,fun u other => ?_,?_⟩
    · rw [unlink_place listed]
      simp [place,other]
    · rw [unlink_place listed]
      simpa [place] using (Visited.unlink inactive : Visited polled (b.place t) _)

end Board
end SuperTinyKernel.Time
