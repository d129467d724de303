import Mathlib.Algebra.Order.BigOperators.Group.Finset
import SuperTinyKernel.Sync.MessageQueue

set_option linter.unusedSectionVars false

namespace SuperTinyKernel.FreeRtos

open Monitor SlotRing Transition List

def portMaxDelay : UInt32 := 4294967295

def frtosTimeoutToStk (t : UInt32) : Int :=
  if t = portMaxDelay then waitInfinite else if t = 0 then noWait else castTimeout t.toNat

namespace QueueSet

-- One FrtosQueueSet with the queues and counting semaphores that are or become its members.
-- Handles are values of `M`; `none` is nullptr.

inductive Member where
  | queue (shape : MessageQueue.Shape)
  | semaphore (maxCount : Nat)

def Member.capacity : Member → Nat
  | .queue q => q.capacity
  | .semaphore maxCount => maxCount

structure Config (M : Type) where
  member : M → Member
  length : Nat
  holds : 0 < length

def Config.tokenShape {M : Type} (c : Config M) : MessageQueue.Shape := ⟨c.length,1,c.holds,Nat.one_pos⟩

-- m_mq of the queues, m_sem of the semaphores, whether m_set points to the set, and m_token_mq.
structure State (M β : Type) where
  queues : M → SlotRing β
  counts : M → Nat
  inSet : M → Bool
  tokens : SlotRing (Option M)

-- The consumers do not wait: `receive` is xQueueReceive without ticks to wait or from an ISR,
-- `take` the same for semaphores.
inductive Request (M β : Type) where
  | send (m : M) (item : List β) (ticks : UInt32)
  | sendToFront (m : M) (item : List β) (ticks : UInt32)
  | sendFromISR (m : M) (item : List β)
  | sendToFrontFromISR (m : M) (item : List β)
  | give (m : M)
  | select (ticks : UInt32)
  | selectFromISR
  | receive (m : M) (room : List β)
  | take (m : M)
  | addToSet (m : M)
  deriving DecidableEq,Repr

-- The conditions of the member queues and of the token queue.
inductive Cond (M : Type) where
  | member (m : M) (cond : MessageQueue.Cond)
  | tokens (cond : MessageQueue.Cond)
  deriving DecidableEq,Repr

-- A call waits in Put, PutFront or Get, or it is between its successful put and QueueSetNotify.
inductive Rest (M β : Type) where
  | sending (m : M) (front : Bool) (item : List β) (deadline : Deadline)
  | notifying (m : M)
  | selecting (deadline : Deadline)
  deriving DecidableEq,Repr

inductive Answer (M β : Type) where
  | status (pass : Bool) (data : List β)
  | handle (m : Option M)
  deriving DecidableEq,Repr

inductive Op (M : Type) where
  | put (m : M)
  | posted (m : M)
  | dropped (m : M)
  | selected (m : M)
  | consumed (m : M)
  deriving DecidableEq,Repr

abbrev Sect (M β : Type) := Section (State M β) (Cond M) (Rest M β) (Answer M β) (Op M)
abbrev Office (T M β : Type) := Hall T (Request M β) (State M β) (Cond M) (Rest M β) (Answer M β) (Op M)

variable {T M β : Type} [DecidableEq M]

def pdFail (s : State M β) : Sect M β := {shared := s,ending := .done (.status false [])}

def putting (front : Bool) (item : List β) (deadline : Deadline) : MessageQueue.Rest β :=
  if front then .puttingFront item deadline else .putting item deadline

def sent (s : State M β) (m : M) (rest : Rest M β) (sec : MessageQueue.Sect β) : Sect M β :=
  let base : Sect M β := {pdFail {s with queues := Function.update s.queues m sec.shared} with
    notices := sec.notices.map (Notification.map (.member m))}
  match sec.ending with
  | .wait cond left _ => {base with ending := .wait (.member m cond) left rest}
  | .pause _ => {base with ending := .pause rest}
  | .done a => if a.result = .signal then {base with log := [.put m],ending := .pause (.notifying m)} else base

-- Put and PutFront, from the test of their loop on. A semaphore is no FrtosQueue.
def send (c : Config M) (env : Ambient) (s : State M β) (m : M) (front : Bool) (item : List β) (deadline : Deadline)
    (result : Wakeup) : Option (Sect M β) :=
  match c.member m with
  | .queue q => (MessageQueue.resume q env (s.queues m) (putting front item deadline) result).map
      (sent s m (.sending m front item deadline))
  | .semaphore _ => none

def xQueueSend (c : Config M) (env : Ambient) (s : State M β) (m : M) (front : Bool) (item : List β) (ticks : UInt32) :
    Option (Sect M β) :=
  if env.isr ∧ ticks ≠ 0 then some (pdFail s)
  else send c env s m front item (.of env.now (frtosTimeoutToStk ticks)) .signal

-- TrySignal, as no consumer waits.
def xSemaphoreGive (c : Config M) (s : State M β) (m : M) : Option (Sect M β) :=
  match c.member m with
  | .queue _ => none
  | .semaphore maxCount =>
    if s.counts m < maxCount then
      some {shared := {s with counts := Function.update s.counts m (s.counts m + 1)},log := [.put m],
            ending := .pause (.notifying m)}
    else some (pdFail s)

-- The result of TryPut is not looked at.
def queueSetNotify (c : Config M) (env : Ambient) (s : State M β) (m : M) : Option (Sect M β) :=
  if s.inSet m then
    (MessageQueue.enter c.tokenShape env s.tokens (.put [some m] noWait)).bind fun sec =>
      match sec.ending with
      | .done a => some {shared := {s with tokens := sec.shared},notices := sec.notices.map (Notification.map .tokens),
                         log := [if a.result = .signal then .posted m else .dropped m],ending := .done (.status true [])}
      | _ => none
  else some {shared := s,ending := .done (.status true [])}

def select (c : Config M) (env : Ambient) (s : State M β) (deadline : Deadline) (result : Wakeup) : Option (Sect M β) :=
  (MessageQueue.resume c.tokenShape env s.tokens (.getting [none] deadline) result).map fun sec =>
    let base : Sect M β := {shared := {s with tokens := sec.shared},notices := sec.notices.map (Notification.map .tokens),
                            ending := .done (.handle none)}
    match sec.ending with
    | .wait cond left _ => {base with ending := .wait (.tokens cond) left (.selecting deadline)}
    | .pause _ => {base with ending := .pause (.selecting deadline)}
    | .done a =>
      if a.result = .signal then
        {base with log := ((a.data.headD none).map Op.selected).toList,ending := .done (.handle (a.data.headD none))}
      else base

def xQueueSelectFromSet (c : Config M) (env : Ambient) (s : State M β) (ticks : UInt32) : Option (Sect M β) :=
  if env.isr ∧ ticks ≠ 0 then some {shared := s,ending := .done (.handle none)}
  else select c env s (.of env.now (frtosTimeoutToStk ticks)) .signal

def taken (s : State M β) (m : M) : List (Op M) := if s.inSet m then [.consumed m] else []

def xQueueReceive (c : Config M) (env : Ambient) (s : State M β) (m : M) (room : List β) : Option (Sect M β) :=
  match c.member m with
  | .queue q => (MessageQueue.enter q env (s.queues m) (.get room noWait)).bind fun sec =>
    match sec.ending with
    | .done a => some {shared := {s with queues := Function.update s.queues m sec.shared},
                       notices := sec.notices.map (Notification.map (.member m)),
                       log := if a.result = .signal then taken s m else [],
                       ending := .done (.status (decide (a.result = .signal)) a.data)}
    | _ => none
  | .semaphore _ => none

def xSemaphoreTake (c : Config M) (s : State M β) (m : M) : Option (Sect M β) :=
  match c.member m with
  | .queue _ => none
  | .semaphore _ =>
    if s.counts m ≠ 0 then
      some {shared := {s with counts := Function.update s.counts m (s.counts m - 1)},log := taken s m,
            ending := .done (.status true [])}
    else some (pdFail s)

def items (c : Config M) (s : State M β) (m : M) : Nat :=
  match c.member m with
  | .queue _ => (s.queues m).count
  | .semaphore _ => s.counts m

def xQueueAddToSet (c : Config M) (s : State M β) (m : M) : Sect M β :=
  if s.inSet m then pdFail s
  else if items c s m ≠ 0 then pdFail s
  else {shared := {s with inSet := Function.update s.inSet m true},ending := .done (.status true [])}

def enter (c : Config M) (env : Ambient) (s : State M β) : Request M β → Option (Sect M β)
  | .send m item ticks => xQueueSend c env s m false item ticks
  | .sendToFront m item ticks => xQueueSend c env s m true item ticks
  | .sendFromISR m item => send c env s m false item (.of env.now noWait) .signal
  | .sendToFrontFromISR m item => send c env s m true item (.of env.now noWait) .signal
  | .give m => xSemaphoreGive c s m
  | .select ticks => xQueueSelectFromSet c env s ticks
  | .selectFromISR => select c env s (.of env.now noWait) .signal
  | .receive m room => xQueueReceive c env s m room
  | .take m => xSemaphoreTake c s m
  | .addToSet m => some (xQueueAddToSet c s m)

def resume (c : Config M) (env : Ambient) (s : State M β) : Rest M β → Wakeup → Option (Sect M β)
  | .sending m front item deadline,result => send c env s m front item deadline result
  | .notifying m,_ => queueSetNotify c env s m
  | .selecting deadline,result => select c env s deadline result

def program (c : Config M) : Program (Request M β) (State M β) (Cond M) (Rest M β) (Answer M β) (Op M) := ⟨enter c,resume c⟩

def Sound (c : Config M) (s : State M β) (m : M) : Prop :=
  match c.member m with
  | .queue q => Valid q.capacity q.size (s.queues m)
  | .semaphore maxCount => s.counts m ≤ maxCount

structure Fresh (c : Config M) (s : State M β) : Prop where
  sound : ∀ m,Sound c s m
  alone : ∀ m,s.inSet m = false
  tokens : Valid c.length 1 s.tokens
  empty : s.tokens.count = 0

def initial (now : Int) (s : State M β) : Office T M β := {now := now,shared := s}

variable [DecidableEq T] {c : Config M} {h h' : Office T M β} {s s' : State M β} {sec : Sect M β}

def naming (c : Config M) (s : State M β) (m : M) : Nat := (s.tokens.contents c.length 1).count [some m]

def Rest.posts : Rest M β → Option M
  | .notifying m => some m
  | .sending _ _ _ _ | .selecting _ => none

def posting (h : Office T M β) (m : M) : Nat := h.paused.countP fun p => decide (p.rest.posts = some m)

def seen (log : List (T × Op M)) (o : Op M) : Nat := log.countP fun x => decide (x.2 = o)

def unconsumed (log : List (T × Op M)) (m : M) : Nat := seen log (.selected m) - seen log (.consumed m)

def Rest.uses (m : M) : Rest M β → Bool
  | .sending k _ _ _ | .notifying k => decide (k = m)
  | .selecting _ => false

-- From a member something is taken only after a selection has returned it, and a member is
-- idle when it is added.
def Respects (h : Office T M β) : Happening T (Request M β) → Prop
  | .call _ (.receive m _) _ _ | .call _ (.take m) _ _ => h.shared.inSet m = true → 0 < unconsumed h.log m
  | .call _ (.addToSet m) _ _ => ∀ x ∈ h.inside,x.2.uses m = false
  | _ => True

instance (h : Office T M β) : (e : Happening T (Request M β)) → Decidable (Respects h e)
  | .call _ (.receive m _) _ _ | .call _ (.take m) _ _ =>
    inferInstanceAs (Decidable (h.shared.inSet m = true → 0 < unconsumed h.log m))
  | .call _ (.addToSet m) _ _ => inferInstanceAs (Decidable (∀ x ∈ h.inside,x.2.uses m = false))
  | .call _ (.send _ _ _) _ _ | .call _ (.sendToFront _ _ _) _ _ | .call _ (.sendFromISR _ _) _ _
  | .call _ (.sendToFrontFromISR _ _) _ _ | .call _ (.give _) _ _ | .call _ (.select _) _ _ | .call _ .selectFromISR _ _
  | .run _ _ | .proceed _ _ | .tick | .cancel _ => inferInstanceAs (Decidable True)

theorem Sound.items_le (sound : Sound c s m) : items c s m ≤ (c.member m).capacity := by
  unfold Sound at sound
  unfold items
  cases at_ : c.member m with
  | queue q => rw [at_] at sound; exact sound.count
  | semaphore maxCount => rw [at_] at sound; exact sound

inductive Action (M : Type) where
  | other
  | notifying (m : M)
  | consuming (m : M)
  | adding (m : M)

def Request.action : Request M β → Action M
  | .receive m _ | .take m => .consuming m
  | .addToSet m => .adding m
  | _ => .other

def Rest.action : Rest M β → Action M
  | .notifying m => .notifying m
  | .sending _ _ _ _ | .selecting _ => .other

structure Changed (c : Config M) (s s' : State M β) (m : M) (n : Nat) : Prop where
  sound : Sound c s' m
  items : items c s' m = n
  queues : ∀ k,k ≠ m → s'.queues k = s.queues k
  counts : ∀ k,k ≠ m → s'.counts k = s.counts k
  inSet : s'.inSet = s.inSet
  tokens : s'.tokens = s.tokens

inductive Calm : Exit (Cond M) (Rest M β) (Answer M β) → Prop where
  | waits : rest.posts = none → Calm (.wait q left rest)
  | ends : (∀ m,a ≠ .handle (some m)) → Calm (.done a)

-- A call waits for a put or a selection, and leaves the monitor only to post.
inductive At (c : Config M) (s : State M β) : Monitor.Place (Cond M) (Rest M β) (Answer M β) → Prop where
  | waiting : rest.posts = none → At c s (.waiting q left rest)
  | due : rest.posts = none → At c s (.due q result rest)
  | paused : At c s (.paused (.notifying m))
  | returned : (∀ m,a = .handle (some m) → 0 < items c s m) → At c s (.returned a)

theorem Calm.at_ (calm : Calm ending) : At c s ending.place := by
  cases calm with
  | waits posts => exact .waiting posts
  | ends nothing => exact .returned fun m handed => absurd handed (nothing m)

inductive Effect (c : Config M) (s : State M β) (sec : Sect M β) : Action M → Prop where
  | still : sec.shared = s → sec.log = [] → Calm sec.ending → (∀ m,a = .notifying m → s.inSet m = false) → Effect c s sec a
  | puts : Changed c s sec.shared m (items c s m + 1) → sec.log = [.put m] → sec.ending = .pause (.notifying m) →
      Effect c s sec .other
  | takes : 0 < items c s m → Changed c s sec.shared m (items c s m - 1) → sec.log = taken s m →
      sec.ending = .done (.status ok data) → Effect c s sec (.consuming m)
  | posts : s.inSet m = true → sec.shared = {s with tokens := ring} → Valid c.length 1 ring →
      ring.contents c.length 1 = s.tokens.contents c.length 1 ++ [[some m]] → sec.log = [.posted m] →
      sec.ending = .done (.status true []) → Effect c s sec (.notifying m)
  | drops : s.inSet m = true → s.tokens.count = c.length → sec.ending = .done (.status true []) →
      Effect c s sec (.notifying m)
  | selects (msg : List (Option M)) : sec.shared = {s with tokens := ring} → Valid c.length 1 ring →
      s.tokens.contents c.length 1 = msg.take 1 :: ring.contents c.length 1 →
      sec.log = ((msg.headD none).map Op.selected).toList → sec.ending = .done (.handle (msg.headD none)) → Effect c s sec .other
  | adds : s.inSet m = false → items c s m = 0 → sec.shared = {s with inSet := Function.update s.inSet m true} →
      sec.log = [] → sec.ending = .done (.status true []) → Effect c s sec (.adding m)

theorem pdFail_still (calm : ∀ m,a ≠ .notifying m) : Effect c s (pdFail s) a :=
  .still rfl rfl (.ends nofun) fun m same => absurd same (calm m)

theorem changed_queue (at_ : c.member m = .queue q) (valid : Valid q.capacity q.size ring) :
    Changed c s {s with queues := Function.update s.queues m ring} m ring.count := by
  refine ⟨?_,?_,?_,fun _ _ => rfl,rfl,rfl⟩
  · simp only [Sound,at_,Function.update_self]
    exact valid
  · simp only [items,at_,Function.update_self]
  · intro k other
    exact Function.update_of_ne other _ _

theorem changed_semaphore (at_ : c.member m = .semaphore maxCount) (few : n ≤ maxCount) :
    Changed c s {s with counts := Function.update s.counts m n} m n := by
  refine ⟨?_,?_,fun _ _ => rfl,?_,rfl,rfl⟩
  · simp only [Sound,at_,Function.update_self]
    exact few
  · simp only [items,at_,Function.update_self]
  · intro k other
    exact Function.update_of_ne other _ _

theorem putting_goes {q : MessageQueue.Shape} {ring : SlotRing β} {sec : MessageQueue.Sect β}
    (valid : Valid q.capacity q.size ring) (free : (putting front item deadline).blocked q ring = false)
    (goes : (putting front item deadline).go q ring = some sec) :
    Valid q.capacity q.size sec.shared ∧ sec.shared.count = ring.count + 1 ∧ sec.ending = .done ⟨.signal,[]⟩ := by
  cases front with
  | false =>
    have less : ring.count < q.capacity := Nat.lt_of_le_of_ne valid.count (of_decide_eq_false free)
    obtain ⟨kept,contents,ended⟩ := MessageQueue.enqueued valid less goes
    refine ⟨kept,?_,ended⟩
    simpa using congrArg List.length contents
  | true =>
    have less : ring.count < q.capacity := Nat.lt_of_le_of_ne valid.count (of_decide_eq_false free)
    obtain ⟨kept,contents,ended⟩ := MessageQueue.enqueuedFront valid less goes
    refine ⟨kept,?_,ended⟩
    simpa using congrArg List.length contents

theorem send_effect (sound : Sound c s m) (taken : send c env s m front item deadline result = some sec) :
    Effect c s sec .other := by
  unfold send at taken
  split at taken
  · rename_i q at_
    have valid : Valid q.capacity q.size (s.queues m) := by simpa only [Sound,at_] using sound
    obtain ⟨inner,resumed,rfl⟩ := of_map taken
    cases MessageQueue.resume_inv resumed with
    | goes free goes =>
      obtain ⟨kept,more,ended⟩ := putting_goes valid free goes
      have changed := changed_queue (s := s) at_ kept
      have before : items c s m = (s.queues m).count := by simp only [items,at_]
      rw [more,← before] at changed
      simp only [sent,ended,if_true]
      exact .puts changed rfl rfl
    | waits same =>
      rw [same]
      simp only [sent,Function.update_eq_self]
      exact .still rfl rfl (.waits rfl) nofun
    | fails other same =>
      rw [same]
      simp only [sent,Function.update_eq_self,if_neg other]
      exact .still rfl rfl (.ends nofun) nofun
  · cases taken

theorem give_effect (taken : xSemaphoreGive c s m = some sec) : Effect c s sec .other := by
  unfold xSemaphoreGive at taken
  split at taken
  · cases taken
  · rename_i maxCount at_
    have before : items c s m = s.counts m := by simp only [items,at_]
    split at taken
    · rename_i less
      cases taken
      refine .puts (m := m) ?_ rfl rfl
      rw [before]
      exact changed_semaphore at_ less
    · cases taken
      exact pdFail_still nofun

theorem select_effect (valid : Valid c.length 1 s.tokens) (taken : select c env s deadline result = some sec) :
    Effect c s sec .other := by
  obtain ⟨inner,resumed,rfl⟩ := of_map taken
  cases MessageQueue.resume_inv resumed with
  | goes free goes =>
    have more : 0 < s.tokens.count := Nat.pos_of_ne_zero (of_decide_eq_false free)
    obtain ⟨kept,msg,contents,ended⟩ := MessageQueue.dequeued (q := c.tokenShape) valid more goes
    simp only [ended,if_true]
    exact .selects msg rfl kept contents rfl rfl
  | waits same =>
    rw [same]
    exact .still rfl rfl (.waits rfl) nofun
  | fails other same =>
    rw [same]
    simp only [if_neg other]
    exact .still rfl rfl (.ends nofun) nofun

theorem notify_effect (valid : Valid c.length 1 s.tokens) (taken : queueSetNotify c env s m = some sec) :
    Effect c s sec (.notifying m) := by
  unfold queueSetNotify at taken
  split at taken
  · rename_i inside
    obtain ⟨inner,entered,taken⟩ := of_bind taken
    rw [MessageQueue.enter_start _ _ _ rfl,MessageQueue.resume_signal] at entered
    cases waitWhile_inv entered with
    | goes free goes =>
      have less : s.tokens.count < c.length := Nat.lt_of_le_of_ne valid.count (of_decide_eq_false free)
      obtain ⟨kept,contents,ended⟩ := MessageQueue.enqueued (q := c.tokenShape) valid less goes
      rw [ended] at taken
      cases taken
      exact .posts inside rfl kept contents rfl rfl
    | fails result blocked _ failed =>
      cases failed
      cases taken
      exact .drops inside (of_decide_eq_true blocked) rfl
    | waits remaining _ _ _ same =>
      rw [same] at taken
      cases taken
  · rename_i outside
    cases taken
    refine .still rfl rfl (.ends nofun) ?_
    intro k same
    cases same
    exact eq_false_of_ne_true outside

theorem receive_effect (sound : Sound c s m) (taken : xQueueReceive c env s m room = some sec) :
    Effect c s sec (.consuming m) := by
  unfold xQueueReceive at taken
  split at taken
  · rename_i q at_
    have valid : Valid q.capacity q.size (s.queues m) := by simpa only [Sound,at_] using sound
    have before : items c s m = (s.queues m).count := by simp only [items,at_]
    obtain ⟨inner,entered,taken⟩ := of_bind taken
    rw [MessageQueue.enter_start _ _ _ rfl] at entered
    cases MessageQueue.resume_inv entered with
    | goes free goes =>
      have more : 0 < (s.queues m).count := Nat.pos_of_ne_zero (of_decide_eq_false free)
      obtain ⟨kept,msg,contents,ended⟩ := MessageQueue.dequeued valid more goes
      have less : inner.shared.count = items c s m - 1 := by
        have length := congrArg List.length contents
        simp only [contents_length,length_cons] at length
        omega
      have changed := changed_queue (s := s) at_ kept
      rw [less] at changed
      rw [ended] at taken
      cases taken
      exact .takes (before ▸ more) changed rfl rfl
    | waits same =>
      rw [same] at taken
      cases taken
    | fails other same =>
      rw [same] at taken
      cases taken
      refine .still ?_ (if_neg other) (.ends nofun) nofun
      simp only [Function.update_eq_self]
  · cases taken

theorem take_effect (sound : Sound c s m) (given : xSemaphoreTake c s m = some sec) : Effect c s sec (.consuming m) := by
  unfold xSemaphoreTake at given
  split at given
  · cases given
  · rename_i maxCount at_
    have few : s.counts m ≤ maxCount := by simpa only [Sound,at_] using sound
    have before : items c s m = s.counts m := by simp only [items,at_]
    split at given
    · rename_i more
      cases given
      refine .takes (by omega) ?_ rfl rfl
      rw [before]
      exact changed_semaphore at_ (by omega)
    · cases given
      exact pdFail_still nofun

theorem add_effect : Effect c s (xQueueAddToSet c s m) (.adding m) := by
  unfold xQueueAddToSet
  split
  · exact pdFail_still nofun
  · rename_i outside
    split
    · exact pdFail_still nofun
    · rename_i empty
      exact .adds (eq_false_of_ne_true outside) (not_not.mp empty) rfl rfl rfl

theorem enter_effect (sound : ∀ m,Sound c s m) (valid : Valid c.length 1 s.tokens) (entered : enter c env s r = some sec) :
    Effect c s sec r.action := by
  have sends : ∀ {m front item ticks},xQueueSend c env s m front item ticks = some sec → Effect c s sec .other := by
    intro m front item ticks entered
    unfold xQueueSend at entered
    split at entered
    · cases entered
      exact pdFail_still nofun
    · exact send_effect (sound m) entered
  cases r with
  | send m item ticks | sendToFront m item ticks => exact sends entered
  | sendFromISR m item | sendToFrontFromISR m item => exact send_effect (sound m) entered
  | give m => exact give_effect entered
  | select ticks =>
    have entered : xQueueSelectFromSet c env s ticks = some sec := entered
    unfold xQueueSelectFromSet at entered
    split at entered
    · cases entered
      exact .still rfl rfl (.ends nofun) nofun
    · exact select_effect valid entered
  | selectFromISR => exact select_effect valid entered
  | receive m room => exact receive_effect (sound m) entered
  | take m => exact take_effect (sound m) entered
  | addToSet m =>
    cases entered
    exact add_effect

theorem resume_effect (sound : ∀ m,Sound c s m) (valid : Valid c.length 1 s.tokens)
    (resumed : resume c env s rest result = some sec) : Effect c s sec rest.action := by
  cases rest with
  | sending m front item deadline => exact send_effect (sound m) resumed
  | notifying m => exact notify_effect valid resumed
  | selecting deadline => exact select_effect valid resumed

-- The books of the set: `sends` are the sends that have put and not yet posted.
structure Accounts (c : Config M) (s : State M β) (sends selected consumed : M → Nat) : Prop where
  sound : ∀ m,Sound c s m
  tokens : Valid c.length 1 s.tokens
  names : ∃ names : List M,s.tokens.contents c.length 1 = names.map fun m => [some m]
  members : ∀ m,s.inSet m = true → naming c s m + sends m + selected m = items c s m + consumed m
  others : ∀ m,s.inSet m = false → naming c s m = 0 ∧ selected m = consumed m
  paid : ∀ m,consumed m ≤ selected m

variable {sends selected consumed : M → Nat}

-- Every token stands for an item of its own, so there is room for the token of each send that
-- has put.
theorem Accounts.room [Fintype M] (books : Accounts c s sends selected consumed)
    (enough : ∑ m,(c.member m).capacity ≤ c.length) (inside : s.inSet m = true) (owed : 0 < sends m) :
    s.tokens.count < c.length := by
  obtain ⟨names,contents⟩ := books.names
  have named : ∀ k,names.count k = naming c s k := by
    intro k
    rw [naming,contents]
    exact (count_map_of_injective names (fun m => [some m]) (fun a b same => by simpa using same) k).symm
  have total : ∑ k,names.count k = s.tokens.count := by
    have length : names.length = s.tokens.count := by simpa using (congrArg List.length contents).symm
    rw [← length,← Multiset.coe_card,← Multiset.sum_count_eq_card (s := Finset.univ) fun a _ => Finset.mem_univ a]
    simp only [Multiset.coe_count]
  have bound : ∀ k,names.count k ≤ (c.member k).capacity := by
    intro k
    rw [named k]
    cases at_ : s.inSet k with
    | true =>
      have balance := books.members k at_
      have paid := books.paid k
      have fits := (books.sound k).items_le
      omega
    | false => rw [(books.others k at_).1]; exact Nat.zero_le _
  have strict : names.count m < (c.member m).capacity := by
    have balance := books.members m inside
    have paid := books.paid m
    have fits := (books.sound m).items_le
    rw [named m]
    omega
  calc s.tokens.count
      = ∑ k,names.count k := total.symm
    _ < ∑ k,(c.member k).capacity := Finset.sum_lt_sum (fun k _ => bound k) ⟨m,Finset.mem_univ m,strict⟩
    _ ≤ c.length := enough

def Action.proper (s : State M β) (sends selected consumed : M → Nat) : Action M → Prop
  | .other => True
  | .notifying m => 0 < sends m
  | .consuming m => s.inSet m = true → consumed m < selected m
  | .adding m => sends m = 0

def Action.releases (m : M) : Action M → Nat
  | .notifying k => if k = m then 1 else 0
  | _ => 0

def pauses (m : M) : Exit (Cond M) (Rest M β) (Answer M β) → Nat
  | .pause rest => (decide (rest.posts = some m)).toNat
  | _ => 0

theorem Changed.others (changed : Changed c s s' m n) (other : k ≠ m) : QueueSet.items c s' k = QueueSet.items c s k := by
  unfold QueueSet.items
  rw [changed.queues k other,changed.counts k other]

theorem Changed.all_sound (changed : Changed c s s' m n) (sound : ∀ k,Sound c s k) : ∀ k,Sound c s' k := by
  intro k
  by_cases at_ : k = m
  · rw [at_]
    exact changed.sound
  · have before := sound k
    unfold Sound at before ⊢
    rwa [changed.queues k at_,changed.counts k at_]

theorem Changed.naming (changed : Changed c s s' m n) (k : M) : QueueSet.naming c s' k = QueueSet.naming c s k := by
  unfold QueueSet.naming
  rw [changed.tokens]

section

variable (books : Accounts c s sends selected consumed)
include books

theorem Accounts.changed (changed : Changed c s s' m n)
    {sends' consumed' : M → Nat} (balance : s.inSet m = true → naming c s m + sends' m + selected m = n + consumed' m)
    (outside : s.inSet m = false → consumed' m = consumed m) (paid : consumed' m ≤ selected m)
    (others : ∀ k,k ≠ m → sends' k = sends k ∧ consumed' k = consumed k) : Accounts c s' sends' selected consumed' := by
  refine ⟨changed.all_sound books.sound,?_,?_,?_,?_,?_⟩
  · rw [changed.tokens]
    exact books.tokens
  · rw [changed.tokens]
    exact books.names
  · intro k inside
    rw [changed.inSet] at inside
    rw [changed.naming]
    by_cases at_ : k = m
    · rw [at_,changed.items]
      exact balance (at_ ▸ inside)
    · rw [changed.others at_,(others k at_).1,(others k at_).2]
      exact books.members k inside
  · intro k out
    rw [changed.inSet] at out
    rw [changed.naming]
    refine ⟨(books.others k out).1,?_⟩
    rw [(books.others k out).2]
    by_cases at_ : k = m
    · rw [at_]
      exact (outside (at_ ▸ out)).symm
    · exact (others k at_).2.symm
  · intro k
    by_cases at_ : k = m
    · rw [at_]
      exact paid
    · rw [(others k at_).2]
      exact books.paid k

theorem Accounts.exchanged (inside : s.inSet m = true)
    (valid : Valid c.length 1 ring) (names : ∃ names : List M,ring.contents c.length 1 = names.map fun m => [some m])
    {sends' selected' : M → Nat}
    (here : (ring.contents c.length 1).count [some m] + sends' m + selected' m = naming c s m + sends m + selected m)
    (more : selected m ≤ selected' m)
    (others : ∀ k,k ≠ m → (ring.contents c.length 1).count [some k] = naming c s k ∧ sends' k = sends k ∧
      selected' k = selected k) : Accounts c {s with tokens := ring} sends' selected' consumed := by
  refine ⟨books.sound,valid,names,?_,?_,?_⟩
  · intro k inside
    show (ring.contents c.length 1).count [some k] + sends' k + selected' k = items c s k + consumed k
    rw [← books.members k inside]
    by_cases at_ : k = m
    · rw [at_]
      exact here
    · obtain ⟨tokens,sends,selected⟩ := others k at_
      rw [tokens,sends,selected]
  · intro k out
    have at_ : k ≠ m := by
      intro same
      rw [same,inside] at out
      cases out
    obtain ⟨tokens,_,selected⟩ := others k at_
    show (ring.contents c.length 1).count [some k] = 0 ∧ selected' k = consumed k
    rw [tokens,selected]
    exact books.others k out
  · intro k
    have paid := books.paid k
    by_cases at_ : k = m
    · rw [at_] at paid ⊢
      exact paid.trans more
    · rwa [(others k at_).2.2]

theorem Accounts.handed (valid : Valid c.length 1 ring)
    (contents : s.tokens.contents c.length 1 = List.take 1 msg :: ring.contents c.length 1) :
    ∃ m,msg.headD none = some m ∧ s.inSet m = true ∧
      Accounts c {s with tokens := ring} sends (fun k => selected k + [Op.selected m].count (.selected k)) consumed := by
  obtain ⟨names,before⟩ := books.names
  cases names with
  | nil => rw [before] at contents; cases contents
  | cons m names =>
    rw [before,map_cons,List.cons.injEq] at contents
    obtain ⟨first,rest⟩ := contents
    have token : msg.headD none = some m := by
      cases msg with
      | nil => cases first
      | cons x msg => exact (List.cons.inj first).1.symm
    have named : ∀ k,naming c s k = (ring.contents c.length 1).count [some k] + if m = k then 1 else 0 := by
      intro k
      rw [naming,before,map_cons,← rest,count_cons]
      simp
    have inside : s.inSet m = true := by
      refine eq_true_of_ne_false fun out => ?_
      have none := (books.others m out).1
      rw [named m,if_pos rfl] at none
      omega
    refine ⟨m,token,inside,books.exchanged inside valid ⟨names,rest.symm⟩ ?_ (by simp) ?_⟩
    · rw [named m,if_pos rfl]
      simp
      omega
    · intro k other
      rw [named k,if_neg (Ne.symm other)]
      simp [Ne.symm other]

theorem Accounts.added (outside : s.inSet m = false)
    (empty : items c s m = 0) (idle : sends m = 0) :
    Accounts c {s with inSet := Function.update s.inSet m true} sends selected consumed := by
  refine ⟨books.sound,books.tokens,books.names,?_,?_,books.paid⟩
  · intro k (inside : Function.update s.inSet m true k = true)
    show naming c s k + sends k + selected k = items c s k + consumed k
    by_cases at_ : k = m
    · obtain ⟨unnamed,paid⟩ := books.others m outside
      rw [at_,unnamed,idle,empty,paid]
    · refine books.members k ?_
      rwa [Function.update_of_ne at_] at inside
  · intro k (out : Function.update s.inSet m true k = false)
    by_cases at_ : k = m
    · rw [at_,Function.update_self] at out
      cases out
    · refine books.others k ?_
      rwa [Function.update_of_ne at_] at out

end

theorem pauses_notifying (m k : M) : pauses (β := β) k (.pause (.notifying m)) = if m = k then 1 else 0 := by
  by_cases at_ : m = k <;> simp [pauses,Rest.posts,at_]

theorem Accounts.effect [Fintype M] (books : Accounts c s sends selected consumed) (effect : Effect c s sec a)
    (enough : ∑ m,(c.member m).capacity ≤ c.length) (proper : a.proper s sends selected consumed) :
    Accounts c sec.shared (fun m => sends m - a.releases m + pauses m sec.ending)
        (fun m => selected m + sec.log.count (.selected m)) (fun m => consumed m + sec.log.count (.consumed m)) ∧
      (∀ m,.dropped m ∉ sec.log) ∧ At c sec.shared sec.ending.place := by
  cases effect with
  | still same quiet calm unnamed =>
    have unpaused : ∀ m,pauses m sec.ending = 0 := by
      intro m
      generalize sec.ending = ending at calm
      cases calm <;> rfl
    rw [same,quiet]
    refine ⟨⟨books.sound,books.tokens,books.names,?_,books.others,books.paid⟩,by simp,calm.at_⟩
    intro m inside
    have kept : a.releases m = 0 := by
      cases a with
      | notifying k =>
        refine if_neg fun at_ => ?_
        rw [← at_,unnamed k rfl] at inside
        cases inside
      | other | consuming | adding => rfl
    simp only [unpaused,kept,count_nil]
    exact books.members m inside
  | @puts m changed seen ends =>
    rw [seen,ends]
    refine ⟨?_,by simp,.paused⟩
    simp only [pauses_notifying,Action.releases]
    refine books.changed changed ?_ (fun _ => by simp) (by simpa using books.paid m) ?_
    · intro inside
      have balance := books.members m inside
      simp
      omega
    · intro k other
      simp [Ne.symm other]
  | @takes m ok data some changed seen ends =>
    rw [seen,ends]
    refine ⟨?_,by unfold taken; split <;> simp,.returned nofun⟩
    simp only [pauses,Action.releases]
    have unselected : ∀ k,(taken s m).count (.selected k) = 0 := by
      intro k
      unfold taken
      split <;> simp
    simp only [unselected]
    refine books.changed changed ?_ ?_ ?_ ?_
    · intro inside
      have balance := books.members m inside
      simp only [taken,inside]
      simp
      omega
    · intro outside
      simp [taken,outside]
    · cases inside : s.inSet m with
      | true =>
        have less : consumed m < selected m := proper inside
        simpa [taken,inside] using Nat.succ_le_of_lt less
      | false => simpa [taken,inside] using books.paid m
    · intro k other
      refine ⟨rfl,?_⟩
      unfold taken
      split <;> simp [Ne.symm other]
  | @posts m ring inside same valid contents seen ends =>
    have owed : 0 < sends m := proper
    rw [same,seen,ends]
    refine ⟨?_,by simp,.returned nofun⟩
    simp only [pauses,Action.releases]
    obtain ⟨names,before⟩ := books.names
    refine books.exchanged inside valid ⟨names ++ [m],by rw [contents,before,map_append]; rfl⟩ ?_ (by simp) ?_
    · rw [contents,count_append]
      simp [naming]
      omega
    · intro k other
      rw [contents,count_append]
      simp [naming,Ne.symm other]
  | @drops m inside full => exact absurd full (Nat.ne_of_lt (books.room enough inside proper))
  | @selects ring msg same valid contents seen ends =>
    obtain ⟨m,token,inside,after⟩ := books.handed valid contents
    rw [same,seen,ends,token]
    refine ⟨?_,by simp,.returned ?_⟩
    · simpa [pauses,Action.releases] using after
    · intro k handed
      cases handed
      have balance := after.members m inside
      have paid := books.paid m
      simp only [count_singleton_self] at balance
      omega
  | @adds m outside empty same quiet ends =>
    rw [same,quiet,ends]
    refine ⟨?_,by simp,.returned nofun⟩
    simpa [pauses,Action.releases] using books.added outside empty proper

structure Kept (c : Config M) (h : Office T M β) : Prop where
  books : Accounts c h.shared (posting h) (fun m => seen h.log (.selected m)) fun m => seen h.log (.consumed m)
  calls : Hall.Everywhere (fun _ => At c h.shared) h
  kept : ∀ t m,(t,.dropped m) ∉ h.log

theorem seen_append (log : List (T × Op M)) (t : T) (ops : List (Op M)) (o : Op M) :
    seen (log ++ ops.map fun o => (t,o)) o = seen log o + ops.count o := by
  unfold seen
  rw [countP_append,countP_map,count_eq_countP]
  rfl

theorem At.woken (waits : At c s (.waiting q left rest)) : At c s' (.due q result rest) := by
  cases waits with
  | waiting posts => exact .due posts

variable [Fintype M]

theorem Kept.perform (call : Visit T (Request M β) (Op M)) (effect : Effect c h.shared sec a)
    (books : Accounts c h.shared (fun m => posting h m + a.releases m) (fun m => seen h.log (.selected m))
      fun m => seen h.log (.consumed m))
    (calls : Hall.Inside (fun _ => At c h.shared) h) (kept : ∀ t m,(t,.dropped m) ∉ h.log)
    (enough : ∑ m,(c.member m).capacity ≤ c.length)
    (proper : a.proper h.shared (fun m => posting h m + a.releases m) (fun m => seen h.log (.selected m))
      fun m => seen h.log (.consumed m)) : Kept c (h.perform call sec) := by
  obtain ⟨after,undropped,leaves⟩ := books.effect effect enough proper
  refine ⟨?_,?_,?_⟩
  · have sends : posting (h.perform call sec) = fun m => posting h m + a.releases m - a.releases m + pauses m sec.ending := by
      funext m
      rw [Nat.add_sub_cancel]
      exact (h.perform_countP call sec fun rest => decide (rest.posts = some m)).trans (by cases sec.ending <;> rfl)
    rw [Hall.perform_shared,sends]
    simp only [Hall.perform_log,seen_append]
    exact after
  · rw [Hall.perform_shared]
    refine calls.perform ?_ At.woken ?_ ?_ leaves
    · intro _ _ _ _ _ (.waiting posts)
      exact .waiting posts
    · intro _ _ _ _ (.due posts)
      exact .due posts
    · intro _ _ .paused
      exact .paused
  · intro t m member
    rw [Hall.perform_log] at member
    rcases mem_append.mp member with old | new
    · exact kept t m old
    · obtain ⟨o,member,same⟩ := mem_map.mp new
      cases same
      exact undropped m member

theorem Kept.step (kept : Kept c h) (enough : ∑ m,(c.member m).capacity ≤ c.length) (respects : Respects h e)
    (step : Hall.Step (program c) h e h') : Kept c h' := by
  have plain : ∀ {a : Action M},(∀ m,a.releases m = 0) → (fun m => posting h m + a.releases m) = posting h := by
    intro a none
    funext m
    rw [none m]
    rfl
  cases step with
  | @call t isr refused r sec _ entered =>
    have effect := enter_effect kept.books.sound kept.books.tokens entered
    have none : ∀ m,r.action.releases m = 0 := by
      intro m
      cases r <;> rfl
    refine Kept.perform _ effect ?_ kept.calls.toInside kept.kept enough ?_
    · rw [plain none]
      exact kept.books
    · rw [plain none]
      cases r with
      | receive m room | take m => exact fun inside => Nat.lt_of_sub_pos (respects inside)
      | addToSet m =>
        refine countP_eq_zero.mpr fun p member => ?_
        have free := respects _ (Hall.mem_inside_paused member)
        cases at_ : p.rest with
        | notifying k =>
          rw [at_] at free
          simpa [Rest.posts,Rest.uses] using free
        | sending | selecting => simp [Rest.posts]
      | send | sendToFront | sendFromISR | sendToFrontFromISR | give | select | selectFromISR => trivial
  | @run before d after t refused sec split found resumed =>
    have effect := resume_effect kept.books.sound kept.books.tokens resumed
    have other : d.rest.action = .other := by
      cases kept.calls.due d (mem_of_find?_eq_some found) with
      | due waits =>
        cases at_ : d.rest with
        | notifying m => rw [at_] at waits; cases waits
        | sending | selecting => rfl
    rw [other] at effect
    exact Kept.perform (h := {h with due := before ++ after}) _ effect kept.books (kept.calls.run split) kept.kept enough trivial
  | @proceed before p after t refused sec split found resumed =>
    have effect := resume_effect kept.books.sound kept.books.tokens resumed
    have paused := mem_of_find?_eq_some found
    obtain ⟨m,at_⟩ : ∃ m,p.rest = .notifying m := by
      have posts := kept.calls.paused p paused
      generalize p.rest = rest at posts
      cases posts with
      | @paused m => exact ⟨m,rfl⟩
    have effect : Effect c h.shared sec (.notifying m) := by rwa [at_] at effect
    have sends : (fun k => posting {h with paused := before ++ after} k + (Action.notifying m).releases k) = posting h := by
      funext k
      unfold posting
      rw [split]
      simp only [countP_append,countP_cons,at_,Rest.posts,Action.releases,Option.some.injEq,decide_eq_true_eq]
      omega
    refine Kept.perform (h := {h with paused := before ++ after}) _ effect ?_ (kept.calls.proceed split) kept.kept enough ?_
    · rw [sends]
      exact kept.books
    · rw [sends]
      refine countP_pos_iff.mpr ⟨p,paused,?_⟩
      rw [at_]
      exact decide_eq_true rfl
  | tick =>
    refine ⟨kept.books,kept.calls.elapse ?_,kept.kept⟩
    intro call x y ticks known
    cases ticks with
    | on => cases known with | waiting posts => exact .waiting posts
    | out => exact known.woken
    | due | paused => exact known
  | cancel split _ => exact ⟨kept.books,kept.calls.cancel split At.woken,kept.kept⟩

theorem Kept.start (fresh : Fresh c s) (now : Int) : Kept c (initial now s : Office T M β) := by
  have empty : s.tokens.contents c.length 1 = [] := eq_nil_of_length_eq_zero (by rw [contents_length,fresh.empty])
  refine ⟨⟨fresh.sound,fresh.tokens,⟨[],empty⟩,?_,?_,fun _ => Nat.le_refl 0⟩,.start rfl rfl,?_⟩
  · intro m inside
    rw [show (initial now s : Office T M β).shared.inSet m = s.inSet m from rfl,fresh.alone m] at inside
    cases inside
  · intro m _
    refine ⟨?_,rfl⟩
    rw [naming,show (initial now s : Office T M β).shared = s from rfl,empty]
    rfl
  · intro t m member
    cases member

end QueueSet

end SuperTinyKernel.FreeRtos
