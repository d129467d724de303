import SuperTinyKernel.FreeRtos.Notification

namespace SuperTinyKernel.FreeRtos.MessageBuffer

open Transition List

-- FrtosMessageBuffer: the free blocks of m_pool with what the blocks hold, and the envelopes
-- of m_eq. `count` is the capacity of m_eq; the pool may have fewer blocks.

structure Shape where
  count : Nat
  maxMsgSize : Nat

structure Envelope where
  len : Nat
  blk : Nat
  deriving DecidableEq,Repr

structure Buffer where
  free : List Nat
  memory : Nat → List UInt8 := fun _ => []
  queue : List Envelope := []

namespace Buffer

def release (b : Buffer) (blk : Nat) : Buffer := {b with free := blk :: b.free}

def copyIn (b : Buffer) (blk : Nat) (data : List UInt8) : Buffer :=
  {b with memory := Function.update b.memory blk (data ++ (b.memory blk).drop data.length)}

def copyOut (b : Buffer) (env : Envelope) : List UInt8 := (b.memory env.blk).take env.len

def tryPut (n : Nat) (b : Buffer) (env : Envelope) : Option Buffer :=
  if b.queue.length < n then some {b with queue := b.queue ++ [env]} else none

def tryPutFront (n : Nat) (b : Buffer) (env : Envelope) : Option Buffer :=
  if b.queue.length < n then some {b with queue := env :: b.queue} else none

-- A message that does not fit goes to the front in the ISR variant only. The result of the put
-- is ignored.
def putBack (n : Nat) (isr : Bool) (b : Buffer) (env : Envelope) : Buffer :=
  ((if isr then tryPutFront n b env else tryPut n b env)).getD b

end Buffer

inductive Call where
  | sending (env : Envelope)
  | returning (blk : Nat)
  | received (env : Envelope) (size : Nat) (isr : Bool)
  | draining
  | emptying (blk : Nat)
  | drained
  deriving DecidableEq,Repr

def Call.holds : Call → Bool
  | .draining | .drained => false
  | _ => true

structure State where
  buffer : Buffer
  calls : List Call := []

-- `alloc` and `get` are the steps in which TimedAlloc and Get succeed, at once or after a wait.
inductive Event where
  | alloc (data : List UInt8)
  | get (size : Nat) (isr : Bool)
  | reset
  | next (i : Nat)

def Call.next (c : Shape) (b : Buffer) : Call → Buffer × Option Call
  | .sending env =>
    match b.tryPut c.count env with
    | some b => (b,none)
    | none => (b,some (.returning env.blk))
  | .returning blk => (b.release blk,none)
  | .received env size isr =>
    if size < env.len then (b.putBack c.count isr env,none) else (b,some (.returning env.blk))
  | .draining =>
    match b.queue with
    | [] => (b,some .drained)
    | env :: rest => ({b with queue := rest},some (.emptying env.blk))
  | .emptying blk => (b.release blk,some .draining)
  | .drained => ({b with queue := []},none)

def step (c : Shape) (s : State) : Event → Option State
  | .alloc data =>
    match s.buffer.free with
    | [] => none
    | blk :: rest =>
      some ⟨{s.buffer with free := rest}.copyIn blk data,.sending ⟨data.length,blk⟩ :: s.calls⟩
  | .get size isr =>
    match s.buffer.queue with
    | [] => none
    | env :: rest => some ⟨{s.buffer with queue := rest},.received env size isr :: s.calls⟩
  | .reset => some {s with calls := .draining :: s.calls}
  | .next i =>
    match s.calls[i]? with
    | some call =>
      let (b,after) := call.next c s.buffer
      some ⟨b,after.toList ++ s.calls.eraseIdx i⟩
    | none => none

-- No send comes between the end of the loop of a reset and m_eq.Reset().
def undisturbed (s : State) : Event → Bool
  | .next i => decide (s.calls[i]? = some .drained → s.buffer.queue = [])
  | _ => true

def State.accounted (s : State) : Nat := s.buffer.free.length + s.buffer.queue.length + s.calls.countP Call.holds

theorem next_accounted {c : Shape} {b : Buffer} {call : Call} {rest : List Call}
    (room : State.accounted ⟨b,call :: rest⟩ ≤ c.count)
    (quiet : call = .drained → b.queue = []) :
    State.accounted ⟨(call.next c b).1,(call.next c b).2.toList ++ rest⟩ = State.accounted ⟨b,call :: rest⟩ := by
  cases call with
  | sending env | returning blk | received env size isr | draining | emptying blk | drained =>
    grind [Call.next,State.accounted,Call.holds,Buffer.tryPut,Buffer.putBack,Buffer.tryPutFront,Buffer.release]

theorem step_accounted {c : Shape} {s t : State} {e : Event} (room : s.accounted ≤ c.count)
    (quiet : undisturbed s e = true) (stepped : step c s e = some t) : t.accounted = s.accounted := by
  cases e with
  | alloc data => grind [step,State.accounted,Call.holds,Buffer.copyIn]
  | get size isr => grind [step,State.accounted,Call.holds]
  | reset => grind [step,State.accounted,Call.holds]
  | next i =>
    unfold step at stepped
    cases at_ : s.calls[i]? with
    | none => grind
    | some call =>
      obtain ⟨inside,rfl⟩ := List.getElem?_eq_some_iff.mp at_
      have same : State.accounted ⟨s.buffer,s.calls[i] :: s.calls.eraseIdx i⟩ = s.accounted :=
        congrArg (_ + ·) ((getElem_cons_eraseIdx_perm inside).countP_eq _)
      have next := next_accounted (same ▸ room) fun last => of_decide_eq_true quiet (at_.trans (congrArg some last))
      simp only [at_,Option.some.injEq] at stepped
      rw [← stepped,next,same]

theorem blocks_accounted (c : Shape) (blocks : List Nat) (few : blocks.length ≤ c.count) {s : State}
    (run : Run (step c) (fun s e => undisturbed s e = true) ⟨{free := blocks},[]⟩ s) :
    blocks.length = s.buffer.free.length + s.buffer.queue.length + s.calls.countP Call.holds ∧
      (blocks.length = c.count → s.calls = [] → s.buffer.free.length + s.buffer.queue.length = c.count) := by
  have kept : s.accounted = blocks.length := by
    refine run.keeps (I := fun s => s.accounted = blocks.length) (by simp [State.accounted]) ?_
    intro s e t same quiet stepped
    exact (step_accounted (same ▸ few) quiet stepped).trans same
  refine ⟨kept.symm,fun full none => ?_⟩
  rw [← full,← kept,State.accounted,none]
  rfl

def sendsAndReset : List Event :=
  [.alloc [1,2],.next 0,.get 1 false,.alloc [3],.next 1,.next 0,.reset,.next 0,.next 0,.next 0,.next 0,.next 0,.next 0]

theorem sendsAndReset_accounted : ∃ s : State,
    exec (step ⟨2,4⟩) ⟨{free := [0,1]},[]⟩ sendsAndReset = some s ∧
      s.calls = [] ∧ s.buffer.free.length + s.buffer.queue.length = 2 := by
  refine exec_shows (P := fun s : State => s.calls = []) (by decide) ?_
  intro s ran none
  have run := Run.ofExecAllowed undisturbed (by decide) ran
  exact ⟨none,(blocks_accounted ⟨2,4⟩ [0,1] (Nat.le_refl 2) run).2 rfl none⟩

-- The send comes behind the loop of the reset, so m_eq.Reset() drops its envelope.
def sentIntoReset : List Event := [.reset,.next 0,.alloc [7],.next 0,.next 0]

theorem sentIntoReset_leaks : ∃ s : State,
    Run (step ⟨1,4⟩) (fun _ _ => True) ⟨{free := [0]},[]⟩ s ∧
      s.calls = [] ∧ s.buffer.free.length + s.buffer.queue.length = 0 :=
  Run.found sentIntoReset (by decide)

def xMessageBufferSend (c : Shape) (b : Buffer) (data : List UInt8) : Nat × Buffer :=
  if data.length = 0 ∨ c.maxMsgSize < data.length then (0,b)
  else
    match b.free with
    | [] => (0,b)
    | blk :: rest =>
      let b := {b with free := rest}.copyIn blk data
      match b.tryPut c.count ⟨data.length,blk⟩ with
      | some b => (data.length,b)
      | none => (0,b.release blk)

def xMessageBufferReceive (c : Shape) (isr : Bool) (b : Buffer) (size : Nat) : List UInt8 × Buffer :=
  if size = 0 then ([],b)
  else
    match b.queue with
    | [] => ([],b)
    | env :: rest =>
      let b := {b with queue := rest}
      if size < env.len then ([],b.putBack c.count isr env) else (b.copyOut env,b.release env.blk)

def drain : List Envelope → Buffer → Buffer
  | [],b => b
  | env :: rest,b => drain rest ({b with queue := rest}.release env.blk)

def xMessageBufferReset (b : Buffer) : Buffer := {drain b.queue b with queue := []}

def xMessageBufferNextLengthBytes (b : Buffer) : Nat :=
  match b.queue with
  | [] => 0
  | env :: _ => env.len

inductive Op where
  | send (data : List UInt8)
  | receive (size : Nat) (isr : Bool)
  | reset
  | nextLength

def Op.run (c : Shape) (b : Buffer) : Op → Nat × List UInt8 × Buffer
  | .send data => ((xMessageBufferSend c b data).1,[],(xMessageBufferSend c b data).2)
  | .receive size isr =>
    let (bytes,b) := xMessageBufferReceive c isr b size
    (bytes.length,bytes,b)
  | .reset => (1,[],xMessageBufferReset b)
  | .nextLength => (xMessageBufferNextLengthBytes b,[],b)

-- A queue of at most `bound` messages of 1 to `longest` bytes.
def Op.fifo (bound longest : Nat) (xs : List (List UInt8)) : Op → Nat × List UInt8 × List (List UInt8)
  | .send data =>
    if data.length = 0 ∨ longest < data.length ∨ xs.length = bound then (0,[],xs) else (data.length,[],xs ++ [data])
  | .receive size _ =>
    match xs with
    | [] => (0,[],[])
    | x :: rest => if size < x.length then (0,[],xs) else (x.length,x,rest)
  | .reset => (1,[],[])
  | .nextLength => ((xs.head?.map List.length).getD 0,[],xs)

def Buffer.messages (b : Buffer) : List (List UInt8) := b.queue.map b.copyOut

-- Where a task finds its buffer too small, no other message is behind the one it puts back.
def Op.spares (b : Buffer) : Op → Bool
  | .receive size false =>
    match b.queue with
    | env :: _ :: _ => decide (size = 0 ∨ env.len ≤ size)
    | _ => true
  | _ => true

-- Every block is free or in one envelope, which has the length of its message.
structure Sound (blocks : List Nat) (b : Buffer) : Prop where
  blocks : (b.free ++ b.queue.map Envelope.blk).Perm blocks
  lengths : ∀ env ∈ b.queue,(b.copyOut env).length = env.len ∧ 0 < env.len

-- The call returns and leaves what the queue of messages does.
def Op.Refines (c : Shape) (blocks : List Nat) (b : Buffer) (op : Op) : Prop :=
  Sound blocks (op.run c b).2.2 ∧
    (op.run c b).map id (Prod.map id Buffer.messages) = op.fifo blocks.length c.maxMsgSize b.messages

theorem copyOut_copyIn (b : Buffer) (blk : Nat) (data : List UInt8) :
    (b.copyIn blk data).copyOut ⟨data.length,blk⟩ = data := by
  simp [Buffer.copyIn,Buffer.copyOut]

theorem copyOut_copyIn_other {b : Buffer} {blk : Nat} {env : Envelope} (other : env.blk ≠ blk) (data : List UInt8) :
    (b.copyIn blk data).copyOut env = b.copyOut env := by
  simp [Buffer.copyIn,Buffer.copyOut,Function.update_of_ne other]

theorem drain_free (q : List Envelope) (b : Buffer) : (drain q b).free = (q.map Envelope.blk).reverse ++ b.free := by
  induction q generalizing b with
  | nil => rfl
  | cons env rest ih => simp [drain,ih,Buffer.release]

section
variable {c : Shape} {blocks : List Nat} {b : Buffer} (sound : Sound blocks b)
include sound

theorem Sound.sent {blk : Nat} {rest : List Nat} (distinct : blocks.Nodup) (free : b.free = blk :: rest)
    (data : List UInt8) (some_ : 0 < data.length) {t : Buffer}
    (same : t = {{b with free := rest}.copyIn blk data with queue := b.queue ++ [⟨data.length,blk⟩]}) :
    Sound blocks t ∧ t.messages = b.messages ++ [data] := by
  have own : t.copyOut ⟨data.length,blk⟩ = data := by rw [same]; exact copyOut_copyIn {b with free := rest} blk data
  have kept : ∀ env ∈ b.queue,t.copyOut env = b.copyOut env := by
    intro env member
    have other : env.blk ≠ blk := by
      have once := sound.blocks.nodup_iff.mpr distinct
      grind
    rw [same]
    exact copyOut_copyIn_other (b := {b with free := rest}) other data
  have queue : t.queue = b.queue ++ [⟨data.length,blk⟩] := by rw [same]
  refine ⟨⟨?_,?_⟩,?_⟩
  · refine List.Perm.trans ?_ sound.blocks
    rw [queue,same,free]
    simp only [Buffer.copyIn,map_append,map_cons,map_nil,← append_assoc]
    exact perm_append_singleton blk _
  · intro env member
    rw [queue] at member
    rcases mem_append.mp member with old | new
    · rw [kept env old]
      exact sound.lengths env old
    · cases mem_singleton.mp new
      exact ⟨congrArg List.length own,some_⟩
  · rw [Buffer.messages,queue,map_append,map_cons,own,map_congr_left kept]
    rfl

theorem Sound.send (distinct : blocks.Nodup) (few : blocks.length ≤ c.count) (data : List UInt8) :
    (Op.send data).Refines c blocks b := by
  have total := sound.blocks.length_eq
  rw [length_append,length_map] at total
  have long : b.messages.length = b.queue.length := length_map ..
  simp only [Op.Refines,Op.run,xMessageBufferSend,Op.fifo,Prod.map,id]
  by_cases bad : data.length = 0 ∨ c.maxMsgSize < data.length
  · rw [if_pos bad,if_pos (bad.imp_right .inl)]
    exact ⟨sound,rfl⟩
  · rw [if_neg bad]
    cases free : b.free with
    | nil =>
      rw [free] at total
      rw [if_pos (.inr (.inr (long.trans ((Nat.zero_add _).symm.trans total))))]
      exact ⟨sound,rfl⟩
    | cons blk rest =>
      rw [free,length_cons] at total
      have room : b.queue.length < c.count := by omega
      obtain ⟨kept,messages⟩ := sound.sent distinct free data (by omega) rfl
      rw [if_neg (by omega)]
      simp only [Buffer.tryPut,Buffer.copyIn,room] at kept messages ⊢
      exact ⟨kept,by rw [← messages]; rfl⟩

theorem Sound.receive (few : blocks.length ≤ c.count) (size : Nat) (isr : Bool)
    (spares : (Op.receive size isr).spares b = true) : (Op.receive size isr).Refines c blocks b := by
  have total := sound.blocks.length_eq
  rw [length_append,length_map] at total
  simp only [Op.Refines,Op.run,xMessageBufferReceive,Op.fifo,Prod.map,id]
  cases queue : b.queue with
  | nil =>
    have none : b.messages = [] := by rw [Buffer.messages,queue]; rfl
    simp [none,sound]
  | cons env rest =>
    obtain ⟨length,some_⟩ := sound.lengths env (queue ▸ mem_cons_self ..)
    have first : b.messages = b.copyOut env :: rest.map b.copyOut := by rw [Buffer.messages,queue]; rfl
    simp only [first,length]
    by_cases zero : size = 0
    · rw [if_pos zero,if_pos (zero ▸ some_)]
      exact ⟨sound,by rw [← first]; rfl⟩
    · rw [if_neg zero]
      by_cases small : size < env.len
      · rw [if_pos small,if_pos small]
        have back : ({b with queue := rest} : Buffer).putBack c.count isr env = b := by
          rw [queue,length_cons] at total
          have room : rest.length < c.count := by omega
          cases rest with
          | nil => grind [Buffer.putBack,Buffer.tryPut,Buffer.tryPutFront,cases Buffer]
          | cons second others => grind [Buffer.putBack,Buffer.tryPut,Buffer.tryPutFront,Op.spares,cases Buffer]
        rw [back]
        exact ⟨sound,by rw [← first]; rfl⟩
      · rw [if_neg small,if_neg small]
        refine ⟨⟨?_,fun env member => ?_⟩,?_⟩
        · refine List.Perm.trans ?_ sound.blocks
          rw [queue]
          exact perm_middle.symm
        · exact sound.lengths env (queue ▸ mem_cons_of_mem _ member)
        · rw [show ({b with queue := rest} : Buffer).copyOut env = b.copyOut env from rfl,length]
          rfl

theorem Sound.op (distinct : blocks.Nodup) (few : blocks.length ≤ c.count) {op : Op} (spares : op.spares b = true) :
    op.Refines c blocks b := by
  cases op with
  | send data => exact sound.send distinct few data
  | receive size isr => exact sound.receive few size isr spares
  | reset =>
    refine ⟨⟨?_,nofun⟩,rfl⟩
    refine List.Perm.trans ?_ sound.blocks
    simp only [Op.run,xMessageBufferReset,drain_free,map_nil,append_nil]
    exact ((reverse_perm _).append_right _).trans perm_append_comm
  | nextLength =>
    refine ⟨sound,?_⟩
    simp only [Op.run,xMessageBufferNextLengthBytes,Op.fifo,Buffer.messages,Prod.map,id]
    cases queue : b.queue with
    | nil => rfl
    | cons env rest => simp [(sound.lengths env (queue ▸ mem_cons_self ..)).1]

end

theorem bounded_fifo (c : Shape) (blocks : List Nat) (distinct : blocks.Nodup) (few : blocks.length ≤ c.count) {b : Buffer}
    (run : Run (fun b (op : Op) => some (op.run c b).2.2) (fun b op => op.spares b = true) {free := blocks} b)
    (op : Op) (spares : op.spares b = true) :
    (op.run c b).map id (Prod.map id Buffer.messages) = op.fifo blocks.length c.maxMsgSize b.messages := by
  have sound : Sound blocks b := by
    refine run.keeps (I := Sound blocks) ⟨by rw [map_nil,append_nil],nofun⟩ ?_
    intro b op t sound spares stepped
    cases stepped
    exact (sound.op distinct few spares).1
  exact (sound.op distinct few spares).2

def sentTwice : List Op := [.send [1,2],.send [3],.receive 1 true]

theorem sentTwice_in_order : ∃ b : Buffer,
    exec (fun b (op : Op) => some (op.run ⟨2,4⟩ b).2.2) {free := [0,1]} sentTwice = some b ∧
      b.messages = [[1,2],[3]] ∧
      ((Op.receive 4 false).run ⟨2,4⟩ b).map id (Prod.map id Buffer.messages) = (2,[1,2],[[3]]) := by
  refine exec_shows (P := fun b => b.messages = [[1,2],[3]] ∧ (Op.receive 4 false).spares b = true) (by decide) ?_
  intro b ran ⟨messages,spares⟩
  have run := Run.ofExecAllowed (fun b (op : Op) => op.spares b) (by decide) ran
  refine ⟨messages,?_⟩
  rw [bounded_fifo ⟨2,4⟩ [0,1] (by decide) (Nat.le_refl 2) run _ spares,messages]
  rfl

-- The task puts the first message back behind the second one.
theorem smallBuffer_reorders : ∃ b : Buffer,
    Run (fun b (op : Op) => some (op.run ⟨2,4⟩ b).2.2) (fun _ _ => True) {free := [0,1]} b ∧
      b.messages = [[1,2],[3]] ∧
      ((Op.receive 1 false).run ⟨2,4⟩ b).map id (Prod.map id Buffer.messages) = (0,[],[[3],[1,2]]) :=
  Run.found [.send [1,2],.send [3]] (by decide)

end SuperTinyKernel.FreeRtos.MessageBuffer
