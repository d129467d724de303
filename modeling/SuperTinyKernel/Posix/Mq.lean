import SuperTinyKernel.Library.SlotRing
import SuperTinyKernel.Library.StableQueue
import SuperTinyKernel.Posix.Time
import SuperTinyKernel.Sync.Wait

set_option linter.unusedSectionVars false

namespace SuperTinyKernel.Posix.Mq

open Monitor SlotRing Transition List

-- One message queue of <mqueue.h>, with size_t and long of 32 bits. The critical sections
-- are those under q->mtx.

structure Attr where
  maxmsg : Nat
  msgsize : Nat
  resolution : Nat
  some : 0 < maxmsg
  sized : 0 < msgsize
  long : maxmsg ≤ 2147483647 ∧ msgsize ≤ 2147483647

inductive Access where
  | rdonly | wronly | rdwr
  deriving DecidableEq,Repr

structure Desc where
  access : Access
  nonblock : Bool
  deriving DecidableEq,Repr

inductive Errno where
  | ebadf | einval | emsgsize | eagain | etimedout | eintr
  deriving DecidableEq,Repr

def mqPrioMax : Nat := 32

-- The calls of the threads `I`. An invalid descriptor and a null pointer are `none`;
-- `cancelable` is whether CancelPending() holds from now on.
inductive Request (I : Type) where
  | send (self : I) (desc : Option Desc) (msg : Option (List UInt8)) (prio : Nat) (abstime : Option Timespec)
  | receive (self : I) (desc : Option Desc) (room : Option (List UInt8)) (asksPrio : Bool) (abstime : Option Timespec)
  | cancelable (self : I) (pending : Bool)
  deriving DecidableEq,Repr

inductive Cond where
  | notEmpty | notFull
  deriving DecidableEq,Repr

structure Sending (I : Type) where
  self : I
  nonblock : Bool
  msg : List UInt8
  prio : Nat
  abstime : Option Timespec
  deriving DecidableEq,Repr

structure Receiving (I : Type) where
  self : I
  nonblock : Bool
  room : List UInt8
  asksPrio : Bool
  abstime : Option Timespec
  deriving DecidableEq,Repr

-- A thread in front of q->mtx.Lock(), in WaitEx, or behind q->mtx.Unlock() with `canceled` set.
inductive Rest (I : Type) where
  | sendLocking (a : Sending I)
  | sendWaiting (a : Sending I)
  | receiveLocking (a : Receiving I)
  | receiveWaiting (a : Receiving I)
  | canceled (self : I)
  deriving DecidableEq,Repr

inductive Answer where
  | ok
  | received (len : Nat) (data : List UInt8) (prio : Option Nat)
  | failed (err : Errno)
  | exited
  deriving DecidableEq,Repr

structure Message where
  prio : Nat
  data : List UInt8
  deriving DecidableEq,Repr

inductive Op where
  | sent (m : Message)
  | received (m : Message)
  deriving DecidableEq,Repr

structure State (I : Type) where
  count : Nat := 0
  buf : List UInt8
  pending : I → Bool := fun _ => false

abbrev Sect (I : Type) := Section (State I) Cond (Rest I) Answer Op
abbrev Queue (I : Type) := Hall I (Request I) (State I) Cond (Rest I) Answer Op

variable {I : Type} [DecidableEq I] {c : Attr} {s : State I} {sec : Sect I} {buf b : List UInt8}

def Attr.stride (c : Attr) : Nat := 8 + c.msgsize

def Attr.bytes (c : Attr) : Nat := c.stride * c.maxmsg % 4294967296

-- The fields of MqMsgHdr in memory. An access at an address that is not a multiple of four is
-- undefined.
def encode (v : Nat) : List UInt8 :=
  [UInt8.ofNat v,UInt8.ofNat (v / 256),UInt8.ofNat (v / 65536),UInt8.ofNat (v / 16777216)]

def decode (bytes : List UInt8) : Nat := bytes.foldr (fun x n => x.toNat + 256 * n) 0

def readField (buf : List UInt8) (o : Nat) : Option Nat :=
  if o % 4 = 0 ∧ o + 4 ≤ buf.length then some (decode (window buf o 4)) else none

def writeField (buf : List UInt8) (o v : Nat) : Option (List UInt8) :=
  if o % 4 = 0 then memcpy buf o (encode v) 0 4 else none

-- MqSlot(q, idx).
def Attr.slotAt (c : Attr) (idx : Nat) : Nat := idx * c.stride

-- The loop that looks for the place of a message, from the back.
def place (c : Attr) (buf : List UInt8) (prio : Nat) : Nat → Option Nat
  | 0 => some 0
  | pos + 1 => (readField buf (c.slotAt pos + 4)).bind fun p => if p < prio then place c buf prio pos else some (pos + 1)

-- memmove of whole slots, if there are any to move.
def moveSlots (c : Attr) (buf : List UInt8) (dst src n : Nat) : Option (List UInt8) :=
  if n ≠ 0 then memcpy buf (c.slotAt dst) buf (c.slotAt src) (n * c.stride) else some buf

def insert (c : Attr) (s : State I) (msg : List UInt8) (prio : Nat) : Option (State I) := do
  let pos ← place c s.buf prio s.count
  let buf ← moveSlots c s.buf (pos + 1) pos (s.count - pos)
  let buf ← writeField buf (c.slotAt pos) msg.length
  let buf ← writeField buf (c.slotAt pos + 4) prio
  let buf ← memcpy buf (c.slotAt pos + 8) msg 0 msg.length
  some {s with buf := buf,count := s.count + 1}

def remove (c : Attr) (s : State I) (room : List UInt8) : Option (Nat × Nat × List UInt8 × State I) := do
  let len ← readField s.buf 0
  let prio ← readField s.buf 4
  let data ← memcpy room 0 s.buf 8 len
  let buf ← moveSlots c s.buf 0 1 (s.count - 1)
  some (len,prio,data,{s with buf := buf,count := s.count - 1})

def mqFail (s : State I) (err : Errno) : Sect I := {shared := s,ending := .done (.failed err)}

def enqueue (c : Attr) (s : State I) (a : Sending I) : Option (Sect I) :=
  (insert c s a.msg a.prio).map fun s' =>
    {shared := s',notices := [.one .notEmpty],log := [.sent ⟨a.prio,a.msg⟩],ending := .done .ok}

def dequeue (c : Attr) (s : State I) (a : Receiving I) : Option (Sect I) :=
  (remove c s a.room).map fun (len,prio,data,s') =>
    {shared := s',notices := [.one .notFull],log := [.received ⟨prio,data.take len⟩],
     ending := .done (.received len data (if a.asksPrio then some prio else none))}

-- Waiting in the loops. A deadline in the past ends the call without a wait.
def await (c : Attr) (env : Ambient) (s : State I) (cond : Cond) (nonblock : Bool) (abstime : Option Timespec) (rest : Rest I) :
    Option (Sect I) :=
  if nonblock then some (mqFail s .eagain)
  else match abstime with
    | none => waitEx env cond waitInfinite rest s fun _ => some (mqFail s .einval)
    | some ts => (timespecToRelativeTimeout c.resolution env.now ts).bind fun timeout =>
      if timeout = noWait then some (mqFail s .etimedout)
      else waitEx env cond timeout rest s fun _ => some (mqFail s .einval)

def sendLoop (c : Attr) (env : Ambient) (s : State I) (a : Sending I) : Option (Sect I) :=
  if c.maxmsg ≤ s.count then await c env s .notFull a.nonblock a.abstime (.sendWaiting a) else enqueue c s a

def receiveLoop (c : Attr) (env : Ambient) (s : State I) (a : Receiving I) : Option (Sect I) :=
  if s.count = 0 then await c env s .notEmpty a.nonblock a.abstime (.receiveWaiting a) else dequeue c s a

-- What follows on the result of WaitEx; `blocked` is the condition of the loop.
def waited (s : State I) (self : I) (blocked : Bool) (again : Option (Sect I)) : Wakeup → Option (Sect I)
  | .fail => some (mqFail s .einval)
  | .canceled => if s.pending self then some {shared := s,ending := .pause (.canceled self)} else again
  | .timeout => if blocked then some (mqFail s .etimedout) else again
  | .signal => again

-- TestCancelPoint() of a call that may block, and then q->mtx.Lock().
def begin (s : State I) (self : I) (nonblock : Bool) (rest : Rest I) : Sect I :=
  if !nonblock && s.pending self then {shared := s,ending := .done .exited} else {shared := s,ending := .pause rest}

def invalid (abstime : Option Timespec) : Bool := abstime.any fun ts => !isValidTimespec ts

def mqSendImpl (c : Attr) (s : State I) (self : I) (desc : Option Desc) (msg : Option (List UInt8)) (prio : Nat)
    (abstime : Option Timespec) : Sect I :=
  match desc with
  | none => mqFail s .ebadf
  | some d =>
    if d.access = .rdonly then mqFail s .ebadf
    else match msg with
      | none => mqFail s .einval
      | some msg =>
        if mqPrioMax ≤ prio ∨ invalid abstime = true then mqFail s .einval
        else if c.msgsize < msg.length then mqFail s .emsgsize
        else begin s self d.nonblock (.sendLocking ⟨self,d.nonblock,msg,prio,abstime⟩)

def mqReceiveImpl (c : Attr) (s : State I) (self : I) (desc : Option Desc) (room : Option (List UInt8)) (asksPrio : Bool)
    (abstime : Option Timespec) : Sect I :=
  match desc with
  | none => mqFail s .ebadf
  | some d =>
    if d.access = .wronly then mqFail s .ebadf
    else match room with
      | none => mqFail s .einval
      | some room =>
        if invalid abstime then mqFail s .einval
        else if room.length < c.msgsize then mqFail s .emsgsize
        else begin s self d.nonblock (.receiveLocking ⟨self,d.nonblock,room,asksPrio,abstime⟩)

def enter (c : Attr) (_ : Ambient) (s : State I) : Request I → Option (Sect I)
  | .send self desc msg prio abstime => some (mqSendImpl c s self desc msg prio abstime)
  | .receive self desc room asksPrio abstime => some (mqReceiveImpl c s self desc room asksPrio abstime)
  | .cancelable self pending => some {shared := {s with pending := Function.update s.pending self pending},ending := .done .ok}

def resume (c : Attr) (env : Ambient) (s : State I) : Rest I → Wakeup → Option (Sect I)
  | .sendLocking a,_ => sendLoop c env s a
  | .sendWaiting a,result => waited s a.self (decide (c.maxmsg ≤ s.count)) (sendLoop c env s a) result
  | .receiveLocking a,_ => receiveLoop c env s a
  | .receiveWaiting a,result => waited s a.self (decide (s.count = 0)) (receiveLoop c env s a) result
  | .canceled self,_ => if s.pending self then some {shared := s,ending := .done .exited} else some (mqFail s .eintr)

def program (c : Attr) : Program (Request I) (State I) Cond (Rest I) Answer Op := ⟨enter c,resume c⟩

def opened (now : Int) (buf : List UInt8) (pending : I → Bool) : Queue I :=
  {now := now,shared := {buf := buf,pending := pending}}

-- The headers of all slots are aligned, and the size of the buffer has not wrapped.
def Attr.regular (c : Attr) : Bool :=
  decide ((c.msgsize % 4 = 0 ∨ c.maxmsg = 1) ∧ c.stride * c.maxmsg < 4294967296)

-- A bounded queue of messages in the order they were sent.
def Op.apply (maxmsg : Nat) (xs : List Message) : Op → Option (List Message)
  | .sent m => if xs.length < maxmsg then some (xs ++ [m]) else none
  | .received m => if StableQueue.first Message.prio xs = some m then some (StableQueue.rest Message.prio xs) else none

def lenOf (cells : List UInt8) : Nat := decode (window cells 0 4)
def messageOf (cells : List UInt8) : Message := ⟨decode (window cells 4 4),window cells 8 (lenOf cells)⟩

def messageAt (c : Attr) (buf : List UInt8) (k : Nat) : Message := messageOf (slot c.stride buf k)

def messages (c : Attr) (s : State I) : List Message := (List.range s.count).map (messageAt c s.buf)

theorem decode_encode (bound : v < 4294967296) : decode (encode v) = v := by
  simp only [decode,encode,foldr_cons,foldr_nil,UInt8.toNat_ofNat']
  omega

theorem readField_some (read : readField buf o = some v) : v = decode (window buf o 4) := by
  unfold readField at read
  split at read
  · exact (Option.some.inj read).symm
  · cases read

theorem writeField_some (written : writeField buf o v = some b) : memcpy buf o (encode v) 0 4 = some b := by
  unfold writeField at written
  split at written
  · exact written
  · cases written

theorem messageAt_prio (c : Attr) (buf : List UInt8) (k : Nat) :
    (messageAt c buf k).prio = decode (window buf (c.slotAt k + 4) 4) := by
  show decode (window (slot c.stride buf k) 4 4) = _
  rw [window_slot (by unfold Attr.stride; omega)]
  rfl

theorem place_some (found : place c buf prio n = some pos) :
    pos ≤ n ∧ (∀ k,pos ≤ k → k < n → (messageAt c buf k).prio < prio) ∧
      (pos = 0 ∨ prio ≤ (messageAt c buf (pos - 1)).prio) := by
  induction n with
  | zero =>
    cases found
    exact ⟨Nat.le_refl 0,fun k _ below => absurd below (Nat.not_lt_zero k),.inl rfl⟩
  | succ n ih =>
    obtain ⟨p,read,found⟩ := of_bind found
    have at_ := readField_some read
    rw [← messageAt_prio] at at_
    split at found
    · rename_i less
      obtain ⟨bound,below,above⟩ := ih found
      refine ⟨by omega,?_,above⟩
      intro k low high
      by_cases last : k = n
      · rw [last,← at_]
        exact less
      · exact below k low (by omega)
    · rename_i least
      cases found
      refine ⟨Nat.le_refl _,fun k low high => by omega,.inr ?_⟩
      rw [Nat.add_sub_cancel,← at_]
      omega

structure Sound (c : Attr) (s : State I) : Prop where
  room : s.buf.length = c.maxmsg * c.stride
  count : s.count ≤ c.maxmsg
  lens : ∀ k,k < s.count → lenOf (slot c.stride s.buf k) ≤ c.msgsize

theorem lenOf_slot (c : Attr) (buf : List UInt8) (k : Nat) : lenOf (slot c.stride buf k) = decode (window buf (c.slotAt k) 4) := by
  unfold lenOf
  rw [window_slot (by unfold Attr.stride; omega)]
  rfl

theorem moveSlots_some (moved : moveSlots c buf dst src n = some b) :
    b.length = buf.length ∧
      ∀ k,slot c.stride b k = if dst ≤ k ∧ k < dst + n then slot c.stride buf (src + (k - dst)) else slot c.stride buf k := by
  unfold moveSlots at moved
  split at moved
  · exact ⟨memcpy_length moved,slot_memcpy moved⟩
  · cases moved
    exact ⟨rfl,fun k => (if_neg (by omega)).symm⟩

theorem written {msg : List UInt8} {buf b1 b2 b3 : List UInt8} (short : msg.length ≤ c.msgsize) (long : msg.length < 4294967296)
    (low : prio < 4294967296) (first : writeField buf (c.slotAt pos) msg.length = some b1)
    (second : writeField b1 (c.slotAt pos + 4) prio = some b2)
    (third : memcpy b2 (c.slotAt pos + 8) msg 0 msg.length = some b3) :
    lenOf (slot c.stride b3 pos) = msg.length ∧ messageAt c b3 pos = ⟨prio,msg⟩ ∧
      ∀ k,k ≠ pos → slot c.stride b3 k = slot c.stride buf k := by
  have first := writeField_some first
  have second := writeField_some second
  have size : c.stride = 8 + c.msgsize := rfl
  have len : lenOf (slot c.stride b3 pos) = msg.length := by
    rw [lenOf_slot,window_kept third (.inl (by omega)),window_kept second (.inl (by omega)),window_copied first]
    exact decode_encode long
  have rank : (messageAt c b3 pos).prio = prio := by
    rw [messageAt_prio,window_kept third (.inl (by omega)),window_copied second]
    exact decode_encode low
  have data : (messageAt c b3 pos).data = msg := by
    show window (slot c.stride b3 pos) 8 (lenOf (slot c.stride b3 pos)) = msg
    rw [len,window_slot (by omega)]
    refine (window_copied third).trans ?_
    simp [window]
  refine ⟨len,?_,?_⟩
  · rw [← rank,← data]
  · intro k other
    rw [slot_kept third (by omega) other,slot_kept second (by omega) other]
    exact slot_kept (o := 0) first (by omega) other

theorem insert_some (sound : Sound c s) (short : msg.length ≤ c.msgsize) (low : prio < 4294967296)
    (less : s.count < c.maxmsg) (made : insert c s msg prio = some s') :
    Sound c s' ∧ s'.pending = s.pending ∧ ∃ pos,place c s.buf prio s.count = some pos ∧
      messages c s = (List.range pos).map (messageAt c s.buf) ++
        (List.range (s.count - pos)).map (fun i => messageAt c s.buf (pos + i)) ∧
      messages c s' = (List.range pos).map (messageAt c s.buf) ++
        ⟨prio,msg⟩ :: (List.range (s.count - pos)).map fun i => messageAt c s.buf (pos + i) := by
  obtain ⟨pos,placed,made⟩ := of_bind made
  obtain ⟨b0,moved,made⟩ := of_bind made
  obtain ⟨b1,first,made⟩ := of_bind made
  obtain ⟨b2,second,made⟩ := of_bind made
  obtain ⟨b3,third,made⟩ := of_bind made
  cases made
  have bound := (place_some placed).1
  have long : msg.length < 4294967296 := by
    have := c.long
    omega
  obtain ⟨len,here,others⟩ := written short long low first second third
  obtain ⟨kept,shifted⟩ := moveSlots_some moved
  have before : ∀ k,k < pos → slot c.stride b3 k = slot c.stride s.buf k := by
    intro k below
    rw [others k (by omega),shifted,if_neg (by omega)]
  have after : ∀ i,i < s.count - pos → slot c.stride b3 (pos + 1 + i) = slot c.stride s.buf (pos + i) := by
    intro i inside
    rw [others _ (by omega),shifted,if_pos (by omega),Nat.add_sub_cancel_left]
  have length : b3.length = s.buf.length := by
    rw [memcpy_length third,memcpy_length (writeField_some second),memcpy_length (writeField_some first),kept]
  refine ⟨⟨length.trans sound.room,less,?_⟩,rfl,pos,placed,?_,?_⟩
  · intro k below
    have below : k < s.count + 1 := below
    show lenOf (slot c.stride b3 k) ≤ c.msgsize
    rcases Nat.lt_trichotomy k pos with low | same | high
    · rw [before k low]
      exact sound.lens k (by omega)
    · rw [same,len]
      exact short
    · obtain ⟨i,rfl⟩ := Nat.exists_eq_add_of_le high
      rw [after i (by omega)]
      exact sound.lens _ (by omega)
  · unfold messages
    have split : s.count = pos + (s.count - pos) := by omega
    conv_lhs => rw [split]
    rw [range_add,map_append,map_map]
    rfl
  · have split : s.count + 1 = pos + 1 + (s.count - pos) := by omega
    show (List.range (s.count + 1)).map (messageAt c b3) = _
    rw [split,range_add,range_succ,map_append,map_append,map_singleton,here,map_map,
      append_assoc]
    refine congrArg₂ _ ?_ (congrArg _ ?_)
    · refine map_congr_left fun k member => ?_
      exact congrArg messageOf (before k (mem_range.mp member))
    · refine map_congr_left fun i member => ?_
      exact congrArg messageOf (after i (mem_range.mp member))

theorem remove_some (sound : Sound c s) (more : 0 < s.count) (made : remove c s room = some (len,prio,data,s')) :
    Sound c s' ∧ s'.pending = s.pending ∧ messages c s = ⟨prio,data.take len⟩ :: messages c s' ∧
      len ≤ data.length ∧ data.drop len = room.drop len := by
  obtain ⟨len,measured,made⟩ := of_bind made
  obtain ⟨prio,ranked,made⟩ := of_bind made
  obtain ⟨data,copied,made⟩ := of_bind made
  obtain ⟨b,moved,made⟩ := of_bind made
  cases made
  have measured := readField_some measured
  have ranked := readField_some ranked
  have zero : c.slotAt 0 = 0 := Nat.zero_mul _
  obtain ⟨length,slots⟩ := moveSlots_some moved
  have shifted : ∀ k,k < s.count - 1 → slot c.stride b k = slot c.stride s.buf (k + 1) := by
    intro k below
    rw [slots,if_pos (by omega),Nat.sub_zero,Nat.add_comm]
  have size : lenOf (slot c.stride s.buf 0) = len := by rw [lenOf_slot,zero,measured]
  have first : messageAt c s.buf 0 = ⟨prio,data.take len⟩ := by
    have rank : (messageAt c s.buf 0).prio = prio := by rw [messageAt_prio,zero,ranked]
    have bytes : (messageAt c s.buf 0).data = data.take len := by
      have fits := sound.lens 0 more
      show window (slot c.stride s.buf 0) 8 (lenOf (slot c.stride s.buf 0)) = _
      rw [size] at fits ⊢
      rw [window_slot (by unfold Attr.stride; omega),Nat.zero_mul]
      exact (window_copied copied).symm
    rw [← rank,← bytes]
  refine ⟨⟨length.trans sound.room,Nat.le_trans (Nat.sub_le _ _) sound.count,?_⟩,rfl,?_,?_,?_⟩
  · intro k below
    have below : k < s.count - 1 := below
    show lenOf (slot c.stride b k) ≤ c.msgsize
    rw [shifted k below]
    exact sound.lens _ (by omega)
  · obtain ⟨n,same⟩ := Nat.exists_eq_add_of_le more
    have same : s.count = n + 1 := by omega
    unfold messages
    rw [same,range_succ_eq_map,map_cons,first,map_map]
    refine congrArg _ (map_congr_left fun k member => ?_)
    have below := mem_range.mp member
    exact (congrArg messageOf (shifted k (by omega))).symm
  · rw [memcpy_length copied]
    have bounds := memcpy_bounds copied
    omega
  · refine ext_getElem? fun i => ?_
    rw [getElem?_drop,getElem?_drop,memcpy_get copied,if_neg (by omega)]

theorem Sound.fits (sound : Sound c s) (inside : k < c.maxmsg) : c.slotAt k + c.stride ≤ s.buf.length := by
  have bound := Nat.mul_le_mul_right c.stride (Nat.succ_le_of_lt inside)
  rw [Nat.succ_mul] at bound
  rwa [sound.room]

theorem slotAt_aligned (regular : c.regular = true) (inside : k < c.maxmsg) : c.slotAt k % 4 = 0 := by
  obtain ⟨aligned | single,_⟩ := of_decide_eq_true regular
  · have four : c.stride % 4 = 0 := by
      unfold Attr.stride
      omega
    rw [Attr.slotAt,Nat.mul_mod,four]
    simp
  · have zero : k = 0 := by omega
    rw [zero,Attr.slotAt,Nat.zero_mul]

theorem readField_defined (buf : List UInt8) (aligned : o % 4 = 0) (fits : o + 4 ≤ buf.length) : ∃ v,readField buf o = some v :=
  ⟨_,if_pos ⟨aligned,fits⟩⟩

theorem writeField_defined (buf : List UInt8) (aligned : o % 4 = 0) (fits : o + 4 ≤ buf.length) (v : Nat) : ∃ b,writeField buf o v = some b := by
  unfold writeField
  rw [if_pos aligned]
  exact memcpy_defined _ _ fits (Nat.le_refl 4)

theorem place_defined (regular : c.regular = true) (sound : Sound c s) (prio : Nat) (bound : n ≤ c.maxmsg) :
    ∃ pos,place c s.buf prio n = some pos := by
  induction n with
  | zero => exact ⟨0,rfl⟩
  | succ n ih =>
    have aligned := slotAt_aligned regular (k := n) (by omega)
    have fits := sound.fits (k := n) (by omega)
    unfold Attr.stride at fits
    obtain ⟨p,read⟩ := readField_defined s.buf (o := c.slotAt n + 4) (by omega) (by omega)
    obtain ⟨pos,found⟩ := ih (by omega)
    rw [place,read]
    by_cases less : p < prio
    · exact ⟨pos,(if_pos less).trans found⟩
    · exact ⟨n + 1,if_neg less⟩

theorem moveSlots_defined (to_ : (dst + n) * c.stride ≤ buf.length) (from_ : (src + n) * c.stride ≤ buf.length) :
    ∃ b,moveSlots c buf dst src n = some b := by
  unfold moveSlots
  split
  · refine memcpy_defined _ _ ?_ ?_
    · rwa [Attr.slotAt,← Nat.add_mul]
    · rwa [Attr.slotAt,← Nat.add_mul]
  · exact ⟨_,rfl⟩

theorem insert_defined (regular : c.regular = true) (sound : Sound c s) (prio : Nat) (short : msg.length ≤ c.msgsize)
    (less : s.count < c.maxmsg) : ∃ s',insert c s msg prio = some s' := by
  obtain ⟨pos,placed⟩ := place_defined regular sound prio sound.count
  have bound := (place_some placed).1
  have all : (s.count + 1) * c.stride ≤ s.buf.length := by
    rw [sound.room]
    exact Nat.mul_le_mul_right c.stride less
  have aligned := slotAt_aligned regular (k := pos) (by omega)
  have fits := sound.fits (k := pos) (by omega)
  unfold Attr.stride at fits
  obtain ⟨b0,moved⟩ : ∃ b,moveSlots c s.buf (pos + 1) pos (s.count - pos) = some b := by
    refine moveSlots_defined ?_ ?_
    · rwa [show pos + 1 + (s.count - pos) = s.count + 1 by omega]
    · rw [show pos + (s.count - pos) = s.count by omega]
      exact Nat.le_trans (Nat.mul_le_mul_right c.stride (Nat.le_succ _)) all
  have length := (moveSlots_some moved).1
  obtain ⟨b1,first⟩ := writeField_defined b0 (o := c.slotAt pos) aligned (by omega) msg.length
  have length := (memcpy_length (writeField_some first)).trans length
  obtain ⟨b2,second⟩ := writeField_defined b1 (o := c.slotAt pos + 4) (by omega) (by omega) prio
  have length := (memcpy_length (writeField_some second)).trans length
  obtain ⟨b3,third⟩ := memcpy_defined (d := c.slotAt pos + 8) (s := 0) (n := msg.length) b2 msg (by omega) (by omega)
  refine ⟨{s with buf := b3,count := s.count + 1},?_⟩
  simp only [insert,placed,moved,first,second,third,Option.bind_eq_bind,Option.bind_some]

theorem remove_defined (sound : Sound c s) (more : 0 < s.count) (enough : c.msgsize ≤ room.length) :
    ∃ x,remove c s room = some x := by
  have fits := sound.fits (k := 0) c.some
  rw [Attr.slotAt,Nat.zero_mul,Nat.zero_add] at fits
  unfold Attr.stride at fits
  obtain ⟨len,measured⟩ := readField_defined s.buf (o := 0) rfl (by omega)
  obtain ⟨prio,ranked⟩ := readField_defined s.buf (o := 4) rfl (by omega)
  have short : len ≤ c.msgsize := by
    rw [readField_some measured]
    have bound := sound.lens 0 more
    rwa [lenOf_slot,Attr.slotAt,Nat.zero_mul] at bound
  obtain ⟨data,copied⟩ := memcpy_defined (d := 0) (s := 8) (n := len) room s.buf (by omega) (by omega)
  obtain ⟨b,moved⟩ : ∃ b,moveSlots c s.buf 0 1 (s.count - 1) = some b := by
    have all : s.count * c.stride ≤ s.buf.length := by
      rw [sound.room]
      exact Nat.mul_le_mul_right c.stride sound.count
    refine moveSlots_defined ?_ ?_
    · exact Nat.le_trans (Nat.mul_le_mul_right c.stride (by omega)) all
    · rwa [show 1 + (s.count - 1) = s.count by omega]
  refine ⟨(len,prio,data,{s with buf := b,count := s.count - 1}),?_⟩
  simp only [remove,measured,ranked,copied,moved,Option.bind_eq_bind,Option.bind_some]

def Agrees : Request I → Answer → List Op → Prop
  | .send _ _ (some msg) prio _,.ok,log => log = [.sent ⟨prio,msg⟩]
  | .receive _ _ (some room) asksPrio _,.received len data prio,log =>
    ∃ m : Message,log = [.received m] ∧ m.data = data.take len ∧ m.data.length = len ∧ data.drop len = room.drop len ∧
      prio = if asksPrio then some m.prio else none
  | .cancelable _ _,.ok,log => log = []
  | _,.failed _,log | _,.exited,log => log = []
  | _,_,_ => False

def Serves (c : Attr) (call : Visit I (Request I) Op) (rest : Rest I) : Prop :=
  call.log = [] ∧ match rest with
    | .sendLocking a | .sendWaiting a =>
      (∃ desc,call.request = .send a.self desc (some a.msg) a.prio a.abstime) ∧ a.msg.length ≤ c.msgsize ∧ a.prio < mqPrioMax
    | .receiveLocking a | .receiveWaiting a =>
      (∃ desc,call.request = .receive a.self desc (some a.room) a.asksPrio a.abstime) ∧ c.msgsize ≤ a.room.length
    | .canceled _ => True

inductive At (c : Attr) (call : Visit I (Request I) Op) : Monitor.Place Cond (Rest I) Answer → Prop where
  | waiting : Serves c call rest → At c call (.waiting q left rest)
  | due : Serves c call rest → At c call (.due q result rest)
  | paused : Serves c call rest → At c call (.paused rest)
  | returned : Agrees call.request a call.log → At c call (.returned a)

structure Acts (c : Attr) (s : State I) (call : Visit I (Request I) Op) (sec : Sect I) : Prop where
  sound : Sound c sec.shared
  refines : ∀ xs,StableQueue.Represents Message.prio (messages c s) xs →
    ∃ ys,sec.log.foldlM (Op.apply c.maxmsg) xs = some ys ∧ StableQueue.Represents Message.prio (messages c sec.shared) ys
  leaves : At c {call with log := call.log ++ sec.log} sec.ending.place

variable {call : Visit I (Request I) Op} {rest : Rest I} {side : Cond}

theorem Agrees.failed (r : Request I) (err : Errno) : Agrees r (.failed err) [] := by
  cases r with
  | send self desc msg => cases msg <;> rfl
  | receive self desc room => cases room <;> rfl
  | cancelable => rfl

theorem Agrees.exited (r : Request I) : Agrees r .exited [] := by
  cases r with
  | send self desc msg => cases msg <;> rfl
  | receive self desc room => cases room <;> rfl
  | cancelable => rfl

section

variable (sound : Sound c s)
include sound

theorem Acts.still {ending : Exit Cond (Rest I) Answer} (leaves : At c call ending.place) :
    Acts c s call {shared := s,ending := ending} := by
  refine ⟨sound,fun xs queue => ⟨xs,rfl,queue⟩,?_⟩
  dsimp only
  rwa [append_nil]

theorem Acts.done (unused : call.log = []) (agrees : Agrees call.request a []) :
    Acts c s call {shared := s,ending := .done a} := by
  rw [← unused] at agrees
  exact .still sound (.returned agrees)

theorem Acts.fail (unused : call.log = []) (err : Errno) : Acts c s call (mqFail s err) :=
  .done sound unused (.failed _ err)

theorem await_acts (serves : Serves c call rest)
    (taken : await c env s side nonblock abstime rest = some sec) : Acts c s call sec := by
  have fails : ∀ {remaining : Int},waitEx env side remaining rest s (fun _ => some (mqFail s .einval)) = some sec →
      Acts c s call sec := by
    intro remaining taken
    rcases waitEx_cases taken with ⟨_,taken⟩ | ⟨_,taken⟩ | ⟨_,same⟩
    · cases taken
      exact .fail sound serves.1 _
    · cases taken
      exact .fail sound serves.1 _
    · rw [same]
      exact .still sound (.waiting serves)
  unfold await at taken
  split at taken
  · cases taken
    exact .fail sound serves.1 _
  · split at taken
    · exact fails taken
    · obtain ⟨timeout,_,taken⟩ := of_bind taken
      split at taken
      · cases taken
        exact .fail sound serves.1 _
      · exact fails taken

theorem enqueue_acts (less : s.count < c.maxmsg) (serves : Serves c call (.sendLocking a))
    (taken : enqueue c s a = some sec) : Acts c s call sec := by
  obtain ⟨unused,⟨desc,asked⟩,short,low⟩ := serves
  obtain ⟨s',made,rfl⟩ := of_map taken
  have fits : a.prio < 4294967296 := Nat.lt_trans low (by decide)
  obtain ⟨kept,_,pos,placed,before,after⟩ := insert_some sound short fits less made
  obtain ⟨bound,below,above⟩ := place_some placed
  refine ⟨kept,?_,.returned ?_⟩
  · intro xs queue
    have room : xs.length < c.maxmsg := by
      rw [← queue.length]
      simpa [messages] using less
    refine ⟨xs ++ [⟨a.prio,a.msg⟩],?_,?_⟩
    · rw [foldlM_cons,Op.apply,if_pos room]
      rfl
    · rw [after]
      have ordered := queue.ordered
      rw [before] at queue
      refine queue.insert ?_ ?_
      · intro x member
        obtain ⟨k,inside,rfl⟩ := mem_map.mp member
        have inside := mem_range.mp inside
        rcases above with none | least
        · omega
        · refine Nat.le_trans least ?_
          by_cases last : k = pos - 1
          · rw [last]
          · have sorted := pairwise_iff_getElem.mp ordered k (pos - 1) (by simp [messages]; omega) (by simp [messages]; omega)
              (by omega)
            simpa [messages] using sorted
      · intro x member
        obtain ⟨i,inside,rfl⟩ := mem_map.mp member
        have inside := mem_range.mp inside
        exact below _ (by omega) (by omega)
  · rw [asked,unused]
    rfl

theorem dequeue_acts (more : 0 < s.count) (serves : Serves c call (.receiveLocking a))
    (taken : dequeue c s a = some sec) : Acts c s call sec := by
  obtain ⟨unused,⟨desc,asked⟩,_⟩ := serves
  obtain ⟨⟨len,prio,data,s'⟩,made,rfl⟩ := of_map taken
  obtain ⟨kept,_,first,enough,rest⟩ := remove_some sound more made
  refine ⟨kept,?_,.returned ?_⟩
  · intro xs queue
    rw [first] at queue
    obtain ⟨next,others⟩ := queue.head
    refine ⟨_,?_,others⟩
    rw [foldlM_cons,Op.apply,if_pos next]
    rfl
  · rw [asked,unused]
    exact ⟨_,rfl,rfl,length_take_of_le enough,rest,rfl⟩

theorem sendLoop_acts (serves : Serves c call (.sendLocking a))
    (taken : sendLoop c env s a = some sec) : Acts c s call sec := by
  unfold sendLoop at taken
  split at taken
  · have serves : Serves c call (.sendWaiting a) := serves
    exact await_acts sound serves taken
  · rename_i less
    exact enqueue_acts sound (Nat.lt_of_not_le less) serves taken

theorem receiveLoop_acts (serves : Serves c call (.receiveLocking a))
    (taken : receiveLoop c env s a = some sec) : Acts c s call sec := by
  unfold receiveLoop at taken
  split at taken
  · have serves : Serves c call (.receiveWaiting a) := serves
    exact await_acts sound serves taken
  · rename_i more
    exact dequeue_acts sound (Nat.pos_of_ne_zero more) serves taken

theorem waited_acts (unused : call.log = []) (taken : waited s self blocked again result = some sec)
    (loops : again = some sec → Acts c s call sec) : Acts c s call sec := by
  cases result with
  | fail =>
    cases taken
    exact .fail sound unused _
  | canceled =>
    unfold waited at taken
    dsimp only at taken
    split at taken
    · cases taken
      have serves : Serves c call (.canceled self) := ⟨unused,trivial⟩
      exact .still sound (.paused serves)
    · exact loops taken
  | timeout =>
    unfold waited at taken
    dsimp only at taken
    split at taken
    · cases taken
      exact .fail sound unused _
    · exact loops taken
  | signal => exact loops taken

theorem resume_acts (serves : Serves c call rest) (resumed : resume c env s rest result = some sec) :
    Acts c s call sec := by
  cases rest with
  | sendLocking a => exact sendLoop_acts sound serves resumed
  | sendWaiting a => exact waited_acts sound serves.1 resumed (sendLoop_acts sound serves)
  | receiveLocking a => exact receiveLoop_acts sound serves resumed
  | receiveWaiting a => exact waited_acts sound serves.1 resumed (receiveLoop_acts sound serves)
  | canceled self =>
    unfold resume at resumed
    dsimp only at resumed
    split at resumed
    · cases resumed
      exact .done sound serves.1 (.exited _)
    · cases resumed
      exact .fail sound serves.1 _

theorem begin_acts (serves : Serves c call rest) : Acts c s call (begin s self nonblock rest) := by
  unfold begin
  split
  · exact .done sound serves.1 (.exited _)
  · exact .still sound (.paused serves)

theorem enter_acts (entered : enter c env s r = some sec) (t : I) (now : Int) :
    Acts c s ⟨t,r,now,[]⟩ sec := by
  cases r with
  | send self desc msg prio abstime =>
    cases entered
    unfold mqSendImpl
    split
    · exact .fail sound rfl _
    · split
      · exact .fail sound rfl _
      · split
        · exact .fail sound rfl _
        · split
          · exact .fail sound rfl _
          · rename_i proper
            split
            · exact .fail sound rfl _
            · rename_i short
              refine begin_acts sound ⟨rfl,⟨_,rfl⟩,Nat.le_of_not_lt short,?_⟩
              exact Nat.lt_of_not_le fun high => proper (.inl high)
  | receive self desc room asksPrio abstime =>
    cases entered
    unfold mqReceiveImpl
    split
    · exact .fail sound rfl _
    · split
      · exact .fail sound rfl _
      · split
        · exact .fail sound rfl _
        · split
          · exact .fail sound rfl _
          · split
            · exact .fail sound rfl _
            · rename_i enough
              exact begin_acts sound ⟨rfl,⟨_,rfl⟩,Nat.le_of_not_lt enough⟩
  | cancelable self pending =>
    cases entered
    exact ⟨⟨sound.room,sound.count,sound.lens⟩,fun xs queue => ⟨xs,rfl,queue⟩,.returned rfl⟩

end

variable {h h' : Queue I}

structure Books (c : Attr) (s : State I) (log : List (I × Op)) : Prop where
  sound : Sound c s
  refines : ∃ xs,(log.map Prod.snd).foldlM (Op.apply c.maxmsg) [] = some xs ∧
    StableQueue.Represents Message.prio (messages c s) xs

def Kept (c : Attr) (h : Queue I) : Prop := Books c h.shared h.log ∧ Hall.Everywhere (At c) h

theorem Books.next (books : Books c s log) (acts : Acts c s call sec) (t : I) :
    Books c sec.shared (log ++ sec.log.map fun o => (t,o)) := by
  obtain ⟨xs,seen,queue⟩ := books.refines
  obtain ⟨ys,does,after⟩ := acts.refines xs queue
  refine ⟨acts.sound,ys,?_,after⟩
  have same : sec.log.map (Prod.snd ∘ fun o => (t,o)) = sec.log := map_id' _
  rw [map_append,foldlM_append,seen,map_map,same]
  exact does

theorem Kept.step (kept : Kept c h) (step : Hall.Step (program c) h e h') : Kept c h' := by
  obtain ⟨books,calls⟩ := kept
  refine step.sound (R := fun _ => At c) books calls ?_ ?_ ?_ ?_
  · intro call x y ticks known
    cases ticks with
    | on => cases known with | waiting serves => exact .waiting serves
    | out => cases known with | waiting serves => exact .due serves
    | due | paused => exact known
  · intro call side left result rest _ (.waiting serves)
    exact .due serves
  · intro t r isr refused sec _ entered
    have entered : enter c ⟨h.now,isr,refused⟩ h.shared r = some sec := entered
    have acts := enter_acts books.sound entered t h.now
    exact ⟨books.next acts t,acts.leaves⟩
  · intro call x rest result refused sec back known resumed
    have serves : Serves c call rest := by
      cases back with
      | run => cases known with | due serves => exact serves
      | proceed => cases known with | paused serves => exact serves
    have acts := resume_acts books.sound serves resumed
    exact ⟨books.next acts _,acts.leaves⟩

theorem Kept.start (regular : c.regular = true) (whole : buf.length = c.bytes) (now : Int) (pending : I → Bool) :
    Kept c (opened now buf pending) := by
  obtain ⟨_,fits⟩ := of_decide_eq_true regular
  refine ⟨⟨⟨?_,Nat.zero_le _,nofun⟩,[],rfl,.nil⟩,.start rfl rfl⟩
  show buf.length = c.maxmsg * c.stride
  rw [whole,Attr.bytes,Nat.mod_eq_of_lt fits,Nat.mul_comm]

theorem stable_priority_queue (regular : c.regular = true) (whole : buf.length = c.bytes)
    (run : Run (Hall.step (program c)) (fun _ _ => True) (opened now buf pending) h) :
    (∃ arrivals,(h.log.map Prod.snd).foldlM (Op.apply c.maxmsg) [] = some arrivals ∧
        StableQueue.Represents Message.prio (messages c h.shared) arrivals) ∧
      h.shared.count ≤ c.maxmsg ∧
      (∀ r,h.returned = some r → Agrees r.call.request r.answer r.call.log) ∧
      (∀ msg prio,msg.length ≤ c.msgsize → h.shared.count < c.maxmsg → (insert c h.shared msg prio).isSome = true) ∧
      (∀ room,c.msgsize ≤ room.length → 0 < h.shared.count → (remove c h.shared room).isSome = true) := by
  have kept : Kept c h := by
    refine run.keeps (Kept.start regular whole now pending) ?_
    intro h e h' before _ stepped
    exact before.step (Hall.step_inv stepped)
  obtain ⟨books,calls⟩ := kept
  refine ⟨books.refines,books.sound.count,?_,?_,?_⟩
  · intro r ended
    cases calls.returned r ended with
    | returned agrees => exact agrees
  · intro msg prio short less
    exact Option.isSome_iff_exists.mpr (insert_defined regular books.sound prio short less)
  · intro room enough more
    exact Option.isSome_iff_exists.mpr (remove_defined books.sound more enough)

def pair : Attr := ⟨2,4,1000,by decide,by decide,by decide⟩

def readWrite : Option Desc := some ⟨.rdwr,false⟩

def urgentSecond : List (Happening Nat (Request Nat)) :=
  [.call 0 (.send 0 readWrite (some [7,8]) 1 none) false false,.call 1 (.send 1 readWrite (some [9]) 5 none) false false,
    .proceed 0 false,.proceed 1 false,.call 2 (.receive 2 readWrite (some [0,0,0,0]) true none) false false,.proceed 2 false]

theorem urgentSecond_first : ∃ h : Queue Nat,
    exec (Hall.step (program pair)) (opened 0 (List.replicate 24 0) fun _ => false) urgentSecond = some h ∧
      h.log = [(0,.sent ⟨1,[7,8]⟩),(1,.sent ⟨5,[9]⟩),(2,.received ⟨5,[9]⟩)] ∧ messages pair h.shared = [⟨1,[7,8]⟩] ∧
      ∃ arrivals,(h.log.map Prod.snd).foldlM (Op.apply 2) [] = some arrivals ∧
        StableQueue.Represents Message.prio (messages pair h.shared) arrivals := by
  refine exec_shows (P := fun h => h.log = [(0,.sent ⟨1,[7,8]⟩),(1,.sent ⟨5,[9]⟩),(2,.received ⟨5,[9]⟩)] ∧
    messages pair h.shared = [⟨1,[7,8]⟩]) (by decide +kernel) ?_
  intro h ran ⟨seen,left⟩
  exact ⟨seen,left,(stable_priority_queue (by decide) (by decide) (Run.ofExec ran)).1⟩

-- With messages of five bytes the second header is not aligned, and two messages of 2147483644
-- bytes get eight bytes.
def odd : Attr := ⟨2,5,1000,by decide,by decide,by decide⟩
def huge : Attr := ⟨2,2147483644,1000,by decide,by decide,by decide⟩

def sends (n : Nat) : List (Happening Nat (Request Nat)) :=
  (List.range n).flatMap fun t => [.call t (.send t readWrite (some [7]) 0 none) false false,.proceed t false]

theorem slot_undefined :
    (∃ h : Queue Nat,exec (Hall.step (program odd)) (opened 0 (List.replicate odd.bytes 0) fun _ => false) (sends 1) = some h ∧
      h.shared.count < odd.maxmsg ∧
      (h.step (program odd) (.call 1 (.send 1 readWrite (some [7]) 0 none) false false)).isSome = true ∧
      exec (Hall.step (program odd)) (opened 0 (List.replicate odd.bytes 0) fun _ => false) (sends 2) = none) ∧
    huge.bytes = 8 ∧
      exec (Hall.step (program huge)) (opened 0 (List.replicate huge.bytes 0) fun _ => false) (sends 1) = none := by
  refine ⟨exec_shows (P := fun h => h.shared.count < odd.maxmsg ∧
    (h.step (program odd) (.call 1 (.send 1 readWrite (some [7]) 0 none) false false)).isSome = true) (by decide +kernel) ?_,
    by decide,Option.isNone_iff_eq_none.mp (by decide +kernel)⟩
  intro h _ ⟨room,steps⟩
  exact ⟨room,steps,Option.isNone_iff_eq_none.mp (by decide +kernel)⟩

end SuperTinyKernel.Posix.Mq
