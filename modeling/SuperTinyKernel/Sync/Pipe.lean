import SuperTinyKernel.Library.SlotRing
import SuperTinyKernel.Library.Supply
import SuperTinyKernel.Sync.Wait

set_option linter.unusedSectionVars false

namespace SuperTinyKernel.Pipe

open Monitor SlotRing

-- sync::Pipe and sync::PipeT: a buffer of bytes, or of elements that are cells.

structure Shape where
  capacity : Nat
  size : Nat
  byElement : Bool
  holds : 0 < capacity
  sized : 0 < size

def pipe (capacity size : Nat) (holds : 0 < capacity) (sized : 0 < size) : Shape := ⟨capacity,size,false,holds,sized⟩

-- PipeT<T, N> copies element by element if T is no scalar or N is small.
def pipeT (n : Nat) (scalar : Bool) (holds : 0 < n) : Shape := ⟨n,1,!scalar || decide (n < 8),holds,Nat.one_pos⟩

variable {β : Type} {p : Shape}

-- A source or a destination may be null in the calls for many elements. PipeT has no
-- ReadBulkTriggered.
inductive Request (β : Type) where
  | write (data : List β) (timeout : Int)
  | writeBulk (src : Option (List β)) (count : Nat) (timeout : Int)
  | read (data : List β) (timeout : Int)
  | readBulk (dst : Option (List β)) (count : Nat) (timeout : Int)
  | readBulkTriggered (dst : Option (List β)) (trigger maxCount : Nat) (timeout : Int)
  | reset
  deriving DecidableEq,Repr

-- m_cv_not_empty and m_cv_not_full.
inductive Cond where
  | notEmpty | notFull
  deriving DecidableEq,Repr

inductive Rest (β : Type) where
  | writing (data : List β) (deadline : Deadline)
  | writingBulk (src : List β) (count written : Nat) (deadline : Deadline)
  | reading (data : List β) (deadline : Deadline)
  | readingBulk (dst : List β) (count readCount : Nat) (deadline : Deadline)
  | triggered (dst : List β) (trigger maxCount : Nat) (deadline : Deadline)
  deriving DecidableEq,Repr

inductive Answer (β : Type) where
  | single (result : Wakeup) (data : List β)
  | bulk (result : Wakeup) (count : Nat) (data : List β)
  deriving DecidableEq,Repr

inductive Note (β : Type) where
  | wrote (elements : List (List β))
  | read (elements : List (List β))
  | reset
  deriving DecidableEq,Repr

abbrev Sect (β : Type) := Section (SlotRing β) Cond (Rest β) (Answer β) (Note β)
abbrev Channel (T β : Type) := Hall T (Request β) (SlotRing β) Cond (Rest β) (Answer β) (Note β)

def Shape.slotAt (p : Shape) (idx : Nat) : Nat := idx * p.size
def Shape.next (p : Shape) (idx : Nat) : Nat := (idx + 1) % p.capacity

def fillLoop (p : Shape) (src : List β) : Nat → SlotRing β → Nat → Option (SlotRing β)
  | 0,s,_ => some s
  | n + 1,s,written => do
      let buffer ← memcpy s.buffer (p.slotAt s.head) src (written * p.size) p.size
      fillLoop p src n {s with buffer := buffer,head := p.next s.head,count := s.count + 1} (written + 1)

def drainLoop (p : Shape) : Nat → SlotRing β → List β → Nat → Option (SlotRing β × List β)
  | 0,s,dst,_ => some (s,dst)
  | n + 1,s,dst,readCount => do
      let dst ← memcpy dst (readCount * p.size) s.buffer (p.slotAt s.tail) p.size
      drainLoop p n {s with tail := p.next s.tail,count := s.count - 1} dst (readCount + 1)

def fillBlock (p : Shape) (src : List β) (n : Nat) (s : SlotRing β) (written : Nat) : Option (SlotRing β) :=
  (copyIn p.capacity p.size s.buffer s.head src written n).map fun buffer =>
    {s with buffer := buffer,head := (s.head + n) % p.capacity,count := s.count + n}

def drainBlock (p : Shape) (n : Nat) (s : SlotRing β) (dst : List β) (readCount : Nat) : Option (SlotRing β × List β) :=
  (copyOut p.capacity p.size s.buffer s.tail dst readCount n).map fun dst =>
    ({s with tail := (s.tail + n) % p.capacity,count := s.count - n},dst)

def writeChunk (p : Shape) (src : List β) (n : Nat) (s : SlotRing β) (written : Nat) : Option (SlotRing β) :=
  if p.byElement then fillLoop p src n s written else fillBlock p src n s written

def readChunk (p : Shape) (n : Nat) (s : SlotRing β) (dst : List β) (readCount : Nat) : Option (SlotRing β × List β) :=
  if p.byElement then drainLoop p n s dst readCount else drainBlock p n s dst readCount

def writeEx (p : Shape) (env : Ambient) (s : SlotRing β) (data : List β) (deadline : Deadline) : Option (Sect β) :=
  waitWhile env (decide (s.count = p.capacity)) .notFull deadline (.writing data deadline) s
    (fun result => some {shared := s,ending := .done (.single result [])}) do
    let buffer ← memcpy s.buffer (p.slotAt s.head) data 0 p.size
    some {shared := {s with buffer := buffer,head := p.next s.head,count := s.count + 1},
          notices := [.one .notEmpty],log := [.wrote [data.take p.size]],ending := .done (.single .signal [])}

-- The outer loop of WriteBulkEx. Every pass writes some elements.
def writeBulkLoop (p : Shape) (env : Ambient) (src : List β) (count : Nat) (deadline : Deadline) :
    Nat → SlotRing β → Nat → Option (Sect β)
  | 0,_,_ => none
  | fuel + 1,s,written =>
    if written < count then
      waitWhile env (decide (s.count = p.capacity)) .notFull deadline (.writingBulk src count written deadline) s
        (fun result => some {shared := s,ending := .done (.bulk result written [])}) do
        let available := p.capacity - s.count
        let toWrite := if count - written < available then count - written else available
        let t ← writeChunk p src toWrite s written
        let sec ← writeBulkLoop p env src count deadline fuel t (written + toWrite)
        some (sec.after [.all .notEmpty] [.wrote (slots p.size src written toWrite)])
    else some {shared := s,ending := .done (.bulk .signal written [])}

def readEx (p : Shape) (env : Ambient) (s : SlotRing β) (data : List β) (deadline : Deadline) : Option (Sect β) :=
  waitWhile env (decide (s.count = 0)) .notEmpty deadline (.reading data deadline) s
    (fun result => some {shared := s,ending := .done (.single result data)}) do
    let data ← memcpy data 0 s.buffer (p.slotAt s.tail) p.size
    some {shared := {s with tail := p.next s.tail,count := s.count - 1},
          notices := [.one .notFull],log := [.read [data.take p.size]],ending := .done (.single .signal data)}

def readBulkLoop (p : Shape) (env : Ambient) (count : Nat) (deadline : Deadline) :
    Nat → SlotRing β → List β → Nat → Option (Sect β)
  | 0,_,_,_ => none
  | fuel + 1,s,dst,readCount =>
    if readCount < count then
      waitWhile env (decide (s.count = 0)) .notEmpty deadline (.readingBulk dst count readCount deadline) s
        (fun result => some {shared := s,ending := .done (.bulk result readCount dst)}) do
        let toRead := if count - readCount < s.count then count - readCount else s.count
        let out ← readChunk p toRead s dst readCount
        let sec ← readBulkLoop p env count deadline fuel out.1 out.2 (readCount + toRead)
        some (sec.after [.all .notFull] [.read (slots p.size out.2 readCount toRead)])
    else some {shared := s,ending := .done (.bulk .signal readCount dst)}

-- DrainLocked as the end of ReadBulkTriggeredEx, also after a failed wait.
def drainLocked (p : Shape) (s : SlotRing β) (dst : List β) (maxCount : Nat) (result : Wakeup) : Option (Sect β) := do
  let toRead := min maxCount s.count
  let out ← readChunk p toRead s dst 0
  some {shared := out.1,notices := [.all .notFull],log := [.read (slots p.size out.2 0 toRead)],
        ending := .done (.bulk result toRead out.2)}

def readBulkTriggeredEx (p : Shape) (env : Ambient) (s : SlotRing β) (dst : List β) (trigger maxCount : Nat)
    (deadline : Deadline) : Option (Sect β) :=
  waitWhile env (decide (s.count < trigger)) .notEmpty deadline (.triggered dst trigger maxCount deadline) s
    (drainLocked p s dst maxCount) (drainLocked p s dst maxCount .signal)

def reset (s : SlotRing β) : Sect β :=
  {shared := {s with count := 0,head := 0,tail := 0},notices := [.all .notFull],log := [.reset],
   ending := .done (.bulk .signal 0 [])}

-- trigger must be in [1, max_count]
def clamp (trigger maxCount : Nat) : Nat :=
  let trigger := if trigger = 0 then 1 else trigger
  if trigger > maxCount then maxCount else trigger

-- The calls for many elements take their deadline before they enter the critical section.
def enter (p : Shape) (env : Ambient) (s : SlotRing β) : Request β → Option (Sect β)
  | .write data timeout => writeEx p env s data (.of env.now timeout)
  | .writeBulk none _ _ => some {shared := s,ending := .done (.bulk .fail 0 [])}
  | .writeBulk (some src) count timeout =>
    if count = 0 then some {shared := s,ending := .done (.bulk .signal 0 [])}
    else some {shared := s,ending := .pause (.writingBulk src count 0 (.of env.now timeout))}
  | .read data timeout => readEx p env s data (.of env.now timeout)
  | .readBulk none _ _ => some {shared := s,ending := .done (.bulk .fail 0 [])}
  | .readBulk (some dst) count timeout =>
    if count = 0 then some {shared := s,ending := .done (.bulk .signal 0 dst)}
    else some {shared := s,ending := .pause (.readingBulk dst count 0 (.of env.now timeout))}
  | .readBulkTriggered none _ _ _ => some {shared := s,ending := .done (.bulk .fail 0 [])}
  | .readBulkTriggered (some dst) trigger maxCount timeout =>
    if maxCount = 0 then some {shared := s,ending := .done (.bulk .signal 0 dst)}
    else some {shared := s,ending := .pause (.triggered dst (clamp trigger maxCount) maxCount (.of env.now timeout))}
  | .reset => some (reset s)

def resume (p : Shape) (env : Ambient) (s : SlotRing β) : Rest β → Wakeup → Option (Sect β)
  | .writing data deadline,.signal => writeEx p env s data deadline
  | .writing _ _,result => some {shared := s,ending := .done (.single result [])}
  | .writingBulk src count written deadline,.signal => writeBulkLoop p env src count deadline (count + 1) s written
  | .writingBulk _ _ written _,result => some {shared := s,ending := .done (.bulk result written [])}
  | .reading data deadline,.signal => readEx p env s data deadline
  | .reading data _,result => some {shared := s,ending := .done (.single result data)}
  | .readingBulk dst count readCount deadline,.signal => readBulkLoop p env count deadline (count + 1) s dst readCount
  | .readingBulk dst _ readCount _,result => some {shared := s,ending := .done (.bulk result readCount dst)}
  | .triggered dst trigger maxCount deadline,.signal => readBulkTriggeredEx p env s dst trigger maxCount deadline
  | .triggered dst _ maxCount _,result => drainLocked p s dst maxCount result

def program (p : Shape) : Program (Request β) (SlotRing β) Cond (Rest β) (Answer β) (Note β) := ⟨enter p,resume p⟩

def initial (now : Int) (buffer : List β) : Channel T β := {now := now,shared := {buffer := buffer}}

section Copying

variable {s t : SlotRing β} {src dst : List β} {n written readCount : Nat}

theorem fillLoop_filled (inside : s.head < p.capacity) (few : n ≤ p.capacity) (taken : fillLoop p src n s written = some t) :
    Filled p.capacity p.size s.buffer s.head src written n t.buffer ∧ t = s.appended p.capacity t.buffer n := by
  induction n generalizing s written with
  | zero =>
    cases taken
    refine ⟨.nil,?_⟩
    rw [appended,Nat.add_zero,Nat.add_zero,Nat.mod_eq_of_lt inside]
  | succ n ih =>
    obtain ⟨b,copied,taken⟩ := of_bind taken
    obtain ⟨filled,same⟩ := ih (Nat.mod_lt _ p.holds) (by omega) taken
    refine ⟨.cons inside few copied filled,?_⟩
    rw [same]
    unfold appended Shape.next
    rw [Nat.mod_add_mod,Nat.add_assoc,Nat.add_assoc,Nat.add_comm 1 n]

theorem fillBlock_filled (inside : s.head < p.capacity) (few : n ≤ p.capacity) (taken : fillBlock p src n s written = some t) :
    Filled p.capacity p.size s.buffer s.head src written n t.buffer ∧ t = s.appended p.capacity t.buffer n := by
  obtain ⟨b,copied,same⟩ := of_map taken
  cases same
  exact ⟨copyIn_filled inside few copied,rfl⟩

theorem writeChunk_filled (inside : s.head < p.capacity) (few : n ≤ p.capacity) (taken : writeChunk p src n s written = some t) :
    Filled p.capacity p.size s.buffer s.head src written n t.buffer ∧ t = s.appended p.capacity t.buffer n := by
  unfold writeChunk at taken
  split at taken
  · exact fillLoop_filled inside few taken
  · exact fillBlock_filled inside few taken

theorem drainLoop_drained (inside : s.tail < p.capacity) (taken : drainLoop p n s dst readCount = some out) :
    Drained p.capacity p.size s.buffer s.tail dst readCount n out.2 ∧ out.1 = s.dropped p.capacity n := by
  induction n generalizing s dst readCount with
  | zero =>
    cases taken
    refine ⟨.nil,?_⟩
    rw [dropped,Nat.add_zero,Nat.sub_zero,Nat.mod_eq_of_lt inside]
  | succ n ih =>
    obtain ⟨b,copied,taken⟩ := of_bind taken
    obtain ⟨drained,same⟩ := ih (Nat.mod_lt _ p.holds) taken
    refine ⟨.cons inside copied drained,?_⟩
    rw [same]
    unfold dropped Shape.next
    rw [Nat.mod_add_mod,Nat.add_assoc,Nat.sub_sub,Nat.add_comm 1 n]

theorem drainBlock_drained (inside : s.tail < p.capacity) (few : n ≤ p.capacity)
    (taken : drainBlock p n s dst readCount = some out) :
    Drained p.capacity p.size s.buffer s.tail dst readCount n out.2 ∧ out.1 = s.dropped p.capacity n := by
  obtain ⟨b,copied,same⟩ := of_map taken
  cases same
  exact ⟨copyOut_drained inside few copied,rfl⟩

theorem readChunk_drained (inside : s.tail < p.capacity) (few : n ≤ p.capacity)
    (taken : readChunk p n s dst readCount = some out) :
    Drained p.capacity p.size s.buffer s.tail dst readCount n out.2 ∧ out.1 = s.dropped p.capacity n := by
  unfold readChunk at taken
  split at taken
  · exact drainLoop_drained inside taken
  · exact drainBlock_drained inside few taken

theorem fillLoop_defined (inside : s.head < p.capacity) (room : s.buffer.length = p.capacity * p.size)
    (given : (written + n) * p.size ≤ src.length) : ∃ t,fillLoop p src n s written = some t := by
  induction n generalizing s written with
  | zero => exact ⟨s,rfl⟩
  | succ n ih =>
    have slot := slots_fit (show s.head + 1 ≤ p.capacity from inside) room.ge
    have cell := slots_fit (show written + 1 ≤ written + (n + 1) by omega) given
    rw [Nat.one_mul] at slot cell
    obtain ⟨b,copied⟩ := memcpy_defined s.buffer src slot cell
    have sum : written + 1 + n = written + (n + 1) := by omega
    have next : ∃ t,fillLoop p src n {s with buffer := b,head := p.next s.head,count := s.count + 1} (written + 1) = some t :=
      ih (Nat.mod_lt _ p.holds) ((memcpy_length copied).trans room) (by rwa [sum])
    obtain ⟨t,taken⟩ := next
    exact ⟨t,by rw [fillLoop,Shape.slotAt,copied]; exact taken⟩

theorem drainLoop_defined (inside : s.tail < p.capacity) (whole : s.buffer.length = p.capacity * p.size)
    (room : (readCount + n) * p.size ≤ dst.length) : ∃ out,drainLoop p n s dst readCount = some out := by
  induction n generalizing s dst readCount with
  | zero => exact ⟨(s,dst),rfl⟩
  | succ n ih =>
    have slot := slots_fit (show s.tail + 1 ≤ p.capacity from inside) whole.ge
    have cell := slots_fit (show readCount + 1 ≤ readCount + (n + 1) by omega) room
    rw [Nat.one_mul] at slot cell
    obtain ⟨b,copied⟩ := memcpy_defined dst s.buffer cell slot
    have sum : readCount + 1 + n = readCount + (n + 1) := by omega
    have next : ∃ out,drainLoop p n {s with tail := p.next s.tail,count := s.count - 1} b (readCount + 1) = some out :=
      ih (Nat.mod_lt _ p.holds) whole (by rwa [sum,memcpy_length copied])
    obtain ⟨out,taken⟩ := next
    exact ⟨out,by rw [drainLoop,Shape.slotAt,copied]; exact taken⟩

theorem fillLoop_eq_fillBlock (valid : Valid p.capacity p.size s) (few : n ≤ p.capacity)
    (given : (written + n) * p.size ≤ src.length) : fillLoop p src n s written = fillBlock p src n s written := by
  obtain ⟨t,looped⟩ := fillLoop_defined (n := n) valid.head_lt valid.room given
  obtain ⟨b,copied⟩ := copyIn_defined valid.head_lt few valid.room given
  obtain ⟨filled,same⟩ := fillLoop_filled valid.head_lt few looped
  have equal := filled.ext p.sized valid.head_lt valid.room (copyIn_filled valid.head_lt few copied)
  rw [looped,fillBlock,copied,same,equal]
  rfl

theorem drainLoop_eq_drainBlock (valid : Valid p.capacity p.size s) (few : n ≤ p.capacity)
    (room : (readCount + n) * p.size ≤ dst.length) : drainLoop p n s dst readCount = drainBlock p n s dst readCount := by
  obtain ⟨out,looped⟩ := drainLoop_defined (n := n) valid.tail valid.room room
  obtain ⟨b,copied⟩ := copyOut_defined valid.tail few valid.room room
  obtain ⟨drained,same⟩ := drainLoop_drained valid.tail looped
  have equal := drained.ext p.sized (copyOut_drained valid.tail few copied)
  rw [looped,drainBlock,copied,← equal]
  exact congrArg some (Prod.ext same rfl)

end Copying

inductive Move (p : Shape) (s t : SlotRing β) : List (Notification Cond) → List (Note β) → Prop where
  | still : t = s → Move p s t [] []
  | wroteOne : t.contents p.capacity p.size = s.contents p.capacity p.size ++ xs → xs.length = 1 →
      Move p s t [.one .notEmpty] [.wrote xs]
  | wrote : t.contents p.capacity p.size = s.contents p.capacity p.size ++ xs → Move p s t [.all .notEmpty] [.wrote xs]
  | readOne : s.contents p.capacity p.size = xs ++ t.contents p.capacity p.size → xs.length = 1 →
      Move p s t [.one .notFull] [.read xs]
  | read : s.contents p.capacity p.size = xs ++ t.contents p.capacity p.size → Move p s t [.all .notFull] [.read xs]

def Rest.cond : Rest β → Cond
  | .writing _ _ | .writingBulk _ _ _ _ => .notFull
  | .reading _ _ | .readingBulk _ _ _ _ | .triggered _ _ _ _ => .notEmpty

def Rest.need : Rest β → Nat
  | .triggered _ trigger _ _ => trigger
  | _ => 1

def Rest.deadline : Rest β → Deadline
  | .writing _ d | .writingBulk _ _ _ d | .reading _ d | .readingBulk _ _ _ d | .triggered _ _ _ d => d

def Rest.moved : Rest β → Nat
  | .writingBulk _ _ written _ => written
  | .readingBulk _ _ readCount _ => readCount
  | _ => 0

def Rest.proper : Rest β → Prop
  | .writingBulk _ count written _ => written < count
  | .readingBulk _ count readCount _ => readCount < count
  | .triggered _ trigger maxCount _ => 1 ≤ trigger ∧ trigger ≤ maxCount
  | _ => True

theorem Rest.need_pos {rest : Rest β} (proper : rest.proper) : 0 < rest.need := by
  cases rest with
  | writing | writingBulk | reading | readingBulk => exact Nat.one_pos
  | triggered => exact proper.1

def Rest.stuck (p : Shape) (s : SlotRing β) : Rest β → Bool
  | .writing _ _ => decide (s.count = p.capacity)
  | .writingBulk _ count written _ => decide (p.capacity - s.count < count - written)
  | .reading _ _ => decide (s.count = 0)
  | .readingBulk _ count readCount _ => decide (s.count < count - readCount)
  | .triggered _ trigger _ _ => decide (s.count < trigger)

def level (p : Shape) (s : SlotRing β) : Cond → Nat
  | .notEmpty => s.count
  | .notFull => p.capacity - s.count

def Note.size : Note β → Nat
  | .wrote xs | .read xs => xs.length
  | .reset => 0

def transferred (log : List (Note β)) : Nat := (log.map Note.size).sum

def Answer.result : Answer β → Wakeup
  | .single result _ | .bulk result _ _ => result

def Answer.reported : Answer β → Nat
  | .single result _ => if result = .signal then 1 else 0
  | .bulk _ count _ => count

inductive Continues : Rest β → Rest β → Prop where
  | same : Continues r r
  | write : written' < all → Continues (.writingBulk src all written d) (.writingBulk src all written' d)
  | read : readCount' < all → Continues (.readingBulk dst all readCount d) (.readingBulk dst' all readCount' d)

inductive Ended (p : Shape) (env : Ambient) (s : SlotRing β) (rest : Rest β) (result : Wakeup) (sec : Sect β) : Prop where
  | done (a : Answer β) : sec.ending = .done a → a.reported = rest.moved + transferred sec.log →
      (a.result = .timeout → result = .timeout ∨
        result = .signal ∧ rest.stuck p s = true ∧ rest.deadline.remaining env.now = some noWait) →
      Ended p env s rest result sec
  | waits (r : Rest β) (remaining : Int) : result = .signal → rest.stuck p s = true →
      rest.deadline.remaining env.now = some remaining → remaining ≠ noWait →
      sec.ending = .wait rest.cond (ticksLeft remaining) r → Continues rest r →
      r.moved = rest.moved + transferred sec.log → level p sec.shared rest.cond < r.need → Ended p env s rest result sec

def Rest.writesOne : Rest β → Bool
  | .writing _ _ => true
  | _ => false

structure Act (p : Shape) (env : Ambient) (s : SlotRing β) (rest : Rest β) (result : Wakeup) (sec : Sect β) : Prop where
  valid : Valid p.capacity p.size sec.shared
  move : Move p s sec.shared sec.notices sec.log
  less : level p sec.shared rest.cond ≤ level p s rest.cond
  used : result = .signal →
    level p sec.shared rest.cond + rest.need ≤ level p s rest.cond ∨ level p s rest.cond < rest.need
  alone : sec.notices = [.one .notEmpty] → rest.writesOne = true ∧ result = .signal
  ended : Ended p env s rest result sec

variable {s t : SlotRing β} {src dst : List β} {sec : Sect β} {rest : Rest β} {n written readCount count : Nat}

section

variable (valid : Valid p.capacity p.size s)
include valid

theorem write_move (fits : s.count + n ≤ p.capacity)
    (taken : writeChunk p src n s written = some t) :
    Valid p.capacity p.size t ∧ t.count = s.count + n ∧
      t.contents p.capacity p.size = s.contents p.capacity p.size ++ slots p.size src written n := by
  obtain ⟨filled,same⟩ := writeChunk_filled valid.head_lt (by omega) taken
  obtain ⟨kept,contents⟩ := valid.append fits filled
  rw [← same] at kept contents
  exact ⟨kept,by rw [same]; rfl,contents⟩

theorem read_move (some : n ≤ s.count)
    (taken : readChunk p n s dst readCount = .some out) :
    Valid p.capacity p.size out.1 ∧ out.1.count = s.count - n ∧
      s.contents p.capacity p.size = slots p.size out.2 readCount n ++ out.1.contents p.capacity p.size := by
  obtain ⟨drained,same⟩ := readChunk_drained valid.tail (Nat.le_trans some valid.count) taken
  obtain ⟨kept,contents⟩ := valid.drop some
  rw [← same] at kept contents
  refine ⟨kept,by rw [same]; rfl,?_⟩
  rw [drained.first some,contents,List.take_append_drop]

theorem writeEx_act (taken : writeEx p env s data deadline = some sec) :
    Act p env s (.writing data deadline) .signal sec := by
  have few := valid.count
  cases waitWhile_inv taken with
  | goes free taken =>
    have free := of_decide_eq_false free
    obtain ⟨b,copied,taken⟩ := of_bind taken
    cases taken
    obtain ⟨kept,contents⟩ := valid.append (by omega : s.count + 1 ≤ p.capacity) (memcpy_filled valid.head_lt copied)
    rw [slots_one,slot_zero] at contents
    refine ⟨kept,.wroteOne contents rfl,?_,fun _ => .inl ?_,fun _ => ⟨rfl,rfl⟩,.done _ rfl rfl nofun⟩
    · show p.capacity - (s.count + 1) ≤ p.capacity - s.count
      omega
    · show p.capacity - (s.count + 1) + 1 ≤ p.capacity - s.count
      omega
  | fails result full other taken onTime =>
    cases taken
    have zero : p.capacity - s.count < 1 := by
      have full := of_decide_eq_true full
      omega
    refine ⟨valid,.still rfl,Nat.le_refl _,fun _ => .inr zero,nofun,.done _ rfl (if_neg other) ?_⟩
    intro late
    exact .inr ⟨rfl,full,onTime late⟩
  | waits remaining full left more same =>
    cases same
    have zero : p.capacity - s.count < 1 := by
      have full := of_decide_eq_true full
      omega
    exact ⟨valid,.still rfl,Nat.le_refl _,fun _ => .inr zero,nofun,.waits _ remaining rfl full left more rfl .same rfl zero⟩

theorem readEx_act (taken : readEx p env s data deadline = some sec) :
    Act p env s (.reading data deadline) .signal sec := by
  cases waitWhile_inv taken with
  | goes free taken =>
    have some : 0 < s.count := Nat.pos_of_ne_zero (of_decide_eq_false free)
    obtain ⟨b,copied,taken⟩ := of_bind taken
    cases taken
    obtain ⟨kept,contents⟩ := valid.drop some
    have first : s.contents p.capacity p.size = [b.take p.size] ++ (s.dropped p.capacity 1).contents p.capacity p.size := by
      rw [contents,← valid.copied_first some copied,List.take_append_drop]
    refine ⟨kept,.readOne first rfl,Nat.sub_le _ _,fun _ => .inl ?_,nofun,.done _ rfl rfl nofun⟩
    show s.count - 1 + 1 ≤ s.count
    omega
  | fails result empty other taken onTime =>
    cases taken
    have zero : s.count < 1 := by
      rw [of_decide_eq_true empty]
      exact Nat.one_pos
    refine ⟨valid,.still rfl,Nat.le_refl _,fun _ => .inr zero,nofun,.done _ rfl (if_neg other) ?_⟩
    intro late
    exact .inr ⟨rfl,empty,onTime late⟩
  | waits remaining empty left more same =>
    cases same
    have zero : s.count < 1 := by
      rw [of_decide_eq_true empty]
      exact Nat.one_pos
    exact ⟨valid,.still rfl,Nat.le_refl _,fun _ => .inr zero,nofun,.waits _ remaining rfl empty left more rfl .same rfl zero⟩

end

theorem writeBulk_blocked (full : t.count = p.capacity) (more : written < count)
    (taken : writeBulkLoop p env src count deadline (fuel + 1) t written = some sec) :
    (∃ result,result ≠ .signal ∧ sec = {shared := t,ending := .done (.bulk result written [])} ∧
        (result = .timeout → deadline.remaining env.now = some noWait)) ∨
      ∃ remaining,deadline.remaining env.now = some remaining ∧ remaining ≠ noWait ∧
        sec = {shared := t,ending := .wait .notFull (ticksLeft remaining) (.writingBulk src count written deadline)} := by
  rw [writeBulkLoop,if_pos more] at taken
  cases waitWhile_inv taken with
  | goes free => exact absurd full (of_decide_eq_false free)
  | fails result _ other taken onTime => cases taken; exact .inl ⟨result,other,rfl,onTime⟩
  | waits remaining _ left more same => exact .inr ⟨remaining,left,more,same⟩

theorem writeBulkLoop_act (valid : Valid p.capacity p.size s) (unfinished : written < count)
    (taken : writeBulkLoop p env src count deadline (count + 1) s written = some sec) :
    Act p env s (.writingBulk src count written deadline) .signal sec := by
  have few := valid.count
  obtain ⟨fuel,rfl⟩ : ∃ fuel,count = fuel + 1 := ⟨count - 1,by omega⟩
  by_cases full : s.count = p.capacity
  · have zero : p.capacity - s.count < 1 := by omega
    have stuck : (Rest.writingBulk src (fuel + 1) written deadline).stuck p s = true := decide_eq_true (by omega)
    rcases writeBulk_blocked full unfinished taken with ⟨result,other,rfl,onTime⟩ | ⟨remaining,left,more,rfl⟩
    · refine ⟨valid,.still rfl,Nat.le_refl _,fun _ => .inr zero,nofun,.done _ rfl rfl ?_⟩
      exact fun late => .inr ⟨rfl,stuck,onTime late⟩
    · exact ⟨valid,.still rfl,Nat.le_refl _,fun _ => .inr zero,nofun,.waits _ remaining rfl stuck left more rfl .same rfl zero⟩
  · rw [writeBulkLoop,if_pos unfinished,waitWhile,decide_eq_false full] at taken
    obtain ⟨t,chunk,taken⟩ := of_bind taken
    obtain ⟨later,looped,taken⟩ := of_bind taken
    cases taken
    generalize amount : (if fuel + 1 - written < p.capacity - s.count then fuel + 1 - written else p.capacity - s.count) = n at *
    have some : 1 ≤ n ∧ s.count + n ≤ p.capacity ∧ written + n ≤ fuel + 1 := by
      rw [← amount]
      split <;> omega
    obtain ⟨kept,grown,contents⟩ := write_move valid some.2.1 chunk
    have less : p.capacity - t.count ≤ p.capacity - s.count := by omega
    have used : p.capacity - t.count + 1 ≤ p.capacity - s.count := by omega
    by_cases more : written + n < fuel + 1
    · -- What is left has found no room.
      have full : t.count = p.capacity := by
        split at amount <;> omega
      have stuck : (Rest.writingBulk src (fuel + 1) written deadline).stuck p s = true := by
        refine decide_eq_true ?_
        omega
      rcases writeBulk_blocked full more looped with ⟨result,other,rfl,onTime⟩ | ⟨remaining,left,more',rfl⟩
      · refine ⟨kept,.wrote contents,less,fun _ => .inl used,nofun,.done _ rfl ?_ fun late => .inr ⟨rfl,stuck,onTime late⟩⟩
        simp [Section.after,transferred,Note.size,Answer.reported,Rest.moved]
      · refine ⟨kept,.wrote contents,less,fun _ => .inl used,nofun,.waits _ remaining rfl stuck left more' rfl (.write more) ?_ ?_⟩
        · simp [Section.after,transferred,Note.size,Rest.moved]
        · show p.capacity - t.count < 1
          omega
    · rw [writeBulkLoop,if_neg more] at looped
      cases looped
      refine ⟨kept,.wrote contents,less,fun _ => .inl used,nofun,.done _ rfl ?_ nofun⟩
      simp [Section.after,transferred,Note.size,Answer.reported,Rest.moved]

theorem readBulk_blocked (empty : t.count = 0) (more : readCount < count)
    (taken : readBulkLoop p env count deadline (fuel + 1) t dst readCount = some sec) :
    (∃ result,result ≠ .signal ∧ sec = {shared := t,ending := .done (.bulk result readCount dst)} ∧
        (result = .timeout → deadline.remaining env.now = some noWait)) ∨
      ∃ remaining,deadline.remaining env.now = some remaining ∧ remaining ≠ noWait ∧
        sec = {shared := t,ending := .wait .notEmpty (ticksLeft remaining) (.readingBulk dst count readCount deadline)} := by
  rw [readBulkLoop,if_pos more] at taken
  cases waitWhile_inv taken with
  | goes free => exact absurd empty (of_decide_eq_false free)
  | fails result _ other taken onTime => cases taken; exact .inl ⟨result,other,rfl,onTime⟩
  | waits remaining _ left more same => exact .inr ⟨remaining,left,more,same⟩

section

variable (valid : Valid p.capacity p.size s)
include valid

theorem readBulkLoop_act (unfinished : readCount < count)
    (taken : readBulkLoop p env count deadline (count + 1) s dst readCount = some sec) :
    Act p env s (.readingBulk dst count readCount deadline) .signal sec := by
  obtain ⟨fuel,rfl⟩ : ∃ fuel,count = fuel + 1 := ⟨count - 1,by omega⟩
  by_cases empty : s.count = 0
  · have zero : s.count < 1 := by omega
    have stuck : (Rest.readingBulk dst (fuel + 1) readCount deadline).stuck p s = true := decide_eq_true (by omega)
    rcases readBulk_blocked empty unfinished taken with ⟨result,other,rfl,onTime⟩ | ⟨remaining,left,more,rfl⟩
    · refine ⟨valid,.still rfl,Nat.le_refl _,fun _ => .inr zero,nofun,.done _ rfl rfl ?_⟩
      exact fun late => .inr ⟨rfl,stuck,onTime late⟩
    · exact ⟨valid,.still rfl,Nat.le_refl _,fun _ => .inr zero,nofun,.waits _ remaining rfl stuck left more rfl .same rfl zero⟩
  · rw [readBulkLoop,if_pos unfinished,waitWhile,decide_eq_false empty] at taken
    obtain ⟨out,chunk,taken⟩ := of_bind taken
    obtain ⟨later,looped,taken⟩ := of_bind taken
    cases taken
    generalize amount : (if fuel + 1 - readCount < s.count then fuel + 1 - readCount else s.count) = n at *
    have some : 1 ≤ n ∧ n ≤ s.count ∧ readCount + n ≤ fuel + 1 := by
      rw [← amount]
      split <;> omega
    obtain ⟨kept,left,contents⟩ := read_move valid some.2.1 chunk
    have less : out.1.count ≤ s.count := by omega
    have used : out.1.count + 1 ≤ s.count := by omega
    by_cases more : readCount + n < fuel + 1
    · -- What is left has found no element.
      have empty : out.1.count = 0 := by
        split at amount <;> omega
      have stuck : (Rest.readingBulk dst (fuel + 1) readCount deadline).stuck p s = true := by
        refine decide_eq_true ?_
        omega
      rcases readBulk_blocked empty more looped with ⟨result,other,rfl,onTime⟩ | ⟨remaining,left,more',rfl⟩
      · refine ⟨kept,.read contents,less,fun _ => .inl used,nofun,.done _ rfl ?_ fun late => .inr ⟨rfl,stuck,onTime late⟩⟩
        simp [Section.after,transferred,Note.size,Answer.reported,Rest.moved]
      · refine ⟨kept,.read contents,less,fun _ => .inl used,nofun,.waits _ remaining rfl stuck left more' rfl (.read more) ?_ ?_⟩
        · simp [Section.after,transferred,Note.size,Rest.moved]
        · show out.1.count < 1
          omega
    · rw [readBulkLoop,if_neg more] at looped
      cases looped
      refine ⟨kept,.read contents,less,fun _ => .inl used,nofun,.done _ rfl ?_ nofun⟩
      simp [Section.after,transferred,Note.size,Answer.reported,Rest.moved]

theorem drainLocked_act (bounds : 1 ≤ trigger ∧ trigger ≤ maxCount)
    (onTime : outcome = .timeout → result = .timeout ∨
      result = .signal ∧ s.count < trigger ∧ deadline.remaining env.now = some noWait)
    (taken : drainLocked p s dst maxCount outcome = some sec) :
    Act p env s (.triggered dst trigger maxCount deadline) result sec := by
  obtain ⟨out,chunk,taken⟩ := of_bind taken
  cases taken
  obtain ⟨kept,left,contents⟩ := read_move valid (Nat.min_le_right maxCount s.count) chunk
  refine ⟨kept,.read contents,?_,fun _ => ?_,nofun,.done _ rfl ?_ ?_⟩
  · show out.1.count ≤ s.count
    omega
  · show out.1.count + trigger ≤ s.count ∨ s.count < trigger
    omega
  · simp [transferred,Note.size,Answer.reported,Rest.moved]
  · intro late
    rcases onTime late with late | ⟨signaled,short,ranOut⟩
    · exact .inl late
    · exact .inr ⟨signaled,decide_eq_true short,ranOut⟩

theorem readBulkTriggeredEx_act (bounds : 1 ≤ trigger ∧ trigger ≤ maxCount)
    (taken : readBulkTriggeredEx p env s dst trigger maxCount deadline = some sec) :
    Act p env s (.triggered dst trigger maxCount deadline) .signal sec := by
  cases waitWhile_inv taken with
  | goes _ taken => exact drainLocked_act valid bounds (fun late => by cases late) taken
  | fails result short _ taken onTime =>
    exact drainLocked_act valid bounds (fun late => .inr ⟨rfl,of_decide_eq_true short,onTime late⟩) taken
  | waits remaining short left more same =>
    cases same
    have few : s.count < trigger := of_decide_eq_true short
    exact ⟨valid,.still rfl,Nat.le_refl _,fun _ => .inr few,nofun,.waits _ remaining rfl short left more rfl .same rfl few⟩

theorem failed_act (other : result ≠ .signal) (reported : a.reported = rest.moved)
    (same : a.result = result) : Act p env s rest result {shared := s,ending := .done a} :=
  ⟨valid,.still rfl,Nat.le_refl _,fun signaled => absurd signaled other,nofun,.done a rfl reported fun late => .inl (same.symm.trans late)⟩

theorem resume_act (proper : rest.proper) (resumed : resume p env s rest result = some sec) :
    Act p env s rest result sec := by
  by_cases signaled : result = .signal
  · subst signaled
    cases rest with
    | writing => exact writeEx_act valid resumed
    | writingBulk => exact writeBulkLoop_act valid proper resumed
    | reading => exact readEx_act valid resumed
    | readingBulk => exact readBulkLoop_act valid proper resumed
    | triggered => exact readBulkTriggeredEx_act valid proper resumed
  · cases rest with
    | writing data deadline | writingBulk src count written deadline | reading data deadline
    | readingBulk dst count readCount deadline =>
      cases result <;> first | exact absurd rfl signaled | (cases resumed; exact failed_act valid signaled rfl rfl)
    | triggered dst trigger maxCount deadline =>
      cases result <;> first | exact absurd rfl signaled | exact drainLocked_act valid proper (fun late => .inl late) resumed

end

end SuperTinyKernel.Pipe
