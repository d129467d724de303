import Mathlib.Algebra.Ring.Nat
import Mathlib.Logic.Function.Basic
import SuperTinyKernel.Sync.Wait

set_option linter.unusedSectionVars false

namespace SuperTinyKernel.BytePool

open Monitor

-- memory::BytePool. The memory consists of 32-bit words; to store a byte is to store its word.
-- The null pointer is 0.

-- BLOCK_ALIGN is a power of two not less than 4. GUARD, NEXT_FIT and POOL_CHECKS are build
-- settings.
structure Config where
  exponent : Nat
  wide : 2 ≤ exponent
  guard : Bool
  nextFit : Bool
  checks : Bool

def Config.align (c : Config) : Nat := 2 ^ c.exponent
def Config.headerSize (c : Config) : Nat := if 8 < c.align then c.align else 8
def Config.minBlockSize (c : Config) : Nat := c.headerSize + c.align
def Config.guardSize (c : Config) : Nat := if c.guard then 4 else 0

-- & ~(BLOCK_ALIGN - 1U)
def Config.trim (c : Config) (size : Nat) : Nat := size / c.align * c.align

def Config.poolSizeMax (c : Config) : Nat := c.trim 0xFFFFFFFF
def Config.alignSize (c : Config) (rawSize : Nat) : Nat := c.trim (rawSize + (c.align - 1))
def Config.requiredSize (c : Config) (payloadSize : Nat) : Nat := c.alignSize (payloadSize + c.guardSize) + c.headerSize

def guardMagic : Nat := 0xA5C3E17B
def stateFree : Nat := 0x46524545
def stateUsed : Nat := 0x55534544
def stateNone : Nat := 0
-- Words of 0xCD and of 0xDD.
def fillAlloc : Nat := 0xCDCDCDCD
def fillFree : Nat := 0xDDDDDDDD

structure Stats where
  capacity : Nat := 0
  allocated : Nat := 0
  peakAllocated : Nat := 0
  allocateCount : Nat := 0
  freeCount : Nat := 0
  allocFailCount : Nat := 0
  minEverFree : Nat := 0
  deriving DecidableEq,Repr

namespace Stats

def reset (capacity : Nat) : Stats := {capacity := capacity,minEverFree := capacity}

def getAvailable (s : Stats) : Nat := if s.allocated < s.capacity then s.capacity - s.allocated else 0

def recordAllocate (s : Stats) (size : Nat) : Stats :=
  let used := s.allocated + size
  let s := {s with allocated := used,allocateCount := s.allocateCount + 1,
                   peakAllocated := if used > s.peakAllocated then used else s.peakAllocated}
  {s with minEverFree := if s.getAvailable < s.minEverFree then s.getAvailable else s.minEverFree}

def recordFree (s : Stats) (size : Nat) : Stats :=
  {s with allocated := if s.allocated ≥ size then s.allocated - size else 0,freeCount := s.freeCount + 1}

def recordAllocFail (s : Stats) : Stats := {s with allocFailCount := s.allocFailCount + 1}

end Stats

structure Pool where
  memory : Nat → Nat
  first : Nat := 0
  endAt : Nat := 0
  rover : Nat := 0
  stats : Stats := {}
  maxScan : Nat := 0

def cast32 (n : Nat) : Nat := n % 4294967296

namespace Pool

def put (p : Pool) (address value : Nat) : Pool := {p with memory := Function.update p.memory address value}

def sizeOf (p : Pool) (h : Nat) : Nat := p.memory h
def stateOf (p : Pool) (h : Nat) : Nat := p.memory (h + 4)

def next (p : Pool) (h : Nat) : Nat := h + p.sizeOf h
def guardOf (p : Pool) (h : Nat) : Nat := h + p.sizeOf h - 4

def fill (p : Pool) (address size value : Nat) : Pool :=
  {p with memory := fun x => if address ≤ x ∧ x < address + size then value else p.memory x}

def isStorageValid (p : Pool) : Bool := decide (p.first ≠ 0)

def getSize (p : Pool) : Nat := if p.first ≠ 0 then p.endAt - p.first else 0

def getMaxRequest (c : Config) (p : Pool) : Nat :=
  if p.getSize ≥ c.minBlockSize then p.getSize - c.headerSize - c.guardSize else 0

-- The constructor for a storage of the caller. The other one takes its storage from the
-- heap.
def init (c : Config) (memory : Nat → Nat) (storage storageSize : Nat) : Pool :=
  let p : Pool := {memory := memory,stats := .reset 0}
  if storage ≠ 0 then
    let shift := c.alignSize storage - storage
    let usable := if storageSize > shift then c.trim (storageSize - shift) else 0
    let usable := if usable > c.poolSizeMax then c.poolSizeMax else usable
    if usable ≥ c.minBlockSize then
      let first := storage + shift
      let p := (p.put first (cast32 usable)).put (first + 4) stateFree
      {p with first := first,endAt := first + usable,rover := first,stats := .reset usable}
    else p
  else p

def isSane (c : Config) (p : Pool) (h : Nat) : Bool :=
  decide ((p.stateOf h = stateFree ∨ p.stateOf h = stateUsed) ∧ p.sizeOf h ≥ c.minBlockSize ∧
    p.sizeOf h % c.align = 0 ∧ p.endAt - h ≥ p.sizeOf h)

-- The loops over the blocks come to an end because every sane block has some size.
def coalesce (c : Config) (h : Nat) : Nat → Pool → Option Pool
  | 0,_ => none
  | fuel + 1,p =>
    let n := p.next h
    if n < p.endAt ∧ p.stateOf n = stateFree ∧ p.isSane c n = true then
      let p := if c.nextFit ∧ p.rover = n then {p with rover := h} else p
      let p := p.put h (cast32 (p.sizeOf h + p.sizeOf n))
      -- The absorbed header can never be mistaken for a live block.
      coalesce c h fuel ((p.put (n + 4) stateNone).put n 0)
    else some p

def splitOff (c : Config) (p : Pool) (h need : Nat) : Pool :=
  let rest := p.sizeOf h - need
  if rest ≥ c.minBlockSize then
    let tail := h + need
    ((p.put tail (cast32 rest)).put (tail + 4) stateFree).put h (cast32 need)
  else p

def checkFill (c : Config) (p : Pool) (address size value : Nat) : Pool :=
  if c.checks then p.fill address size value else p

def placeGuard (c : Config) (p : Pool) (h : Nat) : Pool := if c.guard then p.put (p.guardOf h) guardMagic else p

def moveRover (c : Config) (p : Pool) (h : Nat) : Pool :=
  if c.nextFit then {p with rover := if p.next h < p.endAt then p.next h else p.first} else p

def markUsed (p : Pool) (h : Nat) : Pool :=
  let p := p.put (h + 4) stateUsed
  {p with stats := p.stats.recordAllocate (p.sizeOf h)}

def claim (c : Config) (p : Pool) (h need : Nat) : Pool :=
  let p := (p.splitOff c h need).markUsed h
  let p := p.checkFill c (h + c.headerSize) (p.sizeOf h - c.headerSize - c.guardSize) fillAlloc
  (p.placeGuard c h).moveRover c h

end Pool

structure Scan where
  pool : Pool
  result : Nat
  scanned : Nat

namespace Pool

def scanRange (c : Config) (stop need : Nat) : Nat → Pool → Nat → Nat → Option Scan
  | 0,_,_,_ => none
  | fuel + 1,p,h,scanned =>
    if h ≠ 0 ∧ h < stop then
      if p.isSane c h = false then some ⟨p,0,scanned + 1⟩
      else if p.stateOf h = stateFree then
        (p.coalesce c h (p.endAt - h)).bind fun p =>
          if p.sizeOf h ≥ need then some ⟨p.claim c h need,h + c.headerSize,scanned + 1⟩
          else scanRange c stop need fuel p (p.next h) (scanned + 1)
      else scanRange c stop need fuel p (p.next h) (scanned + 1)
    else some ⟨p,0,scanned⟩

def walkLimit (p : Pool) : Nat := p.endAt - p.first + 1

def scanAll (c : Config) (p : Pool) (need : Nat) : Option Scan :=
  if c.nextFit then
    let start := if p.rover ≠ 0 then p.rover else p.first
    (scanRange c p.endAt need p.walkLimit p start 0).bind fun scan =>
      if scan.result = 0 ∧ start ≠ p.first then
        scanRange c start need p.walkLimit scan.pool scan.pool.first scan.scanned
      else some scan
  else scanRange c p.endAt need p.walkLimit p p.first 0

def findFree (c : Config) (p : Pool) (need : Nat) : Option (Pool × Nat) :=
  (p.scanAll c need).map fun scan =>
    ({scan.pool with maxScan := if scan.scanned > scan.pool.maxScan then scan.scanned else scan.pool.maxScan},scan.result)

def isBlockStart (c : Config) (p : Pool) (h : Nat) : Nat → Nat → Option Bool
  | 0,_ => none
  | fuel + 1,b =>
    if b ≠ 0 ∧ b ≤ h ∧ b < p.endAt ∧ p.isSane c b = true then
      if b = h then some true else isBlockStart c p h fuel (p.next b)
    else some false

def release (c : Config) (p : Pool) (h : Nat) : Option Pool :=
  let blockSize := p.sizeOf h
  let p := {p with stats := p.stats.recordFree blockSize}.put (h + 4) stateFree
  let p := p.checkFill c (h + c.headerSize) (blockSize - c.headerSize) fillFree
  p.coalesce c h (p.endAt - h)

def free (c : Config) (p : Pool) (ptr : Nat) : Option (Pool × Bool) :=
  if ptr ≠ 0 ∧ p.first ≠ 0 then
    if ptr < p.first + c.headerSize ∨ ptr ≥ p.endAt then some (p,false)
    else if (ptr - p.first) % c.align ≠ 0 then some (p,false)
    else
      let h := ptr - c.headerSize
      if p.stateOf h ≠ stateUsed then some (p,false)
      else
        (if c.checks then p.isBlockStart c h p.walkLimit p.first else some true).bind fun isBlock =>
          if isBlock = true ∧ p.isSane c h = true then
            if c.guard = true → p.memory (p.guardOf h) = guardMagic then (p.release c h).map fun p => (p,true)
            else some (p,false)
          else some (p,false)
  else some (p,false)

end Pool

inductive Request where
  | alloc (size : Nat) (timeout : Int)
  | free (ptr : Nat)
  | store (address value : Nat)
  deriving DecidableEq,Repr

inductive Cond where
  | released
  deriving DecidableEq,Repr

inductive Rest where
  | allocating (size : Nat) (budget : Budget)
  deriving DecidableEq,Repr

inductive Answer where
  | alloc (result : Wakeup) (block : Nat)
  | free (success : Bool)
  | store
  deriving DecidableEq,Repr

inductive Note where
  | got (ptr size block : Nat)
  | gave (ptr : Nat)
  deriving DecidableEq,Repr

abbrev Sect := Section Pool Cond Rest Answer Note
abbrev Arena (T : Type) := Hall T Request Pool Cond Rest Answer Note

-- The call returns without a block. Only a timeout counts as a failed allocation.
def allocFailed (p : Pool) (result : Wakeup) : Option Sect :=
  some {shared := if result = .timeout then {p with stats := p.stats.recordAllocFail} else p,
        ending := .done (.alloc result 0)}

-- The loop of TimedAllocEx after a scan that has found `ptr`, `late` behind a timeout.
def allocLoop (c : Config) (env : Ambient) (size : Nat) (budget : Budget) (late : Bool) (p : Pool) (ptr : Nat) : Option Sect :=
  if ptr ≠ 0 then
    some {shared := p,log := [.got ptr size (p.sizeOf (ptr - c.headerSize))],ending := .done (.alloc .signal ptr)}
  else if late then allocFailed p .timeout
  else waitEx env .released (budget.remaining env.now) (.allocating size budget) p (allocFailed p)

def allocScan (c : Config) (env : Ambient) (p : Pool) (size : Nat) (budget : Budget) (late : Bool) : Option Sect :=
  (p.findFree c (c.requiredSize size)).bind fun found => allocLoop c env size budget late found.1 found.2

def enter (c : Config) (env : Ambient) (p : Pool) : Request → Option Sect
  | .alloc size timeout =>
    if env.isr = true ∧ timeout ≠ noWait then some {shared := p,ending := .done (.alloc .fail 0)}
    else if size = 0 ∨ size > p.getMaxRequest c then
      some {shared := if size ≠ 0 ∧ p.isStorageValid then {p with stats := p.stats.recordAllocFail} else p,
            ending := .done (.alloc .fail 0)}
    else allocScan c env p size (.of env.now timeout) false
  | .free ptr =>
    (p.free c ptr).map fun freed =>
      {shared := freed.1,notices := if freed.2 then [.all .released] else [],
       log := if freed.2 then [.gave ptr] else [],ending := .done (.free freed.2)}
  | .store address value => some {shared := p.put address value,ending := .done .store}

-- A wait that has been cut off is not followed by a scan.
def resume (c : Config) (env : Ambient) (p : Pool) : Rest → Wakeup → Option Sect
  | .allocating size budget,.signal => allocScan c env p size budget false
  | .allocating size budget,.timeout => allocScan c env p size budget true
  | .allocating _ _,result => allocFailed p result

def program (c : Config) : Program Request Pool Cond Rest Answer Note := ⟨enter c,resume c⟩

def initial (now : Int) (p : Pool) : Arena T := {now := now,shared := p}

end SuperTinyKernel.BytePool
