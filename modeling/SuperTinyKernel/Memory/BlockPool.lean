import SuperTinyKernel.Memory.BytePool

namespace SuperTinyKernel.BlockPool

open Monitor
open SuperTinyKernel.BytePool (Stats)

-- memory::BlockMemoryPool. The memory holds a link at the start of every free block and the
-- bytes of the bitmap. The null pointer is 0.

-- The size of a pointer is that of size_t and of Word. STK_MEMORY_BLOCKPOOL_BITMAP and
-- STK_MEMORY_POOL_CHECKS are build settings.
structure Config where
  wordBytes : Nat
  wide : 4 ≤ wordBytes
  bitmap : Bool
  checks : Bool

def Config.limit (c : Config) : Nat := 2 ^ (8 * c.wordBytes)
def Config.wrap (c : Config) (n : Nat) : Nat := n % c.limit
def Config.minus (c : Config) (a b : Nat) : Nat := c.wrap (a + (c.limit - b))

-- (x + (alignment - 1U)) & ~(alignment - 1U)
def Config.alignUp (c : Config) (x alignment : Nat) : Nat :=
  c.wrap (x + c.minus alignment 1) &&& (c.limit - 1 - c.minus alignment 1)

def Config.alignBlockSize (c : Config) (rawSize alignment : Nat) : Nat := max alignment (c.alignUp rawSize alignment)

def Config.bitmapBytes (c : Config) (capacity : Nat) : Nat := if c.bitmap then c.wrap (capacity + 7) / 8 else 0

def capacityMax : Nat := 0xFFFE
def fillAlloc : Nat := 0xCD
def fillFree : Nat := 0xDD

-- The arguments of the constructor. The end of the storage has an address too.
structure Arguments (c : Config) where
  capacity : Nat
  rawBlockSize : Nat
  storage : Nat
  storageSize : Nat
  alignment : Nat
  sized : capacity < c.limit ∧ rawBlockSize < c.limit ∧ alignment < c.limit
  placed : storage + storageSize < c.limit

def isValidAlignment (c : Config) (alignment : Nat) : Bool :=
  decide (alignment ≥ c.wordBytes ∧ alignment &&& c.minus alignment 1 = 0)

def argsValid (c : Config) (a : Arguments c) (blockSize : Nat) : Bool :=
  decide (a.capacity > 0 ∧ a.capacity ≤ capacityMax ∧ a.rawBlockSize > 0 ∧ isValidAlignment c a.alignment = true ∧
    blockSize ≥ a.rawBlockSize)

structure Pool where
  memory : Nat → Nat
  blocks : Nat := 0
  bitmapAt : Nat := 0
  freeList : Nat := 0
  blockSize : Nat := 0
  capacity : Nat := 0
  usedCount : Nat := 0
  stats : Stats := {}

namespace Pool

def put (p : Pool) (address value : Nat) : Pool := {p with memory := Function.update p.memory address value}

def fill (p : Pool) (address size value : Nat) : Pool :=
  {p with memory := fun x => if address ≤ x ∧ x < address + size then value else p.memory x}

def checkFill (c : Config) (p : Pool) (address size value : Nat) : Pool :=
  if c.checks then p.fill address size value else p

def isStorageValid (p : Pool) : Bool := decide (p.blocks ≠ 0 ∧ p.capacity ≠ 0)

def bitmapTest (p : Pool) (index : Nat) : Bool :=
  decide (p.memory (p.bitmapAt + (index >>> 3)) &&& (1 <<< (index &&& 7)) ≠ 0)

def bitmapSet (p : Pool) (index : Nat) : Pool :=
  p.put (p.bitmapAt + (index >>> 3)) (p.memory (p.bitmapAt + (index >>> 3)) ||| (1 <<< (index &&& 7)))

-- static_cast<uint8_t>(~(1U << (index & 7U)))
def bitmapClear (p : Pool) (index : Nat) : Pool :=
  p.put (p.bitmapAt + (index >>> 3)) (p.memory (p.bitmapAt + (index >>> 3)) &&& (255 - (1 <<< (index &&& 7))))

def push (p : Pool) (block : Nat) : Pool := {p.put block p.freeList with freeList := block}

def linkFrom (c : Config) : Nat → Pool → Pool
  | 0,p => p
  | i + 1,p => linkFrom c i (p.push (c.wrap (p.blocks + c.wrap (i * p.blockSize))))

def buildFreeList (c : Config) (p : Pool) : Pool :=
  let p := {p with freeList := 0,usedCount := 0}
  let p := if c.bitmap then p.fill p.bitmapAt (c.bitmapBytes p.capacity) 0 else p
  linkFrom c p.capacity p

end Pool

def trimCapacity (c : Config) (blockSize usable : Nat) : Nat → Nat
  | 0 => 0
  | n + 1 =>
    if c.wrap (c.wrap ((n + 1) * blockSize) + c.bitmapBytes (n + 1)) > usable then trimCapacity c blockSize usable n
    else n + 1

-- The constructor for a storage of the caller. The other one takes its storage from the
-- heap.
def setup (c : Config) (memory : Nat → Nat) (a : Arguments c) : Pool :=
  let blockSize := c.alignBlockSize a.rawBlockSize a.alignment
  let p : Pool := {memory := memory,blockSize := blockSize}
  let p :=
    if argsValid c a blockSize = true ∧ a.storage ≠ 0 then
      let shift := c.minus (c.alignUp a.storage a.alignment) a.storage
      let usable := if a.storageSize > shift then a.storageSize - shift else 0
      let n := usable / blockSize
      let n := if n > a.capacity then a.capacity else n
      let n := trimCapacity c blockSize usable n
      if n > 0 then
        let blocks := c.wrap (a.storage + shift)
        {p with blocks := blocks,capacity := n,bitmapAt := c.wrap (blocks + c.wrap (n * blockSize))}.buildFreeList c
      else p
    else p
  {p with stats := .reset (c.wrap (p.capacity * blockSize))}

namespace Pool

def popFreeList (c : Config) (p : Pool) : Option (Pool × Nat) :=
  if p.freeList = 0 then none
  else
    let block := p.freeList
    let p := {p with freeList := p.memory block,usedCount := p.usedCount + 1,stats := p.stats.recordAllocate p.blockSize}
    let p := if c.bitmap then p.bitmapSet ((block - p.blocks) / p.blockSize) else p
    some (p.checkFill c block p.blockSize fillAlloc,block)

-- The walk over the free list comes to an end if the list has one.
def onFreeList (p : Pool) (ptr : Nat) : Nat → Nat → Option Bool
  | 0,_ => none
  | fuel + 1,node => if node ≠ 0 then if node = ptr then some true else onFreeList p ptr fuel (p.memory node) else some false

def release (c : Config) (p : Pool) (ptr : Nat) : Pool :=
  let p := p.checkFill c (ptr + c.wordBytes) (p.blockSize - c.wordBytes) fillFree
  let p := p.push ptr
  {p with usedCount := p.usedCount - 1,stats := p.stats.recordFree p.blockSize}

def free (c : Config) (p : Pool) (ptr : Nat) : Option (Pool × Bool) :=
  if ptr ≠ 0 ∧ p.blocks ≠ 0 then
    let hi := c.wrap (p.blocks + c.wrap (p.capacity * p.blockSize))
    if ptr < p.blocks ∨ ptr ≥ hi then some (p,false)
    else if (ptr - p.blocks) % p.blockSize ≠ 0 then some (p,false)
    else if p.usedCount = 0 then some (p,false)
    else if c.bitmap then
      let index := (ptr - p.blocks) / p.blockSize
      if p.bitmapTest index = false then some (p,false) else some ((p.bitmapClear index).release c ptr,true)
    else if c.checks then
      (p.onFreeList ptr (p.capacity + 1) p.freeList).map fun found => if found then (p,false) else (p.release c ptr,true)
    else some (p.release c ptr,true)
  else some (p,false)

end Pool

inductive Request where
  | alloc (timeout : Int)
  | free (ptr : Nat)
  | store (address value : Nat)
  deriving DecidableEq,Repr

inductive Cond where
  | released
  deriving DecidableEq,Repr

inductive Rest where
  | allocating (budget : Budget)
  deriving DecidableEq,Repr

inductive Answer where
  | alloc (result : Wakeup) (block : Nat)
  | free (success : Bool)
  | store
  deriving DecidableEq,Repr

inductive Note where
  | got (ptr : Nat)
  | gave (ptr : Nat)
  deriving DecidableEq,Repr

abbrev Sect := Section Pool Cond Rest Answer Note
abbrev Arena (T : Type) := Hall T Request Pool Cond Rest Answer Note

-- TimedAllocEx behind its loop. A block that came back when the time was over is taken.
def allocEnded (c : Config) (p : Pool) (result : Wakeup) : Option Sect :=
  let result := if result = .timeout ∧ p.freeList ≠ 0 then .signal else result
  if result = .signal then
    (p.popFreeList c).map fun popped => {shared := popped.1,log := [.got popped.2],ending := .done (.alloc .signal popped.2)}
  else if result = .timeout then
    some {shared := {p with stats := p.stats.recordAllocFail},ending := .done (.alloc .timeout 0)}
  else some {shared := p,ending := .done (.alloc result 0)}

def allocLoop (c : Config) (env : Ambient) (p : Pool) (budget : Budget) : Option Sect :=
  if p.freeList ≠ 0 then allocEnded c p .signal
  else waitEx env .released (budget.remaining env.now) (.allocating budget) p (allocEnded c p)

def enter (c : Config) (env : Ambient) (p : Pool) : Request → Option Sect
  | .alloc timeout =>
    if timeout ≠ noWait ∧ env.isr = true then some {shared := p,ending := .done (.alloc .fail 0)}
    else if p.isStorageValid = false then some {shared := p,ending := .done (.alloc .fail 0)}
    else allocLoop c env p (.of env.now timeout)
  | .free ptr =>
    (p.free c ptr).map fun freed =>
      {shared := freed.1,notices := if freed.2 then [.one .released] else [],
       log := if freed.2 then [.gave ptr] else [],ending := .done (.free freed.2)}
  | .store address value => some {shared := p.put address value,ending := .done .store}

-- Only a signal leads back into the loop.
def resume (c : Config) (env : Ambient) (p : Pool) : Rest → Wakeup → Option Sect
  | .allocating budget,.signal => allocLoop c env p budget
  | .allocating _,result => allocEnded c p result

def program (c : Config) : Program Request Pool Cond Rest Answer Note := ⟨enter c,resume c⟩

def initial (now : Int) (p : Pool) : Arena T := {now := now,shared := p}

end SuperTinyKernel.BlockPool
