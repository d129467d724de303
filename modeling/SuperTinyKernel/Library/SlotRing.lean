import SuperTinyKernel.Library.Run

-- Blocks of cells copied between buffers, a buffer seen as slots of a fixed size, and a ring
-- of such slots.
namespace SlotRing

variable {β : Type} {dst src b : List β} {d s n k i size capacity : Nat}

def memcpy (dst : List β) (d : Nat) (src : List β) (s n : Nat) : Option (List β) :=
  if d + n ≤ dst.length ∧ s + n ≤ src.length then some (dst.take d ++ (src.drop s).take n ++ dst.drop (d + n)) else none

theorem memcpy_bounds (copied : memcpy dst d src s n = some b) : d + n ≤ dst.length ∧ s + n ≤ src.length := by
  unfold memcpy at copied
  split at copied
  · assumption
  · cases copied

theorem memcpy_defined (dst src : List β) (room : d + n ≤ dst.length) (given : s + n ≤ src.length) :
    ∃ b,memcpy dst d src s n = some b :=
  ⟨_,if_pos ⟨room,given⟩⟩

theorem memcpy_length (copied : memcpy dst d src s n = some b) : b.length = dst.length := by
  obtain ⟨room,given⟩ := memcpy_bounds copied
  rw [memcpy,if_pos ⟨room,given⟩] at copied
  cases copied
  simp
  omega

theorem memcpy_get (copied : memcpy dst d src s n = some b) (i : Nat) :
    b[i]? = if d ≤ i ∧ i < d + n then src[s + (i - d)]? else dst[i]? := by
  obtain ⟨room,given⟩ := memcpy_bounds copied
  rw [memcpy,if_pos ⟨room,given⟩] at copied
  cases copied
  have first : (dst.take d).length = d := by simp; omega
  have second : ((src.drop s).take n).length = n := by simp; omega
  rw [List.append_assoc]
  by_cases before : i < d
  · rw [List.getElem?_append_left (by omega),List.getElem?_take_of_lt before,if_neg (by omega)]
  · rw [List.getElem?_append_right (by omega),first]
    by_cases inside : i < d + n
    · rw [List.getElem?_append_left (by omega),List.getElem?_take_of_lt (by omega),List.getElem?_drop,if_pos (by omega)]
    · rw [List.getElem?_append_right (by omega),second,List.getElem?_drop,if_neg (by omega)]
      congr 1
      omega

def slot (size : Nat) (b : List β) (k : Nat) : List β := (b.drop (k * size)).take size

def slots (size : Nat) (b : List β) (k n : Nat) : List (List β) := (List.range n).map fun i => slot size b (k + i)

theorem slot_zero : slot size b 0 = b.take size := by rw [slot,Nat.zero_mul,List.drop_zero]

theorem slots_one : slots size b k 1 = [slot size b k] := rfl

@[simp] theorem slots_length : (slots size b k n).length = n := by simp [slots]

theorem slot_get (inside : i < size) : (slot size b k)[i]? = b[k * size + i]? := by
  rw [slot,List.getElem?_take_of_lt inside,List.getElem?_drop]

theorem slot_get_none (outside : size ≤ i) : (slot size b k)[i]? = none := by
  refine List.getElem?_eq_none ?_
  rw [slot,List.length_take]
  omega

theorem slot_memcpy (copied : memcpy dst (d * size) src (s * size) (n * size) = some b) (k : Nat) :
    slot size b k = if d ≤ k ∧ k < d + n then slot size src (s + (k - d)) else slot size dst k := by
  have cell : ∀ i,i < size → (d * size ≤ k * size + i ∧ k * size + i < d * size + n * size ↔ d ≤ k ∧ k < d + n) := by
    intro i inside
    rw [← Nat.add_mul]
    constructor
    · rintro ⟨low,high⟩
      refine ⟨?_,?_⟩
      · by_contra less
        have := Nat.mul_le_mul_right size (by omega : k + 1 ≤ d)
        rw [Nat.add_mul] at this
        omega
      · by_contra more
        have := Nat.mul_le_mul_right size (by omega : d + n ≤ k)
        omega
    · rintro ⟨low,high⟩
      have lower := Nat.mul_le_mul_right size low
      have upper := Nat.mul_le_mul_right size (by omega : k + 1 ≤ d + n)
      rw [Nat.add_mul k] at upper
      omega
  refine List.ext_getElem? fun i => ?_
  by_cases inside : i < size
  · rw [slot_get inside,memcpy_get copied]
    by_cases copied : d ≤ k ∧ k < d + n
    · rw [if_pos ((cell i inside).mpr copied),if_pos copied,slot_get inside,Nat.add_mul,Nat.sub_mul]
      have := Nat.mul_le_mul_right size copied.1
      congr 1
      omega
    · rw [if_neg (fun both => copied ((cell i inside).mp both)),if_neg copied,slot_get inside]
  · rw [slot_get_none (by omega)]
    split <;> rw [slot_get_none (by omega)]

def window (b : List β) (o n : Nat) : List β := (b.drop o).take n

theorem window_get (b : List β) (o n i : Nat) : (window b o n)[i]? = if i < n then b[o + i]? else none := by
  unfold window
  rw [List.getElem?_take]
  split
  · rw [List.getElem?_drop]
  · rfl

theorem window_copied (copied : memcpy dst d src s n = some b) : window b d n = window src s n := by
  refine List.ext_getElem? fun i => ?_
  rw [window_get,window_get]
  by_cases inside : i < n
  · rw [if_pos inside,if_pos inside,memcpy_get copied,if_pos (by omega),Nat.add_sub_cancel_left]
  · rw [if_neg inside,if_neg inside]

theorem window_kept (copied : memcpy dst d src s n = some b) (apart : o + m ≤ d ∨ d + n ≤ o) : window b o m = window dst o m := by
  refine List.ext_getElem? fun i => ?_
  rw [window_get,window_get]
  by_cases inside : i < m
  · rw [if_pos inside,if_pos inside,memcpy_get copied,if_neg (by omega)]
  · rw [if_neg inside,if_neg inside]

theorem window_slot (fits : o + n ≤ size) : window (slot size b k) o n = window b (k * size + o) n := by
  refine List.ext_getElem? fun i => ?_
  rw [window_get,window_get]
  by_cases inside : i < n
  · rw [if_pos inside,if_pos inside,slot_get (by omega),Nat.add_assoc]
  · rw [if_neg inside,if_neg inside]

theorem slot_kept (copied : memcpy dst (p * size + o) src s n = some b) (fits : o + n ≤ size) (other : k ≠ p) :
    slot size b k = slot size dst k := by
  have apart : k * size + size ≤ p * size + o ∨ p * size + o + n ≤ k * size := by
    rcases Nat.lt_or_gt_of_ne other with less | more
    · have bound := Nat.mul_le_mul_right size (Nat.succ_le_of_lt less)
      rw [Nat.succ_mul] at bound
      omega
    · have bound := Nat.mul_le_mul_right size (Nat.succ_le_of_lt more)
      rw [Nat.succ_mul] at bound
      omega
  exact window_kept copied apart

theorem ext_slots {b c : List β} (positive : 0 < size) (same : ∀ k,slot size b k = slot size c k) : b = c := by
  refine List.ext_getElem? fun i => ?_
  have cell := congrArg (fun l => l[i % size]?) (same (i / size))
  rw [slot_get (Nat.mod_lt i positive),slot_get (Nat.mod_lt i positive),Nat.div_add_mod'] at cell
  exact cell

theorem slot_outside (room : b.length = capacity * size) (outside : capacity ≤ k) : slot size b k = [] := by
  have bound := Nat.mul_le_mul_right size outside
  rw [slot,List.drop_of_length_le (by omega),List.take_nil]

theorem mod_wrap (bound : k < capacity + capacity) : k % capacity = if k < capacity then k else k - capacity := by
  split
  · rename_i less
    exact Nat.mod_eq_of_lt less
  · rw [Nat.mod_eq_sub_mod (by omega),Nat.mod_eq_of_lt (by omega)]

def copyIn (capacity size : Nat) (b : List β) (head : Nat) (src : List β) (s n : Nat) : Option (List β) :=
  let first := capacity - head
  if n ≤ first then memcpy b (head * size) src (s * size) (n * size)
  else (memcpy b (head * size) src (s * size) (first * size)).bind fun b =>
    memcpy b (0 * size) src ((s + first) * size) ((n - first) * size)

def copyOut (capacity size : Nat) (b : List β) (tail : Nat) (dst : List β) (d n : Nat) : Option (List β) :=
  let first := capacity - tail
  if n ≤ first then memcpy dst (d * size) b (tail * size) (n * size)
  else (memcpy dst (d * size) b (tail * size) (first * size)).bind fun dst =>
    memcpy dst ((d + first) * size) b (0 * size) ((n - first) * size)

structure Filled (capacity size : Nat) (b : List β) (head : Nat) (src : List β) (s n : Nat) (c : List β) : Prop where
  length : c.length = b.length
  slots : ∀ j,j < capacity → slot size c ((head + j) % capacity) =
    if j < n then slot size src (s + j) else slot size b ((head + j) % capacity)

theorem copyIn_filled (inside : head < capacity) (few : n ≤ capacity) (copied : copyIn capacity size b head src s n = some c) :
    Filled capacity size b head src s n c := by
  unfold copyIn at copied
  dsimp only at copied
  split at copied
  · refine ⟨memcpy_length copied,?_⟩
    intro j bound
    rw [slot_memcpy copied,mod_wrap (by omega)]
    by_cases new : j < n
    · have early : head + j < capacity := by omega
      rw [if_pos early,if_pos (by omega),if_pos new,Nat.add_sub_cancel_left]
    · rw [if_neg (by split <;> omega),if_neg new]
  · obtain ⟨a,first,second⟩ := of_bind copied
    refine ⟨(memcpy_length second).trans (memcpy_length first),?_⟩
    intro j bound
    rw [slot_memcpy second,slot_memcpy first,mod_wrap (by omega)]
    by_cases new : j < n
    · rw [if_pos new]
      by_cases early : head + j < capacity
      · rw [if_pos early,if_neg (by omega),if_pos (by omega),Nat.add_sub_cancel_left]
      · rw [if_neg early,if_pos (by omega)]
        congr 1
        omega
    · rw [if_neg new,if_neg (by split <;> omega),if_neg (by split <;> omega)]

theorem slots_fit {l : List β} {x y m : Nat} (few : x + y ≤ m) (room : m * size ≤ l.length) :
    x * size + y * size ≤ l.length := by
  rw [← Nat.add_mul]
  exact Nat.le_trans (Nat.mul_le_mul_right size few) room

theorem copyIn_defined (inside : head < capacity) (few : n ≤ capacity) (room : b.length = capacity * size)
    (given : (s + n) * size ≤ src.length) : ∃ c,copyIn capacity size b head src s n = some c := by
  unfold copyIn
  dsimp only
  split
  · exact memcpy_defined _ _ (slots_fit (by omega) room.ge) (slots_fit (by omega) given)
  · obtain ⟨a,first⟩ := memcpy_defined b src (slots_fit (by omega : head + (capacity - head) ≤ capacity) room.ge)
      (slots_fit (by omega : s + (capacity - head) ≤ s + n) given)
    rw [first,Option.bind_some]
    exact memcpy_defined _ _ (slots_fit (by omega) (room.symm.trans (memcpy_length first).symm).le) (slots_fit (by omega) given)

theorem Filled.ext {c e : List β} (positive : 0 < size) (inside : head < capacity) (room : b.length = capacity * size)
    (left : Filled capacity size b head src s n c) (right : Filled capacity size b head src s n e) : c = e := by
  refine ext_slots positive fun k => ?_
  by_cases less : k < capacity
  · -- The distance of slot `k` from the head.
    have reached : (head + (k + capacity - head) % capacity) % capacity = k := by
      rw [Nat.add_mod_mod,Nat.add_sub_of_le (by omega),Nat.add_mod_right,Nat.mod_eq_of_lt less]
    have bound : (k + capacity - head) % capacity < capacity := Nat.mod_lt _ (by omega)
    have first := left.slots _ bound
    have second := right.slots _ bound
    rw [reached] at first second
    rw [first,second]
  · rw [slot_outside (left.length.trans room) (by omega),slot_outside (right.length.trans room) (by omega)]

theorem Filled.nil : Filled capacity size b head src s 0 b := ⟨rfl,fun j _ => (if_neg (Nat.not_lt_zero j)).symm⟩

theorem Filled.cons {c e : List β} (inside : head < capacity) (few : n + 1 ≤ capacity)
    (first : memcpy b (head * size) src (s * size) size = some c)
    (others : Filled capacity size c ((head + 1) % capacity) src (s + 1) n e) :
    Filled capacity size b head src s (n + 1) e := by
  have one : ∀ k,slot size c k = if head ≤ k ∧ k < head + 1 then slot size src (s + (k - head)) else slot size b k := by
    intro k
    refine slot_memcpy ?_ k
    rwa [Nat.one_mul]
  refine ⟨others.length.trans (memcpy_length first),?_⟩
  intro j bound
  cases j with
  | zero =>
    have last := others.slots (capacity - 1) (by omega)
    have place : ((head + 1) % capacity + (capacity - 1)) % capacity = head := by
      rw [Nat.mod_add_mod]
      have sum : head + 1 + (capacity - 1) = head + capacity := by omega
      rw [sum,Nat.add_mod_right,Nat.mod_eq_of_lt inside]
    rw [place,if_neg (by omega),one,if_pos (by omega)] at last
    rw [Nat.add_zero,Nat.mod_eq_of_lt inside,last,if_pos (by omega),Nat.sub_self]
  | succ i =>
    have next := others.slots i (by omega)
    have place : ((head + 1) % capacity + i) % capacity = (head + (i + 1)) % capacity := by
      rw [Nat.mod_add_mod]
      congr 1
      omega
    rw [place] at next
    rw [next]
    by_cases new : i < n
    · rw [if_pos new,if_pos (by omega)]
      congr 1
      omega
    · rw [if_neg new,if_neg (by omega),one,mod_wrap (by omega),if_neg (by split <;> omega)]

theorem memcpy_filled {c : List β} (inside : head < capacity) (copied : memcpy b (head * size) src 0 size = some c) :
    Filled capacity size b head src 0 1 c :=
  .cons inside (by omega) (by rwa [Nat.zero_mul]) .nil

structure Drained (capacity size : Nat) (b : List β) (tail : Nat) (dst : List β) (d n : Nat) (c : List β) : Prop where
  length : c.length = dst.length
  slots : ∀ k,slot size c k = if d ≤ k ∧ k < d + n then slot size b ((tail + (k - d)) % capacity) else slot size dst k

theorem copyOut_drained (inside : tail < capacity) (few : n ≤ capacity) (copied : copyOut capacity size b tail dst d n = some c) :
    Drained capacity size b tail dst d n c := by
  unfold copyOut at copied
  dsimp only at copied
  split at copied
  · refine ⟨memcpy_length copied,fun k => ?_⟩
    rw [slot_memcpy copied]
    split
    · rw [mod_wrap (by omega),if_pos (by omega)]
    · rfl
  · obtain ⟨a,first,second⟩ := of_bind copied
    refine ⟨(memcpy_length second).trans (memcpy_length first),fun k => ?_⟩
    rw [slot_memcpy second,slot_memcpy first]
    by_cases new : d ≤ k ∧ k < d + n
    · rw [if_pos new,mod_wrap (by omega)]
      by_cases early : tail + (k - d) < capacity
      · rw [if_neg (by omega),if_pos (by omega),if_pos early]
      · rw [if_pos (by omega),if_neg early]
        congr 1
        omega
    · rw [if_neg new,if_neg (by omega),if_neg (by omega)]

theorem Drained.ext {c e : List β} (positive : 0 < size) (left : Drained capacity size b tail dst d n c)
    (right : Drained capacity size b tail dst d n e) : c = e :=
  ext_slots positive fun k => (left.slots k).trans (right.slots k).symm

theorem Drained.nil : Drained capacity size b tail dst d 0 dst := ⟨rfl,fun k => (if_neg (by omega)).symm⟩

theorem Drained.cons {c e : List β} (inside : tail < capacity) (first : memcpy dst (d * size) b (tail * size) size = some c)
    (others : Drained capacity size b ((tail + 1) % capacity) c (d + 1) n e) :
    Drained capacity size b tail dst d (n + 1) e := by
  have one : ∀ k,slot size c k = if d ≤ k ∧ k < d + 1 then slot size b (tail + (k - d)) else slot size dst k := by
    intro k
    refine slot_memcpy ?_ k
    rwa [Nat.one_mul]
  refine ⟨others.length.trans (memcpy_length first),fun k => ?_⟩
  rw [others.slots k]
  by_cases later : d + 1 ≤ k ∧ k < d + 1 + n
  · rw [if_pos later,if_pos (by omega),Nat.mod_add_mod]
    congr 2
    omega
  · rw [if_neg later,one]
    by_cases here : d ≤ k ∧ k < d + 1
    · have zero : k - d = 0 := by omega
      rw [if_pos here,if_pos (by omega),zero,Nat.add_zero,Nat.mod_eq_of_lt inside]
    · rw [if_neg here,if_neg (by omega)]

theorem copyOut_defined (inside : tail < capacity) (few : n ≤ capacity) (whole : b.length = capacity * size)
    (room : (d + n) * size ≤ dst.length) : ∃ c,copyOut capacity size b tail dst d n = some c := by
  unfold copyOut
  dsimp only
  split
  · exact memcpy_defined _ _ (slots_fit (by omega) room) (slots_fit (by omega) whole.ge)
  · obtain ⟨a,first⟩ := memcpy_defined dst b (slots_fit (by omega : d + (capacity - tail) ≤ d + n) room)
      (slots_fit (by omega : tail + (capacity - tail) ≤ capacity) whole.ge)
    rw [first,Option.bind_some]
    exact memcpy_defined _ _ (slots_fit (by omega) (room.trans (memcpy_length first).ge)) (slots_fit (by omega) whole.ge)

end SlotRing

structure SlotRing (β : Type) where
  buffer : List β
  count : Nat := 0
  head : Nat := 0
  tail : Nat := 0
  deriving DecidableEq,Repr

namespace SlotRing

variable {β : Type} {r : SlotRing β} {src dst b : List β} {s d n size capacity : Nat}

structure Valid (capacity size : Nat) (r : SlotRing β) : Prop where
  room : r.buffer.length = capacity * size
  tail : r.tail < capacity
  count : r.count ≤ capacity
  head : r.head = (r.tail + r.count) % capacity

def contents (capacity size : Nat) (r : SlotRing β) : List (List β) :=
  (List.range r.count).map fun i => slot size r.buffer ((r.tail + i) % capacity)

@[simp] theorem contents_length : (r.contents capacity size).length = r.count := by simp [contents]

theorem Valid.head_lt (valid : Valid capacity size r) : r.head < capacity := by
  rw [valid.head]
  exact Nat.mod_lt _ (Nat.lt_of_le_of_lt (Nat.zero_le _) valid.tail)

def appended (capacity : Nat) (r : SlotRing β) (b : List β) (n : Nat) : SlotRing β :=
  {r with buffer := b,head := (r.head + n) % capacity,count := r.count + n}

theorem Valid.append (valid : Valid capacity size r) (fits : r.count + n ≤ capacity)
    (filled : Filled capacity size r.buffer r.head src s n b) :
    Valid capacity size (r.appended capacity b n) ∧
      (r.appended capacity b n).contents capacity size = r.contents capacity size ++ slots size src s n := by
  obtain ⟨room,tail,count,head⟩ := valid
  refine ⟨⟨filled.length.trans room,tail,fits,?_⟩,?_⟩
  · show (r.head + n) % capacity = (r.tail + (r.count + n)) % capacity
    rw [head,Nat.mod_add_mod,Nat.add_assoc]
  · unfold contents slots appended
    dsimp only
    rw [List.range_add,List.map_append,List.map_map]
    refine congr_arg₂ _ ?_ ?_
    · refine List.map_congr_left fun i member => ?_
      have less := List.mem_range.mp member
      have place : (r.tail + i) % capacity = (r.head + (capacity - r.count + i)) % capacity := by
        rw [head,Nat.mod_add_mod]
        have sum : r.tail + r.count + (capacity - r.count + i) = r.tail + i + capacity := by omega
        rw [sum,Nat.add_mod_right]
      rw [place,filled.slots _ (by omega),if_neg (by omega)]
    · refine List.map_congr_left fun j member => ?_
      have less := List.mem_range.mp member
      have place : (r.tail + (r.count + j)) % capacity = (r.head + j) % capacity := by
        rw [head,Nat.mod_add_mod,Nat.add_assoc]
      show slot size b ((r.tail + (r.count + j)) % capacity) = _
      rw [place,filled.slots j (by omega),if_pos less]

def dropped (capacity : Nat) (r : SlotRing β) (n : Nat) : SlotRing β :=
  {r with tail := (r.tail + n) % capacity,count := r.count - n}

theorem Valid.drop (valid : Valid capacity size r) (some : n ≤ r.count) :
    Valid capacity size (r.dropped capacity n) ∧
      (r.dropped capacity n).contents capacity size = (r.contents capacity size).drop n := by
  obtain ⟨room,tail,count,head⟩ := valid
  refine ⟨⟨room,Nat.mod_lt _ (by omega),?_,?_⟩,?_⟩
  · show r.count - n ≤ capacity
    omega
  · show r.head = ((r.tail + n) % capacity + (r.count - n)) % capacity
    rw [Nat.mod_add_mod,head]
    congr 1
    omega
  · obtain ⟨m,split⟩ := Nat.exists_eq_add_of_le some
    unfold contents dropped
    dsimp only
    rw [split,List.range_add,List.map_append,List.drop_append_of_le_length (by simp),List.drop_of_length_le (by simp),
      List.nil_append,List.map_map,Nat.add_sub_cancel_left]
    refine List.map_congr_left fun i _ => ?_
    show slot size r.buffer (((r.tail + n) % capacity + i) % capacity) = slot size r.buffer ((r.tail + (n + i)) % capacity)
    rw [Nat.mod_add_mod,Nat.add_assoc]

theorem Drained.first (some : n ≤ r.count)
    (drained : Drained capacity size r.buffer r.tail dst d n b) :
    SlotRing.slots size b d n = (r.contents capacity size).take n := by
  obtain ⟨m,split⟩ := Nat.exists_eq_add_of_le some
  unfold SlotRing.slots contents
  rw [split,List.range_add,List.map_append,List.take_left' (by simp)]
  refine List.map_congr_left fun i member => ?_
  have less := List.mem_range.mp member
  rw [drained.slots,if_pos (by omega),Nat.add_sub_cancel_left]

theorem Valid.copied_first (valid : Valid capacity size r) (some : 0 < r.count)
    (copied : memcpy dst 0 r.buffer (r.tail * size) size = .some b) :
    (r.contents capacity size).take 1 = [b.take size] := by
  have drained : Drained capacity size r.buffer r.tail dst 0 1 b :=
    .cons valid.tail (by rwa [Nat.zero_mul]) .nil
  rw [← drained.first some,slots_one,slot_zero]

theorem Valid.prepend (valid : Valid capacity size r) (fits : r.count < capacity)
    (place : front = if r.tail = 0 then capacity - 1 else r.tail - 1)
    (filled : Filled capacity size r.buffer front src s 1 b) :
    Valid capacity size {r with buffer := b,tail := front,count := r.count + 1} ∧
      contents capacity size {r with buffer := b,tail := front,count := r.count + 1} =
        slot size src s :: r.contents capacity size := by
  obtain ⟨room,old,count,head⟩ := valid
  have inside : front < capacity := by rw [place]; split <;> omega
  have next : (front + 1) % capacity = r.tail := by
    rw [mod_wrap (by omega),place]
    split <;> split <;> omega
  have shift : ∀ i,(front + (i + 1)) % capacity = (r.tail + i) % capacity := by
    intro i
    rw [Nat.add_comm i 1,← Nat.add_assoc,← Nat.mod_add_mod,next]
  refine ⟨⟨filled.length.trans room,inside,fits,?_⟩,?_⟩
  · show r.head = (front + (r.count + 1)) % capacity
    rw [shift,head]
  · unfold contents
    dsimp only
    rw [List.range_succ_eq_map,List.map_cons,List.map_map]
    refine congr_arg₂ _ ?_ ?_
    · rw [filled.slots 0 (by omega),if_pos (by omega),Nat.add_zero]
    · refine List.map_congr_left fun i member => ?_
      have less := List.mem_range.mp member
      show slot size b ((front + (i + 1)) % capacity) = _
      rw [filled.slots (i + 1) (by omega),if_neg (by omega),shift]

end SlotRing
