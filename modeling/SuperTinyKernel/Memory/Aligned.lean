import SuperTinyKernel.Memory.BlockPoolSetup

namespace SuperTinyKernel.MemoryAllocator

open BlockPool Function

-- MemoryAllocator::AllocateAligned and FreeAligned over any backend, with a memory word at
-- each address.

variable (c : BlockPool.Config)

def isPow2 (v : Nat) : Bool := decide (v > 0 ∧ v &&& c.minus v 1 = 0)
def alignPow2 (v align : Nat) : Nat := c.minus (c.wrap (v + align)) 1 &&& (c.limit - 1 - c.minus align 1)

def adjustedAlignment (alignment : Nat) : Nat := max alignment c.wordBytes
def space (offset : Nat) : Nat := c.minus 0 offset &&& c.minus c.wordBytes 1

def privateSpace (alignment offset : Nat) : Nat :=
  c.wrap (c.wrap (c.wordBytes + space c offset) + c.minus (adjustedAlignment c alignment) 1)

def lowest (raw offset : Nat) : Nat := c.wrap (raw + c.wrap (c.wrap (c.wordBytes + space c offset) + offset))

def allocateAligned (allocate : Nat → Nat) (memory : Nat → Nat) (size alignment offset : Nat) : (Nat → Nat) × Nat :=
  if isPow2 c alignment = true ∧ (offset = 0 ∨ offset < size) then
    if size ≤ c.minus (c.limit - 1) (privateSpace c alignment offset) then
      let raw := allocate (c.wrap (privateSpace c alignment offset + size))
      if raw ≠ 0 then
        let aligned := c.minus (alignPow2 c (lowest c raw offset) (adjustedAlignment c alignment)) offset
        let blockStart := c.minus aligned (c.wrap (space c offset + c.wordBytes))
        (update memory blockStart raw,aligned)
      else (memory,0)
    else (memory,0)
  else (memory,0)

def freeAligned (memory : Nat → Nat) (ptr : Nat) : Option Nat :=
  if ptr ≠ 0 then some (memory (c.minus (c.minus ptr (ptr &&& c.minus c.wordBytes 1)) c.wordBytes)) else none

-- The slot and the payload in a raw block of `block` bytes, computed without wrapping.
structure Placed (raw block size alignment offset slot payload : Nat) : Prop where
  low : lowest c raw offset = raw + c.wordBytes + space c offset + offset
  up : alignPow2 c (lowest c raw offset) (adjustedAlignment c alignment) =
    roundUp (lowest c raw offset) (adjustedAlignment c alignment)
  back : payload + offset = roundUp (lowest c raw offset) (adjustedAlignment c alignment)
  start : slot + c.wordBytes + space c offset = payload
  boundary : (payload + offset) % alignment = 0
  pointer : slot % c.wordBytes = 0
  first : raw ≤ slot
  apart : slot + c.wordBytes ≤ payload
  last : payload + size ≤ raw + block

variable {c : BlockPool.Config} {p k raw size alignment offset : Nat}

theorem minus_of_le (less : b ≤ a) (small : a < c.limit) : c.minus a b = a - b := by
  unfold Config.minus Config.wrap
  rw [show a + (c.limit - b) = a - b + c.limit by omega,Nat.add_mod_right,Nat.mod_eq_of_lt (by omega)]

theorem alignPow2_eq (v : Nat) (some_ : 0 < align) (small : align < c.limit) : alignPow2 c v align = c.alignUp v align := by
  rw [alignPow2,Config.alignUp,c.minus_one some_ small]
  congr 1
  unfold Config.minus Config.wrap
  rw [Nat.mod_add_mod,show v + align + (c.limit - 1) = v + (align - 1) + c.limit by omega,Nat.add_mod_right]

theorem pointer_small (c : BlockPool.Config) : 4 * c.wordBytes < c.limit := by
  have wide := c.wide
  calc 4 * c.wordBytes < 2 ^ 2 * 2 ^ c.wordBytes := Nat.mul_lt_mul_of_pos_left Nat.lt_two_pow_self (by decide)
    _ = 2 ^ (2 + c.wordBytes) := (Nat.pow_add ..).symm
    _ ≤ c.limit := Nat.pow_le_pow_right Nat.two_pos (by omega)

section Sizes

variable (pointer : c.wordBytes = 2 ^ p) (power : alignment = 2 ^ k) (small : alignment < c.limit) (given : offset < c.limit)

include pointer

theorem low_bits (x : Nat) : x &&& c.minus c.wordBytes 1 = x % c.wordBytes := by
  have wide := c.wide
  have short := pointer_small c
  rw [c.minus_one (by omega) (by omega),pointer]
  exact Nat.and_two_pow_sub_one_eq_mod x p

include given in
theorem space_spec : space c offset < c.wordBytes ∧ (offset + space c offset) % c.wordBytes = 0 := by
  have wide := c.wide
  have divides : c.wordBytes ∣ c.limit := by
    have less : p < c.wordBytes := pointer ▸ Nat.lt_two_pow_self
    rw [Config.limit,pointer]
    exact Nat.pow_dvd_pow 2 (by omega)
  rw [space,low_bits pointer,Config.minus,Config.wrap,Nat.zero_add,Nat.mod_mod_of_dvd _ divides,Nat.add_mod_mod,
    Nat.add_sub_cancel' (by omega)]
  exact ⟨Nat.mod_lt _ (by omega),Nat.mod_eq_zero_of_dvd divides⟩

include power small

theorem adjusted_spec : ∃ m,adjustedAlignment c alignment = 2 ^ m ∧ k ≤ m ∧ p ≤ m ∧ c.wordBytes ≤ adjustedAlignment c alignment ∧
    2 * adjustedAlignment c alignment ≤ c.limit := by
  have short := pointer_small c
  rcases Nat.le_total k p with less | less
  · have larger : adjustedAlignment c alignment = c.wordBytes :=
      Nat.max_eq_right (power ▸ pointer ▸ Nat.pow_le_pow_right Nat.two_pos less)
    exact ⟨p,larger.trans pointer,less,Nat.le_refl p,by omega,by omega⟩
  · have larger : adjustedAlignment c alignment = alignment :=
      Nat.max_eq_left (power ▸ pointer ▸ Nat.pow_le_pow_right Nat.two_pos less)
    have half := c.power_half power small
    exact ⟨k,larger.trans power,Nat.le_refl k,less,Nat.le_max_right ..,by omega⟩

include given in
theorem privateSpace_exact : privateSpace c alignment offset < c.limit ∧
    privateSpace c alignment offset = c.wordBytes + space c offset + (adjustedAlignment c alignment - 1) := by
  have wide := c.wide
  have short := pointer_small c
  have few := (space_spec pointer given).1
  obtain ⟨_,_,_,_,some_,half⟩ := adjusted_spec pointer power small
  have exact_ : privateSpace c alignment offset = c.wordBytes + space c offset + (adjustedAlignment c alignment - 1) := by
    rw [privateSpace,c.minus_one (by omega) (by omega)]
    unfold Config.wrap
    rw [Nat.mod_eq_of_lt (a := c.wordBytes + _) (by omega),Nat.mod_eq_of_lt (by omega)]
  exact ⟨by omega,exact_⟩

theorem placed_of_block (valid : offset = 0 ∨ offset < size)
    (block : raw + (c.wordBytes + space c offset + (adjustedAlignment c alignment - 1) + size) < c.limit)
    (at_ : payload = c.minus (alignPow2 c (lowest c raw offset) (adjustedAlignment c alignment)) offset)
    (below : slot = c.minus payload (c.wrap (space c offset + c.wordBytes))) :
    Placed c raw (c.wordBytes + space c offset + (adjustedAlignment c alignment - 1) + size) size alignment offset
      slot payload := by
  have wide := c.wide
  obtain ⟨few,even⟩ := space_spec pointer (show offset < c.limit by omega)
  obtain ⟨m,adjusted,multiple,words,some_,half⟩ := adjusted_spec pointer power small
  have low : lowest c raw offset = raw + c.wordBytes + space c offset + offset := by
    unfold lowest Config.wrap
    rw [Nat.mod_eq_of_lt (a := c.wordBytes + _) (by omega),Nat.mod_eq_of_lt (a := _ + offset) (by omega),
      Nat.mod_eq_of_lt (by omega)]
    omega
  have up : alignPow2 c (lowest c raw offset) (adjustedAlignment c alignment) =
      roundUp (lowest c raw offset) (adjustedAlignment c alignment) := by
    rw [alignPow2_eq _ (by omega) (by omega),c.alignUp_eq adjusted (by omega) (by omega),if_pos (by omega)]
  have least := le_roundUp (show 0 < adjustedAlignment c alignment by omega) (lowest c raw offset)
  have most := roundUp_le (lowest c raw offset) (adjustedAlignment c alignment)
  rw [up,minus_of_le (by omega) (by omega)] at at_
  rw [Config.wrap,Nat.mod_eq_of_lt (by omega),minus_of_le (by omega) (by omega)] at below
  have back : payload + offset = roundUp (lowest c raw offset) (adjustedAlignment c alignment) := by omega
  have whole : 2 ^ m ∣ payload + offset := by
    rw [back,adjusted]
    exact Nat.dvd_mul_left ..
  have boundary : alignment ∣ payload + offset := power ▸ (Nat.pow_dvd_pow 2 multiple).trans whole
  have rest : c.wordBytes ∣ payload + offset := pointer ▸ (Nat.pow_dvd_pow 2 words).trans whole
  -- The offset and the space fill words, and so does all above the slot.
  rw [show payload + offset = slot + c.wordBytes + (offset + space c offset) by omega,
    Nat.dvd_add_left (Nat.dvd_of_mod_eq_zero even),Nat.dvd_add_left (Nat.dvd_refl _)] at rest
  exact ⟨low,up,back,by omega,Nat.mod_eq_zero_of_dvd boundary,Nat.mod_eq_zero_of_dvd rest,by omega,by omega,by omega⟩

end Sizes

theorem Placed.frees (placed : Placed c raw block size alignment offset slot payload) (pointer : c.wordBytes = 2 ^ p)
    (given : offset < c.limit) (inside : payload < c.limit) {memory : Nat → Nat} :
    freeAligned c memory payload = some (memory slot) := by
  have wide := c.wide
  have few := (space_spec pointer given).1
  obtain ⟨q,words⟩ := Nat.dvd_of_mod_eq_zero placed.pointer
  have start := placed.start
  have low : payload % c.wordBytes = space c offset := by
    rw [← start,words,Nat.add_assoc,Nat.mul_add_mod,Nat.add_mod_left,Nat.mod_eq_of_lt few]
  rw [freeAligned,if_pos (by omega),low_bits pointer,low,minus_of_le (b := space c offset) (by omega) inside,
    minus_of_le (by omega) (by omega),show payload - space c offset - c.wordBytes = slot by omega]

theorem aligned_round_trip (size offset : Nat) (pointer : c.wordBytes = 2 ^ p) (power : alignment = 2 ^ k) (small : alignment < c.limit)
    (sized : size < c.limit) (valid : offset = 0 ∨ offset < size) (allocate : Nat → Nat)
    (backend : ∀ n,allocate n ≠ 0 → allocate n + n < c.limit) (memory : Nat → Nat) :
    ∃ n,n = c.wordBytes + space c offset + (adjustedAlignment c alignment - 1) + size ∧
      privateSpace c alignment offset + size = n ∧
      ((c.limit ≤ n ∨ allocate n = 0) ∧ allocateAligned c allocate memory size alignment offset = (memory,0) ∨
        ∃ slot payload,allocate n ≠ 0 ∧ payload ≠ 0 ∧ n < c.limit ∧
          allocateAligned c allocate memory size alignment offset = (update memory slot (allocate n),payload) ∧
          Placed c (allocate n) n size alignment offset slot payload ∧
          ∀ later : Nat → Nat,later slot = allocate n → freeAligned c later payload = some (allocate n)) := by
  have wide := c.wide
  have short : offset < c.limit := by omega
  have positive : 0 < alignment := power ▸ Nat.two_pow_pos k
  have checked : isPow2 c alignment = true := by
    refine decide_eq_true ⟨positive,?_⟩
    rw [c.minus_one positive small]
    exact (Nat.and_sub_one_eq_zero_iff_isPowerOfTwo (by omega)).mpr ⟨k,power⟩
  obtain ⟨below,total⟩ := privateSpace_exact pointer power small short
  refine ⟨_,rfl,by rw [total],?_⟩
  unfold allocateAligned
  rw [if_pos ⟨checked,valid⟩,minus_of_le (by omega) (by omega),total]
  by_cases fits : c.wordBytes + space c offset + (adjustedAlignment c alignment - 1) + size < c.limit
  · rw [if_pos (by omega),show c.wrap _ = _ from Nat.mod_eq_of_lt fits]
    by_cases null : allocate (c.wordBytes + space c offset + (adjustedAlignment c alignment - 1) + size) = 0
    · exact .inl ⟨.inr null,if_neg (not_not.mpr null)⟩
    · have block := backend _ null
      have placed := placed_of_block pointer power small valid block rfl rfl
      have last := placed.last
      have apart := placed.apart
      refine .inr ⟨_,_,null,by omega,fits,if_pos null,placed,fun later same => ?_⟩
      rw [placed.frees pointer short (by omega),same]
  · exact .inl ⟨.inl (by omega),if_neg (by omega)⟩

theorem aligned_round_trip_of_ten : ∃ slot payload,
    allocateAligned ⟨4,by decide,false,false⟩ (fun n => if n = 30 then 101 else 0) (fun _ => 0) 10 16 3 =
      (update (fun _ => 0) slot 101,payload) ∧ (payload + 3) % 16 = 0 := by
  obtain ⟨n,rfl,_,⟨failed,_⟩ | ⟨slot,payload,_,_,_,got,placed,_⟩⟩ := aligned_round_trip (c := ⟨4,by decide,false,false⟩) (p := 2)
    (k := 4) 10 3 rfl rfl (by decide) (by decide) (.inr (by decide)) (fun n => if n = 30 then 101 else 0) (fun n some_ => by
      split at some_
      · subst n
        decide
      · exact absurd rfl some_) fun _ => 0
  · exact absurd failed (by decide)
  · exact ⟨slot,payload,got,placed.boundary⟩

end SuperTinyKernel.MemoryAllocator
