import SuperTinyKernel.Memory.BytePoolRuns

set_option linter.unusedSectionVars false

namespace SuperTinyKernel.BytePool

open Monitor Tiling Transition

structure Info where
  available : Nat := 0
  largest : Nat := 0
  fragments : Nat := 0
  deriving DecidableEq,Repr

def accountRun (c : Config) (run : Nat) (i : Info) : Info :=
  if run ≠ 0 then
    let payload := run - c.headerSize
    {available := i.available + payload,largest := if payload > i.largest then payload else i.largest,
     fragments := i.fragments + 1}
  else i

namespace Pool

-- `run` is the length of the current run of adjacent free blocks.
def walkInfo (c : Config) (p : Pool) : Nat → Nat → Nat → Info → Option Info
  | 0,_,_,_ => none
  | fuel + 1,h,run,i =>
    if h < p.endAt ∧ p.isSane c h = true then
      if p.stateOf h = stateFree then walkInfo c p fuel (p.next h) (run + p.sizeOf h) i
      else walkInfo c p fuel (p.next h) 0 (accountRun c run i)
    else some (accountRun c run i)

def getInfo (c : Config) (p : Pool) : Option Info :=
  if p.first ≠ 0 then walkInfo c p p.walkLimit p.first 0 {} else some {}

end Pool

variable {c : Config} {p p' : Pool} {blocks before rest : List Block} {i : Info} {h lo hi run need size fuel : Nat}

-- A stretch of the pool that no used block reaches into, its free blocks merged or not.
structure Gap (p : Pool) (blocks : List Block) (lo hi : Nat) : Prop where
  first : p.first ≤ lo
  last : hi ≤ p.endAt
  clear : Clear (used blocks) lo hi

theorem Gap.narrow (gap : Gap p blocks lo hi) (less : hi' ≤ hi) : Gap p blocks lo hi' :=
  ⟨gap.first,Nat.le_trans less gap.last,gap.clear.narrow (Nat.le_refl _) less⟩

structure Largest (c : Config) (p : Pool) (blocks : List Block) (n : Nat) : Prop where
  most : ∀ lo hi,Gap p blocks lo hi → hi ≤ lo + (n + c.headerSize)
  there : n = 0 ∨ ∃ lo,Gap p blocks lo (lo + (n + c.headerSize))
  even : n % c.align = 0

structure Surveyed (c : Config) (p : Pool) (blocks : List Block) (h run : Nat) (i : Info) : Prop where
  inside : p.first + run ≤ h ∧ h ≤ p.endAt
  whole : run = 0 ∨ c.headerSize ≤ run ∧ Clear (used blocks) (h - run) h
  evenRun : run % c.align = 0
  most : ∀ lo hi,Gap p blocks lo hi → lo < h - run → hi ≤ lo + (i.largest + c.headerSize)
  there : i.largest = 0 ∨ ∃ lo,Gap p blocks lo (lo + (i.largest + c.headerSize))
  even : i.largest % c.align = 0

theorem accountRun_largest (c : Config) (run : Nat) (i : Info) :
    i.largest ≤ (accountRun c run i).largest ∧ run ≤ (accountRun c run i).largest + c.headerSize ∧
      ((accountRun c run i).largest = i.largest ∨ run ≠ 0 ∧ (accountRun c run i).largest = run - c.headerSize) := by
  unfold accountRun
  dsimp only
  split
  · split
    · dsimp only
      omega
    · dsimp only
      omega
  · omega

namespace Surveyed

section

variable (surveyed : Surveyed c p blocks h run i)
include surveyed

theorem accounted :
    ((accountRun c run i).largest = 0 ∨ ∃ lo,Gap p blocks lo (lo + ((accountRun c run i).largest + c.headerSize))) ∧
      (accountRun c run i).largest % c.align = 0 := by
  rcases (accountRun_largest c run i).2.2 with same | ⟨some,same⟩
  · rw [same]
    exact ⟨surveyed.there,surveyed.even⟩
  · have inside := surveyed.inside
    obtain ⟨header,clear⟩ := surveyed.whole.resolve_left some
    rw [same]
    constructor
    · right
      exact ⟨h - run,by omega,by omega,clear.narrow (Nat.le_refl _) (by omega)⟩
    · refine Nat.sub_mod_eq_zero_of_mod_eq ?_
      rw [surveyed.evenRun,c.header_aligned]

theorem free (laid : Laid c p blocks) (member : b ∈ blocks) (at_ : b.start = h)
    (unused : b.tag = false) : Surveyed c p blocks (h + b.size) (run + b.size) i := by
  have inside := surveyed.inside
  have bound := (laid.tiles.inside member).2
  have stored := laid.stored b member
  have least := stored.least
  have back : h + b.size - (run + b.size) = h - run := by omega
  refine ⟨by omega,.inr ⟨?_,?_⟩,?_,?_,surveyed.there,surveyed.even⟩
  · unfold Config.minBlockSize at least
    omega
  · rw [back]
    intro u used_
    obtain ⟨there,marked⟩ := mem_used.mp used_
    have other := laid.tiles.disjoint there member (by rintro rfl; rw [marked] at unused; cases unused)
    rcases surveyed.whole with none | ⟨_,clear⟩
    · omega
    · have apart := clear u used_
      have positive := laid.positive there
      omega
  · rw [Nat.add_mod,surveyed.evenRun,stored.even]
    exact Nat.zero_mod _
  · rw [back]
    exact surveyed.most

theorem used (laid : Laid c p blocks) (member : b ∈ blocks) (at_ : b.start = h)
    (marked : b.tag = true) : Surveyed c p blocks (h + b.size) 0 (accountRun c run i) := by
  obtain ⟨grows,covers,_⟩ := accountRun_largest c run i
  obtain ⟨there,even⟩ := surveyed.accounted
  have inside := surveyed.inside
  have bound := (laid.tiles.inside member).2
  refine ⟨by omega,.inl rfl,Nat.zero_mod _,?_,there,even⟩
  intro lo hi gap before
  have apart := gap.clear b (mem_used.mpr ⟨member,marked⟩)
  by_cases early : lo < h - run
  · have most := surveyed.most lo hi gap early
    omega
  · omega

end

theorem ended (surveyed : Surveyed c p blocks p.endAt run i) : Largest c p blocks (accountRun c run i).largest := by
  obtain ⟨grows,covers,_⟩ := accountRun_largest c run i
  obtain ⟨there,even⟩ := surveyed.accounted
  refine ⟨?_,there,even⟩
  intro lo hi gap
  have last := gap.last
  by_cases early : lo < p.endAt - run
  · have most := surveyed.most lo hi gap early
    omega
  · omega

end Surveyed

theorem walkInfo_laid (laid : Laid c p (before ++ rest)) (lower : Tiles p.first before h)
    (surveyed : Surveyed c p (before ++ rest) h run i) (enough : rest.length < fuel) :
    ∃ i',p.walkInfo c fuel h run i = some i' ∧ Largest c p (before ++ rest) i'.largest := by
  induction fuel generalizing before rest h run i with
  | zero => omega
  | succ fuel ih =>
    have upper := laid.tiles.rest lower
    rw [Pool.walkInfo]
    cases rest with
    | nil =>
      have ended : h = p.endAt := upper
      subst ended
      rw [if_neg (by omega)]
      exact ⟨_,rfl,surveyed.ended⟩
    | cons b more =>
      have at_ : b.start = h := upper.1
      have member : b ∈ before ++ b :: more := by simp
      have stored := laid.stored b member
      have known : p.sizeOf b.start = b.size := stored.size
      have state : p.stateOf b.start = if b.tag then stateUsed else stateFree := stored.state
      have next : p.next b.start = b.start + b.size := congrArg (b.start + ·) stored.size
      have bound := (laid.tiles.inside member).2
      have positive := laid.positive member
      have shifted : before ++ b :: more = before ++ [b] ++ more := by simp
      have lower' : Tiles p.first (before ++ [b]) (h + b.size) := lower.append ⟨at_,rfl⟩
      rw [← at_,if_pos ⟨by omega,laid.sane member⟩,next,known,at_]
      cases marked : b.tag with
      | false =>
        rw [marked,at_] at state
        have surveyed := surveyed.free laid member at_ marked
        rw [if_pos (show p.stateOf h = stateFree from state)]
        rw [shifted] at laid surveyed ⊢
        exact ih laid lower' surveyed (by simpa using enough)
      | true =>
        rw [marked,at_] at state
        have surveyed := surveyed.used laid member at_ marked
        rw [if_neg fun free => absurd (state.symm.trans free) (by decide)]
        rw [shifted] at laid surveyed ⊢
        exact ih laid lower' surveyed (by simpa using enough)

theorem getInfo_laid (laid : Laid c p blocks) : ∃ i,p.getInfo c = some i ∧ Largest c p blocks i.largest := by
  unfold Pool.getInfo
  rw [if_pos laid.base]
  have whole : Laid c p ([] ++ blocks) := laid
  refine walkInfo_laid whole rfl ⟨⟨by omega,laid.tiles.le⟩,.inl rfl,Nat.zero_mod _,?_,.inl rfl,Nat.zero_mod _⟩ laid.count_lt
  intro lo hi gap before
  have first := gap.first
  omega

theorem Gap.coalesced (gap : Gap p (before ++ b :: more) lo hi) (done : Coalesced c p before b more p' size after)
    (unused : b.tag = false) : Gap p' (before ++ ⟨b.start,size,false⟩ :: after) lo hi := by
  refine ⟨?_,?_,?_⟩
  · rw [done.frame.first]
    exact gap.first
  · rw [done.frame.endAt]
    exact gap.last
  · rw [done.used unused]
    exact gap.clear

theorem Coalesced.bounds (done : Coalesced c p before b more p' size after) (gap : Gap p' (before ++ ⟨b.start,size,false⟩ :: after) lo hi)
    (early : lo < b.start + size) : hi ≤ b.start + size := by
  have behind := done.laid.tiles.split.2
  cases after with
  | nil =>
    have ended : b.start + size = p'.endAt := behind
    rw [ended]
    exact gap.last
  | cons u rest =>
    have at_ : u.start = b.start + size := behind.1
    have marked := done.stops u rest rfl
    have apart := gap.clear u (mem_used.mpr ⟨by simp,marked⟩)
    omega

theorem scanRange_nothing {s : Scan} (some_ : 0 < need) (laid : Laid c p (before ++ rest)) (lower : Tiles p.first before h)
    (bound : stop ≤ p.endAt) (scan : p.scanRange c stop need fuel h scanned = some s) (none : s.result = 0)
    (gap : Gap p (before ++ rest) lo hi) (from_ : h ≤ lo) (to_ : lo < stop) : hi < lo + need := by
  induction fuel generalizing p before rest h scanned with
  | zero => cases scan
  | succ fuel ih =>
    rcases scanRange_turn laid lower bound with ⟨ended,_⟩ | ⟨b,more,split,at_,turn⟩
    · omega
    · subst split at_
      have member : b ∈ before ++ b :: more := by simp
      rcases turn with ⟨marked,turn⟩ | ⟨unused,q,size,after,_,done,turn⟩
      · rw [turn] at scan
        have apart := gap.clear b (mem_used.mpr ⟨member,marked⟩)
        have shifted : before ++ b :: more = before ++ [b] ++ more := by simp
        rw [shifted] at laid gap
        by_cases empty : hi ≤ lo
        · omega
        · exact ih laid (lower.append ⟨rfl,rfl⟩) bound scan gap (by omega)
      · rw [turn] at scan
        have gap := gap.coalesced done unused
        split at scan
        · cases scan
          have header := c.eight_le_header
          dsimp only at none
          omega
        · by_cases early : lo < b.start + size
          · have ends := done.bounds gap early
            omega
          · obtain ⟨laid,lower⟩ := done.onward lower
            have gap : Gap q (before ++ [⟨b.start,size,false⟩] ++ after) lo hi := by
              rw [List.append_assoc]
              exact gap
            exact ih laid lower (by rw [done.frame.endAt]; exact bound) scan gap (by omega)

-- If the scan begins with the first block or finds something, that is all; otherwise the
-- blocks before it are scanned as well.
inductive ScanParts (c : Config) (p : Pool) (need : Nat) (blocks : List Block) (s : Scan) : Prop where
  | once (before rest : List Block) (start : Nat) : blocks = before ++ rest → Tiles p.first before start →
      p.scanRange c p.endAt need p.walkLimit start 0 = some s → (s.result = 0 → start = p.first) → ScanParts c p need blocks s
  | twice (before rest blocks' : List Block) (start : Nat) (s' : Scan) : blocks = before ++ rest → Tiles p.first before start →
      start ≤ p.endAt → p.scanRange c p.endAt need p.walkLimit start 0 = some s' → s'.result = 0 → Laid c s'.pool blocks' →
      used blocks' = used blocks → Frame p s'.pool →
      s'.pool.scanRange c start need p.walkLimit s'.pool.first s'.scanned = some s → ScanParts c p need blocks s

theorem scanAll_parts {s : Scan} (least : c.minBlockSize ≤ need) (even : need % c.align = 0) (laid : Laid c p blocks)
    (scan : p.scanAll c need = some s) : ScanParts c p need blocks s := by
  unfold Pool.scanAll at scan
  split at scan
  · obtain ⟨b,member,at_⟩ := List.mem_map.mp laid.rover
    obtain ⟨before,rest,split⟩ := List.append_of_mem member
    subst split
    have start : (if p.rover ≠ 0 then p.rover else p.first) = b.start := by
      rw [← at_,if_pos (laid.start_ne member)]
    have inside := (laid.tiles.inside member).2
    have lower := laid.tiles.split.1
    dsimp only at scan
    rw [start] at scan
    obtain ⟨s',looped,scan⟩ := of_bind scan
    split at scan
    · rename_i again
      have few := laid.count_lt
      have fewer : (b :: rest).length < p.walkLimit := by
        rw [List.length_append] at few
        omega
      obtain ⟨_,looped',scanned⟩ := scanRange_laid least even laid lower (Nat.le_refl _) fewer 0
      cases looped.symm.trans looped'
      cases scanned with
      | nothing blocks' laid' same none frame _ =>
        exact .twice before (b :: rest) blocks' b.start s' rfl lower (by omega) looped none laid' same frame scan
      | found _ _ _ b' _ _ _ _ _ found =>
        have header := c.eight_le_header
        omega
    · rename_i enough
      cases scan
      exact .once before (b :: rest) b.start rfl lower looped fun none => Decidable.not_not.mp fun other => enough ⟨none,other⟩
  · exact .once [] blocks p.first rfl rfl scan fun _ => rfl

theorem scanAll_nothing {s : Scan} (least : c.minBlockSize ≤ need) (even : need % c.align = 0) (laid : Laid c p blocks)
    (scan : p.scanAll c need = some s) (none : s.result = 0) (gap : Gap p blocks lo hi) : hi < lo + need := by
  have header := c.eight_le_header
  have first := gap.first
  have last := gap.last
  have some_ : 0 < need := by
    unfold Config.minBlockSize at least
    omega
  by_cases late : p.endAt ≤ lo
  · omega
  · cases scanAll_parts least even laid scan with
    | once before rest start split lower scan only =>
      subst split
      exact scanRange_nothing some_ laid lower (Nat.le_refl _) scan none gap (by rw [only none]; exact first) (by omega)
    | twice before rest blocks' start s' split lower bound scan unfound laid' same frame again =>
      subst split
      by_cases early : lo < start
      · have whole : Laid c s'.pool ([] ++ blocks') := laid'
        have gap' : Gap s'.pool ([] ++ blocks') lo hi := by
          refine ⟨?_,?_,?_⟩
          · rw [frame.first]
            exact first
          · rw [frame.endAt]
            exact last
          · rw [List.nil_append,same]
            exact gap.clear
        refine scanRange_nothing some_ whole rfl ?_ again none gap' ?_ early
        · rw [frame.endAt]
          exact bound
        · rw [frame.first]
          exact first
      · exact scanRange_nothing some_ laid lower (Nat.le_refl _) scan unfound gap (by omega) (by omega)

theorem found_gap {b : Block} {left right blocks' : List Block} (laid : Laid c p' blocks') (new : used blocks' = left ++ b :: right)
    (old : used blocks = left ++ right) (frame : Frame p p') : Gap p blocks b.start (b.start + b.size) := by
  have member : b ∈ blocks' := (mem_used.mp (by rw [new]; simp)).1
  have inside := laid.tiles.inside member
  refine ⟨?_,?_,?_⟩
  · rw [← frame.first]
    exact inside.1
  · rw [← frame.endAt]
    exact inside.2
  · intro u used_
    have apart : (left ++ b :: right).Pairwise fun s t => s.start + s.size ≤ t.start := by
      rw [← new]
      exact laid.tiles.apart.filter fun b => b.tag
    rw [old] at used_
    obtain ⟨_,behind,before⟩ := List.pairwise_append.mp apart
    rcases List.mem_append.mp used_ with front | back
    · exact .inl (before u front b (by simp))
    · exact .inr ((List.pairwise_cons.mp behind).1 u back)

theorem findFree_gap (least : c.minBlockSize ≤ need) (even : need % c.align = 0) (laid : Laid c p blocks) :
    ∃ p' result,p.findFree c need = some (p',result) ∧ (result ≠ 0 ↔ ∃ lo,Gap p blocks lo (lo + need)) := by
  obtain ⟨p',result,found,scanned⟩ := findFree_laid least even laid
  refine ⟨p',result,found,?_⟩
  cases scanned with
  | nothing blocks' laid' same none frame stats =>
    refine ⟨fun some_ => absurd none some_,?_⟩
    intro there
    obtain ⟨lo,gap⟩ := there
    obtain ⟨s,scan,same⟩ := of_map found
    have nothing := scanAll_nothing least even laid scan (by rw [← none]; exact congrArg Prod.snd same) gap
    omega
  | found blocks' left right b laid' new old marked enough at_ frame stats =>
    have header := c.eight_le_header
    have gap := found_gap laid' new old frame
    exact ⟨fun _ => ⟨b.start,gap.narrow (by omega)⟩,fun _ => by omega⟩

theorem Largest.fits (largest : Largest c p blocks n) (some_ : 0 < size) :
    (∃ lo,Gap p blocks lo (lo + c.requiredSize size)) ↔ size + c.guardSize ≤ n := by
  have least := c.required_least some_
  have covers := c.required_covers size
  have positive := c.align_pos
  constructor
  · intro there
    obtain ⟨lo,gap⟩ := there
    have most := largest.most _ _ gap
    omega
  · intro fits
    have rounded := c.alignSize_le fits largest.even
    unfold Config.requiredSize at covers ⊢
    rcases largest.there with none | ⟨lo,gap⟩
    · omega
    · exact ⟨lo,gap.narrow (by omega)⟩

theorem Largest.max (largest : Largest c p blocks n) (laid : Laid c p blocks) (fits : size + c.guardSize ≤ n) (some_ : 0 < size) :
    size ≤ p.getMaxRequest c := by
  have whole : p.getSize = p.endAt - p.first := if_pos laid.base
  obtain ⟨lo,gap⟩ := (largest.fits some_).mpr fits
  have first := gap.first
  have last := gap.last
  have least := c.required_least some_
  have covers := c.required_covers size
  unfold Pool.getMaxRequest
  rw [whole,if_pos (by omega)]
  omega

def Answer.block : Answer → Nat
  | .alloc .signal block => block
  | _ => 0

theorem tryAlloc_gap (env : Ambient) (laid : Laid c p blocks) (size : Nat) : ∃ sec a,enter c env p (.alloc size noWait) = some sec ∧
    sec.ending = .done a ∧ (a.block ≠ 0 ↔ (0 < size ∧ size ≤ p.getMaxRequest c) ∧ ∃ lo,Gap p blocks lo (lo + c.requiredSize size)) := by
  rw [enter,if_neg (by simp)]
  split
  · rename_i unfit
    refine ⟨_,_,rfl,rfl,?_⟩
    exact ⟨fun some_ => absurd rfl some_,fun fits => by omega⟩
  · rename_i asked
    have some_ : 0 < size := by omega
    obtain ⟨p',result,found,exact_⟩ := findFree_gap (c.required_least some_) (c.required_aligned size) laid
    have budget : (Budget.of env.now noWait).remaining env.now = noWait := rfl
    unfold allocScan
    rw [found,Option.bind_some]
    unfold allocLoop
    dsimp only
    by_cases none : result = 0
    · rw [if_neg (fun some_ => some_ none),if_neg Bool.false_ne_true,budget,waitEx,if_pos rfl]
      refine ⟨_,_,rfl,rfl,fun some_ => absurd rfl some_,?_⟩
      intro fits
      exact absurd none (exact_.mpr fits.2)
    · rw [if_pos none]
      exact ⟨_,_,rfl,rfl,fun _ => ⟨by omega,exact_.mp none⟩,fun _ => none⟩

theorem free_cases (freed : p.free c ptr = some (p',success)) : success = false ∧ p' = p ∨
    success = true ∧ p.stateOf (ptr - c.headerSize) = stateUsed ∧ p.release c (ptr - c.headerSize) = some p' := by
  unfold Pool.free at freed
  split at freed
  · split at freed
    · cases freed
      exact .inl ⟨rfl,rfl⟩
    · split at freed
      · cases freed
        exact .inl ⟨rfl,rfl⟩
      · dsimp only at freed
        split at freed
        · cases freed
          exact .inl ⟨rfl,rfl⟩
        · rename_i state
          obtain ⟨isBlock,_,freed⟩ := of_bind freed
          split at freed
          · split at freed
            · obtain ⟨_,released,same⟩ := of_map freed
              cases same
              exact .inr ⟨rfl,Decidable.not_not.mp state,released⟩
            · cases freed
              exact .inl ⟨rfl,rfl⟩
          · cases freed
            exact .inl ⟨rfl,rfl⟩
  · cases freed
    exact .inl ⟨rfl,rfl⟩

section Runs

variable {T : Type} [DecidableEq T] {g g' : Arena T} {base : Nat}

-- The tasks may call Free() with anything, as long as Free() finds it out.
def tolerated (c : Config) (h : Arena T) : Happening T Request → Bool
  | .call _ (.free ptr) _ _ =>
    decide (Owned (live h.log) (.free ptr) ∨ (h.shared.free c ptr).map Prod.snd = some false)
  | e => owned h e

theorem tolerated_cases (fair : tolerated c g (.call t q isr refused) = true) (entered : enter c env g.shared q = some sec) :
    Owned (live g.log) q ∨ ∃ a,sec = {shared := g.shared,ending := .done a} := by
  cases q with
  | free ptr =>
    rcases of_decide_eq_true fair with mine | rejected
    · exact .inl mine
    · obtain ⟨⟨p,success⟩,freed,failed⟩ := of_map rejected
      cases failed
      rw [enter,freed,Option.map_some] at entered
      cases entered
      rcases free_cases freed with ⟨_,same⟩ | ⟨succeeded,_⟩
      · rw [same]
        exact .inr ⟨_,rfl⟩
      · cases succeeded
  | alloc size timeout | store address value => exact .inl (of_decide_eq_true fair)

theorem kept_tolerated (now : Int) (memory : Nat → Nat) (storage storageSize : Nat)
    (run : Run (Hall.step (program c)) (fun h e => tolerated c h e = true)
      (initial now (Pool.init c memory storage storageSize)) g) : Kept c (Pool.init c memory storage storageSize).first g := by
  refine run.keeps (I := Kept c (Pool.init c memory storage storageSize).first) (Kept.start c now memory storage storageSize) ?_
  intro h e h' kept fair taken
  refine kept.step ?_ (Hall.step_inv taken)
  rintro t q isr refused sec rfl
  exact tolerated_cases fair

def Unused (c : Config) (h : Arena T) (lo hi : Nat) : Prop :=
  h.shared.first ≤ lo ∧ hi ≤ h.shared.endAt ∧ ∀ a ∈ live h.log,a.header c + a.block ≤ lo ∨ hi ≤ a.header c

theorem Unused.gap (unused : Unused c g lo hi) (sound : Sound c g.shared (live g.log) blocks) : Gap g.shared blocks lo hi := by
  refine ⟨unused.1,unused.2.1,?_⟩
  intro b member
  obtain ⟨a,alive,rfl⟩ := (sound.occupied b).mp member
  exact unused.2.2 a alive

-- TryAlloc() succeeds exactly for what GetInfo() reports: it does not fail while there is
-- room, in however many free blocks.
theorem tryAlloc_exact (c : Config) (now : Int) (memory : Nat → Nat) (storage storageSize : Nat) (h : Arena T)
    (run : Run (Hall.step (program c)) (fun h e => tolerated c h e = true)
      (initial now (Pool.init c memory storage storageSize)) h) (env : Ambient) :
    ∃ info,h.shared.getInfo c = some info ∧ ∀ size,∃ sec a,enter c env h.shared (.alloc size noWait) = some sec ∧
      sec.ending = .done a ∧ (a.block ≠ 0 ↔ 0 < size ∧ size + c.guardSize ≤ info.largest) ∧
      (h.shared.isStorageValid = true → 0 < size → (∃ lo,Unused c h lo (lo + c.requiredSize size)) → a.block ≠ 0) ∧
      (live h.log = [] → 0 < size → size ≤ h.shared.getMaxRequest c → a.block ≠ 0) := by
  obtain ⟨books,_⟩ := kept_tolerated now memory storage storageSize run
  by_cases valid : h.shared.first = 0
  · have nothing : h.shared.getMaxRequest c = 0 := by
      have header := c.eight_le_header
      have empty : h.shared.getSize = 0 := if_neg fun used => used valid
      unfold Pool.getMaxRequest Config.minBlockSize
      rw [empty,if_neg (by omega)]
    refine ⟨{},if_neg fun used => used valid,fun size => ?_⟩
    rw [enter,if_neg (by simp),if_pos (by omega)]
    refine ⟨_,_,rfl,rfl,⟨fun some_ => absurd rfl some_,?_⟩,?_,?_⟩
    · intro fits
      have fits := fits.2
      dsimp only at fits
      omega
    · intro used
      exact absurd valid (of_decide_eq_true used)
    · omega
  · obtain ⟨blocks,sound⟩ := books.sound (by rw [← books.first]; exact valid)
    obtain ⟨info,known,largest⟩ := getInfo_laid sound.laid
    refine ⟨info,known,fun size => ?_⟩
    obtain ⟨sec,a,entered,ending,gap⟩ := tryAlloc_gap env sound.laid size
    have exact_ : a.block ≠ 0 ↔ 0 < size ∧ size + c.guardSize ≤ info.largest := by
      rw [gap]
      constructor
      · intro fits
        exact ⟨fits.1.1,(largest.fits fits.1.1).mp fits.2⟩
      · intro fits
        exact ⟨⟨fits.1,largest.max sound.laid fits.2 fits.1⟩,(largest.fits fits.1).mpr fits.2⟩
    refine ⟨sec,a,entered,ending,exact_,?_,?_⟩
    · intro _ some_ room
      obtain ⟨lo,unused⟩ := room
      exact exact_.mpr ⟨some_,(largest.fits some_).mp ⟨lo,unused.gap sound⟩⟩
    · intro empty some_ fits
      have all : Unused c h h.shared.first h.shared.endAt := ⟨Nat.le_refl _,Nat.le_refl _,by simp [empty]⟩
      have most := largest.most _ _ (all.gap sound)
      have whole : h.shared.getSize = h.shared.endAt - h.shared.first := if_pos valid
      unfold Pool.getMaxRequest at fits
      rw [whole] at fits
      refine exact_.mpr ⟨some_,?_⟩
      split at fits
      · omega
      · omega

def unmerged : List (Happening Nat Request) :=
  [.call 0 (.alloc 12 0) false false,.call 0 (.alloc 12 0) false false,.call 1 (.alloc 12 0) false false,
    .call 0 (.free 16) false false,.call 0 (.free 40) false false,.call 1 (.free 16) false false]

theorem unmerged_tryAlloc : ∃ (h : Arena Nat) (sec : Sect) (a : Answer),
    exec (Hall.step (program thorough)) (initial 0 (Pool.init thorough (fun _ => 0) 4 88)) unmerged = some h ∧
      h.shared.getInfo thorough = some ⟨40,40,1⟩ ∧ enter thorough ⟨0,true,false⟩ h.shared (.alloc 36 noWait) = some sec ∧
      sec.ending = .done a ∧ a.block ≠ 0 := by
  have found : ∃ h : Arena Nat,exec (Hall.step (program thorough)) (initial 0 (Pool.init thorough (fun _ => 0) 4 88))
      unmerged = some h ∧ h.shared.getInfo thorough = some ⟨40,40,1⟩ := by decide
  obtain ⟨h,ran,seen⟩ := found
  have run := Run.ofExecAllowed (tolerated thorough) (by decide) ran
  obtain ⟨info,known,exact_⟩ := tryAlloc_exact thorough 0 (fun _ => 0) 4 88 h run ⟨0,true,false⟩
  cases known.symm.trans seen
  obtain ⟨sec,a,entered,ending,fits,_⟩ := exact_ 36
  exact ⟨h,sec,a,ran,seen,entered,ending,fits.mpr (by decide)⟩

end Runs

end SuperTinyKernel.BytePool
