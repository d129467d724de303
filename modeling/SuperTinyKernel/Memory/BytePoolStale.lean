import SuperTinyKernel.Memory.BytePoolInfo

set_option linter.unusedSectionVars false

namespace SuperTinyKernel.BytePool

open Monitor Tiling Transition List

def Allocation.Apart (c : Config) (a b : Allocation) : Prop :=
  a.header c + a.block ≤ b.header c ∨ b.header c + b.block ≤ a.header c

instance (c : Config) (a b : Allocation) : Decidable (a.Apart c b) := inferInstanceAs (Decidable (_ ∨ _))

-- The live pointers, and those that came back and whose memory has not been handed out
-- since.
def retire (c : Config) (s : List Allocation × List Allocation) (o : Note) : List Allocation × List Allocation :=
  (track s.1 o,match o with
    | .got ptr size block => s.2.filter fun a => decide (a.Apart c ⟨ptr,size,block⟩)
    | .gave ptr => s.2 ++ s.1.filter fun a => decide (a.ptr = ptr))

def traced (c : Config) (log : List (T × Note)) : List Allocation × List Allocation :=
  (log.map Prod.snd).foldl (retire c) ([],[])

def stale (c : Config) (log : List (T × Note)) : List Allocation := (traced c log).2

variable {c : Config} {p p' : Pool} {blocks blocks' before rest : List Block} {h x need fuel result : Nat} {a : Allocation}

theorem Laid.unique (laid : Laid c p blocks) (other : Laid c p blocks') : blocks = blocks' := by
  have known : ∀ (blocks : List Block),Laid c p blocks → ∀ b ∈ blocks,
      b.size = p.memory b.start ∧ b.tag = decide (p.memory (b.start + 4) = stateUsed) ∧ 0 < b.size := by
    intro blocks laid b member
    have stored := laid.stored b member
    refine ⟨stored.size.symm,?_,laid.positive member⟩
    rw [stored.state]
    cases b.tag <;> rfl
  exact Tiles.determined p.memory (fun x => decide (p.memory (x + 4) = stateUsed)) laid.tiles other.tiles (known blocks laid)
    (known blocks' other)

-- A word where Free() does not find the state of a used block, and where no block keeps its
-- size.
structure Dead (c : Config) (p : Pool) (x : Nat) : Prop where
  unmarked : p.memory x ≠ stateUsed
  inner : ∀ blocks,Laid c p blocks → ∀ b ∈ blocks,b.start ≠ x

theorem Dead.intro (laid : Laid c p blocks) (unmarked : p.memory x ≠ stateUsed) (inner : ∀ b ∈ blocks,b.start ≠ x) : Dead c p x := by
  refine ⟨unmarked,fun blocks' laid' b member => ?_⟩
  rw [laid'.unique laid] at member
  exact inner b member

theorem Dead.moves (dead : Dead c p x) (laid : Laid c p blocks) (laid' : Laid c p' blocks')
    (word : p'.memory x = p.memory x ∨ p'.memory x ≠ stateUsed)
    (starts : ∀ b' ∈ blocks',(∃ b ∈ blocks,b'.start = b.start) ∨ b'.start ≠ x) : Dead c p' x := by
  refine .intro laid' ?_ ?_
  · rcases word with same | other
    · rw [same]
      exact dead.unmarked
    · exact other
  · intro b' member
    rcases starts b' member with ⟨b,there,same⟩ | other
    · rw [same]
      exact dead.inner blocks laid b there
    · exact other

theorem Dead.coalesced {b : Block} {more after : List Block} (dead : Dead c p x) (laid : Laid c p (before ++ b :: more))
    (merged : p.coalesce c b.start fuel = some p') (done : Coalesced c p before b more p' size after) : Dead c p' x := by
  have other : x ≠ b.start := fun same => dead.inner _ laid b (by simp) same.symm
  refine dead.moves laid done.laid ?_ ?_
  · rcases coalesce_words merged other with same | wiped
    · exact .inl same
    · rw [wiped]
      exact .inr (by decide)
  · intro b' member
    obtain ⟨absorbed,split,_⟩ := done.taken
    refine .inl ?_
    rcases mem_append.mp member with front | back
    · exact ⟨b',by simp [front],rfl⟩
    · rcases mem_cons.mp back with rfl | later
      · exact ⟨b,by simp,rfl⟩
      · exact ⟨b',by simp [split,later],rfl⟩

-- The word is not in the block that a scan has found, nor right behind it, where the rest
-- begins.
def Spared (c : Config) (p : Pool) (result x : Nat) : Prop :=
  result ≠ 0 → x < result - c.headerSize ∨ result - c.headerSize + p.sizeOf (result - c.headerSize) < x

theorem scanRange_dead {s : Scan} (least : c.minBlockSize ≤ need) (even : need % c.align = 0) (laid : Laid c p (before ++ rest))
    (lower : Tiles p.first before h) (bound : stop ≤ p.endAt) (scan : p.scanRange c stop need fuel h scanned = some s)
    (dead : Dead c p x) (spared : Spared c s.pool s.result x) : Dead c s.pool x := by
  induction fuel generalizing p before rest h scanned with
  | zero => cases scan
  | succ fuel ih =>
    rcases scanRange_turn laid lower bound with ⟨_,turn⟩ | ⟨b,more,split,at_,turn⟩
    · cases turn.symm.trans scan
      exact dead
    · subst split at_
      rcases turn with ⟨_,turn⟩ | ⟨_,q,size,after,merged,done,turn⟩
      · rw [turn] at scan
        have shifted : before ++ b :: more = before ++ [b] ++ more := by simp
        rw [shifted] at laid
        exact ih laid (lower.append ⟨rfl,rfl⟩) bound scan dead
      · rw [turn] at scan
        have dead := dead.coalesced laid merged done
        split at scan
        · rename_i fits
          cases scan
          obtain ⟨size',tail,claimed,_,split,_,_,words⟩ := claim_laid done.laid rfl fits least even
          have known : (q.claim c b.start need).sizeOf b.start = size' :=
            (claimed.stored ⟨b.start,size',true⟩ (by simp)).size
          have header := c.eight_le_header
          have spared : x < b.start ∨ b.start + size' < x := by
            have spared := spared (show b.start + c.headerSize ≠ 0 by omega)
            rw [Nat.add_sub_cancel,known] at spared
            exact spared
          refine dead.moves done.laid claimed ?_ ?_
          · rcases words x spared with same | free
            · exact .inl same
            · dsimp only
              rw [free]
              exact .inr (by decide)
          · intro b' member
            rcases mem_append.mp member with front | back
            · exact .inl ⟨b',by simp [front],rfl⟩
            · rcases mem_cons.mp back with rfl | later
              · exact .inl ⟨⟨b.start,size,false⟩,by simp,rfl⟩
              · rcases mem_append.mp later with new | old
                · have at_ := (split b' new).2
                  dsimp only at at_
                  exact .inr (by omega)
                · exact .inl ⟨b',by simp [old],rfl⟩
        · obtain ⟨laid,lower⟩ := done.onward lower
          exact ih laid lower (by rw [done.frame.endAt]; exact bound) scan dead

theorem findFree_dead (least : c.minBlockSize ≤ need) (even : need % c.align = 0) (laid : Laid c p blocks)
    (found : p.findFree c need = some (p',result)) (dead : Dead c p x) (spared : Spared c p' result x) : Dead c p' x := by
  obtain ⟨s,scan,same⟩ := of_map found
  cases same
  have dead : Dead c s.pool x := by
    cases scanAll_parts least even laid scan with
    | once before rest start split lower scan _ =>
      subst split
      exact scanRange_dead least even laid lower (Nat.le_refl _) scan dead spared
    | twice before rest blocks' start s' split lower bound scan unfound laid' _ frame again =>
      subst split
      have whole : Laid c s'.pool ([] ++ blocks') := laid'
      have between := scanRange_dead least even laid lower (Nat.le_refl _) scan dead fun some_ => absurd unfound some_
      exact scanRange_dead least even whole rfl (by rw [frame.endAt]; exact bound) again between spared
  refine ⟨dead.unmarked,fun blocks laid => dead.inner blocks ?_⟩
  exact ⟨laid.base,laid.aligned,laid.small,laid.tiles,laid.stored,laid.rover,laid.home⟩

theorem release_dead {b : Block} {after : List Block} (laid : Laid c p (before ++ b :: after)) (released : p.release c b.start = some p')
    (dead : Dead c p x) : Dead c p' x := by
  obtain ⟨_,size,rest,released',laid',_,_,_,inside,words⟩ := release_laid laid
  cases released.symm.trans released'
  refine dead.moves laid laid' (words x fun same => dead.inner _ laid b (by simp) same.symm) ?_
  intro b' member
  refine .inl ?_
  rcases mem_append.mp member with front | back
  · exact ⟨b',by simp [front],rfl⟩
  · rcases mem_cons.mp back with rfl | later
    · exact ⟨b,by simp,rfl⟩
    · exact ⟨b',by simp [inside b' later],rfl⟩

theorem release_marks {b : Block} {after : List Block} (laid : Laid c p (before ++ b :: after))
    (released : p.release c b.start = some p') : Dead c p' (b.start + 4) := by
  obtain ⟨_,size,rest,released',laid',_⟩ := release_laid laid
  cases released.symm.trans released'
  have stored := laid'.stored ⟨b.start,size,false⟩ (by simp)
  have least := stored.least_header
  have state : p'.memory (b.start + 4) = stateFree := stored.state
  refine .intro laid' ?_ ?_
  · rw [state]
    decide
  · intro b' member same
    have tiles := laid'.tiles
    have positive := laid'.positive member
    by_cases other : b' = ⟨b.start,size,false⟩
    · rw [other] at same
      dsimp only at same
      omega
    · have apart := tiles.disjoint member (t := ⟨b.start,size,false⟩) (by simp) other
      dsimp only at apart least
      omega

theorem Dead.recount (dead : Dead c p x) (stats : Stats) : Dead c {p with stats := stats} x :=
  ⟨dead.unmarked,fun blocks laid => dead.inner blocks ⟨laid.base,laid.aligned,laid.small,laid.tiles,laid.stored,laid.rover,laid.home⟩⟩

structure Remembers (c : Config) (p : Pool) (s : List Allocation × List Allocation) : Prop where
  dead : ∀ a ∈ s.2,Dead c p (a.header c + 4)
  apart : ∀ a ∈ s.2,∀ b ∈ s.1,a.Apart c b
  large : ∀ a ∈ s.2,c.headerSize + 4 ≤ a.block

variable {alive gone : List Allocation} {sec : Sect} {env : Ambient} {size : Nat} {budget : Budget} {late : Bool}

theorem allocFailed_parts (failed : allocFailed p wakeup = some sec) : sec.log = [] ∧ ∃ stats,sec.shared = {p with stats := stats} := by
  cases failed
  refine ⟨rfl,?_⟩
  dsimp only
  split
  · exact ⟨_,rfl⟩
  · exact ⟨p.stats,rfl⟩

theorem allocLoop_parts (taken : allocLoop c env size budget late p ptr = some sec) :
    ptr ≠ 0 ∧ sec.shared = p ∧ sec.log = [.got ptr size (p.sizeOf (ptr - c.headerSize))] ∨
    ptr = 0 ∧ sec.log = [] ∧ ∃ stats,sec.shared = {p with stats := stats} := by
  unfold allocLoop at taken
  split at taken
  · rename_i found
    cases taken
    exact .inl ⟨found,rfl,rfl⟩
  · rename_i none
    refine .inr ⟨Decidable.not_not.mp none,?_⟩
    split at taken
    · exact allocFailed_parts taken
    · rcases waitEx_cases taken with ⟨_,failed⟩ | ⟨_,failed⟩ | ⟨_,rfl⟩
      · exact allocFailed_parts failed
      · exact allocFailed_parts failed
      · exact ⟨rfl,p.stats,rfl⟩

theorem allocScan_remembers (laid : Laid c p blocks) (some_ : 0 < size) (remembers : Remembers c p (alive,gone))
    (taken : allocScan c env p size budget late = some sec) :
    Remembers c sec.shared (sec.log.foldl (retire c) (alive,gone)) := by
  obtain ⟨⟨p',result⟩,found,taken⟩ := of_bind taken
  have passes := fun x => findFree_dead (x := x) (c.required_least some_) (c.required_aligned size) laid found
  rcases allocLoop_parts taken with ⟨_,shared,log⟩ | ⟨none,log,stats,shared⟩
  · rw [shared,log]
    refine ⟨?_,?_,?_⟩
    · intro a member
      obtain ⟨old,apart⟩ := mem_filter.mp member
      have apart : a.Apart c ⟨result,size,p'.sizeOf (result - c.headerSize)⟩ := of_decide_eq_true apart
      have large := remembers.large a old
      have header := c.eight_le_header
      refine passes _ (remembers.dead a old) fun _ => ?_
      unfold Allocation.Apart Allocation.header at apart
      unfold Allocation.header
      dsimp only at apart
      omega
    · intro a member b there
      obtain ⟨old,apart⟩ := mem_filter.mp member
      rcases mem_append.mp there with earlier | new
      · exact remembers.apart a old b earlier
      · rw [mem_singleton.mp new]
        exact of_decide_eq_true apart
    · intro a member
      exact remembers.large a (mem_filter.mp member).1
  · rw [shared,log]
    refine ⟨?_,remembers.apart,remembers.large⟩
    intro a member
    exact (passes _ (remembers.dead a member) fun some_ => absurd none some_).recount stats

theorem free_remembers (sound : Sound c p alive blocks) (remembers : Remembers c p (alive,gone)) (member : a ∈ alive)
    (entered : enter c env p (.free a.ptr) = some sec) : Remembers c sec.shared (sec.log.foldl (retire c) (alive,gone)) := by
  obtain ⟨here,at_⟩ := sound.block member
  have log := (free_effect sound member entered).2
  obtain ⟨before,after,split⟩ := append_of_mem here
  have laid := sound.laid
  rw [split] at laid
  obtain ⟨⟨p',success⟩,freed,same⟩ := of_map entered
  have shared : sec.shared = p' := by rw [← same]
  have released : p.release c (a.header c) = some p' := by
    rcases free_cases freed with ⟨failed,_⟩ | ⟨_,_,released⟩
    · subst failed
      rw [← same] at log
      cases log
    · exact released
  rw [shared,log]
  have only : ∀ b ∈ alive,b.ptr = a.ptr → b = a := fun b there same =>
    inj_on_of_nodup_map sound.distinct there member same
  refine ⟨?_,?_,?_⟩
  · intro b there
    rcases mem_append.mp there with old | new
    · exact release_dead laid released (remembers.dead b old)
    · obtain ⟨was,same⟩ := mem_filter.mp new
      rw [only b was (of_decide_eq_true same)]
      exact release_marks laid released
  · intro b there d other
    obtain ⟨was,apart⟩ := mem_filter.mp other
    rcases mem_append.mp there with old | new
    · exact remembers.apart b old d was
    · obtain ⟨here,same⟩ := mem_filter.mp new
      rw [only b here (of_decide_eq_true same)]
      refine sound.laid.tiles.disjoint (sound.block member).1 (sound.block was).1 ?_
      intro equal
      rw [← sound.unique member was (congrArg Segment.start equal)] at apart
      exact absurd rfl (of_decide_eq_true apart)
  · intro b there
    rcases mem_append.mp there with old | new
    · exact remembers.large b old
    · obtain ⟨was,same⟩ := mem_filter.mp new
      rw [only b was (of_decide_eq_true same)]
      have least := (laid.stored ⟨a.header c,a.block,true⟩ (by simp)).least
      have four := c.four_le_align
      unfold Config.minBlockSize at least
      dsimp only at least
      omega

theorem store_remembers (sound : Sound c p alive blocks) (remembers : Remembers c p (alive,gone))
    (owned : Owned alive (.store address value)) : Remembers c (p.put address value) (alive,gone) := by
  obtain ⟨word,b,member,from_,to_⟩ := owned
  obtain ⟨here,at_⟩ := sound.block member
  have fits := sound.large b member
  have header := c.eight_le_header
  refine ⟨?_,remembers.apart,remembers.large⟩
  intro a old
  have apart := remembers.apart a old b member
  have large := remembers.large a old
  have laid : Laid c (p.put address value) blocks := by
    refine store_laid sound.laid here word ?_ ?_ value <;> dsimp only <;> omega
  unfold Allocation.Apart at apart
  refine (remembers.dead a old).moves sound.laid laid (.inl ?_) fun b' member => .inl ⟨b',member,rfl⟩
  rw [put_memory,Function.update_of_ne (by omega)]

theorem enter_remembers (sound : Sound c p alive blocks) (remembers : Remembers c p (alive,gone)) (owned : Owned alive q)
    (entered : enter c env p q = some sec) : Remembers c sec.shared (sec.log.foldl (retire c) (alive,gone)) := by
  cases q with
  | alloc size timeout =>
    rw [enter] at entered
    split at entered
    · cases entered
      exact remembers
    · split at entered
      · cases entered
        refine ⟨?_,remembers.apart,remembers.large⟩
        intro a old
        dsimp only
        split
        · exact (remembers.dead a old).recount _
        · exact remembers.dead a old
      · exact allocScan_remembers sound.laid (by omega) remembers entered
  | free ptr =>
    obtain ⟨a,member,rfl⟩ := owned
    exact free_remembers sound remembers member entered
  | store address value =>
    cases entered
    exact store_remembers sound remembers owned

theorem resume_remembers (laid : Laid c p blocks) (some_ : 0 < size) (remembers : Remembers c p (alive,gone))
    (resumed : resume c env p (.allocating size budget) wakeup = some sec) :
    Remembers c sec.shared (sec.log.foldl (retire c) (alive,gone)) := by
  have failed : allocFailed p wakeup = some sec → Remembers c sec.shared (sec.log.foldl (retire c) (alive,gone)) := by
    intro failed
    obtain ⟨log,stats,shared⟩ := allocFailed_parts failed
    rw [log,shared]
    exact ⟨fun a old => (remembers.dead a old).recount stats,remembers.apart,remembers.large⟩
  cases wakeup with
  | signal | timeout => exact allocScan_remembers laid some_ remembers resumed
  | canceled | fail => exact failed resumed

section Runs

variable {T : Type} [DecidableEq T] {g g' : Arena T} {base : Nat}

theorem traced_live (c : Config) (log : List (T × Note)) : (traced c log).1 = live log := by
  suffices ∀ (notes : List Note) s,(notes.foldl (retire c) s).1 = notes.foldl track s.1 from this _ _
  intro notes
  induction notes with
  | nil => exact fun s => rfl
  | cons o rest ih => exact fun s => ih (retire c s o)

theorem traced_append (c : Config) (log : List (T × Note)) (notes : List Note) (t : T) :
    traced c (log ++ notes.map fun o => (t,o)) = notes.foldl (retire c) (traced c log) := by
  have same : (notes.map fun o => (t,o)).map Prod.snd = notes := by
    rw [map_map]
    exact map_id' _
  unfold traced
  rw [map_append,foldl_append,same]

def Recalls (c : Config) (base : Nat) (p : Pool) (log : List (T × Note)) : Prop :=
  Books c base p log ∧ (base ≠ 0 → Remembers c p (traced c log)) ∧ (base = 0 → stale c log = [])

theorem Recalls.next {log : List (T × Note)} {t : T} (books : Books c base sec.shared (log ++ sec.log.map fun o => (t,o)))
    (remembers : base ≠ 0 → Remembers c sec.shared (sec.log.foldl (retire c) (traced c log)))
    (unused : base = 0 → sec.log = [] ∧ stale c log = []) : Recalls c base sec.shared (log ++ sec.log.map fun o => (t,o)) := by
  refine ⟨books,?_,?_⟩
  · rw [traced_append]
    exact remembers
  · intro absent
    obtain ⟨silent,nothing⟩ := unused absent
    rw [silent,map_nil,append_nil]
    exact nothing

def Remembered (c : Config) (base : Nat) (h : Arena T) : Prop :=
  Recalls c base h.shared h.log ∧ Hall.Everywhere (fun _ x => ∀ rest ∈ x.rest,rest.asks ∧ base ≠ 0) h

theorem Remembered.step (old : Remembered c base g) (fair : tolerated c g e = true) (step : Hall.Step (program c) g e g') :
    Remembered c base g' := by
  obtain ⟨⟨books,remembers,unused⟩,calls⟩ := old
  have pair : traced c g.log = (live g.log,stale c g.log) := by
    rw [← traced_live c]
    rfl
  rw [pair] at remembers
  refine step.calls ⟨books,pair ▸ remembers,unused⟩ calls ?_ ?_
  · rintro t q isr refused sec rfl entered
    have own := tolerated_cases fair entered
    obtain ⟨after,leaves⟩ := books.enter own entered t
    refine ⟨Recalls.next after (fun valid => ?_) fun absent => ⟨?_,unused absent⟩,leaves⟩
    · rw [pair]
      rcases own with own | ⟨a,rfl⟩
      · obtain ⟨blocks,sound⟩ := books.sound valid
        exact enter_remembers sound (remembers valid) own entered
      · exact remembers valid
    · rcases own with own | ⟨a,rfl⟩
      · rw [books.unused absent] at own
        exact (enter_unused (books.first.trans absent) own entered).2.1
      · rfl
  · intro call rest result refused sec asks resumed
    obtain ⟨after,leaves⟩ := books.resume asks resumed call.task
    refine ⟨Recalls.next after (fun valid => ?_) fun absent => absurd absent asks.2,leaves⟩
    obtain ⟨blocks,sound⟩ := books.sound valid
    rw [pair]
    cases rest with
    | allocating size budget => exact resume_remembers sound.laid asks.1 (remembers valid) resumed

theorem stale_free_rejected (c : Config) (now : Int) (memory : Nat → Nat) (storage storageSize : Nat) (h : Arena T)
    (run : Run (Hall.step (program c)) (fun h e => tolerated c h e = true)
      (initial now (Pool.init c memory storage storageSize)) h) (env : Ambient) (member : a ∈ stale c h.log) :
    enter c env h.shared (.free a.ptr) = some {shared := h.shared,ending := .done (.free false)} := by
  have remembered : Remembered c (Pool.init c memory storage storageSize).first h := by
    refine run.keeps (I := Remembered c (Pool.init c memory storage storageSize).first)
      ⟨⟨(Kept.start c now memory storage storageSize).1,fun _ => ⟨nofun,nofun,nofun⟩,fun _ => rfl⟩,.start rfl rfl⟩ ?_
    intro h e h' old fair taken
    exact old.step fair (Hall.step_inv taken)
  have valid : (Pool.init c memory storage storageSize).first ≠ 0 := by
    intro absent
    rw [remembered.1.2.2 absent] at member
    cases member
  have dead := ((remembered.1.2.1 valid).dead a member).unmarked
  have rejected : h.shared.free c a.ptr = some (h.shared,false) := by
    unfold Pool.free
    split
    · split
      · rfl
      · split
        · rfl
        · dsimp only
          exact if_pos dead
    · rfl
  rw [enter,rejected]
  rfl

-- The header of the second block is wiped by the merge, and written anew when the first block
-- is handed out.
def wiped : List (Happening Nat Request) :=
  [.call 0 (.alloc 12 0) false false,.call 0 (.alloc 12 0) false false,.call 1 (.alloc 12 0) false false,
    .call 0 (.free 40) false false,.call 0 (.free 16) false false,.call 1 (.free 40) false false,.call 1 (.alloc 12 0) false false]

theorem wiped_free_rejected : ∃ h : Arena Nat,
    exec (Hall.step (program {thorough with checks := false}))
      (initial 0 (Pool.init {thorough with checks := false} (fun _ => 0) 4 88)) wiped = some h ∧
      live h.log = [⟨64,12,32⟩,⟨16,12,24⟩] ∧ stale {thorough with checks := false} h.log = [⟨40,12,24⟩] ∧
      enter {thorough with checks := false} ⟨0,false,false⟩ h.shared (.free 40) =
        some {shared := h.shared,ending := .done (.free false)} := by
  refine exec_shows (P := fun h => live h.log = [⟨64,12,32⟩,⟨16,12,24⟩] ∧
    stale {thorough with checks := false} h.log = [⟨40,12,24⟩]) (by decide) ?_
  intro h ran ⟨used,gone⟩
  have run := Run.ofExecAllowed (tolerated {thorough with checks := false}) (by decide) ran
  have rejected := stale_free_rejected {thorough with checks := false} 0 (fun _ => 0) 4 88 h run ⟨0,false,false⟩
    (show (⟨40,12,24⟩ : Allocation) ∈ stale {thorough with checks := false} h.log by rw [gone]; simp)
  exact ⟨used,gone,rejected⟩

end Runs

end SuperTinyKernel.BytePool
