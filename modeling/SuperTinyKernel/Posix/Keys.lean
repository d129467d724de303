import Mathlib.Data.Fintype.Basic
import Mathlib.Data.List.FinRange
import Mathlib.Logic.Function.Basic
import SuperTinyKernel.Library.Run

set_option linter.unusedSectionVars false

-- Thread-specific data. The key table is shared; the values live in the control blocks, which
-- are given to threads and taken back.
namespace SuperTinyKernel.Posix.Keys

open Transition Function

def destructorIterations : Nat := 4

structure KeyEntry (D : Type) where
  used : Bool := false
  destructor : Option D := none

-- The parts of pthread_stk_ctrl_t that the keys use. A null pointer is `none`.
structure Block (K : Nat) (V : Type) where
  busy : Bool := false
  tsd : Fin K → Option V := fun _ => none

-- A call behind its IsKeyUsed, which takes no lock.
inductive Call (K : Nat) (V : Type) where
  | setting (key : Fin K) (value : Option V)
  | getting (key : Fin K)

-- Where a thread is in RunKeyDestructors: before it reads a value, with one it has read, in a
-- destructor, behind the loop, or taken back.
inductive Loop (K : Nat) (V D : Type) where
  | scan (iter : Nat) (anyRan : Bool) (i : Nat)
  | holds (iter : Nat) (anyRan : Bool) (i : Fin K) (value : V)
  | calls (iter : Nat) (i : Fin K) (destructor : D) (value : V)
  | over
  | gone

-- `tls` is the control block of the task. `answer` is what pthread_getspecific returned last.
structure Thread (K N : Nat) (V D : Type) where
  started : Bool := false
  tls : Option (Fin N) := none
  call : Option (Call K V) := none
  exit : Option (Loop K V D) := none
  answer : Option (Fin K × Option V) := none

structure Layer (K N : Nat) (T V D : Type) where
  keys : Fin K → KeyEntry D
  blocks : Fin N → Block K V
  threads : T → Thread K N V D

-- One event for each stretch of code that no other thread can interrupt.
inductive Event (K : Nat) (T V D : Type) where
  | keyCreate (t : T) (destructor : Option D)
  | keyDelete (t : T) (key : Fin K)
  | setspecific (t : T) (key : Fin K) (value : Option V)
  | adopt (t : T)
  | store (t : T)
  | getspecific (t : T) (key : Fin K)
  | read (t : T)
  | create (t u : T)
  | exit (t : T)
  | scan (t : T)
  | lookup (t : T)
  | ret (t : T)
  | release (t : T)

variable {K N : Nat} {T V D : Type} [DecidableEq T]

def Loop.inDestructor : Loop K V D → Bool
  | .calls _ _ _ _ => true
  | _ => false

def Thread.free (x : Thread K N V D) : Bool := x.started && x.call.isNone && x.exit.all Loop.inDestructor

def Layer.put (s : Layer K N T V D) (t : T) (x : Thread K N V D) : Layer K N T V D :=
  {s with threads := update s.threads t x}

def Layer.unusedKey (s : Layer K N T V D) : Option (Fin K) := (List.finRange K).find? fun k => !(s.keys k).used

def Layer.freeBlock (s : Layer K N T V D) : Option (Fin N) := (List.finRange N).find? fun b => !(s.blocks b).busy

def Layer.setKey (s : Layer K N T V D) (k : Fin K) (x : KeyEntry D) : Layer K N T V D :=
  {s with keys := update s.keys k x}

def Layer.setBlock (s : Layer K N T V D) (b : Fin N) (x : Block K V) : Layer K N T V D :=
  {s with blocks := update s.blocks b x}

def Layer.setValue (s : Layer K N T V D) (b : Fin N) (k : Fin K) (v : Option V) : Layer K N T V D :=
  s.setBlock b {s.blocks b with tsd := update (s.blocks b).tsd k v}

def Layer.acquire (s : Layer K N T V D) (b : Fin N) : Layer K N T V D := s.setBlock b {busy := true}

def keyCreate (s : Layer K N T V D) (destructor : Option D) : Layer K N T V D :=
  match s.unusedKey with
  | some k => s.setKey k ⟨true,destructor⟩
  | none => s

def keyDelete (s : Layer K N T V D) (k : Fin K) : Layer K N T V D :=
  if (s.keys k).used then s.setKey k ⟨false,none⟩ else s

def setspecific (s : Layer K N T V D) (t : T) (k : Fin K) (v : Option V) : Layer K N T V D :=
  if (s.keys k).used then s.put t {s.threads t with call := some (.setting k v)} else s

-- CurrentCtrlOrAdopt for a task without a control block.
def adopt (s : Layer K N T V D) (t : T) : Layer K N T V D :=
  match s.freeBlock with
  | some b => (s.acquire b).put t {s.threads t with tls := some b}
  | none => s.put t {s.threads t with call := none}

def getspecific (s : Layer K N T V D) (t : T) (k : Fin K) : Layer K N T V D :=
  s.put t (if (s.keys k).used then {s.threads t with call := some (.getting k)}
    else {s.threads t with answer := some (k,none)})

def Layer.value (s : Layer K N T V D) (t : T) (k : Fin K) : Option V := (s.threads t).tls.bind fun b => (s.blocks b).tsd k

def createThread (s : Layer K N T V D) (u : T) : Layer K N T V D :=
  match s.freeBlock with
  | some b => (s.acquire b).put u {started := true,tls := some b}
  | none => s

def scan (s : Layer K N T V D) (b : Fin N) (iter : Nat) (anyRan : Bool) (i : Nat) : Loop K V D :=
  if inside : i < K then
    match (s.blocks b).tsd ⟨i,inside⟩ with
    | some v => .holds iter anyRan ⟨i,inside⟩ v
    | none => .scan iter anyRan (i + 1)
  else if anyRan = true ∧ iter + 1 < destructorIterations then .scan (iter + 1) false 0
  else .over

-- The critical section, and the value is cleared before the destructor is called.
def lookup (s : Layer K N T V D) (t : T) (b : Fin N) (iter : Nat) (anyRan : Bool) (i : Fin K) (v : V) : Layer K N T V D :=
  let found := if (s.keys i).used then (s.keys i).destructor else none
  (s.setValue b i none).put t {s.threads t with
    exit := some (match found with
      | some d => .calls iter i d v
      | none => .scan iter anyRan (i + 1))}

def step (s : Layer K N T V D) : Event K T V D → Option (Layer K N T V D)
  | .keyCreate t d => if (s.threads t).free then some (keyCreate s d) else none
  | .keyDelete t k => if (s.threads t).free then some (keyDelete s k) else none
  | .setspecific t k v => if (s.threads t).free then some (setspecific s t k v) else none
  | .adopt t =>
    match (s.threads t).call,(s.threads t).tls with
    | some (.setting _ _),none => some (adopt s t)
    | _,_ => none
  | .store t =>
    match (s.threads t).call,(s.threads t).tls with
    | some (.setting k v),some b => some ((s.setValue b k v).put t {s.threads t with call := none})
    | _,_ => none
  | .getspecific t k => if (s.threads t).free then some (getspecific s t k) else none
  | .read t =>
    match (s.threads t).call with
    | some (.getting k) => some (s.put t {s.threads t with call := none,answer := some (k,s.value t k)})
    | _ => none
  | .create t u => if (s.threads t).free && !(s.threads u).started then some (createThread s u) else none
  | .exit t =>
    if (s.threads t).free && (s.threads t).exit.isNone then
      some (s.put t {s.threads t with exit := some (if (s.threads t).tls.isSome then .scan 0 false 0 else .gone)})
    else none
  | .scan t =>
    match (s.threads t).exit,(s.threads t).tls with
    | some (.scan iter anyRan i),some b => some (s.put t {s.threads t with exit := some (scan s b iter anyRan i)})
    | _,_ => none
  | .lookup t =>
    match (s.threads t).exit,(s.threads t).tls with
    | some (.holds iter anyRan i v),some b => some (lookup s t b iter anyRan i v)
    | _,_ => none
  | .ret t =>
    match (s.threads t).exit,(s.threads t).call with
    | some (.calls iter i _ _),none => some (s.put t {s.threads t with exit := some (.scan iter true (i + 1))})
    | _,_ => none
  | .release t =>
    match (s.threads t).exit,(s.threads t).tls with
    | some .over,some b =>
      some ((s.setBlock b {s.blocks b with busy := false}).put t {s.threads t with tls := none,exit := some .gone})
    | _,_ => none

def initial (foreign : T → Bool) : Layer K N T V D :=
  ⟨fun _ => {},fun _ => {},fun t => {started := foreign t}⟩

-- The observer counts the incarnations of each key and remembers what each thread stored last
-- under it.
structure Marks (K : Nat) (T V : Type) where
  incarnation : Fin K → Nat
  stored : T → Fin K → Option (Nat × V)

def unmarked : Marks K T V := ⟨fun _ => 0,fun _ _ => none⟩

def Marks.store (w : Marks K T V) (t : T) (k : Fin K) (v : Option V) : Marks K T V :=
  {w with stored := update w.stored t (update (w.stored t) k (v.map fun v => (w.incarnation k,v)))}

def watch (s : Layer K N T V D) (e : Event K T V D) (_ : Layer K N T V D) (w : Marks K T V) : Marks K T V :=
  match e with
  | .keyCreate _ _ =>
    match s.unusedKey with
    | some k => {w with incarnation := update w.incarnation k (w.incarnation k + 1)}
    | none => w
  | .store t =>
    match (s.threads t).call with
    | some (.setting k v) => w.store t k v
    | _ => w
  | _ => w

def Loop.ended : Loop K V D → Bool
  | .over | .gone => true
  | _ => false

def Loop.holdsKey (k : Fin K) : Loop K V D → Bool
  | .holds _ _ i _ => decide (i = k)
  | _ => false

def Thread.live (x : Thread K N V D) : Bool := x.exit.all fun l => !l.ended

-- pthread_key_create hands out a key under which no thread has a value left, also on its way
-- to a destructor.
def cleanKey (s : Layer K N T V D) : Event K T V D → Prop
  | .keyCreate _ _ => ∀ k,s.unusedKey = some k → ∀ u,(s.threads u).live = true →
      (s.value u k).isNone = true ∧ (s.threads u).exit.all (fun l => !l.holdsKey k) = true
  | _ => True

instance [Fintype T] (s : Layer K N T V D) (e : Event K T V D) : Decidable (cleanKey s e) :=
  match e with
  | .keyCreate _ _ => inferInstanceAs (Decidable (∀ k,s.unusedKey = some k → ∀ u,(s.threads u).live = true →
      (s.value u k).isNone = true ∧ (s.threads u).exit.all (fun l => !l.holdsKey k) = true))
  | .keyDelete _ _ | .setspecific _ _ _ | .adopt _ | .store _ | .getspecific _ _ | .read _ | .create _ _ | .exit _ | .scan _
  | .lookup _ | .ret _ | .release _ => .isTrue trivial

variable {s s' : Layer K N T V D} {w : Marks K T V} {t u : T} {b : Fin N} {k : Fin K} {x : Thread K N V D}

@[simp] theorem put_self : (s.put t x).threads t = x := update_self ..

@[simp] theorem put_other (other : u ≠ t) : (s.put t x).threads u = s.threads u := update_of_ne other ..

theorem free_of_found (found : s.freeBlock = some b) : (s.blocks b).busy = false := by
  simpa using List.find?_some found

-- The values that thread `t` still reads under a key in use were stored by itself under the
-- current incarnation.
structure Own (keys : Fin K → KeyEntry D) (blocks : Fin N → Block K V) (w : Marks K T V) (t : T) (x : Thread K N V D) : Prop where
  busy : ∀ b,x.tls = some b → (blocks b).busy = true
  values : ∀ b k v,x.live = true → x.tls = some b → (blocks b).tsd k = some v → (keys k).used = true →
    w.stored t k = some (w.incarnation k,v)
  held : ∀ iter anyRan i v,x.exit = some (.holds iter anyRan i v) → (keys i).used = true → w.stored t i = some (w.incarnation i,v)
  calls : ∀ c,x.call = some c → x.exit.all Loop.inDestructor = true

structure Current (s : Layer K N T V D) (w : Marks K T V) : Prop where
  owner : ∀ t u b,(s.threads t).tls = some b → (s.threads u).tls = some b → t = u
  own : ∀ t,Own s.keys s.blocks w t (s.threads t)

section

variable (current : Current s w)
include current

theorem Current.put {s₁ : Layer K N T V D} {w' : Marks K T V} (keys : s₁.keys = s.keys)
    (threads : s₁.threads = s.threads) (count : w'.incarnation = w.incarnation)
    (others : ∀ u,u ≠ t → w'.stored u = w.stored u ∧ ∀ b,(s.threads u).tls = some b → x.tls ≠ some b ∧ s₁.blocks b = s.blocks b)
    (own : Own s₁.keys s₁.blocks w' t x) : Current (s₁.put t x) w' := by
  have other : ∀ u,u ≠ t → (s₁.put t x).threads u = s.threads u := fun u m => (put_other m).trans (congrFun threads u)
  refine ⟨?_,?_⟩
  · intro r u b left right
    by_cases l : r = t <;> by_cases m : u = t
    · rw [l,m]
    · subst l
      rw [put_self] at left
      rw [other u m] at right
      exact absurd left ((others u m).2 b right).1
    · subst m
      rw [put_self] at right
      rw [other r l] at left
      exact absurd right ((others r l).2 b left).1
    · rw [other r l] at left
      rw [other u m] at right
      exact current.owner r u b left right
  · intro u
    by_cases m : u = t
    · subst m
      rw [put_self]
      exact own
    · rw [other u m]
      obtain ⟨stored,apart⟩ := others u m
      obtain ⟨busy,values,held,calls⟩ := current.own u
      refine ⟨fun b at_ => ?_,fun b k v lives at_ reads used => ?_,fun iter anyRan i v has used => ?_,calls⟩
      · exact (congrArg Block.busy (apart b at_).2).trans (busy b at_)
      · rw [stored,count]
        exact values b k v lives at_ ((apart b at_).2 ▸ reads) (keys ▸ used)
      · rw [stored,count]
        exact held iter anyRan i v has (keys ▸ used)

theorem Current.stay (same : x.tls = (s.threads t).tls) (own : Own s.keys s.blocks w t x) :
    Current (s.put t x) w := by
  refine current.put rfl rfl rfl (fun u m => ⟨rfl,fun b at_ => ⟨fun mine => ?_,rfl⟩⟩) own
  exact m (current.owner u t b at_ (same ▸ mine))

theorem Current.acquire (found : s.freeBlock = some b) (tls : x.tls = some b)
    (held : ∀ iter anyRan i v,x.exit = some (.holds iter anyRan i v) → (s.keys i).used = true → w.stored t i = some (w.incarnation i,v))
    (calls : ∀ c,x.call = some c → x.exit.all Loop.inDestructor = true) : Current ((s.acquire b).put t x) w := by
  have fresh : (s.acquire b).blocks b = {busy := true} := update_self ..
  refine current.put rfl rfl rfl (fun u _ => ⟨rfl,fun c at_ => ?_⟩) ⟨fun c at_ => ?_,fun c k v _ at_ reads => ?_,held,calls⟩
  · have apart : c ≠ b := by
      rintro rfl
      have busy := (current.own u).busy c at_
      rw [free_of_found found] at busy
      cases busy
    exact ⟨fun mine => apart (Option.some.inj (mine.symm.trans tls)),update_of_ne apart ..⟩
  · cases tls.symm.trans at_
    rw [fresh]
  · cases tls.symm.trans at_
    rw [fresh] at reads
    cases reads

theorem Current.write {w' : Marks K T V} (tls : (s.threads t).tls = some b) (c : Option V)
    (same : x.tls = some b) (live : (s.threads t).live = true) (count : w'.incarnation = w.incarnation)
    (others : ∀ u j,u ≠ t ∨ j ≠ k → w'.stored u j = w.stored u j)
    (stored : c = none ∨ w'.stored t k = c.map fun v => (w.incarnation k,v))
    (held : ∀ iter anyRan i v,x.exit ≠ some (.holds iter anyRan i v))
    (calls : ∀ c,x.call = some c → x.exit.all Loop.inDestructor = true) : Current ((s.setValue b k c).put t x) w' := by
  have here : (s.setValue b k c).blocks b = {s.blocks b with tsd := update (s.blocks b).tsd k c} :=
    update_self ..
  refine current.put rfl rfl count (fun u m => ⟨funext fun j => others u j (.inl m),fun a at_ => ?_⟩)
    ⟨fun a at_ => ?_,fun a j v _ at_ reads used => ?_,fun iter anyRan i v has => absurd has (held iter anyRan i v),calls⟩
  · have apart : a ≠ b := fun mine => m (current.owner u t b (mine ▸ at_) tls)
    exact ⟨fun mine => apart (Option.some.inj (mine.symm.trans same)),update_of_ne apart ..⟩
  · cases same.symm.trans at_
    rw [here]
    exact (current.own t).busy b tls
  · cases same.symm.trans at_
    rw [here] at reads
    dsimp only at reads
    by_cases at_ : j = k
    · subst at_
      rw [update_self] at reads
      rcases stored with none_ | stored
      · rw [none_] at reads
        cases reads
      · rw [stored,reads,count]
        rfl
    · rw [others t j (.inr at_),count]
      rw [update_of_ne at_] at reads
      exact (current.own t).values b j v live tls reads used

theorem Current.setKey {w' : Marks K T V} (stored : w'.stored = w.stored)
    (others : ∀ j,j ≠ k → w'.incarnation j = w.incarnation j) (entry : KeyEntry D)
    (empty : entry.used = true → ∀ u,(s.threads u).live = true →
      (s.value u k).isNone = true ∧ (s.threads u).exit.all (fun l => !l.holdsKey k) = true) :
    Current (s.setKey k entry) w' := by
  have keys : ∀ j,j ≠ k → (s.setKey k entry).keys j = s.keys j := fun j other => update_of_ne other ..
  have here : (s.setKey k entry).keys k = entry := update_self ..
  refine ⟨current.owner,fun u => ?_⟩
  obtain ⟨busy,values,held,calls⟩ := current.own u
  refine ⟨busy,fun b j v lives at_ reads used => ?_,fun iter anyRan i v has used => ?_,calls⟩
  · by_cases at_key : j = k
    · subst at_key
      rw [here] at used
      have none_ : s.value u j = some v := Option.bind_eq_some_iff.mpr ⟨b,at_,reads⟩
      rw [Option.isNone_iff_eq_none.mp (empty used u lives).1] at none_
      cases none_
    · rw [keys j at_key] at used
      rw [stored,others j at_key]
      exact values b j v lives at_ reads used
  · by_cases at_key : i = k
    · subst at_key
      rw [here] at used
      have has : (s.threads u).exit = _ := has
      have holds := (empty used u (by rw [Thread.live,has]; rfl)).2
      rw [has] at holds
      simp [Loop.holdsKey] at holds
    · rw [keys i at_key] at used
      rw [stored,others i at_key]
      exact held iter anyRan i v has used

end

theorem free_inv (free : x.free = true) : x.call = none ∧ x.exit.all Loop.inDestructor = true := by
  simp only [Thread.free,Bool.and_eq_true] at free
  exact ⟨Option.isNone_iff_eq_none.mp free.1.2,free.2⟩

theorem not_holding (outside : x.exit.all Loop.inDestructor = true) (iter : Nat) (anyRan : Bool) (i : Fin K) (v : V) :
    x.exit ≠ some (.holds iter anyRan i v) := by
  intro has
  rw [has] at outside
  cases outside

theorem live_of_inDestructor (outside : x.exit.all Loop.inDestructor = true) : x.live = true := by
  unfold Thread.live
  cases exits : x.exit with
  | none => rfl
  | some l =>
    rw [exits] at outside
    cases l <;> first | rfl | cases outside

theorem Own.silent {l : Loop K V D} (own : Own s.keys s.blocks w t x) (at_ : x.exit = some l) (looping : l.inDestructor = false) :
    x.call = none := by
  cases calls : x.call with
  | none => rfl
  | some c =>
    have outside := own.calls c calls
    rw [at_,Option.all_some,looping] at outside
    cases outside

theorem Current.step (current : Current s w) (clean : cleanKey s e) (stepped : step s e = some s') :
    Current s' (watch s e s' w) := by
  cases e with
  | keyCreate r d =>
    obtain ⟨_,same⟩ := Option.ite_none_right_eq_some.mp stepped
    cases same
    unfold keyCreate watch
    cases found : s.unusedKey with
    | none => exact current
    | some k =>
      refine Current.setKey current ?_ ?_ _ ?_
      · rfl
      · exact fun j other => update_of_ne other ..
      · exact fun _ u lives => clean k found u lives
  | keyDelete r k =>
    obtain ⟨_,same⟩ := Option.ite_none_right_eq_some.mp stepped
    cases same
    unfold keyDelete watch
    split
    · exact current.setKey rfl (fun _ _ => rfl) _ nofun
    · exact current
  | setspecific r k v =>
    obtain ⟨free,same⟩ := Option.ite_none_right_eq_some.mp stepped
    cases same
    obtain ⟨busy,values,held,_⟩ := current.own r
    unfold setspecific watch
    split
    · exact current.stay rfl ⟨busy,values,held,fun _ _ => (free_inv free).2⟩
    · exact current
  | adopt r =>
    unfold Keys.step at stepped
    dsimp only at stepped
    split at stepped
    · rename_i k v calls bare
      cases stepped
      obtain ⟨busy,values,held,outside⟩ := current.own r
      unfold adopt watch
      cases found : s.freeBlock with
      | none => exact current.stay rfl ⟨busy,values,held,nofun⟩
      | some b => exact current.acquire found rfl held outside
    · cases stepped
  | store r =>
    unfold Keys.step at stepped
    dsimp only at stepped
    split at stepped
    · rename_i k v b calls tls
      cases stepped
      have outside := (current.own r).calls _ calls
      unfold watch
      simp only [calls]
      refine current.write tls v tls (live_of_inDestructor outside) rfl ?_ (.inr ?_) (not_holding outside) nofun
      · intro u j apart
        unfold Marks.store
        by_cases at_ : u = r
        · subst at_
          have other : j ≠ k := apart.resolve_left fun different => different rfl
          exact (congrFun (update_self ..) j).trans (update_of_ne other ..)
        · exact congrFun (update_of_ne at_ ..) j
      · exact (congrFun (update_self ..) k).trans (update_self ..)
    · cases stepped
  | getspecific r k =>
    obtain ⟨free,same⟩ := Option.ite_none_right_eq_some.mp stepped
    cases same
    obtain ⟨busy,values,held,calls⟩ := current.own r
    unfold getspecific watch
    split
    · exact current.stay rfl ⟨busy,values,held,fun _ _ => (free_inv free).2⟩
    · exact current.stay rfl ⟨busy,values,held,calls⟩
  | read r =>
    unfold Keys.step at stepped
    dsimp only at stepped
    split at stepped
    · cases stepped
      obtain ⟨busy,values,held,_⟩ := current.own r
      exact current.stay rfl ⟨busy,values,held,nofun⟩
    · cases stepped
  | create r u =>
    obtain ⟨_,same⟩ := Option.ite_none_right_eq_some.mp stepped
    cases same
    unfold createThread watch
    cases found : s.freeBlock with
    | none => exact current
    | some b => exact current.acquire found rfl nofun nofun
  | exit r =>
    obtain ⟨allowed,same⟩ := Option.ite_none_right_eq_some.mp stepped
    cases same
    obtain ⟨free,outside⟩ := (Bool.and_eq_true _ _).mp allowed
    obtain ⟨idle,within⟩ := free_inv free
    obtain ⟨busy,values,_,_⟩ := current.own r
    refine current.stay rfl ⟨busy,fun b k v _ => values b k v (live_of_inDestructor within),fun iter anyRan i v has => ?_,?_⟩
    · split at has <;> cases has
    · exact fun c calls => by rw [show (s.threads r).call = some c from calls] at idle; cases idle
  | scan r =>
    unfold Keys.step at stepped
    dsimp only at stepped
    split at stepped
    · rename_i iter anyRan i b at_ tls
      cases stepped
      have lives : (s.threads r).live = true := by rw [Thread.live,at_]; rfl
      have idle := (current.own r).silent at_ rfl
      obtain ⟨busy,values,_,_⟩ := current.own r
      refine current.stay rfl ⟨busy,fun b k v _ => values b k v lives,fun iter' anyRan' j v has used => ?_,fun c calls => ?_⟩
      · unfold scan at has
        split at has
        · split at has
          · rename_i v' reads
            cases has
            exact values b _ _ lives tls reads used
          · cases has
        · split at has <;> cases has
      · cases idle.symm.trans calls
    · cases stepped
  | lookup r =>
    unfold Keys.step at stepped
    dsimp only at stepped
    split at stepped
    · rename_i iter anyRan i v b at_ tls
      cases stepped
      have lives : (s.threads r).live = true := by rw [Thread.live,at_]; rfl
      have idle := (current.own r).silent at_ rfl
      refine current.write tls none tls lives rfl (fun _ _ _ => rfl) (.inl rfl) (fun iter' anyRan' j u has => ?_) fun c calls => ?_
      · dsimp only at has
        split at has <;> cases has
      · cases idle.symm.trans calls
    · cases stepped
  | ret r =>
    unfold Keys.step at stepped
    dsimp only at stepped
    split at stepped
    · rename_i iter i d v at_ idle
      cases stepped
      obtain ⟨busy,values,_,_⟩ := current.own r
      refine current.stay rfl ⟨busy,fun b k v _ => values b k v (by rw [Thread.live,at_]; rfl),nofun,fun c calls => ?_⟩
      cases idle.symm.trans calls
    · cases stepped
  | release r =>
    unfold Keys.step at stepped
    dsimp only at stepped
    split at stepped
    · rename_i b at_ tls
      cases stepped
      have idle := (current.own r).silent at_ rfl
      refine current.put rfl rfl rfl (fun u m => ⟨rfl,fun a has => ⟨nofun,?_⟩⟩) ⟨nofun,nofun,nofun,fun c calls => ?_⟩
      · have apart : a ≠ b := fun mine => m (current.owner u r b (mine ▸ has) tls)
        exact update_of_ne apart ..
      · cases idle.symm.trans calls
    · cases stepped

theorem initial_current (foreign : T → Bool) : Current (initial foreign : Layer K N T V D) unmarked := by
  refine ⟨?_,fun t => ⟨?_,?_,?_,?_⟩⟩ <;> intros <;> contradiction

theorem reached_current {foreign : T → Bool}
    (run : Run (observe step watch) (fun p e => cleanKey p.1 e) (initial foreign,unmarked) (s,w)) :
    Current s w := by
  refine run.keeps (I := fun p : Layer K N T V D × Marks K T V => Current p.1 p.2) (initial_current foreign) ?_
  intro p e q current clean observed
  obtain ⟨stepped,same⟩ := observe_some observed
  rw [same]
  exact current.step clean stepped

theorem keys_start_empty {foreign : T → Bool}
    (run : Run (observe step watch) (fun p e => cleanKey p.1 e) (initial foreign,unmarked) (s,w)) :
    (∀ t s' k v,step s (.read t) = some s' → (s'.threads t).answer = some (k,some v) → (s.keys k).used = true →
      w.stored t k = some (w.incarnation k,v)) ∧
    ∀ t s' iter i d v,step s (.lookup t) = some s' → (s'.threads t).exit = some (.calls iter i d v) →
      (s.keys i).used = true ∧ (s.keys i).destructor = some d ∧ w.stored t i = some (w.incarnation i,v) := by
  have current := reached_current run
  refine ⟨?_,?_⟩
  · intro t s' k v stepped answered used
    unfold Keys.step at stepped
    dsimp only at stepped
    split at stepped
    · rename_i j calls
      cases stepped
      rw [put_self] at answered
      obtain ⟨rfl,reads⟩ := Prod.mk.inj (Option.some.inj answered)
      obtain ⟨b,tls,reads⟩ := of_bind reads
      exact (current.own t).values b j v (live_of_inDestructor ((current.own t).calls _ calls)) tls reads used
    · cases stepped
  · intro t s' iter i d v stepped calls
    unfold Keys.step at stepped
    dsimp only at stepped
    split at stepped
    · rename_i iter' anyRan j u b at_ tls
      cases stepped
      unfold lookup at calls
      rw [put_self] at calls
      dsimp only at calls
      split at calls
      · rename_i d' found
        cases calls
        split at found
        · rename_i used
          exact ⟨used,found,(current.own t).held _ _ _ _ at_ used⟩
        · cases found
      · cases calls
    · cases stepped

def storeAndExit : List (Event 1 (Fin 2) Nat Nat) :=
  [.keyCreate 0 (some 7),.setspecific 0 0 (some 5),.adopt 0,.store 0,.getspecific 0 0,.read 0,.exit 0,.scan 0]

theorem storeAndExit_current : ∃ (s s' : Layer 1 2 (Fin 2) Nat Nat) (w : Marks 1 (Fin 2) Nat),
    exec (observe step watch) (initial fun _ => true,unmarked) storeAndExit = some (s,w) ∧
      step s (.lookup 0) = some s' ∧ w.stored 0 0 = some (w.incarnation 0,5) := by
  have ran : (exec (observe step watch) ((initial fun _ => true : Layer 1 2 (Fin 2) Nat Nat),unmarked)
      storeAndExit).bind (fun p => (step p.1 (.lookup 0)).map fun s' => ((s'.threads 0).exit.map fun l =>
        match l with
        | .calls _ i d v => some (i,d,v)
        | _ => none)) = some (some (some (0,7,5))) := by decide
  obtain ⟨⟨s,w⟩,ran,rest⟩ := of_bind ran
  obtain ⟨s',stepped,shape⟩ := of_map rest
  obtain ⟨l,at_,shape⟩ := of_map shape
  have run := Run.ofExecAllowed (fun p e => decide (cleanKey p.1 e)) (by decide) ran
  have run := run.weaken fun p e => of_decide_eq_true
  cases l with
  | calls iter i d v =>
    cases shape
    exact ⟨s,s',w,ran,stepped,((keys_start_empty run).2 0 s' _ _ _ _ stepped at_).2.2⟩
  | _ => cases shape

-- The value of the first incarnation of a deleted key is still there.
def recreated : List (Event 1 (Fin 2) Nat Nat) :=
  [.keyCreate 0 (some 7),.setspecific 0 0 (some 5),.adopt 0,.store 0,.keyDelete 0 0,.keyCreate 0 (some 9),.getspecific 0 0]

theorem recreated_not_empty : ∃ (s s' : Layer 1 2 (Fin 2) Nat Nat) (w : Marks 1 (Fin 2) Nat),
    Run (observe step watch) (fun _ _ => True) (initial fun _ => true,unmarked) (s,w) ∧
      step s (.read 0) = some s' ∧ (s'.threads 0).answer = some (0,some 5) ∧ (s.keys 0).used = true ∧
      w.stored 0 0 ≠ some (w.incarnation 0,5) := by
  have found : ∃ p,exec (observe step watch) ((initial fun _ => true : Layer 1 2 (Fin 2) Nat Nat),unmarked)
      recreated = some p ∧ (p.1.keys 0).used = true ∧ p.2.stored 0 0 ≠ some (p.2.incarnation 0,5) ∧
      ∃ s',step p.1 (.read 0) = some s' ∧ (s'.threads 0).answer = some (0,some 5) := by decide
  obtain ⟨⟨s,w⟩,ran,used,older,s',stepped,answer⟩ := found
  exact ⟨s,s',w,.ofExec ran,stepped,answer,used,older⟩

end SuperTinyKernel.Posix.Keys
