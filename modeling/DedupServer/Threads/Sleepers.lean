import DedupServer.Foundations.Wakeups
import DedupServer.Threads.Fifo

/-! # Who sleeps in a `BlockQueue`

`BlockQueue` with its two condition variables: a `push` that finds the queue full sleeps on `m_cond_notFull`
until a `pop` notifies it or it wakes by itself, and a `pop` that finds it empty sleeps on `m_cond_notEmpty`,
for a second at most. Which sleeper a `notify_one` wakes is open, and so is who takes the lock next: a thread
that has been notified, one that has woken by itself, or one that has just called. Forgetting who sleeps gives
the threads of `BlockQueue` (`SleepingQueue.refines`).

A `push` has no time-out. That no producer sleeps through free space is `SleepingQueue.covered`. -/

namespace DedupServer

open Foundations

/-- What a waiting thread is doing: it sleeps, it has been notified, or it has woken by itself. -/
inductive WaitStage
  | asleep
  | notified
  | awake
  deriving DecidableEq

/-- Where a thread is: outside of the queue, or in a call that has found it full or empty. -/
inductive QueueCaller (α : Type*)
  | outside
  | pushing (e : α) (stage : WaitStage)
  | popping (stage : WaitStage)
  deriving DecidableEq

namespace QueueCaller

variable {α : Type*}

/-- The same without who sleeps. -/
def thread : QueueCaller α → QueueThread α
  | outside => .outside
  | pushing e _ => .pushing e
  | popping _ => .popping

end QueueCaller

/-- `m_cond_notFull`. -/
def condNotFull (α : Type*) : CondVar (QueueCaller α) where
  wake
    | .pushing e .asleep => some (.pushing e .notified)
    | _ => none
  notified
    | .pushing _ .notified => true
    | _ => false
  notified_of_wake {a b} h := by
    split at h
    · obtain rfl := Option.some.inj h
      rfl
    · cases h
  wake_of_notified {a} h := by
    split at h
    · rfl
    · cases h

/-- `m_cond_notEmpty`. -/
def condNotEmpty (α : Type*) : CondVar (QueueCaller α) where
  wake
    | .popping .asleep => some (.popping .notified)
    | _ => none
  notified
    | .popping .notified => true
    | _ => false
  notified_of_wake {a b} h := by
    split at h
    · obtain rfl := Option.some.inj h
      rfl
    · cases h
  wake_of_notified {a} h := by
    split at h
    · rfl
    · cases h

/-- The queue and its threads. -/
structure SleepingQueue (ι α : Type*) where
  queue : BlockQueueState α
  callers : ι → QueueCaller α

/-- What happens next: a thread calls a method, a waiting one that does not sleep goes on, or a sleeper
wakes by itself. A call that notifies says whom. -/
inductive SleepAct (ι α : Type*)
  | push (i : ι) (e : α) (w : Option ι)
  | pop (i : ι) (w : Option ι)
  | empty (i : ι)
  | setDone (i : ι)
  | resume (i : ι) (w : Option ι)
  | wake (i : ι)

namespace SleepingQueue

variable {ι α : Type*}

/-- A new queue, with no thread in it. -/
def init (size : ℕ) : SleepingQueue ι α := ⟨.new size, fun _ => .outside⟩

variable [DecidableEq ι]

/-- Thread `i` goes to `c`. -/
def goto (σ : SleepingQueue ι α) (i : ι) (c : QueueCaller α) : SleepingQueue ι α :=
  { σ with callers := Function.update σ.callers i c }

variable [Fintype ι]

/-- `notify_one` on one of the condition variables. -/
def notify (σ : SleepingQueue ι α) (V : CondVar (QueueCaller α)) (w : Option ι) :
    Option (SleepingQueue ι α) :=
  (V.notifyOne σ.callers w).map fun callers => { σ with callers := callers }

/-- Thread `i` has the lock in `push`. -/
def tryPush (σ : SleepingQueue ι α) (i : ι) (e : α) (w : Option ι) : Option (SleepingQueue ι α) :=
  match σ.queue.push e with
  | none => if w.isNone then some (σ.goto i (.pushing e .asleep)) else none
  | some q => ({ σ with queue := q }.goto i .outside).notify (condNotEmpty α) w

/-- Thread `i` has the lock in `pop`. -/
def tryPop (σ : SleepingQueue ι α) (i : ι) (w : Option ι) : Option (SleepingQueue ι α) :=
  match σ.queue.pop with
  | .wait => if w.isNone then some (σ.goto i (.popping .asleep)) else none
  | .finished => if w.isNone then some (σ.goto i .outside) else none
  | .got _ q => ({ σ with queue := q }.goto i .outside).notify (condNotFull α) w

/-- One step. -/
def step (σ : SleepingQueue ι α) : SleepAct ι α → Option (SleepingQueue ι α)
  | .push i e w =>
    match σ.callers i with
    | .outside => σ.tryPush i e w
    | _ => none
  | .pop i w =>
    match σ.callers i with
    | .outside => σ.tryPop i w
    | _ => none
  | .empty i =>
    match σ.callers i with
    | .outside => some σ
    | _ => none
  | .setDone i =>
    match σ.callers i with
    | .outside => some { σ with queue := σ.queue.setDone }
    | _ => none
  | .resume i w =>
    match σ.callers i with
    | .pushing _ .asleep => none
    | .popping .asleep => none
    | .pushing e _ => σ.tryPush i e w
    | .popping _ => σ.tryPop i w
    | .outside => none
  | .wake i =>
    match σ.callers i with
    | .pushing e .asleep => some (σ.goto i (.pushing e .awake))
    | .popping .asleep => some (σ.goto i (.popping .awake))
    | _ => none

end SleepingQueue

/-- **The threads of a `BlockQueue` and their sleep**, any number of them. -/
def sleepingMachine (ι α : Type*) [Fintype ι] [DecidableEq ι] :
    Machine (SleepingQueue ι α) (SleepAct ι α) where
  step := SleepingQueue.step

namespace SleepingQueue

section Forgets

variable {ι α : Type*} {σ : SleepingQueue ι α} {sys : QueueSystem ι α}

/-- **The same queue and the same threads**, without their stages. -/
def Forgets (σ : SleepingQueue ι α) (sys : QueueSystem ι α) : Prop :=
  sys.queue = σ.queue ∧ ∀ i, sys.threads i = (σ.callers i).thread

variable [DecidableEq ι]

/-- A thread that moves in both. -/
theorem Forgets.goto (h : σ.Forgets sys) (i : ι) (c : QueueCaller α) (j : ι) :
    Function.update sys.threads i c.thread j = ((σ.goto i c).callers j).thread :=
  forall_update (R := fun t c => t = QueueCaller.thread c) h.2 i rfl j

/-- A thread that stays where it is. -/
theorem Forgets.stays (h : σ.Forgets sys) {i : ι} {c : QueueCaller α}
    (hc : c.thread = (σ.callers i).thread) : (σ.goto i c).Forgets sys := by
  refine ⟨h.1, fun j => ?_⟩
  rw [← h.goto, hc, ← h.2 i, Function.update_eq_self]

end Forgets

variable {ι α : Type*} [Fintype ι] {σ τ : SleepingQueue ι α} {i : ι} {e : α} {w : Option ι} {size : ℕ}

/-! ## No producer sleeps through free space -/

/-- How many producers sleep un-notified. -/
def sleepers (σ : SleepingQueue ι α) : ℕ := (condNotFull α).sleepers σ.callers

/-- How many producers have been notified and have not resumed. -/
def woken (σ : SleepingQueue ι α) : ℕ := (condNotFull α).woken σ.callers

/-- **What every step keeps.** -/
structure Kept (size : ℕ) (σ : SleepingQueue ι α) : Prop where
  good : σ.queue.Good
  size_eq : σ.queue.size = size
  covered : Covered (size - σ.queue.queue.length) σ.sleepers σ.woken

theorem kept_init (size : ℕ) : (init size : SleepingQueue ι α).Kept size where
  good := BlockQueueState.good_new size
  size_eq := rfl
  covered := by
    have hzero : (init size : SleepingQueue ι α).sleepers = 0 := Finset.sum_eq_zero fun _ _ => rfl
    rw [hzero]
    exact covered_awake _ _

variable [DecidableEq ι]

/-- The queue that `notify_one` leaves is the same. -/
theorem queue_notify {V : CondVar (QueueCaller α)} (h : σ.notify V w = some τ) : τ.queue = σ.queue := by
  obtain ⟨callers, -, rfl⟩ := Option.map_eq_some_iff.mp h
  rfl

/-- A notified consumer is neither a sleeping nor a notified producer. -/
theorem covered_notify_notEmpty {free : ℕ} (h : Covered free σ.sleepers σ.woken)
    (hnotify : σ.notify (condNotEmpty α) w = some τ) : Covered free τ.sleepers τ.woken := by
  obtain ⟨callers, hcallers, rfl⟩ := Option.map_eq_some_iff.mp hnotify
  obtain ⟨rfl, -⟩ | ⟨j, c, hc, rfl⟩ := CondVar.notifyOne_eq_some hcallers
  · exact h
  · simp only [condNotEmpty] at hc
    split at hc
    · rename_i hj
      obtain rfl := Option.some.inj hc
      exact CondVar.covered_move h (by rw [hj]; rfl) rfl
    · cases hc

/-- **A thread that has the lock in `push`** sleeps while the queue is full, and otherwise takes a place. -/
theorem Kept.tryPush (h : σ.Kept size) (hstep : σ.tryPush i e w = some τ) : τ.Kept size := by
  have hbounded := h.good.bounded
  unfold SleepingQueue.tryPush at hstep
  split at hstep
  · rename_i hfull
    split at hstep
    · obtain rfl := Option.some.inj hstep
      -- there is no free place
      have hzero : size - σ.queue.queue.length = 0 := by
        rw [← h.size_eq, BlockQueueState.push_eq_none hfull, Nat.sub_self]
      exact ⟨h.good, h.size_eq, hzero ▸ covered_zero _ _⟩
    · cases hstep
  · rename_i q hpush
    obtain ⟨hqueue, hsize, -, -, hroom⟩ := BlockQueueState.push_eq_some hpush
    have hgood := h.good.push hpush
    have hcovered := h.covered
    rw [h.size_eq] at hbounded hroom
    have hfree : size - σ.queue.queue.length = size - q.queue.length + 1 := by
      rw [hqueue, List.length_append, List.length_singleton]
      omega
    rw [hfree] at hcovered
    have htaken : Covered (size - q.queue.length) ({ σ with queue := q }.goto i .outside).sleepers
        ({ σ with queue := q }.goto i .outside).woken := CondVar.covered_take hcovered rfl
    have hkept := covered_notify_notEmpty htaken hstep
    have hq : τ.queue = q := queue_notify hstep
    constructor
    · rw [hq]
      exact hgood
    · rw [hq]
      exact hsize.trans h.size_eq
    · rw [hq]
      exact hkept

/-- **A thread that has the lock in `pop`** sleeps, returns, or frees a place and notifies a producer. -/
theorem Kept.tryPop (h : σ.Kept size) (hi : (condNotFull α).notified (σ.callers i) = false)
    (hstep : σ.tryPop i w = some τ) : τ.Kept size := by
  have hbounded := h.good.bounded
  unfold SleepingQueue.tryPop at hstep
  -- no entry and no flag: the caller goes to sleep and wakes nobody
  split at hstep
  · split at hstep
    · obtain rfl := Option.some.inj hstep
      exact ⟨h.good, h.size_eq, CondVar.covered_move h.covered hi rfl⟩
    · cases hstep
  · split at hstep
    · obtain rfl := Option.some.inj hstep
      exact ⟨h.good, h.size_eq, CondVar.covered_move h.covered hi rfl⟩
    · cases hstep
  -- one entry less, one place more: one sleeping producer is told
  · rename_i e q hpop
    obtain ⟨hqueue, hsize, -, -⟩ := BlockQueueState.pop_eq_got hpop
    have hgood := h.good.pop hpop
    have hmoved := CondVar.covered_move (b := .outside) h.covered hi rfl
    obtain ⟨callers, hcallers, rfl⟩ := Option.map_eq_some_iff.mp hstep
    have hgiven := CondVar.covered_notifyOne hmoved hcallers
    rw [h.size_eq, hqueue, List.length_cons] at hbounded
    have hfree : size - σ.queue.queue.length + 1 = size - q.queue.length := by
      rw [hqueue, List.length_cons]
      omega
    rw [hfree] at hgiven
    exact ⟨hgood, hsize.trans h.size_eq, hgiven⟩

/-- **Every step** keeps it. -/
theorem Kept.step {a : SleepAct ι α} (h : σ.Kept size) (hstep : σ.step a = some τ) : τ.Kept size := by
  cases a with
  | push i e w =>
    -- only `push` and `pop` notify, every other action leaves the condition variables as they are
    simp only [SleepingQueue.step] at hstep
    split at hstep
    · exact h.tryPush hstep
    · cases hstep
  | pop i w =>
    simp only [SleepingQueue.step] at hstep
    split at hstep
    · rename_i hi
      exact h.tryPop (by rw [hi]; rfl) hstep
    · cases hstep
  | empty i =>
    simp only [SleepingQueue.step] at hstep
    split at hstep
    · exact Option.some.inj hstep ▸ h
    · cases hstep
  | setDone i =>
    simp only [SleepingQueue.step] at hstep
    split at hstep
    · obtain rfl := Option.some.inj hstep
      exact ⟨⟨h.good.bounded, h.good.flag⟩, h.size_eq, h.covered⟩
    · cases hstep
  | resume i w =>
    simp only [SleepingQueue.step] at hstep
    split at hstep
    · cases hstep
    · cases hstep
    · exact h.tryPush hstep
    · rename_i hi
      exact h.tryPop (by rw [hi]; rfl) hstep
    · cases hstep
  | wake i =>
    simp only [SleepingQueue.step] at hstep
    split at hstep
    · rename_i e hi
      obtain rfl := Option.some.inj hstep
      exact ⟨h.good, h.size_eq, CondVar.covered_move h.covered (by rw [hi]; rfl) rfl⟩
    · rename_i hi
      obtain rfl := Option.some.inj hstep
      exact ⟨h.good, h.size_eq, CondVar.covered_move h.covered (by rw [hi]; rfl) rfl⟩
    · cases hstep

/-- **In every state that can be reached** the wake-ups suffice. -/
theorem kept (h : (sleepingMachine ι α).Run Machine.anyAction (init size) σ) : σ.Kept size := by
  refine h.invariant ?_ (kept_init size)
  intro σ a τ hσ hstep _
  exact hσ.step hstep

/-! ## Forgetting who sleeps -/

/-- Notifying a thread does not move it. -/
theorem thread_notify {V : CondVar (QueueCaller α)}
    (hV : ∀ a b, V.wake a = some b → b.thread = a.thread) (h : σ.notify V w = some τ) (i : ι) :
    (τ.callers i).thread = (σ.callers i).thread := by
  obtain ⟨callers, hcallers, rfl⟩ := Option.map_eq_some_iff.mp h
  obtain ⟨rfl, -⟩ | ⟨j, c, hc, rfl⟩ := CondVar.notifyOne_eq_some hcallers
  · rfl
  · show (Function.update σ.callers j c i).thread = _
    by_cases hij : i = j
    · subst hij
      rw [Function.update_self]
      exact hV _ _ hc
    · rw [Function.update_of_ne hij]

theorem thread_wake_notEmpty (a b : QueueCaller α) (h : (condNotEmpty α).wake a = some b) :
    b.thread = a.thread := by
  simp only [condNotEmpty] at h
  split at h
  · obtain rfl := Option.some.inj h
    rfl
  · cases h

theorem thread_wake_notFull (a b : QueueCaller α) (h : (condNotFull α).wake a = some b) :
    b.thread = a.thread := by
  simp only [condNotFull] at h
  split at h
  · obtain rfl := Option.some.inj h
    rfl
  · cases h

variable {sys : QueueSystem ι α}

/-- Trying to push is trying to push. -/
theorem Forgets.tryPush (h : σ.Forgets sys) (hstep : σ.tryPush i e w = some τ) :
    τ.Forgets (sys.tryPush i e) := by
  cases hpush : σ.queue.push e with
  | none =>
    simp only [SleepingQueue.tryPush, hpush] at hstep
    simp only [QueueSystem.tryPush, h.1, hpush]
    split at hstep
    · obtain rfl := Option.some.inj hstep
      exact ⟨rfl, h.goto i (.pushing e .asleep)⟩
    · cases hstep
  | some q =>
    simp only [SleepingQueue.tryPush, hpush] at hstep
    simp only [QueueSystem.tryPush, h.1, hpush]
    refine ⟨(queue_notify hstep).symm, fun j => ?_⟩
    rw [thread_notify thread_wake_notEmpty hstep]
    exact h.goto i .outside j

/-- Trying to pop is trying to pop. -/
theorem Forgets.tryPop (h : σ.Forgets sys) (hstep : σ.tryPop i w = some τ) :
    τ.Forgets (sys.tryPop i) := by
  cases hpop : σ.queue.pop with
  | wait =>
    simp only [SleepingQueue.tryPop, hpop] at hstep
    simp only [QueueSystem.tryPop, h.1, hpop]
    split at hstep
    · obtain rfl := Option.some.inj hstep
      exact ⟨rfl, h.goto i (.popping .asleep)⟩
    · cases hstep
  | finished =>
    simp only [SleepingQueue.tryPop, hpop] at hstep
    simp only [QueueSystem.tryPop, h.1, hpop]
    split at hstep
    · obtain rfl := Option.some.inj hstep
      exact ⟨rfl, h.goto i .outside⟩
    · cases hstep
  | got e q =>
    simp only [SleepingQueue.tryPop, hpop] at hstep
    simp only [QueueSystem.tryPop, h.1, hpop]
    refine ⟨(queue_notify hstep).symm, fun j => ?_⟩
    rw [thread_notify thread_wake_notFull hstep]
    exact h.goto i .outside j

/-- **A step is a step of `BlockQueue`'s threads, or none.** -/
theorem Forgets.step {a : SleepAct ι α} (h : σ.Forgets sys) (hstep : σ.step a = some τ) :
    ∃ sys', (sys' = sys ∨ ∃ b, sys.step b = some sys') ∧ τ.Forgets sys' := by
  cases a with
  | push i e w =>
    simp only [SleepingQueue.step] at hstep
    split at hstep
    · rename_i hi
      refine ⟨_, .inr ⟨.push i e, ?_⟩, h.tryPush hstep⟩
      simp only [QueueSystem.step, h.2 i, hi, QueueCaller.thread]
    · cases hstep
  | pop i w =>
    simp only [SleepingQueue.step] at hstep
    split at hstep
    · rename_i hi
      refine ⟨_, .inr ⟨.pop i, ?_⟩, h.tryPop hstep⟩
      simp only [QueueSystem.step, h.2 i, hi, QueueCaller.thread]
    · cases hstep
  | empty i =>
    simp only [SleepingQueue.step] at hstep
    split at hstep
    · obtain rfl := Option.some.inj hstep
      exact ⟨sys, .inl rfl, h⟩
    · cases hstep
  | setDone i =>
    simp only [SleepingQueue.step] at hstep
    split at hstep
    · rename_i hi
      obtain rfl := Option.some.inj hstep
      refine ⟨{ sys with queue := sys.queue.setDone, doneCalled := true }, .inr ⟨.setDone i, ?_⟩, ?_⟩
      · simp only [QueueSystem.step, h.2 i, hi, QueueCaller.thread]
      · exact ⟨congrArg BlockQueueState.setDone h.1, h.2⟩
    · cases hstep
  | resume i w =>
    simp only [SleepingQueue.step] at hstep
    split at hstep
    · cases hstep
    · cases hstep
    · rename_i hi
      refine ⟨_, .inr ⟨.resume i, ?_⟩, h.tryPush hstep⟩
      simp only [QueueSystem.step, h.2 i, hi, QueueCaller.thread]
    · rename_i hi
      refine ⟨_, .inr ⟨.resume i, ?_⟩, h.tryPop hstep⟩
      simp only [QueueSystem.step, h.2 i, hi, QueueCaller.thread]
    · cases hstep
  | wake i =>
    -- a sleeper that wakes stays in its call
    refine ⟨sys, .inl rfl, ?_⟩
    simp only [SleepingQueue.step] at hstep
    split at hstep
    · rename_i hi
      obtain rfl := Option.some.inj hstep
      exact h.stays (by rw [hi]; rfl)
    · rename_i hi
      obtain rfl := Option.some.inj hstep
      exact h.stays (by rw [hi]; rfl)
    · cases hstep

/-- **Every run is one of `BlockQueue`'s threads**, when it is forgotten who sleeps. -/
theorem refines (h : (sleepingMachine ι α).Run Machine.anyAction (init size) σ) :
    ∃ sys, (queueMachine ι α).Run Machine.anyAction (QueueSystem.init size) sys ∧ σ.Forgets sys := by
  refine h.invariant (I := fun σ => ∃ sys, (queueMachine ι α).Run Machine.anyAction
    (QueueSystem.init size) sys ∧ σ.Forgets sys) ?_ ⟨_, .refl _, rfl, fun _ => rfl⟩
  rintro σ a τ ⟨sys, hrun, hforgets⟩ hstep -
  obtain ⟨sys', rfl | ⟨b, hb⟩, hforgets'⟩ := hforgets.step hstep
  · exact ⟨sys', hrun, hforgets'⟩
  · exact ⟨sys', hrun.tail hb trivial, hforgets'⟩

end SleepingQueue

end DedupServer
