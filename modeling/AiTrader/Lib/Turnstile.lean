import AiTrader.Lib.Trace
import Mathlib.Order.Basic

/-!
# Tasks that take turns at a limiter

A task takes the lock, tries its request against a shared resource and, as long as it is refused, sleeps and
tries again with the lock still in its hands. The other tasks queue for the lock in the order in which they
came. Whatever else touches the resource needs no lock.

A `Limiter` says what a try and what the other accesses make of the resource. `Limiter.Keeps I ok` are the
obligations under which `I`, a property of the resource, the clock and the grants so far, holds in every
state of every interleaving whose requests are all `ok` (`Limiter.Keeps.always`).
-/

namespace Lib

/-- What one try of the task at the lock comes to. -/
inductive Verdict (G : Type)
  | granted (entry : G)
  | asleep
  | raised
  deriving DecidableEq

/-- What a verdict adds to the record of grants. -/
def Verdict.entries {G : Type} : Verdict G → List G
  | granted entry => [entry]
  | asleep | raised => []

/-- The task keeps the lock only while it sleeps. -/
def Verdict.keeps {G α : Type} (verdict : Verdict G) (task : α) : Option α :=
  match verdict with
  | asleep => some task
  | granted _ | raised => none

structure Limiter (R Q E G T : Type) where
  attempt : R → Q → T → R × Verdict G
  aside : R → E → T → R

structure Turnstile (R Q G T : Type) where
  resource : R
  clock : T
  holder : Option (ℕ × Q) := none
  queue : List (ℕ × Q) := []
  grants : List G := []

namespace Turnstile

inductive Event (Q E : Type)
  | called (task : ℕ) (request : Q)
  | resumed (task : ℕ)
  | cancelled (task : ℕ)
  | aside (event : E)

variable {R Q E G T : Type}

/-- The task is asleep at the lock or in the queue. -/
def inside (s : Turnstile R Q G T) (task : ℕ) : Bool :=
  s.holder.any (fun waiting => waiting.1 = task) || s.queue.any fun waiting => waiting.1 = task

variable (limiter : Limiter R Q E G T)

/-- The task at the lock runs until it sleeps or leaves. -/
def attempt (s : Turnstile R Q G T) (task : ℕ) (request : Q) (now : T) : Turnstile R Q G T :=
  let tried := limiter.attempt s.resource request now
  { s with
    resource := tried.1
    holder := tried.2.keeps (task, request)
    grants := s.grants ++ tried.2.entries }

def act (s : Turnstile R Q G T) (now : T) : Event Q E → Turnstile R Q G T
  | .called task request =>
    if s.inside task then s
    else if s.holder.isNone && s.queue.isEmpty then s.attempt limiter task request now
    else { s with queue := s.queue ++ [(task, request)] }
  | .resumed task =>
    match s.holder, s.queue with
    | some (holder, request), _ => if holder = task then s.attempt limiter task request now else s
    | none, (next, request) :: rest =>
      if next = task then { s with queue := rest }.attempt limiter task request now else s
    | none, [] => s
  | .cancelled task =>
    { s with
      holder := s.holder.filter fun waiting => waiting.1 ≠ task
      queue := s.queue.filter fun waiting => waiting.1 ≠ task }
  | .aside event => { s with resource := limiter.aside s.resource event now }

/-- An event that the clock has passed does not happen. -/
def step [LE T] [DecidableLE T] (s : Turnstile R Q G T) : T × Event Q E → Turnstile R Q G T
  | (now, event) => if s.clock ≤ now then { s.act limiter now event with clock := now } else s

/-- What a call may ask for. -/
def Event.Asks (ok : Q → Prop) : Event Q E → Prop
  | called _ request => ok request
  | resumed _ | cancelled _ | aside _ => True

/-- Every request in the lock's hands or in the queue is `ok`. -/
structure Pending (ok : Q → Prop) (s : Turnstile R Q G T) : Prop where
  holder : ∀ waiting ∈ s.holder, ok waiting.2
  queue : ∀ waiting ∈ s.queue, ok waiting.2

end Turnstile

variable {R Q E G T : Type} [Preorder T] [DecidableLE T]

/-- `I` outlasts the passing of time, every try of an `ok` request and every other access. -/
structure Limiter.Keeps (limiter : Limiter R Q E G T) (I : R → T → List G → Prop) (ok : Q → Prop) : Prop where
  later : ∀ {r t now grants}, I r t grants → t ≤ now → I r now grants
  attempt : ∀ {r q now grants}, ok q → I r now grants →
    I (limiter.attempt r q now).1 now (grants ++ (limiter.attempt r q now).2.entries)
  aside : ∀ {r e now grants}, I r now grants → I (limiter.aside r e now) now grants

namespace Turnstile

open Limiter

variable {limiter : Limiter R Q E G T} {I : R → T → List G → Prop} {ok : Q → Prop}

structure Inv (I : R → T → List G → Prop) (ok : Q → Prop) (s : Turnstile R Q G T) : Prop where
  holds : I s.resource s.clock s.grants
  pending : s.Pending ok

omit [Preorder T] [DecidableLE T] in
theorem Pending.attempt {s : Turnstile R Q G T} (h : s.Pending ok) {request : Q} (hok : ok request)
    (task : ℕ) (now : T) : (s.attempt limiter task request now).Pending ok := by
  refine ⟨fun waiting hmem => ?_, h.queue⟩
  unfold Turnstile.attempt at hmem
  dsimp only at hmem
  cases hverdict : (limiter.attempt s.resource request now).2 with
  | asleep =>
    rw [hverdict] at hmem
    obtain rfl := Option.some.inj hmem
    exact hok
  | granted | raised =>
    rw [hverdict] at hmem
    cases hmem

omit [Preorder T] [DecidableLE T] in
theorem Pending.cancelled {s : Turnstile R Q G T} (h : s.Pending ok) (task : ℕ) (now : T) :
    (s.act limiter now (.cancelled task)).Pending ok :=
  ⟨fun waiting hmem => h.holder waiting (Option.mem_filter_iff.mp hmem).1,
    fun waiting hmem => h.queue waiting (List.mem_filter.mp hmem).1⟩

/-- A step of any kind keeps the invariant: the queue only ever hands `ok` requests to the limiter. -/
theorem Inv.step (hkeeps : limiter.Keeps I ok) {s : Turnstile R Q G T} (h : Inv I ok s) (e : T × Event Q E)
    (he : e.2.Asks ok) : Inv I ok (s.step limiter e) := by
  obtain ⟨now, event⟩ := e
  unfold Turnstile.step
  dsimp only
  split_ifs with htime
  swap
  · exact h
  have hnow : I s.resource now s.grants := hkeeps.later h.holds htime
  have htry : ∀ queue (task : ℕ) {request : Q}, (∀ waiting ∈ queue, ok waiting.2) → ok request →
      Inv I ok { ({ s with queue := queue } : Turnstile R Q G T).attempt limiter task request now with
        clock := now } := by
    intro queue task request hqueue hok
    have hpending : Pending ok { s with queue := queue } := ⟨h.pending.holder, hqueue⟩
    exact ⟨hkeeps.attempt hok hnow, (hpending.attempt hok task now).holder, hqueue⟩
  cases event with
  | called task request =>
    simp only [act]
    split_ifs
    · exact ⟨hnow, h.pending.holder, h.pending.queue⟩
    · exact htry s.queue task h.pending.queue he
    · refine ⟨hnow, h.pending.holder, fun waiting hmem => ?_⟩
      rcases List.mem_append.mp hmem with hmem | hmem
      · exact h.pending.queue waiting hmem
      · obtain rfl := List.mem_singleton.mp hmem
        exact he
  | resumed task =>
    simp only [act]
    split
    · rename_i holder request hholder
      split_ifs
      · exact htry s.queue task h.pending.queue (h.pending.holder _ hholder)
      · exact ⟨hnow, h.pending.holder, h.pending.queue⟩
    · rename_i next request rest _ hqueue
      have hall : ∀ waiting ∈ (next, request) :: rest, ok waiting.2 := hqueue ▸ h.pending.queue
      split_ifs
      · exact htry rest task (fun waiting hmem => hall waiting (List.mem_cons_of_mem _ hmem))
          (hall _ List.mem_cons_self)
      · exact ⟨hnow, h.pending.holder, h.pending.queue⟩
    · exact ⟨hnow, h.pending.holder, h.pending.queue⟩
  | cancelled task =>
    have hpending := @Pending.cancelled R Q E G T limiter ok s h.pending task now
    exact ⟨hnow, hpending.holder, hpending.queue⟩
  | aside event => exact ⟨hkeeps.aside hnow, h.pending.holder, h.pending.queue⟩

end Turnstile

/-- The rule for limiters: what they keep holds in every state of every interleaving. -/
theorem Limiter.Keeps.always {limiter : Limiter R Q E G T} {I : R → T → List G → Prop} {ok : Q → Prop}
    (hkeeps : limiter.Keeps I ok) {resource : R} {clock : T} (hI : I resource clock [])
    {events : List (T × Turnstile.Event Q E)} (hevents : ∀ e ∈ events, e.2.Asks ok) :
    Trace.Always (Turnstile.step limiter) (fun s => I s.resource s.clock s.grants) { resource, clock }
      events := by
  have hstart : Turnstile.Inv I ok { resource, clock } :=
    ⟨hI, fun _ hmem => (nomatch hmem), fun _ hmem => (nomatch hmem)⟩
  have heach : Trace.Each (Turnstile.step limiter) (fun _ e => e.2.Asks ok) { resource, clock } events :=
    Trace.each_of_forall fun e hmem _ => hevents e hmem
  have hstep : ∀ (s : Turnstile R Q G T) e, Turnstile.Inv I ok s → e.2.Asks ok →
      Turnstile.Inv I ok (s.step limiter e) := fun s e hinv hasks => hinv.step hkeeps e hasks
  have hholds : ∀ s : Turnstile R Q G T, Turnstile.Inv I ok s → I s.resource s.clock s.grants :=
    fun s hinv => hinv.holds
  exact Trace.always_of_inductive hstep hholds hstart heach

end Lib
