import ScriptEngine.Proofs.GuardCounts
import Mathlib.Data.List.Infix
/-! One guard under any requests of any contexts. Its depth is what its holder took and did not give
back, its queue is in order, and a context that waits behind another does not get the guard before
the other had it or gave up. -/

namespace ScriptEngine.Guard

/-- What a context asks of a guard. -/
inductive Request where
  | tryAcquire (context : ContextId) (limit : Nat)
  | release (context : ContextId)
  | withdraw (context : ContextId)
deriving DecidableEq, Repr

def serve (guard : Guard) : Request → Guard
  | .tryAcquire context limit => (guard.tryAcquire context limit).2
  | .release context => (guard.release context).2
  | .withdraw context => guard.withdraw context

def takes (guard : Guard) (context : ContextId) : Request → Bool
  | .tryAcquire other limit => other = context && (guard.tryAcquire other limit).1
  | _ => false

def gives (guard : Guard) (context : ContextId) : Request → Bool
  | .release other => other = context && (guard.release other).1
  | _ => false

def serveAll (guard : Guard) (requests : List Request) : Guard := requests.foldl serve guard

def timesTaken (context : ContextId) (guard : Guard) : List Request → Nat
  | [] => 0
  | request :: rest =>
      (guard.takes context request).toNat + timesTaken context (guard.serve request) rest

def timesGiven (context : ContextId) (guard : Guard) : List Request → Nat
  | [] => 0
  | request :: rest =>
      (guard.gives context request).toNat + timesGiven context (guard.serve request) rest

variable {guard : Guard} {context first second : ContextId} {request : Request}

theorem serveAll_append (guard : Guard) (requests more : List Request) :
    guard.serveAll (requests ++ more) = (guard.serveAll requests).serveAll more :=
  List.foldl_append

/-! ### Acquisitions -/

theorem tryAcquire_counts (guard : Guard) (context : ContextId) (limit : Nat) :
    (guard.tryAcquire context limit).2.depthOf context =
      guard.depthOf context + (guard.tryAcquire context limit).1.toNat := by
  cases asked : guard.tryAcquire context limit with
  | mk taken after =>
      cases taken with
      | true => exact tryAcquire_taken asked
      | false =>
          obtain ⟨holder, depth⟩ := tryAcquire_refused asked
          simp [depthOf, holder, depth]

theorem release_counts (guard : Guard) (context : ContextId) :
    (guard.release context).2.depthOf context + (guard.release context).1.toNat =
      guard.depthOf context := by
  unfold release
  split
  · rfl
  · rename_i held
    simp only [Bool.or_eq_true, decide_eq_true_eq, not_or, Decidable.not_not] at held
    obtain ⟨holds, deep⟩ := held
    split
    · rename_i last
      rw [handOver_depthOf]
      simp [depthOf, holds, last]
    · simp only [depthOf, holds, if_true, Bool.toNat_true]
      omega

theorem withdraw_counts (guard : Guard) (context : ContextId) :
    (guard.withdraw context).depthOf context = guard.depthOf context := by
  unfold withdraw
  dsimp only
  split
  · rename_i handed
    simp only [Bool.and_eq_true, decide_eq_true_eq] at handed
    rw [handOver_depthOf]
    simp [depthOf, handed.1, handed.2]
  · rfl

theorem serve_counts (guard : Guard) (context : ContextId) (request : Request) :
    (guard.serve request).depthOf context + (guard.gives context request).toNat =
      guard.depthOf context + (guard.takes context request).toNat := by
  cases request with
  | tryAcquire other limit =>
      by_cases own : other = context
      · subst own
        simpa [serve, takes, gives] using tryAcquire_counts guard other limit
      · simp [serve, takes, gives, own, tryAcquire_depthOf_other (Ne.symm own)]
  | release other =>
      by_cases own : other = context
      · subst own
        simpa [serve, takes, gives] using release_counts guard other
      · simp [serve, takes, gives, own, release_depthOf_other (Ne.symm own)]
  | withdraw other =>
      by_cases own : other = context
      · subst own
        simpa [serve, takes, gives] using withdraw_counts guard other
      · simp [serve, takes, gives, withdraw_depthOf_other (Ne.symm own)]

theorem serveAll_counts (context : ContextId) (requests : List Request) : ∀ guard : Guard,
    (guard.serveAll requests).depthOf context + timesGiven context guard requests =
      guard.depthOf context + timesTaken context guard requests := by
  induction requests with
  | nil => exact fun _ => rfl
  | cons request rest ih =>
      intro guard
      have now := serve_counts guard context request
      have later := ih (guard.serve request)
      change ((guard.serve request).serveAll rest).depthOf context + _ = _
      simp only [timesGiven, timesTaken]
      omega

/-! ### The queue -/

structure Settled (guard : Guard) : Prop extends guard.Ordered where
  free : guard.holder = none → guard.depth = 0 ∧ guard.waiters = []

theorem settled_new : Settled {} where
  once := List.nodup_nil
  apart := nofun
  free := fun _ => ⟨rfl, rfl⟩

theorem handOver_free (free : guard.handOver.holder = none) :
    guard.handOver.depth = 0 ∧ guard.handOver.waiters = [] := by
  unfold handOver at free ⊢
  rw [List.head?_eq_none_iff] at free
  simp [free]

theorem tryAcquire_held (guard : Guard) (context : ContextId) (limit : Nat) :
    (guard.tryAcquire context limit).2.holder ≠ none := by
  unfold tryAcquire
  cases held : guard.holder with
  | none => simp
  | some holder =>
      dsimp only
      split
      · simp
      · split <;> simp [held]

theorem Settled.serve (settled : guard.Settled) (request : Request) :
    (guard.serve request).Settled := by
  cases request with
  | tryAcquire context limit =>
      exact ⟨settled.tryAcquire context limit,
        fun free => absurd free (tryAcquire_held guard context limit)⟩
  | release context =>
      refine ⟨settled.release context, ?_⟩
      simp only [Guard.serve, Guard.release]
      split
      · exact settled.free
      · rename_i held
        simp only [Bool.or_eq_true, decide_eq_true_eq, not_or, Decidable.not_not] at held
        split
        · exact handOver_free
        · intro free
          rw [held.1] at free
          cases free
  | withdraw context =>
      refine ⟨settled.withdraw context, ?_⟩
      simp only [Guard.serve, Guard.withdraw]
      split
      · exact handOver_free
      · intro free
        obtain ⟨depth, empty⟩ := settled.free free
        exact ⟨depth, by simp [empty]⟩

theorem Settled.serveAll (settled : guard.Settled) (requests : List Request) :
    (guard.serveAll requests).Settled := by
  induction requests generalizing guard with
  | nil => exact settled
  | cons request rest ih => exact ih (settled.serve request)

/-! ### No overtaking -/

/-- `first` waits, and `second` neither has the guard nor stands before `first`. -/
structure Before (guard : Guard) (first second : ContextId) : Prop where
  place : ∃ ahead behind, guard.waiters = ahead ++ first :: behind ∧ second ∉ ahead
  apart : guard.holder ≠ some second

theorem Ordered.before (ordered : guard.Ordered) (waiting : [first, second].Sublist guard.waiters) :
    guard.Before first second := by
  have behind := waiting.subset (List.mem_cons_of_mem _ (List.mem_singleton_self second))
  refine ⟨?_, ordered.apart second behind⟩
  obtain ⟨ahead, rest, split, left, right⟩ := List.cons_sublist_iff.mp waiting
  obtain ⟨before, between, rfl⟩ := List.append_of_mem left
  refine ⟨before, between ++ rest, by simp [split], fun among => ?_⟩
  have once := ordered.once
  rw [split, List.nodup_append] at once
  exact once.2.2 second (by simp [among]) second (List.singleton_sublist.mp right) rfl

theorem Before.handOver (before : guard.Before first second)
    (notYet : guard.handOver.holder ≠ some first) : guard.handOver.Before first second := by
  obtain ⟨⟨ahead, behind, waiters, out⟩, _⟩ := before
  unfold Guard.handOver at notYet ⊢
  rw [waiters] at notYet ⊢
  cases ahead with
  | nil => exact absurd rfl notYet
  | cons next others =>
      rw [List.mem_cons, not_or] at out
      exact ⟨⟨others, behind, rfl, out.2⟩, fun given => out.1 (Option.some.inj given).symm⟩

theorem Before.without (before : guard.Before first second) {context : ContextId}
    (different : context ≠ first) :
    Before { guard with waiters := guard.waiters.filter (· ≠ context) } first second := by
  obtain ⟨⟨ahead, behind, waiters, out⟩, apart⟩ := before
  refine ⟨⟨ahead.filter (· ≠ context), behind.filter (· ≠ context), ?_, ?_⟩, apart⟩
  · simp [waiters, List.filter_append, Ne.symm different]
  · exact fun among => out (List.mem_filter.mp among).1

theorem Before.held (before : guard.Before first second) (settled : guard.Settled) :
    ∃ holder, guard.holder = some holder ∧ holder ≠ second := by
  cases held : guard.holder with
  | none =>
      obtain ⟨ahead, behind, waiters, _⟩ := before.place
      rw [(settled.free held).2] at waiters
      simp at waiters
  | some holder => exact ⟨holder, rfl, fun same => before.apart (same ▸ held)⟩

theorem Before.serve (before : guard.Before first second) (settled : guard.Settled)
    (stays : request ≠ .withdraw first) (notYet : (guard.serve request).holder ≠ some first) :
    (guard.serve request).Before first second := by
  obtain ⟨holder, held, other⟩ := before.held settled
  have order := before
  obtain ⟨⟨ahead, behind, waiters, out⟩, apart⟩ := before
  cases request with
  | tryAcquire context limit =>
      rw [held] at apart
      simp only [Guard.serve, Guard.tryAcquire, held]
      split
      · exact ⟨⟨ahead, behind, waiters, out⟩, apart⟩
      · split
        · exact ⟨⟨ahead, behind ++ [context], by simp [waiters], out⟩, apart⟩
        · exact order
  | release context =>
      simp only [Guard.serve, Guard.release] at notYet ⊢
      split
      · exact order
      · rename_i mine
        rw [if_neg mine] at notYet
        split
        · rename_i last
          rw [if_pos last] at notYet
          exact order.handOver notYet
        · exact ⟨⟨ahead, behind, waiters, out⟩, apart⟩
  | withdraw context =>
      have left := order.without fun same : context = first => stays (by rw [same])
      simp only [Guard.serve, Guard.withdraw] at notYet ⊢
      split
      · rename_i handed
        rw [if_pos handed] at notYet
        exact left.handOver notYet
      · exact left

theorem Before.serveAll (before : guard.Before first second) (settled : guard.Settled)
    {later : List Request} (stays : .withdraw first ∉ later)
    (notYet : ∀ seen, seen <+: later → (guard.serveAll seen).holder ≠ some first) :
    (guard.serveAll later).Before first second := by
  induction later generalizing guard with
  | nil => exact before
  | cons request rest ih =>
      rw [List.mem_cons, not_or] at stays
      have next : (guard.serve request).Before first second :=
        before.serve settled (Ne.symm stays.1)
          (notYet [request] (List.cons_prefix_cons.mpr ⟨rfl, List.nil_prefix⟩))
      exact ih next (settled.serve request) stays.2 fun seen within =>
        notYet (request :: seen) (List.cons_prefix_cons.mpr ⟨rfl, within⟩)

theorem Before.refused (before : guard.Before first second) (settled : guard.Settled)
    (limit : Nat) : (guard.tryAcquire second limit).1 = false := by
  obtain ⟨holder, held, other⟩ := before.held settled
  unfold Guard.tryAcquire
  simp only [held, if_neg other]
  split <;> rfl

/-- A new guard under any requests: what a context took and did not give back is the depth if it has
the guard and nothing if not; a free guard has no depth and no queue, and each context waits once at
most and not while it has the guard; and of two contexts in the queue the second is refused until
the first was given the guard or has withdrawn. -/
theorem reentrant_and_fair (requests : List Request) :
    let guard := serveAll {} requests
    (∀ context, timesTaken context {} requests = timesGiven context {} requests +
      if guard.holder = some context then guard.depth else 0) ∧
    (guard.holder = none → guard.depth = 0 ∧ guard.waiters = []) ∧
    guard.waiters.Nodup ∧ (∀ context ∈ guard.waiters, guard.holder ≠ some context) ∧
    ∀ first second, [first, second].Sublist guard.waiters → ∀ later : List Request,
      .withdraw first ∉ later →
      (∀ seen, seen <+: later → (serveAll {} (requests ++ seen)).holder ≠ some first) →
      ∀ limit, ((serveAll {} (requests ++ later)).tryAcquire second limit).1 = false := by
  intro guard
  have settled : guard.Settled := settled_new.serveAll requests
  refine ⟨fun context => ?_, settled.free, settled.once, settled.apart, ?_⟩
  · have counted := serveAll_counts context requests {}
    have nothing : depthOf {} context = 0 := rfl
    change guard.depthOf context + _ = _ at counted
    unfold depthOf at counted nothing
    omega
  · intro first second waiting later stays notYet limit
    have kept : (guard.serveAll later).Before first second := by
      refine (settled.before waiting).serveAll settled stays fun seen within => ?_
      have other := notYet seen within
      rwa [serveAll_append] at other
    rw [serveAll_append]
    exact kept.refused (settled.serveAll later) limit

theorem reentrant_and_fair_of_queue :
    let requests : List Request := [.tryAcquire ⟨1⟩ 5, .tryAcquire ⟨1⟩ 5, .tryAcquire ⟨2⟩ 5,
      .tryAcquire ⟨3⟩ 5]
    let later : List Request := [.withdraw ⟨3⟩, .release ⟨1⟩, .tryAcquire ⟨3⟩ 5]
    [⟨2⟩, ⟨3⟩].Sublist (serveAll {} requests).waiters ∧
      ((serveAll {} (requests ++ later)).tryAcquire ⟨3⟩ 5).1 = false ∧
      (serveAll {} (requests ++ later ++ [.release ⟨1⟩])).holder = some ⟨2⟩ := by
  intro requests later
  have waiting : [⟨2⟩, ⟨3⟩].Sublist (serveAll {} requests).waiters := by decide
  refine ⟨waiting, ?_, by decide⟩
  have notYet : ∀ seen ∈ later.inits,
      (serveAll {} (requests ++ seen)).holder ≠ some ⟨2⟩ := by decide
  exact (reentrant_and_fair requests).2.2.2.2 ⟨2⟩ ⟨3⟩ waiting later (by decide)
    (fun seen within => notYet seen ((List.mem_inits seen later).mpr within)) 5

end ScriptEngine.Guard
