import ConsumerGroup.Engine.State
import ConsumerGroup.Proofs.TokenBalance

/-!
# What a claim loop can do

A claim loop looks at its own state and at the messages that are waiting for it, and nothing else:

* `ClaimLoop.Step` — what it does in one go, with the message that is handled from then on, if one
  is, and what is noted in the journal.
* `ClaimLoop.Completes` — what it comes to for a claim loop when one of its handlings completes.
* `ClaimLoop.PoolFits` — its pool is balanced, and the requests in it are those of its phase.  Both
  kinds of steps keep that.
-/

namespace ConsumerGroup

namespace ClaimLoop

/-! ## Steps -/

/-- The loop takes messages. -/
structure IsTaking (l : ClaimLoop) : Prop where
  /-- it is between two messages -/
  receiving : l.phase = .receiving
  /-- its session goes on -/
  notCancelled : l.cancelled = false
  /-- its member goes on -/
  notAborted : l.aborted = false

/-- The loop takes no more messages, and goes on with that pool. -/
inductive Closes (l : ClaimLoop) (queue : List Message) : TokenPool PoolUser → Prop where
  /-- it was between two messages -/
  | receiving : l.phase = .receiving → l.cancelled = true ∨ queue = [] → l.Closes queue l.pool
  /-- it waited for a token, and gives the message up -/
  | parked {env : Envelope} : l.phase = .parked env → l.cancelled = true →
      l.Closes queue (l.pool.cancel .loop)

/-- The loop ends in this way, and leaves that pool. -/
inductive Ends (now : Nat) (l : ClaimLoop) (queue : List Message) :
    LoopEnd → TokenPool PoolUser → Prop where
  /-- no handling holds a token when it stops taking messages -/
  | atOnce {pool pool' : TokenPool PoolUser} : l.aborted = false → l.Closes queue pool →
      pool.request .loop pool.drainSize = (.served, pool') → l.Ends now queue .drained pool'.finishDrain
  /-- the last token has come back -/
  | drained {deadline : Nat} {pool : TokenPool PoolUser} : l.aborted = false →
      l.phase = .draining deadline → l.pool.resume .loop = (.served, pool) →
      l.Ends now queue .drained pool.finishDrain
  /-- the time is over -/
  | timedOut {deadline : Nat} {pool : TokenPool PoolUser} : l.aborted = false →
      l.phase = .draining deadline → deadline ≤ now → l.pool.resume .loop = (.waiting, pool) →
      l.Ends now queue .timedOut (pool.cancel .loop).close
  /-- its member has gone -/
  | dropped : l.aborted = true → l.isEnded = false → l.Ends now queue .dropped (l.pool.cancel .loop)

/-- What a claim loop with number `i` does in one go: from the messages that are waiting for it to its
state, the messages that wait then, the message that handling number `next` is started for, and
what is noted, the latest first. -/
inductive Step (i now next : Nat) (l : ClaimLoop) :
    List Message → ClaimLoop → List Message → Option Envelope → List Event → Prop where
  /-- it passes over a message, and marks an offset if one is due -/
  | pass {m : Message} {rest : List Message} {fresh : TraceId} {due : Option Offset}
      {tracker : Tracker Envelope} : l.IsTaking →
      (Envelope.ofMessage fresh l.source m).isAddressedTo l.group = false →
      l.tracker.skip m.offset = (due, tracker) →
      l.Step i now next (m :: rest) { l with tracker } rest none
        ((due.map (.marked i)).toList ++ [.skipped i m.offset, .taken i m.offset])
  /-- it passes over a message, and the mark that is due panics -/
  | crash {m : Message} {rest : List Message} {fresh : TraceId} {due : Offset}
      {tracker : Tracker Envelope} : l.IsTaking →
      (Envelope.ofMessage fresh l.source m).isAddressedTo l.group = false →
      l.tracker.skip m.offset = (some due, tracker) →
      l.Step i now next (m :: rest) { l with tracker, phase := .ended .crashed } [] none
        [.ended i .crashed, .skipped i m.offset, .taken i m.offset]
  /-- it takes a message for which there is a token -/
  | enter {m : Message} {rest : List Message} {fresh : TraceId} {pool : TokenPool PoolUser} :
      l.IsTaking → (Envelope.ofMessage fresh l.source m).isAddressedTo l.group = true →
      l.pool.tryAcquire? (.handling next) = some pool →
      l.Step i now next (m :: rest)
        { l with
          pool
          tracker := l.tracker.enter m.offset (Envelope.ofMessage fresh l.source m)
          phase := .receiving }
        rest (some (Envelope.ofMessage fresh l.source m))
        [.entered i m.offset next, .taken i m.offset]
  /-- it takes a message for which there is none -/
  | park {m : Message} {rest : List Message} {fresh : TraceId} {pool : TokenPool PoolUser} :
      l.IsTaking → (Envelope.ofMessage fresh l.source m).isAddressedTo l.group = true →
      l.pool.tryAcquire? (.handling next) = none → l.pool.request .loop 1 = (.waiting, pool) →
      l.Step i now next (m :: rest)
        { l with pool, phase := .parked (Envelope.ofMessage fresh l.source m) } rest none
        [.parked i m.offset, .taken i m.offset]
  /-- the token that a message waits for has come -/
  | unpark {env : Envelope} {queue : List Message} {pool : TokenPool PoolUser} :
      l.phase = .parked env → l.cancelled = false → l.aborted = false →
      l.pool.resume .loop = (.served, pool) →
      l.Step i now next queue
        { l with
          pool := pool.hold (.handling next)
          tracker := l.tracker.enter env.offset env
          phase := .receiving }
        queue (some env) [.entered i env.offset next]
  /-- it begins to wait for its handlings -/
  | drain {queue : List Message} {pool pool' : TokenPool PoolUser} : l.aborted = false →
      l.Closes queue pool → pool.request .loop pool.drainSize = (.waiting, pool') →
      l.Step i now next queue { l with pool := pool', phase := .draining (now + l.drainMillis) }
        queue none []
  /-- it ends -/
  | finish {queue : List Message} {how : LoopEnd} {pool : TokenPool PoolUser} :
      l.Ends now queue how pool →
      l.Step i now next queue { l with pool, phase := .ended how } [] none [.ended i how]

/-- What it comes to for a claim loop when handling number `h` completes the message at an offset, and
the offset that is marked then. -/
inductive Completes (l : ClaimLoop) (h : Nat) (o : Offset) : ClaimLoop → Option Offset → Prop where
  /-- another message with that offset was completed before -/
  | stray : l.tracker.complete o = none →
      l.Completes h o { l with pool := l.pool.release (.handling h) } none
  /-- the message leaves the tracker; a mark that is due may panic -/
  | done {c : Completion} {tracker : Tracker Envelope} {mark : Option Offset} :
      l.tracker.complete o = some (c, tracker) → mark = c.commit? ∨ mark = none →
      l.Completes h o { l with pool := l.pool.release (.handling h), tracker } mark

/-! ## Tokens -/

/-- The requests for tokens that belong to a phase. -/
def PoolAsks (p : TokenPool PoolUser) : LoopPhase → Prop
  | .receiving => p.IsQuiet ∧ p.closed = false
  | .parked _ => p.Asks .loop 1 ∧ p.closed = false
  | .draining _ => p.Asks .loop p.drainSize ∧ p.closed = false
  | .ended _ => p.IsQuiet

/-- The pool of a claim loop fits its phase. -/
structure PoolFits (l : ClaimLoop) : Prop where
  /-- no token is lost -/
  balanced : l.pool.Balanced 0
  /-- the loop asks for what its phase calls for -/
  asks : PoolAsks l.pool l.phase

/-- A loop that stops taking messages has a quiet pool. -/
theorem Closes.quiet {l : ClaimLoop} {queue : List Message} {pool : TokenPool PoolUser}
    (h : l.Closes queue pool) (hfit : l.PoolFits) :
    pool.IsQuiet ∧ pool.closed = false ∧ pool.Balanced 0 ∧ pool.held = l.pool.held ∧
      pool.capacity = l.pool.capacity := by
  cases h with
  | receiving hp _ =>
    have hasks := hfit.asks
    rw [hp] at hasks
    exact ⟨hasks.1, hasks.2, hfit.balanced, rfl, rfl⟩
  | parked hp _ =>
    have hasks := hfit.asks
    rw [hp] at hasks
    obtain ⟨hq, hb⟩ := hasks.1.cancel hfit.balanced
    refine ⟨hq, ?_, hb, TokenPool.held_cancel _ _, TokenPool.capacity_cancel _ _⟩
    rw [TokenPool.closed_cancel]
    exact hasks.2

/-- A loop leaves no request behind, and the tokens where they were. -/
theorem Ends.quiet {now : Nat} {l : ClaimLoop} {queue : List Message} {how : LoopEnd}
    {pool : TokenPool PoolUser} (h : l.Ends now queue how pool) (hfit : l.PoolFits) :
    pool.IsQuiet ∧ pool.Balanced 0 ∧ pool.held = l.pool.held ∧ pool.capacity = l.pool.capacity := by
  have hasks := hfit.asks
  cases h with
  | @atOnce p p' _ hc hr =>
    obtain ⟨hq, hopen, hb, hheld, hcap⟩ := hc.quiet hfit
    have hheld' : p'.held = p.held := by rw [← TokenPool.held_request p .loop p.drainSize, hr]
    have hcap' : p'.capacity = p.capacity := by
      rw [← TokenPool.capacity_request p .loop p.drainSize, hr]
    rcases hq.request hopen hb hr with ⟨-, ⟨-, -, hq', hb'⟩ | ⟨ha, -⟩⟩
    · have hsize : p'.drainSize = p.drainSize := by rw [TokenPool.drainSize, hcap', TokenPool.drainSize]
      rw [← hsize] at hb'
      exact ⟨hq'.finishDrain, hb'.finishDrain, hheld'.trans hheld, hcap'.trans hcap⟩
    · cases ha
  | @drained _ p _ hp hr =>
    rw [hp] at hasks
    rcases hasks.1.resume hasks.2 hfit.balanced hr with ⟨-, -, hheld, hcap, hq, hb⟩ | ⟨ha, -⟩
    · have hsize : p.drainSize = l.pool.drainSize := by
        rw [TokenPool.drainSize, hcap, TokenPool.drainSize]
      rw [← hsize] at hb
      exact ⟨hq.finishDrain, hb.finishDrain, hheld, hcap⟩
    · cases ha
  | timedOut _ hp _ hr =>
    rw [hp] at hasks
    rcases hasks.1.resume hasks.2 hfit.balanced hr with ⟨ha, -⟩ | ⟨-, rfl⟩
    · cases ha
    · obtain ⟨hq, hb⟩ := hasks.1.cancel hfit.balanced
      exact ⟨⟨hq.waiting, hq.served⟩, hb.close, TokenPool.held_cancel _ _,
        TokenPool.capacity_cancel _ _⟩
  | dropped _ hend =>
    refine ⟨?_, ?_, TokenPool.held_cancel _ _, TokenPool.capacity_cancel _ _⟩
    · rcases hp : l.phase with _ | env | deadline | how <;> rw [hp] at hasks
      · rw [hasks.1.cancel]
        exact hasks.1
      · exact (hasks.1.cancel hfit.balanced).1
      · exact (hasks.1.cancel hfit.balanced).1
      · rw [isEnded, hp] at hend
        cases hend
    · rcases hp : l.phase with _ | env | deadline | how <;> rw [hp] at hasks
      · rw [hasks.1.cancel]
        exact hfit.balanced
      · exact (hasks.1.cancel hfit.balanced).2
      · exact (hasks.1.cancel hfit.balanced).2
      · rw [isEnded, hp] at hend
        cases hend

theorem IsTaking.asks {l : ClaimLoop} (h : l.IsTaking) (hfit : l.PoolFits) :
    l.pool.IsQuiet ∧ l.pool.closed = false := by
  have hasks := hfit.asks
  rw [h.receiving] at hasks
  exact hasks

/-- Whatever a claim loop does, its pool fits. -/
theorem PoolFits.step {i now next : Nat} {l l' : ClaimLoop} {queue queue' : List Message}
    {env? : Option Envelope} {events : List Event} (hfit : l.PoolFits)
    (h : l.Step i now next queue l' queue' env? events) : l'.PoolFits := by
  cases h with
  | pass => exact ⟨hfit.balanced, hfit.asks⟩
  | crash ht => exact ⟨hfit.balanced, (ht.asks hfit).1⟩
  | enter ht _ hacq =>
    obtain ⟨hq, -⟩ := ht.asks hfit
    obtain ⟨hopen, -, hpool⟩ := TokenPool.tryAcquire?_eq_some hacq
    refine ⟨hfit.balanced.tryAcquire? hacq, ?_⟩
    rw [hpool]
    exact ⟨⟨hq.waiting, hq.served⟩, hopen⟩
  | park ht _ _ hr =>
    obtain ⟨hq, hopen⟩ := ht.asks hfit
    rcases hq.request hopen hfit.balanced hr with ⟨hopen', ⟨ha, -⟩ | ⟨-, -, hasks, hb⟩⟩
    · cases ha
    · exact ⟨hb, hasks, hopen'⟩
  | unpark hp _ _ hr =>
    have hasks := hfit.asks
    rw [hp] at hasks
    rcases hasks.1.resume hasks.2 hfit.balanced hr with ⟨-, hopen, -, -, hq, hb⟩ | ⟨ha, -⟩
    · exact ⟨TokenPool.Balanced.hold (by rwa [Nat.add_comm] at hb) _, ⟨hq.waiting, hq.served⟩, hopen⟩
    · cases ha
  | @drain _ p p' _ hc hr =>
    obtain ⟨hq, hopen, hb, -, hcap⟩ := hc.quiet hfit
    have hcap' : p'.capacity = p.capacity := by
      rw [← TokenPool.capacity_request p .loop p.drainSize, hr]
    rcases hq.request hopen hb hr with ⟨hopen', ⟨ha, -⟩ | ⟨-, -, hasks, hb'⟩⟩
    · cases ha
    · have hsize : p'.drainSize = p.drainSize := by rw [TokenPool.drainSize, hcap', TokenPool.drainSize]
      rw [← hsize] at hasks
      exact ⟨hb', hasks, hopen'⟩
  | finish hend =>
    obtain ⟨hq, hb, -⟩ := hend.quiet hfit
    exact ⟨hb, hq⟩

theorem PoolFits.completes {l l' : ClaimLoop} {h : Nat} {o : Offset} {mark : Option Offset}
    (hfit : l.PoolFits) (hc : l.Completes h o l' mark) : l'.PoolFits := by
  have hb := hfit.balanced.release (.handling h)
  have hasks : PoolAsks (l.pool.release (.handling h)) l.phase := by
    have hasks := hfit.asks
    rcases hp : l.phase with _ | env | deadline | how <;> rw [hp] at hasks
    · exact ⟨hasks.1.release _, (TokenPool.closed_release _ _).trans hasks.2⟩
    · exact ⟨hasks.1.release _, (TokenPool.closed_release _ _).trans hasks.2⟩
    · refine ⟨?_, (TokenPool.closed_release _ _).trans hasks.2⟩
      rw [TokenPool.drainSize_release]
      exact hasks.1.release _
    · exact hasks.release _
  cases hc with
  | stray => exact ⟨hb, hasks⟩
  | done => exact ⟨hb, hasks⟩

/-- No step changes how many tokens there are. -/
theorem Step.capacity_eq {i now next : Nat} {l l' : ClaimLoop} {queue queue' : List Message}
    {env? : Option Envelope} {events : List Event} (hfit : l.PoolFits)
    (h : l.Step i now next queue l' queue' env? events) : l'.pool.capacity = l.pool.capacity := by
  cases h with
  | pass => rfl
  | crash => rfl
  | enter _ _ hacq =>
    obtain ⟨-, -, hpool⟩ := TokenPool.tryAcquire?_eq_some hacq
    rw [hpool]
  | park _ _ _ hr => rw [← TokenPool.capacity_request l.pool .loop 1, hr]
  | unpark hp _ _ hr =>
    have hasks := hfit.asks
    rw [hp] at hasks
    rcases hasks.1.resume hasks.2 hfit.balanced hr with ⟨-, -, -, hcap, -⟩ | ⟨ha, -⟩
    · exact hcap
    · cases ha
  | @drain _ p p' _ hc hr =>
    obtain ⟨-, -, -, -, hcap⟩ := hc.quiet hfit
    rw [← hcap, ← TokenPool.capacity_request p .loop p.drainSize, hr]
  | finish hend =>
    obtain ⟨-, -, -, hcap⟩ := hend.quiet hfit
    exact hcap

/-- A new handling gets a token; no other token changes hands. -/
theorem Step.held_eq {i now next : Nat} {l l' : ClaimLoop} {queue queue' : List Message}
    {env? : Option Envelope} {events : List Event} (hfit : l.PoolFits)
    (h : l.Step i now next queue l' queue' env? events) :
    l'.pool.held = l.pool.held ++ (env?.map fun _ => PoolUser.handling next).toList := by
  cases h with
  | pass => simp
  | crash => simp
  | enter _ _ hacq =>
    obtain ⟨-, -, hpool⟩ := TokenPool.tryAcquire?_eq_some hacq
    simp [hpool]
  | park _ _ _ hr =>
    rw [← TokenPool.held_request l.pool .loop 1, hr]
    simp
  | unpark hp _ _ hr =>
    have hasks := hfit.asks
    rw [hp] at hasks
    rcases hasks.1.resume hasks.2 hfit.balanced hr with ⟨-, -, hheld, -⟩ | ⟨ha, -⟩
    · simp [TokenPool.hold, hheld]
    · cases ha
  | @drain _ p p' _ hc hr =>
    obtain ⟨-, -, -, hheld, -⟩ := hc.quiet hfit
    rw [← hheld, ← TokenPool.held_request p .loop p.drainSize, hr]
    simp
  | finish hend =>
    obtain ⟨-, -, hheld, -⟩ := hend.quiet hfit
    simp [hheld]

end ClaimLoop

end ConsumerGroup
