import ConsumerGroup.Engine.State

/-!
# What a claim loop does

A claim loop takes one message in one go.  A message for another group is passed over; any other gets
a token and a handling, or the loop parks with it until there is a token.  A parked message that is
given up is not handled, and nothing is marked for it, so the next session brings it again.

A loop that is cancelled, or whose channel has ended, takes no more.  It asks for all its tokens, that
is, it waits for its handlings, and ends when it has them or when its time is over.
-/

namespace ConsumerGroup.Engine

/-- A claim loop ends; its channel has no reader from now on. -/
def endLoop (e : Engine) (i : Nat) (l : ClaimLoop) (how : LoopEnd) : Engine :=
  ({ e with broker := e.broker.modifyChannel l.channel Channel.closeReader }
    |>.setLoop i { l with phase := .ended how }).note (.ended i how)

/-- A claim loop takes no more messages, and waits for its handlings. -/
def closeLoop (e : Engine) (i : Nat) (l : ClaimLoop) : Engine :=
  match l.pool.request .loop l.pool.drainSize with
  -- No handling holds a token.
  | (.served, pool) => e.endLoop i { l with pool := pool.finishDrain } .drained
  | (.waiting, pool) =>
    e.setLoop i { l with pool, phase := .draining (e.now + l.drainMillis) }
  | (.closed, pool) => e.endLoop i { l with pool } .timedOut

/-- A claim loop is dropped with its member. -/
def dropLoop (e : Engine) (i : Nat) (l : ClaimLoop) : Engine :=
  e.endLoop i { l with pool := l.pool.cancel .loop } .dropped

/-- A message is in flight from now on, and a handling for it starts.  The pool is the one in which
the handling has its token. -/
def enter (e : Engine) (i : Nat) (l : ClaimLoop) (pool : TokenPool PoolUser) (env : Envelope) :
    Engine :=
  let tracker := l.tracker.enter env.offset env
  ({ e with
      handlings := e.handlings.push { loop := i, envelope := env }
      metrics := e.metrics.setInFlight l.source tracker.count }
    |>.setLoop i { l with pool, tracker, phase := .receiving }).note
      (.entered i env.offset e.handlings.size)

/-- A message for another group is passed over. -/
def pass (e : Engine) (i : Nat) (l : ClaimLoop) (env : Envelope) : Engine :=
  let (due, tracker) := l.tracker.skip env.offset
  let l := { l with tracker }
  let e := ({ e with metrics := e.metrics.recordSkipped l.source.topic }.setLoop i l).note
    (.skipped i env.offset)
  match due with
  | none => e
  | some o =>
    match e.mark i l o with
    | (true, e) => e
    -- The panic takes the loop with it, without a drain.
    | (false, e) => e.endLoop i l .crashed

/-- A message for the group gets a token and a handling, or waits for a token. -/
def offer (e : Engine) (i : Nat) (l : ClaimLoop) (env : Envelope) : Engine :=
  match l.pool.tryAcquire? (.handling e.handlings.size) with
  | some pool => e.enter i l pool env
  | none =>
    match l.pool.request .loop 1 with
    -- Only the loop itself closes its pool, and after that it takes no messages.
    | (.closed, pool) => e.closeLoop i { l with pool }
    | (_, pool) => (e.setLoop i { l with pool, phase := .parked env }).note (.parked i env.offset)

/-- A message has been taken from the channel. -/
def take (w : World) (e : Engine) (i : Nat) (l : ClaimLoop) (m : Message) : Engine :=
  let env := Envelope.ofMessage (w.freshTrace e.taken) l.source m
  let e := { e with taken := e.taken + 1 }.note (.taken i env.offset)
  if env.isAddressedTo l.group then e.offer i l env else e.pass i l env

/-- A claim loop goes on, unless it has to wait. -/
def goLoop? (w : World) (e : Engine) (i : Nat) (l : ClaimLoop) : Option Engine :=
  match l.phase with
  | .receiving =>
    if l.cancelled then some (e.closeLoop i l)
    else
      match e.broker.receive l.channel with
      | (.message m, broker) => some (take w { e with broker } i l m)
      | (.ended, _) => some (e.closeLoop i l)
      | (.empty, _) => none
  | .parked env =>
    -- Being cancelled wins over a token that has just come.
    if l.cancelled then some (e.closeLoop i { l with pool := l.pool.cancel .loop })
    else
      match l.pool.resume .loop with
      | (.served, pool) => some (e.enter i l (pool.hold (.handling e.handlings.size)) env)
      | (.closed, pool) => some (e.closeLoop i { l with pool })
      | (.waiting, _) => none
  | .draining deadline =>
    match l.pool.resume .loop with
    -- Having all tokens wins over the end of the time.
    | (.served, pool) => some (e.endLoop i { l with pool := pool.finishDrain } .drained)
    | (.closed, pool) => some (e.endLoop i { l with pool } .timedOut)
    | (.waiting, pool) =>
      if deadline ≤ e.now then
        some (e.endLoop i { l with pool := (pool.cancel .loop).close } .timedOut)
      else none
  | .ended _ => none

/-- A claim loop goes on or is dropped, unless it has to wait or has ended. -/
def stepLoop? (w : World) (e : Engine) (i : Nat) : Option Engine :=
  match e.loops[i]? with
  | none => none
  | some l =>
    if l.isEnded then none
    else if l.aborted then some (e.dropLoop i l)
    else e.goLoop? w i l

end ConsumerGroup.Engine
