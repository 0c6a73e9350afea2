import ConsumerGroup.Engine.State

/-!
# What a handling does

A handling calls the handler.  If the handler fails or panics, the message is redelivered, with up to
three calls of the producer.  Whatever comes of that, a panic of the producer included, the message is
completed, and only then is the token given back.
-/

namespace ConsumerGroup.Engine

/-- The message is completed and the token given back.  When the mark panics the message has left the
tracker already. -/
def complete (e : Engine) (h : Nat) (t : Handling) : Engine :=
  let e := (e.setHandling h { t with phase := .done }).note (.completed h)
  match e.loops[t.loop]? with
  | none => e
  | some l =>
    let l := { l with pool := l.pool.release (.handling h) }
    match l.tracker.complete t.envelope.offset with
    -- An earlier message with the same offset has completed it.
    | none => e.setLoop t.loop l
    | some (c, tracker) =>
      let l := { l with tracker }
      let e := { e with metrics := e.metrics.setInFlight l.source tracker.count }.setLoop t.loop l
      match c.commit? with
      | none => e
      | some o => (e.mark t.loop l o).2

/-- The producer is handed a record. -/
def askProducer (e : Engine) (record : Record) : Reply × Engine :=
  let replies := e.replies.tail
  match e.replies.headD .accepted with
  | .accepted =>
    -- Whether the record is really taken is for the broker to say.
    match e.broker.publish e.now record with
    | (.ok (), broker) => (.accepted, { e with replies, broker })
    | (.error error, broker) => (.refused error, { e with replies, broker })
  | reply => (reply, { e with replies })

/-- Calls the producer once more after `calls` calls. -/
def callProducer (w : World) (e : Engine) (h : Nat) (t : Handling) (calls delay : Nat)
    (record : Record) : Engine :=
  let (reply, e) := e.askProducer record
  let verdict := Verdict.of record.topic delay (calls + 1) reply
  let e := { e with metrics := verdict.count e.metrics t.envelope.topic }.note (.called h reply)
  match verdict with
  | .again =>
    -- The token is kept meanwhile, and the message stays in flight.
    let wakeAt := e.now + w.rest h (calls + 1)
    e.setHandling h { t with phase := .resting (calls + 1) delay record wakeAt }
  | _ => e.complete h t

/-- Redelivers the message. -/
def redeliver (w : World) (e : Engine) (h : Nat) (t : Handling) : Engine :=
  match e.loops[t.loop]? with
  | none => e.complete h t
  | some l =>
    match l.redeliverer.plan t.envelope with
    | .exhausted =>
      let metrics := (Verdict.ended .exhausted).count e.metrics t.envelope.topic
      complete { e with metrics } h t
    | .publish delay record => e.callProducer w h t 0 delay record

/-- The handler has returned. -/
def handlerReturned (w : World) (e : Engine) (h : Nat) (t : Handling) (outcome : Handler.Outcome) :
    Engine :=
  let seconds := Float.ofNat (e.now - t.startedAt) / 1000
  let e := { e with
    metrics := e.metrics.recordHandled t.envelope.topic (Handler.outcomeLabel outcome) seconds }
  let e := e.note (.returned h outcome)
  match outcome with
  | none => e.complete h t
  | some _ => e.redeliver w h t

/-- The handler goes on with the rest of its program, up to where it waits or returns. -/
def runProgram (w : World) (e : Engine) (h : Nat) (t : Handling) : Handler.Program → Engine
  | [] => e.handlerReturned w h t none
  | .fail failure :: _ => e.handlerReturned w h t (some failure)
  | .hold :: rest =>
    { e with holding := e.holding ++ [h] }.setHandling h { t with phase := .held rest }
  | .pause millis :: rest => e.setHandling h { t with phase := .pausing (e.now + millis) rest }

/-- A handling goes on, unless it has to wait or is done. -/
def stepHandling? (w : World) (e : Engine) (h : Nat) : Option Engine :=
  match e.handlings[h]? with
  | none => none
  | some t =>
    match t.phase with
    | .fresh =>
      some ((e.note (.started h)).runProgram w h { t with startedAt := e.now }
        (w.handler h t.envelope))
    | .held _ => none
    | .pausing wakeAt rest => if wakeAt ≤ e.now then some (e.runProgram w h t rest) else none
    | .resting calls delay record wakeAt =>
      if wakeAt ≤ e.now then some (e.callProducer w h t calls delay record) else none
    | .done => none

end ConsumerGroup.Engine
