import ConsumerGroup.Engine.State

/-!
# What a member does

A member joins its group and starts a claim loop for each claim of its session.  When the session ends
it cancels the loops, waits for all of them, and joins again after the time that the reason for the
end calls for.  A join that fails is an end like any other.
-/

namespace ConsumerGroup

/-- The claim loop of member number `m` for a claim. -/
def Member.loopFor (member : Member) (m : Nat) (claim : Claim) : ClaimLoop where
  member := m
  group := member.config.groupId
  source := claim.source
  channel := claim.channel
  drainMillis := member.config.drainMillis
  redeliverer := member.redeliverer
  pool := .ofCapacity member.config.concurrency

namespace Engine

/-- Changes all claim loops of a member. -/
def modifyLoopsOf (e : Engine) (m : Nat) (f : ClaimLoop → ClaimLoop) : Engine :=
  { e with loops := e.loops.map fun l => if l.member = m then f l else l }

/-- Whether all claim loops of a member have ended. -/
def loopsEnded (e : Engine) (m : Nat) : Bool := e.loops.all fun l => l.member ≠ m || l.isEnded

/-- Starts the claim loop for a claim. -/
def openLoop (e : Engine) (m : Nat) (member : Member) (claim : Claim) : Engine :=
  note { e with loops := e.loops.push (member.loopFor m claim) } (.claimed e.loops.size)

/-- A member is going to join again. -/
def restart (e : Engine) (m : Nat) (member : Member) (reason : RestartReason) : Engine :=
  ({ e with metrics := e.metrics.recordRestart member.config.topic reason.label }
    |>.setMember m { member with phase := .backingOff (e.now + reason.backoffSeconds * 1000) }).note
      (.restarting m reason)

/-- Why a member joins again after a session, or an attempt to join, that ended so. -/
def restartReason : Option BrokerError → RestartReason
  | none => .rebalance
  | some error => .ofError (.broker error)

/-- A member joins, unless that panics. -/
def joinGroup (e : Engine) (m : Nat) (member : Member) : Engine :=
  let e := e.note (.joining m)
  if 0 < e.joinPanics then
    -- The broker never hears of it, and nobody starts the member again.
    { e with joinPanics := e.joinPanics - 1 }.setMember m { member with phase := .stopped }
  else
    match e.broker.join member.cluster member.config.groupId [member.config.topic] with
    | (.ok s, broker) => { e with broker }.setMember m { member with phase := .consuming s }
    | (.error error, broker) => { e with broker }.restart m member (restartReason (some error))

/-- The session of a member has ended: its claim loops are cancelled. -/
def beginLeaving (e : Engine) (m : Nat) (member : Member) (s : SessionId)
    (result : Option BrokerError) : Engine :=
  (e.modifyLoopsOf m ({ · with cancelled := true })).setMember m
    { member with phase := .leaving s result }

/-- All claim loops of a member have ended after its session. -/
def leave (e : Engine) (m : Nat) (member : Member) (s : SessionId) (result : Option BrokerError) :
    Engine :=
  let e := { e with broker := e.broker.dropSession s }.note (.left m result)
  if member.rejoins then e.restart m member (restartReason result)
  else e.setMember m { member with phase := .finished result }

/-- Tells a member to stop. -/
def signal (e : Engine) (m : Nat) : Engine :=
  { e with members := e.members.modify m ({ · with signalled := true }) }

/-- A member stops: it leaves its session and drops its claim loops. -/
def stopMember (e : Engine) (m : Nat) (member : Member) : Engine :=
  let broker :=
    match member.phase with
    | .consuming s | .leaving s _ => e.broker.dropSession s
    | _ => e.broker
  ({ e with broker }.modifyLoopsOf m ({ · with aborted := true })).setMember m
    { member with phase := .stopped }

/-- A member goes on, unless it has to wait. -/
def goMember? (e : Engine) (m : Nat) (member : Member) : Option Engine :=
  match member.phase with
  | .joining => some (e.joinGroup m member)
  | .consuming s =>
    match e.broker.nextClaim s with
    | (.claim claim, broker) => some ({ e with broker }.openLoop m member claim)
    | (.waiting, _) => none
    | (.ended, broker) => some ({ e with broker }.beginLeaving m member s none)
    | (.failed error, broker) => some ({ e with broker }.beginLeaving m member s (some error))
  -- The session is kept until the last claim loop has ended.
  | .leaving s result => if e.loopsEnded m then some (e.leave m member s result) else none
  | .backingOff wakeAt =>
    if wakeAt ≤ e.now then some (e.setMember m { member with phase := .joining }) else none
  | .finished _ | .stopped => none

/-- A member goes on or stops, unless it has to wait or is over. -/
def stepMember? (e : Engine) (m : Nat) : Option Engine :=
  match e.members[m]? with
  | none => none
  | some member =>
    if member.isOver then none
    else if member.signalled then some (e.stopMember m member)
    else e.goMember? m member

end Engine

end ConsumerGroup
