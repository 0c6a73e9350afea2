import ConsumerGroup.Broker.Channel
import ConsumerGroup.Cluster

/-!
# Broker

A broker in memory.  It keeps the logs of its topics, the sessions of its groups and what the groups
have marked.

A member that joins a group gets a *session*: one *claim* for each partition of its topics.  A claim
brings the messages from the offset that the group has marked on, first those in the log and then
each one that is appended while the session is the live one of its group.  A group has one live
session at a time; the next join ends it.

Sessions and channels are never removed, so that a number names one for good.

* `append`, `publish` — messages come in.
* `join`, `nextClaim`, `receive`, `mark` — a member reads.
* `endSession`, `failSession`, `failNextJoin`, `failNextPublishes` — things go wrong on demand.
-/

namespace ConsumerGroup

/-- The number of a channel. -/
abbrev ChannelId := Nat

/-- The number of a session. -/
abbrev SessionId := Nat

/-- How many unread messages a claim of this broker holds. -/
def claimCapacity : Nat := 4096

/-- A partition that a session hands out. -/
structure Claim where
  /-- the partition -/
  source : TopicPartition
  /-- where its messages come from -/
  channel : ChannelId
  deriving Repr, DecidableEq, Inhabited

/-- How a session ended. -/
inductive SessionEnd where
  /-- without an error -/
  | ended
  /-- with an error -/
  | failed (error : BrokerError)
  deriving Repr, DecidableEq

/-- The membership in a group from a join on. -/
structure Session where
  /-- the group -/
  group : String
  /-- the claims that have not been handed out -/
  pending : List Claim := []
  /-- the channel of each partition that is claimed -/
  feeds : Table TopicPartition ChannelId := ∅
  /-- whether it is the live session of its group -/
  live : Bool := true
  /-- how it ended, until the member has been told of an error -/
  ending : Option SessionEnd := none
  /-- whether the member still looks at it -/
  attended : Bool := true
  deriving Repr, DecidableEq, Inhabited

/-- A mark that was set. -/
structure Commit where
  /-- the group that set it -/
  group : String
  /-- the partition -/
  source : TopicPartition
  /-- the offset that is read next -/
  offset : Offset
  deriving Repr, DecidableEq

/-- An attempt to join. -/
structure JoinAttempt where
  /-- the group -/
  group : String
  /-- the addresses that were used -/
  brokers : List String
  /-- the topics that were asked for -/
  topics : List String
  deriving Repr, DecidableEq

/-- A broker. -/
structure Broker where
  /-- the logs of the partitions by topic -/
  topics : Table String (List (Array Message)) := ∅
  /-- the channels of all claims that ever were -/
  channels : Array Channel := #[]
  /-- all sessions that ever were -/
  sessions : Array Session := #[]
  /-- the offset each group reads next, where it has marked one -/
  committed : Table (String × TopicPartition) Offset := ∅
  /-- all marks, in order -/
  commitLog : Array Commit := #[]
  /-- all records that were published, in order -/
  published : Array Record := #[]
  /-- all attempts to join, in order -/
  joins : Array JoinAttempt := #[]
  /-- the errors the next joins meet -/
  joinFailures : List BrokerError := []
  /-- how many of the next records are refused -/
  publishFailures : Nat := 0
  /-- how often those who wait for marks and records were told to look again -/
  announcements : Nat := 0

namespace Broker

instance : Inhabited Broker := ⟨{}⟩

/-! ## Channels -/

/-- The channel of that number. -/
def channel (b : Broker) (c : ChannelId) : Channel := b.channels.getD c { capacity := 0, fed := false }

/-- Changes a channel. -/
def modifyChannel (b : Broker) (c : ChannelId) (f : Channel → Channel) : Broker :=
  { b with channels := b.channels.modify c f }

/-- Makes a channel. -/
def openChannel (b : Broker) (ch : Channel) : ChannelId × Broker :=
  (b.channels.size, { b with channels := b.channels.push ch })

/-- The reader of a channel looks for a message. -/
def receive (b : Broker) (c : ChannelId) : Received × Broker :=
  let (found, ch) := (b.channel c).receive
  (found, b.modifyChannel c fun _ => ch)

/-! ## Topics -/

/-- Makes a topic with so many empty partitions; one of that name loses its messages. -/
def createTopic (b : Broker) (topic : String) (partitions : Nat) : Broker :=
  { b with topics := b.topics.insert topic (List.replicate partitions #[]) }

/-- The log of a partition. -/
def log? (b : Broker) (source : TopicPartition) : Option (Array Message) :=
  if source.partition < 0 then none
  else (b.topics.get? source.topic).bind fun logs => logs[source.partition.toNat]?

/-- Puts a log in the place of that of a partition. -/
def setLog (b : Broker) (source : TopicPartition) (log : Array Message) : Broker :=
  let logs := (b.topics.get? source.topic).getD []
  { b with topics := b.topics.insert source.topic (logs.set source.partition.toNat log) }

/-- The channels into which messages of a partition go. -/
def feedsOf (b : Broker) (source : TopicPartition) : List ChannelId :=
  (b.sessions.toList.filter Session.live).filterMap fun s => s.feeds.get? source

/-- Appends a message to a log, at the next offset, and passes it on to all live claims. -/
def append (b : Broker) (now : Int) (source : TopicPartition) (payload : ByteArray)
    (headers : Headers) : Except BrokerError (Offset × Broker) :=
  match b.log? source with
  | none => .error (.unknownTopicOrPartition source.text)
  | some log =>
    let m : Message := ⟨log.size, payload, headers, some now⟩
    .ok (m.offset, (b.feedsOf source).foldl (fun b c => b.modifyChannel c (·.send m))
      (b.setLog source (log.push m)))

/-! ## Sessions -/

/-- The session of that number. -/
def session (b : Broker) (s : SessionId) : Session :=
  b.sessions.getD s { group := "", live := false, attended := false }

/-- Changes a session. -/
def modifySession (b : Broker) (s : SessionId) (f : Session → Session) : Broker :=
  { b with sessions := b.sessions.modify s f }

/-- Adds a session. -/
def openSession (b : Broker) (s : Session) : SessionId × Broker :=
  (b.sessions.size, { b with sessions := b.sessions.push s })

/-- The live session of a group. -/
def liveSession? (b : Broker) (group : String) : Option SessionId :=
  b.sessions.findIdx? fun s => s.live && s.group == group

/-- Whether the group has a live session. -/
def hasSession (b : Broker) (group : String) : Bool := (b.liveSession? group).isSome

/-- Ends a session: its claims get nothing more. -/
def finishSession (b : Broker) (s : SessionId) (how : SessionEnd) : Broker :=
  ((b.session s).feeds.entries.foldl (fun b feed => b.modifyChannel feed.2 Channel.closeFeed) b)
    |>.modifySession s fun session => { session with live := false, ending := some how }

/-- Ends the live session of a group, if there is one. -/
def closeGroup (b : Broker) (group : String) (how : SessionEnd) : Broker :=
  match b.liveSession? group with
  | some s => b.finishSession s how
  | none => b

/-- Ends the live session of a group without an error. -/
def endSession (b : Broker) (group : String) : Broker := b.closeGroup group .ended

/-- Ends the live session of a group with an error. -/
def failSession (b : Broker) (group : String) (error : BrokerError) : Broker :=
  b.closeGroup group (.failed error)

/-- Lets the next join meet an error. -/
def failNextJoin (b : Broker) (error : BrokerError) : Broker :=
  { b with joinFailures := b.joinFailures ++ [error] }

/-- The offset from which a group reads a partition. -/
def startOffset (b : Broker) (group : String) (source : TopicPartition) : Offset :=
  (b.committed.get? (group, source)).getD 0

/-- Opens the channel of one partition for a session that is being set up.  An earlier channel for the
same partition gets nothing more. -/
def claimPartition (b : Broker) (session : Session) (source : TopicPartition)
    (log : Array Message) : Session × Broker :=
  let start := b.startOffset session.group source
  let (c, b) := b.openChannel (.ofBacklog claimCapacity (log.toList.filter (start ≤ ·.offset)))
  let b :=
    match session.feeds.get? source with
    | some earlier => b.modifyChannel earlier Channel.closeFeed
    | none => b
  ({ session with
      pending := session.pending ++ [⟨source, c⟩]
      feeds := session.feeds.insert source c }, b)

/-- Opens the channels of all partitions of a topic for a session that is being set up. -/
def claimTopic (b : Broker) (session : Session) (topic : String) : Session × Broker :=
  ((b.topics.get? topic).getD []).zipIdx.foldl
    (fun (session, b) (log, i) => claimPartition b session ⟨topic, i⟩ log) (session, b)

/-- A member joins a group for some topics.  An attempt that fails is kept, and changes nothing
else. -/
def join (b : Broker) (cluster : ClusterSpec) (group : String) (topics : List String) :
    Except BrokerError SessionId × Broker :=
  let b := { b with joins := b.joins.push ⟨group, cluster.brokers, topics⟩ }
  match b.joinFailures with
  | error :: rest => (.error error, { b with joinFailures := rest })
  | [] =>
    match topics.find? fun topic => !b.topics.contains topic with
    | some missing => (.error (.unknownTopicOrPartition missing), b)
    | none =>
      let b := b.endSession group
      let (session, b) := topics.foldl (fun (session, b) topic => claimTopic b session topic)
        (({ group } : Session), b)
      let (s, b) := b.openSession session
      (.ok s, b)

/-- What a session answers to its member. -/
inductive NextClaim where
  /-- a claim -/
  | claim (claim : Claim)
  /-- nothing yet -/
  | waiting
  /-- the session has ended -/
  | ended
  /-- the session has failed -/
  | failed (error : BrokerError)
  deriving Repr, DecidableEq

/-- The member asks its session for a claim.  Claims come before the end, and an error is told
once. -/
def nextClaim (b : Broker) (s : SessionId) : NextClaim × Broker :=
  let session := b.session s
  match session.pending, session.ending with
  -- Claims that were not handed out come first, even after the end.
  | claim :: rest, _ => (.claim claim, b.modifySession s ({ · with pending := rest }))
  | [], none => (.waiting, b)
  | [], some .ended => (.ended, b)
  | [], some (.failed error) =>
    (.failed error, b.modifySession s ({ · with ending := some .ended }))

/-- The member leaves its session; the claims it has not taken have no reader. -/
def dropSession (b : Broker) (s : SessionId) : Broker :=
  ((b.session s).pending.foldl (fun b claim => b.modifyChannel claim.channel Channel.closeReader) b)
    |>.modifySession s ({ · with pending := [], attended := false })

/-- Offers a claim to a session from outside.  If nobody looks at the session any more, the claim has
no reader. -/
def offerClaim (b : Broker) (s : SessionId) (source : TopicPartition) (ch : Channel) :
    ChannelId × Broker :=
  if (b.session s).attended then
    let (c, b) := b.openChannel ch
    (c, b.modifySession s fun session => { session with pending := session.pending ++ [⟨source, c⟩] })
  else b.openChannel ch.closeReader

/-! ## Marks and records -/

/-- Tells those who wait to look again. -/
def announce (b : Broker) : Broker := { b with announcements := b.announcements + 1 }

/-- A group marks the offset it reads next. -/
def mark (b : Broker) (group : String) (source : TopicPartition) (offset : Offset) : Broker :=
  announce { b with
    committed := b.committed.insert (group, source) offset
    commitLog := b.commitLog.push ⟨group, source, offset⟩ }

/-- The marks of a group on a partition, in order. -/
def commitHistory (b : Broker) (group : String) (source : TopicPartition) : List Offset :=
  (b.commitLog.toList.filter fun c => c.group = group ∧ c.source = source).map Commit.offset

/-- Lets so many of the next records be refused. -/
def failNextPublishes (b : Broker) (n : Nat) : Broker := { b with publishFailures := n }

/-- Takes a record.  If there is a topic of its name, it becomes a message of the first partition. -/
def publish (b : Broker) (now : Int) (record : Record) : Except BrokerError Unit × Broker :=
  if 0 < b.publishFailures then
    (.error (.publish record.topic "injected failure"),
      { b with publishFailures := b.publishFailures - 1 })
  else
    -- The record counts as published even if its topic turns out to have no partition.
    let b := { b with published := b.published.push record }
    if b.topics.contains record.topic then
      match b.append now ⟨record.topic, 0⟩ record.payload record.headers with
      | .ok (_, b) => (.ok (), b.announce)
      | .error error => (.error error, b)
    else (.ok (), b.announce)

end Broker

end ConsumerGroup
