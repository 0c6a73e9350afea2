import ConsumerGroup.Proofs.Broker.Joins

/-!
# What a claim brings

A claim brings two kinds of messages: what the log holds when the group joins, and what is added to it
while the session is the live one.  Both go through one channel, which holds a bounded number of them.

* `messages`, `received`, `arriving` — what a log holds, what a reader gets in a call, and what comes in
  for a claim.
* `along` — what calls bring, one after the other; `along_append` — and what is left after them.
* `Broker.Carries` — a claim of a session, from which somebody reads; `Carries.perform` says that it stays
  one, whatever call is made.
* `received_append_queue` — all that came in for a claim while there was room is received, or waits.
* `messages_run` — what comes in for a claim is what is added to the log, as long as its session lives.
-/

namespace ConsumerGroup.Broker

variable {b b' : Broker} {group : String} {source : TopicPartition} {s : SessionId} {c : ChannelId}
  {claim : Claim} {call : Call}

/-! ## What a call brings -/

/-- The messages of a partition. -/
def messages (b : Broker) (source : TopicPartition) : List Message :=
  ((b.log? source).getD #[]).toList

/-- The messages that a call adds to a partition. -/
def added (b : Broker) (source : TopicPartition) (call : Call) : List Message :=
  ((b.perform call).messages source).drop (b.messages source).length

/-- What the reader of a channel gets in a call. -/
def received (b : Broker) (c : ChannelId) : Call → List Message
  | .receive c' =>
    if c' = c then
      match (b.receive c).1 with
      | .message m => [m]
      | _ => []
    else []
  | _ => []

/-- The claims that a session hands out in a call. -/
def handed (b : Broker) (s : SessionId) : Call → List Claim
  | .nextClaim s' =>
    if s' = s then
      match (b.nextClaim s).1 with
      | .claim claim => [claim]
      | _ => []
    else []
  | _ => []

/-- The messages that are added to the partition of a claim in a call while its session is the live one
of the group, each with how many others wait in the channel. -/
def arriving (b : Broker) (group : String) (s : SessionId) (claim : Claim) (call : Call) :
    List (Message × Nat) :=
  if b.liveSession? group = some s then
    (b.added claim.source call).map fun m => (m, (b.channel claim.channel).queue.length)
  else []

/-- Those that found room. -/
def roomy (arrivals : List (Message × Nat)) : List Message :=
  (arrivals.filter (·.2 < claimCapacity)).map Prod.fst

/-- What calls bring, one after the other. -/
def along {α : Type} (f : Broker → Call → List α) (b : Broker) : List Call → List α
  | [] => []
  | call :: calls => f b call ++ along f (b.perform call) calls

/-- Whether a call leaves a topic as it is, and all readers. -/
def Call.spares (topic : String) : Call → Bool
  | .createTopic topic' _ => topic' ≠ topic
  | .dropSession _ => false
  | .dropReader _ => false
  | _ => true

theorem roomy_along (f : Broker → Call → List (Message × Nat)) (b : Broker) (calls : List Call) :
    roomy (along f b calls) = along (fun b call => roomy (f b call)) b calls := by
  induction calls generalizing b with
  | nil => rfl
  | cons call calls ih =>
    rw [along, along, ← ih, roomy, roomy, roomy, List.filter_append, List.map_append]

/-- If each call gives from `p` what it brings by `f`, and adds to it what it brings by `g`, then so do
calls one after the other. -/
theorem along_append {α : Type} {I : Broker → Prop} {ok : Call → Prop}
    {f g : Broker → Call → List α} {p : Broker → List α}
    (hI : ∀ b call, I b → ok call → I (b.perform call))
    (hstep : ∀ b call, I b → ok call → f b call ++ p (b.perform call) = p b ++ g b call)
    {b : Broker} (hb : I b) {calls : List Call} (hok : ∀ call ∈ calls, ok call) :
    along f b calls ++ p (b.run calls) = p b ++ along g b calls := by
  induction calls generalizing b with
  | nil => simp [along, run]
  | cons call calls ih =>
    obtain ⟨hcall, hok⟩ := List.forall_mem_cons.1 hok
    calc along f b (call :: calls) ++ p (b.run (call :: calls))
        = f b call ++ (along f (b.perform call) calls ++ p ((b.perform call).run calls)) :=
          List.append_assoc _ _ _
      _ = f b call ++ p (b.perform call) ++ along g (b.perform call) calls := by
          rw [ih (hI b call hb hcall) hok, List.append_assoc]
      _ = p b ++ along g b (call :: calls) := by
          rw [hstep b call hb hcall, along, List.append_assoc]

/-! ## What a call comes to for logs and channels -/

theorem messages_eq_of_log? (h : b'.log? source = b.log? source) :
    b'.messages source = b.messages source := by
  rw [messages, h, messages]

/-- A message that comes in is the last of its log. -/
theorem Appends.messages_self {m : Message} (h : b.Appends b' source m) :
    b'.messages source = b.messages source ++ [m] ∧ m.offset = (b.messages source).length := by
  obtain ⟨log, hlog, hoff, hpush⟩ := h.log
  rw [messages, messages, hlog, hpush]
  exact ⟨Array.toList_push, hoff⟩

/-- No message is put into a channel or taken out, and no log changes. -/
structure Rests (b b' : Broker) (topic : String) : Prop where
  /-- logs stay -/
  log?_eq : ∀ source : TopicPartition, source.topic = topic → b'.log? source = b.log? source
  /-- so does what is in the channels -/
  queue_eq : ∀ c < b.channels.size,
    ((b'.channel c).queue, (b'.channel c).read) = ((b.channel c).queue, (b.channel c).read)

theorem Rests.of_eq {topic : String} (ht : b'.topics = b.topics) (hc : b'.channels = b.channels) :
    b.Rests b' topic where
  log?_eq source _ := log?_congr ht source
  queue_eq c _ := by rw [channel_congr hc]

theorem Rests.closeGroup (b : Broker) (group : String) (how : SessionEnd) (topic : String) :
    b.Rests (b.closeGroup group how) topic where
  log?_eq source _ := (stays_closeGroup b group how).log?_eq source
  queue_eq c _ := closeGroup_keeps (fun ch => (ch.queue, ch.read)) (fun _ => rfl) b group how c

/-- A join takes nothing from any channel. -/
theorem Rests.join (b : Broker) (cluster : ClusterSpec) (group : String) (topics : List String)
    (topic : String) : b.Rests (b.join cluster group topics).2 topic := by
  rcases b.join_prepares cluster group topics with
    ⟨error, hj⟩ | ⟨b₀, b₁, b₂, session, hb, rfl, hprepared, -, -, hj⟩
  · rw [hj]
    exact .of_eq rfl rfl
  · have htopics : b₀.topics = b.topics := by rw [hb]
    have hchannels : b₀.channels = b.channels := by rw [hb]
    have hclosed := Rests.closeGroup b₀ group .ended topic
    have hstays := stays_closeGroup b₀ group .ended
    rw [hj]
    refine ⟨fun source hs => log?_congr ?_ source, fun c hc => ?_⟩
    · exact hprepared.topics_eq.trans (hstays.topics_eq.trans htopics)
    · change ((b₂.channel c).queue, (b₂.channel c).read) = _
      rw [← hchannels] at hc
      rw [hprepared.channel_eq c (hstays.channels_size ▸ hc), hclosed.queue_eq c hc,
        channel_congr hchannels]

/-- What a call comes to for logs and channels: a message comes in, or none does, and then readers get
what they take out. -/
theorem Sound.appends_or_rests (h : b.Sound) {topic : String} (hspares : call.spares topic = true) :
    (∃ source m, b.Appends (b.perform call) source m ∧ ∀ c, b.received c call = []) ∨
    b.Rests (b.perform call) topic ∧ (∀ c, b.received c call = []) ∨
    ∃ c, call = .receive c := by
  cases call with
  | createTopic topic' partitions =>
    have hne : topic ≠ topic' := fun ht => by simp [Call.spares, ht] at hspares
    exact .inr (.inl ⟨⟨fun source hs => log?_createTopic_of_ne (hs ▸ hne) partitions, fun _ _ => rfl⟩,
      fun _ => rfl⟩)
  | deliver now source payload headers =>
    rw [Broker.perform]
    split
    · rename_i happend
      obtain ⟨_, -, -, happends⟩ := h.append_inv happend
      exact .inl ⟨_, _, happends, fun _ => rfl⟩
    · exact .inr (.inl ⟨.of_eq rfl rfl, fun _ => rfl⟩)
  | publish now record =>
    rw [Broker.perform]
    rcases b.publish_cases now record with ⟨-, hp⟩ | ⟨-, -, hp⟩ | ⟨-, -, -, hp⟩ | ⟨-, -, o, b₁, ha, hp⟩
    · rw [hp]
      exact .inr (.inl ⟨.of_eq rfl rfl, fun _ => rfl⟩)
    · rw [hp]
      exact .inr (.inl ⟨.of_eq rfl rfl, fun _ => rfl⟩)
    · rw [hp]
      exact .inr (.inl ⟨.of_eq rfl rfl, fun _ => rfl⟩)
    · rw [hp]
      have hpublished : ({ b with published := b.published.push record } : Broker).Sound :=
        h.remains (.of_eq rfl rfl)
      obtain ⟨_, -, -, ha⟩ := hpublished.append_inv ha
      exact .inl ⟨_, _, ⟨ha.log, ha.log_ne, ha.sessions_eq, ha.channels_size, ha.channel⟩, fun _ => rfl⟩
  | join cluster group topics =>
    exact .inr (.inl ⟨.join b cluster group topics topic, fun _ => rfl⟩)
  | nextClaim s =>
    have hrests : b.Rests (b.nextClaim s).2 topic :=
      .of_eq (stays_nextClaim b s).topics_eq (channels_nextClaim b s)
    exact .inr (.inl ⟨hrests, fun _ => rfl⟩)
  | receive c => exact .inr (.inr ⟨c, rfl⟩)
  | mark group source offset => exact .inr (.inl ⟨.of_eq rfl rfl, fun _ => rfl⟩)
  | closeGroup group how => exact .inr (.inl ⟨.closeGroup b group how topic, fun _ => rfl⟩)
  | failNextJoin error => exact .inr (.inl ⟨.of_eq rfl rfl, fun _ => rfl⟩)
  | failNextPublishes n => exact .inr (.inl ⟨.of_eq rfl rfl, fun _ => rfl⟩)
  | dropSession s => cases hspares
  | dropReader c => cases hspares

/-- A reader gets what is taken out of its channel, and no other. -/
theorem received_receive (hc : c < b.channels.size) (c' : ChannelId) :
    b.received c (.receive c') ++ ((b.receive c').2.channel c).queue = (b.channel c).queue ∧
      ((b.receive c').2.channel c).read = (b.channel c).read := by
  by_cases hcc : c' = c
  · subst hcc
    rw [Broker.receive, channel_modifyChannel_self hc, received, if_pos rfl, Broker.receive]
    have hread : (b.channel c').receive.2.read = (b.channel c').read := by
      rw [Channel.receive]
      split <;> rfl
    refine ⟨?_, hread⟩
    rcases hqueue : (b.channel c').queue with _ | ⟨m, rest⟩
    · rcases hfed : (b.channel c').fed <;> simp [Channel.receive, hqueue, hfed]
    · simp [Channel.receive, hqueue]
  · rw [received, if_neg hcc, Broker.receive, channel_modifyChannel_of_ne b (Ne.symm hcc)]
    exact ⟨rfl, rfl⟩

/-! ## A claim from call to call -/

/-- A claim of a session, from which somebody reads. -/
structure Carries (b : Broker) (group : String) (s : SessionId) (claim : Claim) : Prop where
  /-- the session feeds its channel -/
  feeds : (b.session s).feeds.get? claim.source = some claim.channel
  /-- and is of the group -/
  group_eq : (b.session s).group = group
  /-- somebody reads -/
  read : (b.channel claim.channel).read = true

/-- What comes in at a partition goes to a claim if that is on the partition and its session is the live
one of the group. -/
theorem Carries.mem_feedsOf_iff (h : b.Sound) (hc : b.Carries group s claim)
    (source : TopicPartition) :
    claim.channel ∈ b.feedsOf source ↔ source = claim.source ∧ b.liveSession? group = some s := by
  rw [mem_feedsOf, h.liveSession?_eq_some_iff]
  constructor
  · rintro ⟨s', hl, hf⟩
    obtain ⟨rfl, rfl⟩ := h.inj s' s _ _ _ hf hc.feeds
    exact ⟨rfl, hl, hc.group_eq⟩
  · rintro ⟨rfl, hl, -⟩
    exact ⟨s, hl, hc.feeds⟩

/-- Nothing is added to the partition of a claim. -/
theorem arriving_of_messages_eq (group : String) (s : SessionId)
    (h : (b.perform call).messages claim.source = b.messages claim.source) :
    b.added claim.source call = [] ∧ b.arriving group s claim call = [] := by
  have hadded : b.added claim.source call = [] := by rw [added, h, List.drop_length]
  refine ⟨hadded, ?_⟩
  rw [arriving, hadded]
  split <;> rfl

/-- A message that comes in at the partition of a claim of the live session is put into its channel if
there is room. -/
theorem Carries.appends {m : Message} (h : b.Sound) (hc : b.Carries group s claim)
    (ha : b.Appends (b.perform call) source m) :
    (b.perform call).messages claim.source = b.messages claim.source ++ b.added claim.source call ∧
      ((b.perform call).channel claim.channel).queue =
        (b.channel claim.channel).queue ++ roomy (b.arriving group s claim call) := by
  rw [ha.channel]
  by_cases hs : source = claim.source
  · subst hs
    obtain ⟨hm, -⟩ := ha.messages_self
    have hadded : b.added claim.source call = [m] := by rw [added, hm, List.drop_left]
    rw [arriving, hadded]
    refine ⟨hm, ?_⟩
    by_cases hlive : b.liveSession? group = some s
    · have hmem := (hc.mem_feedsOf_iff h claim.source).2 ⟨rfl, hlive⟩
      rw [if_pos hmem, if_pos hlive, h.queue_send hmem]
      by_cases hroom : (b.channel claim.channel).queue.length < claimCapacity
      · simp [roomy, hc.read, hroom]
      · simp [roomy, hroom]
    · rw [if_neg fun hmem => hlive ((hc.mem_feedsOf_iff h claim.source).1 hmem).2, if_neg hlive]
      exact (List.append_nil _).symm
  · have hm := messages_eq_of_log? (ha.log_ne claim.source (Ne.symm hs))
    obtain ⟨hadded, harriving⟩ := arriving_of_messages_eq group s hm
    rw [if_neg fun hmem => hs ((hc.mem_feedsOf_iff h source).1 hmem).1, hadded, harriving]
    exact ⟨hm.trans (List.append_nil _).symm, (List.append_nil _).symm⟩

/-- **Calls.**  What a call comes to for a claim. -/
theorem Carries.perform (h : b.Sound) (hc : b.Carries group s claim)
    (hspares : call.spares claim.source.topic = true) :
    (b.perform call).Carries group s claim ∧
      (b.perform call).messages claim.source = b.messages claim.source ++ b.added claim.source call ∧
      b.received claim.channel call ++ ((b.perform call).channel claim.channel).queue =
        (b.channel claim.channel).queue ++ roomy (b.arriving group s claim call) := by
  have hlt := h.lt_size s claim.source claim.channel hc.feeds
  obtain ⟨hgroup, hfeeds, -⟩ := h.session_perform call (lt_size_of_feeds hc.feeds)
  have hcarries : ((b.perform call).channel claim.channel).read = (b.channel claim.channel).read →
      (b.perform call).Carries group s claim := fun hread =>
    ⟨hfeeds ▸ hc.feeds, hgroup.trans hc.group_eq, hread.trans hc.read⟩
  rcases h.appends_or_rests hspares with ⟨source, m, ha, hnone⟩ | ⟨hrests, hnone⟩ | ⟨c, rfl⟩
  · have hread : ((b.perform call).channel claim.channel).read = (b.channel claim.channel).read := by
      rw [ha.channel]
      split
      · rw [send_eq]
      · rfl
    rw [hnone]
    exact ⟨hcarries hread, hc.appends h ha⟩
  · have hm := messages_eq_of_log? (hrests.log?_eq claim.source rfl)
    obtain ⟨hqueue, hread⟩ := Prod.mk.inj (hrests.queue_eq claim.channel hlt)
    obtain ⟨hadded, harriving⟩ := arriving_of_messages_eq group s hm
    rw [hnone, hadded, harriving]
    exact ⟨hcarries hread, hm.trans (List.append_nil _).symm, hqueue.trans (List.append_nil _).symm⟩
  · obtain ⟨hqueue, hread⟩ := b.received_receive hlt c
    have hm : (b.perform (.receive c)).messages claim.source = b.messages claim.source := rfl
    obtain ⟨hadded, harriving⟩ := arriving_of_messages_eq group s hm
    rw [hadded, harriving]
    exact ⟨hcarries hread, (List.append_nil _).symm, hqueue.trans (List.append_nil _).symm⟩

/-! ## A claim in a run -/

section

variable {calls : List Call}

/-- A claim stays what it is. -/
theorem Carries.after (h : b.Sound) (hc : b.Carries group s claim)
    (hspares : ∀ call ∈ calls, call.spares claim.source.topic = true) :
    (b.run calls).Carries group s claim := by
  induction calls generalizing b with
  | nil => exact hc
  | cons call calls ih =>
    obtain ⟨hcall, hspares⟩ := List.forall_mem_cons.1 hspares
    exact ih (h.perform call) (hc.perform h hcall).1 hspares

/-- **Channels.**  Of what was in the channel of a claim, and what came in for it while there was room,
some has been received, and the rest waits. -/
theorem Carries.received_append_queue (h : b.Sound) (hc : b.Carries group s claim)
    (hspares : ∀ call ∈ calls, call.spares claim.source.topic = true) :
    along (fun b => b.received claim.channel) b calls ++ ((b.run calls).channel claim.channel).queue =
      (b.channel claim.channel).queue ++
        roomy (along (fun b => b.arriving group s claim) b calls) := by
  rw [roomy_along]
  exact along_append (I := fun b => b.Sound ∧ b.Carries group s claim)
    (p := fun b => (b.channel claim.channel).queue)
    (fun b call hb hspares => ⟨hb.1.perform call, (hb.2.perform hb.1 hspares).1⟩)
    (fun b call hb hspares => (hb.2.perform hb.1 hspares).2.2) ⟨h, hc⟩ hspares

/-- A session that is not the live one of its group does not become it. -/
theorem Sound.live_of_perform (h : b.Sound) (hs : s < b.sessions.size)
    (hl : (b.perform call).liveSession? group = some s) : b.liveSession? group = some s := by
  obtain ⟨hgroup, -, hlive⟩ := h.session_perform call hs
  rw [(h.perform call).liveSession?_eq_some_iff] at hl
  exact h.liveSession?_eq_some_iff.2 ⟨hlive hl.1, hgroup ▸ hl.2⟩

/-- **The end.**  Nothing more comes in for a claim when its session is not the live one of the group any
more. -/
theorem Sound.arriving_of_not_live (h : b.Sound) (hs : s < b.sessions.size)
    (hnot : b.liveSession? group ≠ some s) (claim : Claim) (calls : List Call) :
    along (fun b => b.arriving group s claim) b calls = [] ∧
      (b.run calls).liveSession? group ≠ some s := by
  induction calls generalizing b with
  | nil => exact ⟨rfl, hnot⟩
  | cons call calls ih =>
    obtain ⟨hnone, hnot'⟩ := ih (h.perform call) (Nat.lt_of_lt_of_le hs (h.sessions_size_le call))
      fun hl => hnot (h.live_of_perform hs hl)
    rw [along, hnone, arriving, if_neg hnot]
    exact ⟨rfl, hnot'⟩

/-- **Logs.**  What comes in for a claim is what is added to its log, in order; all of it, as long as its
session is the live one of the group. -/
theorem Carries.messages_run (h : b.Sound) (hc : b.Carries group s claim)
    (hspares : ∀ call ∈ calls, call.spares claim.source.topic = true) :
    ∃ rest, (b.run calls).messages claim.source = b.messages claim.source ++
        (along (fun b => b.arriving group s claim) b calls).map Prod.fst ++ rest ∧
      ((b.run calls).liveSession? group = some s → rest = []) := by
  induction calls generalizing b with
  | nil => exact ⟨[], by simp [run, along], fun _ => rfl⟩
  | cons call calls ih =>
    obtain ⟨hcall, hspares⟩ := List.forall_mem_cons.1 hspares
    obtain ⟨hc', hmessages, -⟩ := hc.perform h hcall
    obtain ⟨rest, hrest, hall⟩ := ih (h.perform call) hc' hspares
    by_cases hlive : b.liveSession? group = some s
    · refine ⟨rest, ?_, hall⟩
      have hadded : (b.arriving group s claim call).map Prod.fst = b.added claim.source call := by
        rw [arriving, if_pos hlive, List.map_map]
        exact List.map_id _
      rw [along, List.map_append, hadded, ← List.append_assoc, ← hmessages]
      exact hrest
    · obtain ⟨hnone, hnot⟩ :=
        h.arriving_of_not_live (lt_size_of_feeds hc.feeds) hlive claim (call :: calls)
      refine ⟨b.added claim.source call ++
        ((along (fun b => b.arriving group s claim) (b.perform call) calls).map Prod.fst ++ rest), ?_,
        fun hl => absurd hl hnot⟩
      rw [hnone, List.map_nil, List.append_nil, ← List.append_assoc, ← hmessages, ← List.append_assoc]
      exact hrest

end

/-! ## Claims that are handed out -/

/-- A session that is asked for a claim hands out the first one that it has. -/
theorem handed_nextClaim (hs : s < b.sessions.size) (s' : SessionId) :
    b.handed s (.nextClaim s') ++ ((b.nextClaim s').2.session s).pending = (b.session s).pending := by
  rcases hp : (b.session s').pending with _ | ⟨claim, rest⟩
  · rcases hn : b.nextClaim s' with ⟨answer, b'⟩
    have hnot : ∀ claim, answer ≠ .claim claim := by
      rintro claim rfl
      obtain ⟨rest, hpending, -⟩ := pending_of_nextClaim hn
      exact List.cons_ne_nil _ _ (hpending.symm.trans hp)
    have hnone : b.handed s (.nextClaim s') = [] := by
      rw [handed]
      split
      · rename_i hss
        rw [← hss, hn]
        cases answer with
        | claim claim => exact absurd rfl (hnot claim)
        | waiting => rfl
        | ended => rfl
        | failed error => rfl
      · rfl
    rw [hnone]
    exact pending_nextClaim hn hnot s
  · by_cases hss : s' = s
    · subst hss
      rw [handed, if_pos rfl, nextClaim_of_pending hp, session_modifySession_self hs, hp]
      rfl
    · rw [handed, if_neg hss, nextClaim_of_pending hp, session_modifySession_of_ne (Ne.symm hss)]
      rfl

/-- What a session has to hand out it hands out in order; nobody else takes anything from it, but a
member that leaves it. -/
theorem handed_append_pending (hs : s < b.sessions.size)
    (hstays : call ≠ .dropSession s) :
    b.handed s call ++ ((b.perform call).session s).pending = (b.session s).pending := by
  have hsame : ∀ {b' : Broker}, b'.sessions = b.sessions →
      (b'.session s).pending = (b.session s).pending :=
    fun hb => congrArg Session.pending (session_congr hb s)
  cases call with
  | createTopic topic partitions => rfl
  | deliver now source payload headers =>
    rw [Broker.perform]
    split
    · rename_i happend
      exact hsame (by rw [append_rest happend])
    · rfl
  | publish now record =>
    rw [Broker.perform]
    rcases b.publish_cases now record with ⟨-, hp⟩ | ⟨-, -, hp⟩ | ⟨-, -, -, hp⟩ | ⟨-, -, o, b₁, ha, hp⟩
    · rw [hp]
      rfl
    · rw [hp]
      rfl
    · rw [hp]
      rfl
    · rw [hp]
      exact hsame (by rw [append_rest ha]; rfl)
  | join cluster group topics =>
    rw [Broker.perform]
    rcases b.join_prepares cluster group topics with
      ⟨error, hj⟩ | ⟨b₀, b₁, b₂, session, hb, rfl, hprepared, -, -, hj⟩
    · rw [hj]
      rfl
    · have hsize : (b₀.closeGroup group .ended).sessions.size = b.sessions.size := by
        rw [(stays_closeGroup b₀ group .ended).sessions_size, hb]
      rw [hj]
      change (Session.pending (Broker.session _ s)) = _
      rw [hprepared.session_push, hsize, if_neg (Nat.ne_of_lt hs), pending_closeGroup]
      exact hsame (by rw [hb])
  | nextClaim s' => exact handed_nextClaim hs s'
  | receive c => rfl
  | mark group source offset => rfl
  | closeGroup group how => exact pending_closeGroup b group how s
  | failNextJoin error => rfl
  | failNextPublishes n => rfl
  | dropSession s' =>
    have hne : s ≠ s' := by
      rintro rfl
      exact hstays rfl
    rw [Broker.perform, Broker.dropSession, session_modifySession_of_ne hne]
    exact hsame (sessions_foldl_closeReader _ b)
  | dropReader c => rfl

/-- **Claims.**  A session hands out the claims it has to hand out one after the other. -/
theorem Sound.handed_append_pending_run (h : b.Sound) (hs : s < b.sessions.size) {calls : List Call}
    (hstays : ∀ call ∈ calls, call ≠ .dropSession s) :
    along (fun b => b.handed s) b calls ++ ((b.run calls).session s).pending =
      (b.session s).pending := by
  have hnothing : ∀ (b : Broker) (calls : List Call),
      along (fun _ _ => ([] : List Claim)) b calls = [] := by
    intro b calls
    induction calls generalizing b with
    | nil => rfl
    | cons call calls ih => exact ih (b.perform call)
  have hrun := along_append (I := fun b => b.Sound ∧ s < b.sessions.size)
    (p := fun b => (b.session s).pending) (g := fun _ _ => [])
    (fun b call hb _ => ⟨hb.1.perform call, Nat.lt_of_lt_of_le hb.2 (hb.1.sessions_size_le call)⟩)
    (fun b call hb hstays => (handed_append_pending hb.2 hstays).trans (List.append_nil _).symm)
    ⟨h, hs⟩ hstays
  rw [hnothing, List.append_nil] at hrun
  exact hrun

/-! ## Numbers -/

theorem Sound.isLog_perform (h : b.Sound) (hlog : IsLog (b.messages source)) (call : Call) :
    IsLog ((b.perform call).messages source) := by
  by_cases hspares : call.spares source.topic = true
  · rcases h.appends_or_rests hspares with ⟨source', m, ha, -⟩ | ⟨hrests, -⟩ | ⟨c, rfl⟩
    · by_cases hs : source' = source
      · subst hs
        obtain ⟨hm, hoff⟩ := ha.messages_self
        rw [hm]
        exact hlog.append hoff
      · rw [messages_eq_of_log? (ha.log_ne source (Ne.symm hs))]
        exact hlog
    · rw [messages_eq_of_log? (hrests.log?_eq source rfl)]
      exact hlog
    · exact hlog
  · cases call with
    | createTopic topic partitions =>
      have ht : topic = source.topic := by simpa [Call.spares] using hspares
      subst ht
      have hnone : (b.createTopic source.topic partitions).messages source = [] := by
        rw [messages]
        rcases hcreated : (b.createTopic source.topic partitions).log? source with _ | log
        · rfl
        · rw [eq_of_log?_createTopic hcreated]
          rfl
      rw [Broker.perform, hnone]
      exact fun _ _ hk => absurd hk (by simp)
    | dropSession s =>
      rw [Broker.perform, messages_eq_of_log? ((stays_dropSession b s).log?_eq source)]
      exact hlog
    | dropReader c => exact hlog
    | _ => exact absurd rfl hspares

/-- Whatever a broker was asked, the messages of a partition have their places as offsets. -/
theorem isLog_run (calls : List Call) (source : TopicPartition) :
    IsLog ((({} : Broker).run calls).messages source) := by
  have hrun : ∀ (calls : List Call) (b : Broker), b.Sound → IsLog (b.messages source) →
      IsLog ((b.run calls).messages source) := by
    intro calls
    induction calls with
    | nil => exact fun _ _ hlog => hlog
    | cons call calls ih => exact fun b h hlog => ih _ (h.perform call) (h.isLog_perform hlog call)
  have hempty : ({} : Broker).messages source = [] := by
    rw [messages]
    simp [log?]
  exact hrun calls {} sound_empty (hempty ▸ fun _ _ hk => absurd hk (by simp))

end ConsumerGroup.Broker
