import ConsumerGroup.Engine.ClaimLoop
import ConsumerGroup.Proofs.Broker.Channels
import ConsumerGroup.Proofs.Broker.Commits
import ConsumerGroup.Proofs.Claim.Loop

/-!
# A claim loop in a running engine

* `Broker.ReadTo` — what a broker comes to when the reader of one channel acts.
* `Engine.Goes` — what an engine comes to when one claim loop goes on.
* `Engine.stepLoop?_inv` — a claim loop that goes on does one `ClaimLoop.Step`, and nothing else
  happens.
-/

namespace ConsumerGroup

/-! ## The reader of a channel -/

namespace Broker

/-- Only the reader of channel `c` has acted, and it has left that queue. -/
structure ReadTo (b b' : Broker) (c : ChannelId) (queue : List Message) : Prop where
  /-- sessions do not change -/
  sessions_eq : b'.sessions = b.sessions
  /-- logs do not change -/
  topics_eq : b'.topics = b.topics
  /-- no channel is new -/
  size_eq : b'.channels.size = b.channels.size
  /-- other channels do not change -/
  channel_ne : ∀ c', c' ≠ c → b'.channel c' = b.channel c'
  /-- what waits in the channel now -/
  queue_eq : (b'.channel c).queue = queue
  /-- nothing comes in -/
  arrived_eq : (b'.channel c).arrived = (b.channel c).arrived
  /-- nothing is lost for want of room -/
  lost_eq : (b'.channel c).lost = (b.channel c).lost
  /-- the feeding end is left alone -/
  fed_eq : (b'.channel c).fed = (b.channel c).fed
  /-- the reading end is not opened again -/
  read_of : (b'.channel c).read = true → (b.channel c).read = true

namespace ReadTo

variable {b b' : Broker} {c : ChannelId} {queue : List Message}

theorem refl (b : Broker) (c : ChannelId) : b.ReadTo b c (b.channel c).queue :=
  ⟨rfl, rfl, rfl, fun _ _ => rfl, rfl, rfl, rfl, rfl, id⟩

/-- A mark has nothing to do with channels. -/
theorem mark (h : b.ReadTo b' c queue) (group : String) (source : TopicPartition) (o : Offset) :
    b.ReadTo (b'.mark group source o) c queue := by
  have hch : ∀ c', (b'.mark group source o).channel c' = b'.channel c' :=
    fun c' => channel_congr rfl c'
  refine ⟨h.sessions_eq, h.topics_eq, h.size_eq, fun c' hc' => ?_, ?_, ?_, ?_, ?_, ?_⟩
  · rw [hch, h.channel_ne c' hc']
  all_goals rw [hch]
  exacts [h.queue_eq, h.arrived_eq, h.lost_eq, h.fed_eq, h.read_of]

theorem closeReader (h : b.ReadTo b' c queue) (hc : c < b.channels.size) :
    b.ReadTo (b'.modifyChannel c Channel.closeReader) c [] := by
  have hself := channel_modifyChannel_self (b := b') (c := c) (by rw [h.size_eq]; exact hc)
    Channel.closeReader
  refine ⟨h.sessions_eq, h.topics_eq, (size_modifyChannel _ _ _).trans h.size_eq, fun c' hc' => ?_,
    ?_, ?_, ?_, ?_, ?_⟩
  · rw [channel_modifyChannel_of_ne _ hc', h.channel_ne c' hc']
  all_goals rw [hself]
  exacts [rfl, h.arrived_eq, h.lost_eq, h.fed_eq, fun hr => absurd hr (by simp [Channel.closeReader])]

/-- A message that is received was the first in the queue. -/
theorem receive {m : Message} (hc : c < b.channels.size) (h : b.receive c = (.message m, b')) :
    ∃ rest, (b.channel c).queue = m :: rest ∧ b.ReadTo b' c rest ∧ b.Commits none b' := by
  rcases hq : (b.channel c).queue with _ | ⟨m', rest⟩
  · rw [Broker.receive, Channel.receive, hq] at h
    rcases hf : (b.channel c).fed with _ | _ <;> rw [hf] at h <;> cases h
  · rw [Broker.receive, Channel.receive, hq] at h
    obtain ⟨hm, rfl⟩ := Prod.mk.inj h
    obtain rfl := Received.message.inj hm
    have hself := channel_modifyChannel_self hc fun _ => { b.channel c with queue := rest }
    refine ⟨rest, rfl, ⟨rfl, rfl, size_modifyChannel _ _ _, fun c' hc' => ?_, ?_, ?_, ?_, ?_, ?_⟩, rfl, rfl⟩
    · rw [channel_modifyChannel_of_ne _ hc']
    all_goals rw [hself]
    exact id

/-- A queue that has come to its end is empty. -/
theorem queue_of_ended (h : b.receive c = (.ended, b')) : (b.channel c).queue = [] := by
  rcases hq : (b.channel c).queue with _ | ⟨m', rest⟩
  · rfl
  · rw [Broker.receive, Channel.receive, hq] at h
    cases (Prod.mk.inj h).1

end ReadTo

end Broker

/-! ## A claim loop goes on -/

namespace Engine

/-- From `e` to `e'` nothing has happened but claim loop number `i` going on. -/
structure Goes (e : Engine) (i : Nat) (l l' : ClaimLoop) (queue : List Message)
    (env? : Option Envelope) (events : List Event) (e' : Engine) : Prop where
  /-- the clock stands -/
  now_eq : e'.now = e.now
  /-- members do not change -/
  members_eq : e'.members = e.members
  /-- other loops do not change -/
  loops_eq : e'.loops = e.loops.setIfInBounds i l'
  /-- a handling starts for the message, if there is one -/
  handlings_eq : e'.handlings =
    match env? with
    | some envelope => e.handlings.push { loop := i, envelope }
    | none => e.handlings
  /-- what is noted -/
  journal_eq : e'.journal = events.map (e.now, ·) ++ e.journal
  /-- only its own channel changes -/
  broker : e.broker.ReadTo e'.broker l.channel queue
  /-- what is marked is noted -/
  commits : ∃ mark : Option Offset, (∀ j o, .marked j o ∈ events ↔ j = i ∧ mark = some o) ∧
    e.broker.Commits (mark.map fun o => ⟨l.group, l.source, o⟩) e'.broker
  /-- only a mark that panics makes it crash -/
  crashes : .ended i .crashed ∈ events → 0 < e.markPanics

/-- From `e` to `e'` nothing has happened but the mark of an offset for claim loop number `i`, if
one is given. -/
structure Marks (e : Engine) (i : Nat) (l : ClaimLoop) (mark : Option Offset) (e' : Engine) :
    Prop where
  /-- the clock stands -/
  now_eq : e'.now = e.now
  /-- members do not change -/
  members_eq : e'.members = e.members
  /-- loops do not change -/
  loops_eq : e'.loops = e.loops
  /-- handlings do not change -/
  handlings_eq : e'.handlings = e.handlings
  /-- the mark is noted -/
  journal_eq : e'.journal = (mark.map (.marked i)).toList.map (e.now, ·) ++ e.journal
  /-- the broker is told -/
  broker_eq : e'.broker = mark.elim e.broker (e.broker.mark l.group l.source)

/-- A mark is made, or panics and changes nothing. -/
theorem marks_mark (e : Engine) (i : Nat) (l : ClaimLoop) (o : Offset) :
    e.Marks i l (if (e.mark i l o).1 then some o else none) (e.mark i l o).2 := by
  rw [mark]
  split
  · exact ⟨rfl, rfl, rfl, rfl, rfl, rfl⟩
  · exact ⟨rfl, rfl, rfl, rfl, rfl, rfl⟩

theorem marks_of_mark {e e' : Engine} {i : Nat} {l : ClaimLoop} {o : Offset} {made : Bool}
    (h : e.mark i l o = (made, e')) : e.Marks i l (if made then some o else none) e' := by
  have hm := marks_mark e i l o
  rwa [h] at hm

/-- A mark is made unless one is to panic. -/
theorem made_iff {e e' : Engine} {i : Nat} {l : ClaimLoop} {o : Offset} {made : Bool}
    (h : e.mark i l o = (made, e')) : made = true ↔ e.markPanics = 0 := by
  rw [mark] at h
  split at h <;> cases h <;> simp <;> omega

namespace Goes

variable {e e₁ e₂ : Engine} {i : Nat} {l l₁ : ClaimLoop} {queue : List Message} {events : List Event}

theorem refl (hl : e.loops[i]? = some l) :
    e.Goes i l l (e.broker.channel l.channel).queue none [] e where
  now_eq := rfl
  members_eq := rfl
  loops_eq := by
    obtain ⟨hi, rfl⟩ := Array.getElem?_eq_some_iff.1 hl
    rw [Array.setIfInBounds_def, dif_pos hi, Array.set_getElem_self]
  handlings_eq := rfl
  journal_eq := rfl
  broker := .refl _ _
  commits := ⟨none, by simp, .refl _⟩
  crashes := nofun

/-- A message is taken. -/
theorem read {m : Message} {b : Broker} (hl : e.loops[i]? = some l)
    (hc : l.channel < e.broker.channels.size) (h : e.broker.receive l.channel = (.message m, b)) :
    ∃ rest, (e.broker.channel l.channel).queue = m :: rest ∧
      e.Goes i l l rest none [.taken i m.offset]
        (note { e with broker := b, taken := e.taken + 1 } (.taken i m.offset)) := by
  obtain ⟨rest, hq, hread, hcommits⟩ := Broker.ReadTo.receive hc h
  exact ⟨rest, hq, rfl, rfl, (refl hl).loops_eq, rfl, rfl, hread, ⟨none, by simp, hcommits⟩, by simp⟩

/-- The loop changes, and that is noted. -/
theorem setLoop (h : e.Goes i l l₁ queue none events e₁) (l₂ : ClaimLoop) (event : Event)
    (hquiet : ∀ j o, event ≠ .marked j o) (hcrash : event = .ended i .crashed → 0 < e.markPanics) :
    e.Goes i l l₂ queue none (event :: events) ((e₁.setLoop i l₂).note event) where
  now_eq := h.now_eq
  members_eq := h.members_eq
  loops_eq := by simp only [note, Engine.setLoop, h.loops_eq, Array.setIfInBounds_setIfInBounds]
  handlings_eq := h.handlings_eq
  journal_eq := by
    simp only [note, Engine.setLoop, h.journal_eq, h.now_eq, List.map_cons, List.cons_append]
  broker := h.broker
  commits := by
    obtain ⟨mark, hmark, hcommits⟩ := h.commits
    refine ⟨mark, ?_, hcommits⟩
    intro j o
    rw [List.mem_cons, or_iff_right (hquiet j o).symm, hmark]
  crashes he := (List.mem_cons.1 he).elim (fun heq => hcrash heq.symm) h.crashes

/-- The counts have nothing to do with it. -/
theorem metrics (h : e.Goes i l l₁ queue none events e₁) (metrics : Metrics) :
    e.Goes i l l₁ queue none events { e₁ with metrics } :=
  ⟨h.now_eq, h.members_eq, h.loops_eq, h.handlings_eq, h.journal_eq, h.broker, h.commits,
    h.crashes⟩

/-- The loop ends. -/
theorem endLoop (h : e.Goes i l l₁ queue none events e₁) (hc : l.channel < e.broker.channels.size)
    (l₂ : ClaimLoop) (hl : l₂.channel = l.channel) (how : LoopEnd)
    (hcrash : how = .crashed → 0 < e.markPanics) :
    e.Goes i l { l₂ with phase := .ended how } [] none (.ended i how :: events)
      (e₁.endLoop i l₂ how) := by
  have hset := h.setLoop { l₂ with phase := .ended how } (.ended i how) nofun
    fun heq => hcrash (Event.ended.inj heq).2
  obtain ⟨mark, hmark, hcommits⟩ := hset.commits
  refine ⟨hset.now_eq, hset.members_eq, hset.loops_eq, hset.handlings_eq, hset.journal_eq, ?_,
    ⟨mark, hmark, hcommits.committed_eq, hcommits.commitLog_eq⟩, hset.crashes⟩
  have hread := h.broker.closeReader hc
  rw [← hl] at hread ⊢
  exact hread

/-- The message gets its handling. -/
theorem enter (h : e.Goes i l l queue none events e₁) (pool : TokenPool PoolUser) (env : Envelope) :
    e.Goes i l
      { l with pool, tracker := l.tracker.enter env.offset env, phase := .receiving } queue (some env)
      (.entered i env.offset e.handlings.size :: events) (e₁.enter i l pool env) := by
  have hset := h.setLoop
    { l with pool, tracker := l.tracker.enter env.offset env, phase := .receiving }
    (.entered i env.offset e.handlings.size) nofun nofun
  refine ⟨hset.now_eq, hset.members_eq, hset.loops_eq, ?_, ?_, hset.broker, hset.commits,
    hset.crashes⟩
  · simp only [Engine.enter, note, Engine.setLoop, h.handlings_eq]
  · simp only [Engine.enter, note, Engine.setLoop, h.journal_eq, h.handlings_eq, h.now_eq,
      List.map_cons, List.cons_append]

/-- An offset is marked, unless that panics. -/
theorem mark (h : e.Goes i l l₁ queue none events e₁) (hg : l₁.group = l.group)
    (hs : l₁.source = l.source) (hn : e.broker.Commits none e₁.broker)
    (hquiet : ∀ j o, .marked j o ∉ events)
    {mark : Option Offset} (hm : e₁.Marks i l₁ mark e₂) :
    e.Goes i l l₁ queue none ((mark.map (.marked i)).toList ++ events) e₂ where
  now_eq := hm.now_eq.trans h.now_eq
  members_eq := hm.members_eq.trans h.members_eq
  loops_eq := hm.loops_eq.trans h.loops_eq
  handlings_eq := hm.handlings_eq.trans h.handlings_eq
  journal_eq := by
    rw [hm.journal_eq, h.journal_eq, h.now_eq, List.map_append, List.append_assoc]
  broker := by
    rw [hm.broker_eq]
    cases mark with
    | none => exact h.broker
    | some o => exact h.broker.mark _ _ _
  commits := by
    refine ⟨mark, ?_, ?_⟩
    · intro j o
      rw [List.mem_append, or_iff_left (hquiet j o)]
      cases mark with
      | none => simp
      | some o' => simp [eq_comm]
    · rw [hm.broker_eq]
      cases mark with
      | none => exact hn
      | some o =>
        rw [Option.elim_some, hg, hs]
        exact hn.after (.mark _ _ _ _)
  crashes he := by
    refine h.crashes ((List.mem_append.1 he).resolve_left ?_)
    cases mark <;> simp

end Goes

/-! ## What it does in one go -/

variable {w : World} {e e' e₁ : Engine} {i : Nat} {l : ClaimLoop}

/-- A loop takes no more messages: it ends at once, or waits for its handlings. -/
theorem closeLoop_inv (hl : e.loops[i]? = some l) (hfit : l.PoolFits)
    (hc : l.channel < e.broker.channels.size) (hna : l.aborted = false)
    {pool : TokenPool PoolUser} (hclose : l.Closes (e.broker.channel l.channel).queue pool) :
    ∃ l' queue events,
      l.Step i e.now e.handlings.size (e.broker.channel l.channel).queue l' queue none events ∧
      e.Goes i l l' queue none events (e.closeLoop i { l with pool }) := by
  obtain ⟨-, hopen, -⟩ := hclose.quiet hfit
  rcases hr : pool.request .loop pool.drainSize with ⟨_ | _ | _, pool'⟩
  · refine ⟨_, _, _, .finish (.atOnce hna hclose hr), ?_⟩
    simp only [closeLoop, hr]
    exact (Goes.refl hl).endLoop hc { l with pool := pool'.finishDrain } rfl .drained nofun
  · refine ⟨_, _, _, .drain hna hclose hr, ?_⟩
    simp only [closeLoop, hr]
    exact ⟨rfl, rfl, rfl, rfl, rfl, .refl _ _, ⟨none, by simp, .refl _⟩, nofun⟩
  · -- only the loop itself closes its pool
    have hanswer := congrArg Prod.fst hr
    simp only [TokenPool.request, hopen, Bool.false_eq_true, if_false] at hanswer
    split at hanswer <;> cases hanswer

variable {m : Message} {rest : List Message} {fresh : TraceId}

/-- A message that was read and is for another group is passed over. -/
theorem pass_inv (hc : l.channel < e.broker.channels.size) (ht : l.IsTaking)
    (haddr : (Envelope.ofMessage fresh l.source m).isAddressedTo l.group = false)
    (hread : e.Goes i l l rest none [.taken i m.offset] e₁)
    (hcommits : e.broker.Commits none e₁.broker)
    (hpanics : e₁.markPanics = e.markPanics) :
    ∃ l' queue events,
      l.Step i e.now e.handlings.size (m :: rest) l' queue none events ∧
      e.Goes i l l' queue none events (e₁.pass i l (Envelope.ofMessage fresh l.source m)) := by
  rcases hskip : l.tracker.skip m.offset with ⟨due, tracker⟩
  have hskip' : l.tracker.skip (Envelope.ofMessage fresh l.source m).offset = (due, tracker) := hskip
  have hset := (hread.metrics (e₁.metrics.recordSkipped l.source.topic)).setLoop { l with tracker }
    (.skipped i m.offset) nofun nofun
  cases due with
  | none =>
    simp only [pass, hskip']
    exact ⟨_, _, _, .pass ht haddr hskip, hset⟩
  | some o =>
    simp only [pass, hskip']
    split
    · rename_i hmark
      exact ⟨_, _, _, .pass ht haddr hskip, hset.mark rfl rfl hcommits (by simp) (marks_of_mark hmark)⟩
    · -- the mark panics, and the loop ends
      rename_i hmark
      have hgoes := hset.mark rfl rfl hcommits (by simp) (marks_of_mark hmark)
      have hpanic : 0 < e.markPanics :=
        Nat.pos_of_ne_zero fun hnone => nomatch (made_iff hmark).2 (hpanics.trans hnone)
      exact ⟨_, _, _, .crash ht haddr hskip,
        hgoes.endLoop hc { l with tracker } rfl .crashed fun _ => hpanic⟩

/-- A message that was read and is for the group gets a handling, or waits for a token. -/
theorem offer_inv (hfit : l.PoolFits) (ht : l.IsTaking)
    (haddr : (Envelope.ofMessage fresh l.source m).isAddressedTo l.group = true)
    (hread : e.Goes i l l rest none [.taken i m.offset] e₁) :
    ∃ l' env? events,
      l.Step i e.now e.handlings.size (m :: rest) l' rest env? events ∧
      e.Goes i l l' rest env? events (e₁.offer i l (Envelope.ofMessage fresh l.source m)) := by
  obtain ⟨hquiet, hopen⟩ := ht.asks hfit
  have hnext : e₁.handlings.size = e.handlings.size := congrArg Array.size hread.handlings_eq
  simp only [offer, hnext]
  split
  · rename_i pool hacq
    exact ⟨_, _, _, .enter ht haddr hacq, hread.enter pool (.ofMessage fresh l.source m)⟩
  · rename_i hacq
    rcases hr : l.pool.request .loop 1 with ⟨answer, pool⟩
    rcases hquiet.request hopen hfit.balanced hr with ⟨-, ⟨-, hfree, -⟩ | ⟨rfl, -⟩⟩
    · -- a token that is free would have been taken
      have := TokenPool.free_of_tryAcquire?_eq_none hacq hopen
      omega
    · exact ⟨_, _, _, .park ht haddr hacq hr, hread.setLoop _ _ nofun nofun⟩

/-- Claim loop number `i` has done one step, and nothing else has happened. -/
def StepsLoop (e : Engine) (i : Nat) (l : ClaimLoop) (e' : Engine) : Prop :=
  ∃ l' queue env? events,
    l.Step i e.now e.handlings.size (e.broker.channel l.channel).queue l' queue env? events ∧
    e.Goes i l l' queue env? events e'

/-- A loop that takes messages takes one, or closes. -/
theorem goLoop?_receiving_inv (hl : e.loops[i]? = some l) (hfit : l.PoolFits)
    (hc : l.channel < e.broker.channels.size) (hna : l.aborted = false) (hp : l.phase = .receiving)
    (h : e.goLoop? w i l = some e') : e.StepsLoop i l e' := by
  have hclose : l.Closes (e.broker.channel l.channel).queue l.pool →
      e.closeLoop i l = e' → e.StepsLoop i l e' := by
    rintro hclose rfl
    obtain ⟨l', queue, events, hstep, hgoes⟩ := closeLoop_inv hl hfit hc hna hclose
    exact ⟨l', queue, none, events, hstep, hgoes⟩
  simp only [goLoop?, hp] at h
  split at h
  · rename_i hcancelled
    exact hclose (.receiving hp (Or.inl hcancelled)) (Option.some.inj h)
  · rename_i hnc
    rw [Bool.not_eq_true] at hnc
    split at h
    · rename_i m b hreceive
      obtain rfl := Option.some.inj h
      obtain ⟨rest, hq, hread⟩ := Goes.read hl hc hreceive
      rw [StepsLoop, hq]
      simp only [take]
      split
      · rename_i haddr
        obtain ⟨l', env?, events, hstep, hgoes⟩ := offer_inv hfit ⟨hp, hnc, hna⟩ haddr hread
        exact ⟨l', _, env?, events, hstep, hgoes⟩
      · rename_i haddr
        rw [Bool.not_eq_true] at haddr
        obtain ⟨-, -, -, hcommits⟩ := Broker.ReadTo.receive hc hreceive
        obtain ⟨l', queue, events, hstep, hgoes⟩ :=
          pass_inv hc ⟨hp, hnc, hna⟩ haddr hread hcommits rfl
        exact ⟨l', queue, none, events, hstep, hgoes⟩
    · rename_i hreceive
      exact hclose (.receiving hp (Or.inr (Broker.ReadTo.queue_of_ended hreceive)))
        (Option.some.inj h)
    · cases h

/-- A loop that waits for a token gets one, or gives the message up and closes. -/
theorem goLoop?_parked_inv {env : Envelope} (hl : e.loops[i]? = some l) (hfit : l.PoolFits)
    (hc : l.channel < e.broker.channels.size) (hna : l.aborted = false)
    (hp : l.phase = .parked env) (h : e.goLoop? w i l = some e') : e.StepsLoop i l e' := by
  have hasks := hfit.asks
  rw [hp] at hasks
  simp only [goLoop?, hp] at h
  split at h
  · rename_i hcancelled
    obtain rfl := Option.some.inj h
    obtain ⟨l', queue, events, hstep, hgoes⟩ := closeLoop_inv hl hfit hc hna (.parked hp hcancelled)
    exact ⟨l', queue, none, events, hstep, hgoes⟩
  · rename_i hnc
    rw [Bool.not_eq_true] at hnc
    split at h
    · rename_i pool hr
      obtain rfl := Option.some.inj h
      exact ⟨_, _, _, _, .unpark hp hnc hna hr, (Goes.refl hl).enter _ env⟩
    · rename_i hr
      rcases hasks.1.resume hasks.2 hfit.balanced hr with ⟨ha, -⟩ | ⟨ha, -⟩ <;> cases ha
    · cases h

/-- A loop that waits for its handlings ends when it has all tokens, or when the time is over. -/
theorem goLoop?_draining_inv {deadline : Nat} (hl : e.loops[i]? = some l) (hfit : l.PoolFits)
    (hc : l.channel < e.broker.channels.size) (hna : l.aborted = false)
    (hp : l.phase = .draining deadline) (h : e.goLoop? w i l = some e') : e.StepsLoop i l e' := by
  have hasks := hfit.asks
  rw [hp] at hasks
  simp only [goLoop?, hp] at h
  split at h
  · rename_i pool hr
    obtain rfl := Option.some.inj h
    exact ⟨_, _, _, _, .finish (.drained hna hp hr),
      (Goes.refl hl).endLoop hc { l with pool := pool.finishDrain } rfl .drained nofun⟩
  · rename_i hr
    rcases hasks.1.resume hasks.2 hfit.balanced hr with ⟨ha, -⟩ | ⟨ha, -⟩ <;> cases ha
  · rename_i pool hr
    split at h
    · rename_i hdeadline
      obtain rfl := Option.some.inj h
      exact ⟨_, _, _, _, .finish (.timedOut hna hp hdeadline hr),
        (Goes.refl hl).endLoop hc { l with pool := (pool.cancel .loop).close } rfl .timedOut nofun⟩
    · cases h

/-- **Steps.**  A claim loop that goes on does one step, and nothing else happens. -/
theorem stepLoop?_inv (h : e.stepLoop? w i = some e')
    (hfit : ∀ l, e.loops[i]? = some l → l.PoolFits)
    (hchannel : ∀ l, e.loops[i]? = some l → l.channel < e.broker.channels.size) :
    ∃ l l' queue env? events, e.loops[i]? = some l ∧
      l.Step i e.now e.handlings.size (e.broker.channel l.channel).queue l' queue env? events ∧
      e.Goes i l l' queue env? events e' := by
  rcases hl : e.loops[i]? with _ | l
  · simp only [stepLoop?, hl] at h
    cases h
  have hfit := hfit l hl
  have hc := hchannel l hl
  simp only [stepLoop?, hl] at h
  suffices hstep : e.StepsLoop i l e' by
    obtain ⟨l', queue, env?, events, hstep⟩ := hstep
    exact ⟨l, l', queue, env?, events, rfl, hstep⟩
  split at h
  · cases h
  rename_i hend
  rw [Bool.not_eq_true] at hend
  split at h
  · rename_i hab
    obtain rfl := Option.some.inj h
    exact ⟨_, _, _, _, .finish (.dropped hab hend),
      (Goes.refl hl).endLoop hc { l with pool := l.pool.cancel .loop } rfl .dropped nofun⟩
  rename_i hna
  rw [Bool.not_eq_true] at hna
  rcases hp : l.phase with _ | env | deadline | how
  · exact goLoop?_receiving_inv hl hfit hc hna hp h
  · exact goLoop?_parked_inv hl hfit hc hna hp h
  · exact goLoop?_draining_inv hl hfit hc hna hp h
  · rw [ClaimLoop.isEnded, hp] at hend
    cases hend

end Engine

end ConsumerGroup
