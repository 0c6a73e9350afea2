import ConsumerGroup.Proofs.Feedback.Runs

/-!
# The ledger of a run

Every message of the topic is in the ledger once: it came in from outside, or some handling published
it.

* `Admits` — what one step adds to the logs and to the ledger, at most one message.
* `Engine.Made` — a message was published by a handling, as the redelivery of its own message.
* `Ledger.Tells` — the ledger holds all messages, once each, and says who published them.

Main statement: `Feeding.tells`.
-/

namespace ConsumerGroup

variable {w : World} {topic : String} {k k' : Ledger} {e e' : Engine} {t? : Option TaskId}

/-! ## What a step admits -/

/-- A message was added behind all others of its partition. -/
def Broker.Adds (b b' : Broker) (source : TopicPartition) (m : Message) : Prop :=
  ∀ place, b'.message? place = if place = (source, b.size source) then some m else b.message? place

/-- What one step adds to the messages of a topic and to the ledger. -/
inductive Admits (topic : String) (k : Ledger) (e : Engine) : Ledger → Engine → Prop where
  /-- nothing -/
  | nothing {e' : Engine} :
      (∀ place : TopicPartition × Nat, place.1.topic = topic →
        e'.broker.message? place = e.broker.message? place) →
      e'.accepted = e.accepted → Admits topic k e k e'
  /-- a message from outside -/
  | delivered {e' : Engine} {source : TopicPartition} {m : Message} : source.topic = topic →
      e.broker.Adds e'.broker source m → e'.accepted = e.accepted →
      Admits topic k e { k with delivered := (source, e.broker.size source) :: k.delivered } e'
  /-- a message that a handling publishes, which completes its own -/
  | published {e' : Engine} {n : Nat} {t t' : Handling} {l : ClaimLoop} {m : Message} :
      e.handlings[n]? = some t → t.phase ≠ .done → e.loops[t.loop]? = some l →
      e'.handlings[n]? = some t' → t'.phase = .done → t'.loop = t.loop → t'.envelope = t.envelope →
      t.envelope.retryTimes < l.redeliverer.retryLimit →
      m.headers = Redeliverer.headersFor t.envelope → e.broker.Adds e'.broker ⟨topic, 0⟩ m →
      e'.accepted = n :: e.accepted →
      Admits topic k e { k with published := (e.broker.size ⟨topic, 0⟩, n) :: k.published } e'

theorem Admits.of_topics_eq (ht : e'.broker.topics = e.broker.topics)
    (ha : e'.accepted = e.accepted) : Admits topic k e k e' :=
  .nothing (fun place _ => Broker.message?_congr ht place) ha

/-- A message that is admitted adds to the ledger. -/
theorem Admits.ledger (h : Admits topic k e k' e') :
    k' = k ∨ (k'.places topic).length = (k.places topic).length + 1 := by
  cases h with
  | nothing => exact Or.inl rfl
  | delivered => exact Or.inr rfl
  | published =>
    refine Or.inr ?_
    simp only [Ledger.places, List.length_append, List.length_map, List.length_cons]
    omega

theorem Engine.accepted_of_journal_eq {now : Nat} {news : List Event}
    (h : e'.journal = news.map (now, ·) ++ e.journal)
    (hnews : ∀ event ∈ news, event.handling? = none) : e'.accepted = e.accepted := by
  have hnone : news.filterMap Event.accepted? = [] := by
    rw [List.filterMap_eq_nil_iff]
    intro event he
    have hnone := hnews event he
    cases event <;> first | rfl | cases hnone
  rw [accepted, events_of_journal_eq h, List.filterMap_append, hnone, List.nil_append, accepted]

/-- A member that goes on publishes nothing. -/
theorem Engine.topics_of_stepMember? {m : Nat} (h : e.stepMember? m = some e') :
    e'.broker.topics = e.broker.topics ∧ e'.accepted = e.accepted := by
  obtain ⟨member, b, loops, phase, news, -, hstep, hmv⟩ := stepMember?_inv h
  rw [hmv.broker_eq]
  refine ⟨?_, accepted_of_journal_eq hmv.journal_eq ?_⟩
  · cases hstep with
    | joins _ hj => exact Broker.topics_join hj
    | joinFails _ hj => exact Broker.topics_join hj
    | @claims s _ _ _ hn =>
      have hstays := Broker.stays_nextClaim e.broker s
      rw [hn] at hstays
      exact hstays.topics_eq
    | @ends s _ _ _ _ hn =>
      have hstays := Broker.stays_nextClaim e.broker s
      rw [hn] at hstays
      exact hstays.topics_eq
    | restarts => exact (Broker.stays_dropSession e.broker _).topics_eq
    | finishes => exact (Broker.stays_dropSession e.broker _).topics_eq
    | stops _ hb =>
      rcases hb with rfl | ⟨s, rfl⟩
      · rfl
      · exact (Broker.stays_dropSession e.broker s).topics_eq
    | _ => rfl
  · cases hstep <;> simp [Event.handling?]

/-- A handling that goes on publishes one message, or none. -/
theorem Feeding.admits_handling (h : Feeding w topic k e) {n : Nat}
    (ht : e.stepHandling? w n = some e') : Admits topic k e (k.task topic e e' (.handling n)) e' := by
  obtain ⟨t, l, startedAt, hn, hphase, hl, hpublishes⟩ := Engine.publishes_of_stepHandling? ht
    (fun i l hl => h.service.reachable hl) (h.service.sound.loop_lt n)
  cases hpublishes with
  | nothing htopics hsame =>
    rw [Ledger.task, if_neg (by rw [Broker.size_congr htopics]; exact Nat.lt_irrefl _)]
    exact .of_topics_eq htopics hsame
  | @record record b hplan hp htopics hmore hset =>
    obtain ⟨delay, hplan⟩ := hplan
    obtain ⟨hlt, hrecord, hheaders⟩ := h.planned hn hl hplan
    -- there is a first partition, as the message of the handling was read from some partition
    obtain ⟨log, -, hlog, -⟩ := h.window hl
    obtain ⟨log₀, hlog₀⟩ := Broker.log?_first hlog
    rw [h.source_topic hl, ← hrecord] at hlog₀
    have hlogs := Broker.log?_publish hp hlog₀
    have hadds := Broker.message?_push hlog₀ hlogs
    rw [hrecord] at hlog₀ hlogs hadds
    have hsize : e.broker.size ⟨topic, 0⟩ < e'.broker.size ⟨topic, 0⟩ := by
      rw [Broker.size_congr htopics, Broker.size_eq hlog₀, Broker.size_eq (hlogs ⟨topic, 0⟩ ▸ if_pos rfl)]
      simp
    rw [Ledger.task, if_pos hsize]
    have hdone : e'.handlings[n]? = some { t with startedAt, phase := .done } := by
      obtain ⟨hlt, -⟩ := Array.getElem?_eq_some_iff.1 hn
      rw [hset, Array.getElem?_setIfInBounds_self_of_lt hlt]
    have hadds' : e.broker.Adds e'.broker ⟨topic, 0⟩
        ⟨log₀.size, record.payload, record.headers, some e.now⟩ := fun place => by
      rw [Broker.message?_congr htopics, hadds]
    exact .published hn hphase hl hdone rfl rfl rfl hlt hheaders hadds' hmore

/-- A message that comes in from outside is delivered. -/
theorem admits_deliver (source : TopicPartition) (payload : ByteArray) (headers : Headers) :
    Admits topic k e
      (k.act topic e (e.act (.deliver source payload headers)) (.deliver source payload headers))
      (e.act (.deliver source payload headers)) := by
  rcases happend : e.broker.append e.now source payload headers with error | ⟨o, b⟩
  · have hsame : e.act (.deliver source payload headers) = e := by simp only [Engine.act, happend]
    rw [hsame, Ledger.act, if_neg (by simp)]
    exact .of_topics_eq rfl rfl
  · have hact : e.act (.deliver source payload headers) = { e with broker := b } := by
      simp only [Engine.act, happend]
    obtain ⟨log, hlog, hlogs⟩ := Broker.log?_append happend
    have hadds := Broker.message?_push hlog hlogs
    have hsize : e.broker.size source < b.size source := by
      rw [Broker.size_eq hlog, Broker.size_eq (hlogs source ▸ if_pos rfl)]
      simp
    rw [hact, Ledger.act]
    by_cases hs : source.topic = topic
    · rw [if_pos ⟨hs, hsize⟩]
      exact .delivered hs hadds rfl
    · rw [if_neg fun hboth => hs hboth.1]
      refine .nothing (fun place hplace => ?_) rfl
      rw [hadds, if_neg]
      rintro rfl
      exact hs hplace

/-- **Admitted.**  A step adds at most one message to the topic, and notes it in the ledger. -/
theorem Feeding.admits (h : Feeding w topic k e) (hstep : Feeds w topic k e t? k' e') :
    Admits topic k e k' e' := by
  cases hstep with
  | task t ht =>
    cases t with
    | member m =>
      obtain ⟨htopics, hsame⟩ := Engine.topics_of_stepMember? ht
      exact .of_topics_eq htopics hsame
    | loop i =>
      obtain ⟨htopics, hsame⟩ := Engine.topics_of_stepLoop? ht h.service.sound
      exact .of_topics_eq htopics hsame
    | handling n => exact h.admits_handling ht
  | act a ha =>
    cases a with
    | deliver source payload headers => exact admits_deliver source payload headers
    | createTopic topic' partitions =>
      refine .nothing (fun place hplace => ?_) rfl
      by_cases ht : topic' = topic
      · exact Broker.message?_createTopic (ha ht) partitions place
      · rw [Broker.message?, Broker.message?, Engine.act,
          Broker.log?_createTopic_of_ne (hplace ▸ Ne.symm ht)]
    | closeGroup group how => exact .of_topics_eq (Broker.stays_closeGroup _ group how).topics_eq rfl
    | finishSession => exact ha.elim
    | offerClaim => exact ha.elim
    | send => exact ha.elim
    | closeFeed => exact ha.elim
    | release n =>
      obtain ⟨handlings, hrelease, -⟩ := e.releaseHandling_inv n
      rw [Engine.act, hrelease]
      exact .of_topics_eq rfl rfl
    | _ => exact .of_topics_eq rfl rfl
  | tick t _ => exact .of_topics_eq rfl rfl

/-! ## What stays -/

/-- A handling stays that of its message, and a message that is completed stays so. -/
theorem Engine.Step.handling_stays (hstep : Engine.Step w e e') (hs : e.Sound) {n : Nat}
    {t : Handling} (ht : e.handlings[n]? = some t) :
    ∃ t', e'.handlings[n]? = some t' ∧ t'.loop = t.loop ∧ t'.envelope = t.envelope ∧
      (t.phase = .done → t'.phase = .done) := by
  obtain ⟨hlt, -⟩ := Array.getElem?_eq_some_iff.1 ht
  have hset : ∀ {n' : Nat} {u u' : Handling}, e.handlings[n']? = some u → u.phase ≠ .done →
      u'.loop = u.loop → u'.envelope = u.envelope →
      e'.handlings = e.handlings.setIfInBounds n' u' →
      ∃ t', e'.handlings[n]? = some t' ∧ t'.loop = t.loop ∧ t'.envelope = t.envelope ∧
        (t.phase = .done → t'.phase = .done) := by
    intro n' u u' hu hphase hloop henvelope hhandlings
    by_cases hn : n' = n
    · subst hn
      obtain rfl := Option.some.inj (ht.symm.trans hu)
      refine ⟨u', ?_, hloop, henvelope, fun hdone => absurd hdone hphase⟩
      rw [hhandlings, Array.getElem?_setIfInBounds_self_of_lt hlt]
    · refine ⟨t, ?_, rfl, rfl, id⟩
      rw [hhandlings, Array.getElem?_setIfInBounds_ne hn, ht]
  cases hstep with
  | task u hu =>
    cases u with
    | member m =>
      obtain ⟨member, b, loops, phase, news, -, -, hmv⟩ := stepMember?_inv hu
      exact ⟨t, hmv.handlings_eq ▸ ht, rfl, rfl, id⟩
    | loop i =>
      obtain ⟨l, l', queue, env?, news, -, -, hgoes⟩ :=
        stepLoop?_inv hu (hs.fits i) fun l hl => hs.channel_lt hl
      refine ⟨t, ?_, rfl, rfl, id⟩
      rw [hgoes.handlings_eq]
      cases env? with
      | none => exact ht
      | some env => simp [Array.getElem?_push, Nat.ne_of_lt hlt, ht]
    | handling n' =>
      obtain ⟨u, l, phase?, startedAt, news, hu, -, hstep, hcomes⟩ :=
        stepHandling?_inv hu (hs.loop_lt n')
      have hphase : u.phase ≠ .done := by
        cases hstep with
        | starts hp => simp [hp]
        | wakes hp => simp [hp]
        | calls hp => simp [hp]
      cases hcomes with
      | waits hh =>
        refine hset hu hphase ?_ ?_ hh.handlings_eq
        · rfl
        · rfl
      | completes _ hh =>
        refine hset hu hphase ?_ ?_ hh.handlings_eq
        · rfl
        · rfl
  | act a =>
    by_cases ha : ∃ n', a = .release n'
    · obtain ⟨n', rfl⟩ := ha
      obtain ⟨handlings, hrelease, hsame | ⟨u, rest, hu, hp, hhandlings⟩⟩ := e.releaseHandling_inv n'
      · exact ⟨t, by rw [Engine.act, hrelease, hsame, ht], rfl, rfl, id⟩
      · refine hset hu (by simp [hp]) ?_ ?_ (by rw [Engine.act, hrelease, hhandlings])
        · rfl
        · rfl
    · have ho : e.Outside (e.act a) := outside_act a fun n' hn => ha ⟨n', hn⟩
      exact ⟨t, ho.handlings_eq ▸ ht, rfl, rfl, id⟩
  | tick => exact ⟨t, ht, rfl, rfl, id⟩

/-! ## The ledger -/

/-- Handling number `n` has published the message at place `o` of the first partition: it has completed
its own message, and this is the redelivery of it. -/
def Engine.Made (topic : String) (e : Engine) (o n : Nat) : Prop :=
  ∃ (t : Handling) (l : ClaimLoop) (m : Message), e.handlings[n]? = some t ∧ t.phase = .done ∧
    e.loops[t.loop]? = some l ∧ t.envelope.retryTimes < l.redeliverer.retryLimit ∧
    e.broker.message? (⟨topic, 0⟩, o) = some m ∧ m.headers = Redeliverer.headersFor t.envelope

/-- The ledger tells of all messages of the topic. -/
structure Ledger.Tells (topic : String) (k : Ledger) (e : Engine) : Prop where
  /-- it holds the places of all messages -/
  places : ∀ place, place ∈ k.places topic ↔
    place.1.topic = topic ∧ (e.broker.message? place).isSome = true
  /-- each of them once -/
  nodup : (k.places topic).Nodup
  /-- a message was published for each call of the producer that was accepted -/
  accepted : k.published.map Prod.snd = e.accepted
  /-- no handling has published twice -/
  once : (k.published.map Prod.snd).Nodup
  /-- it tells who published what -/
  made : ∀ p ∈ k.published, e.Made topic p.1 p.2

/-- Messages stay where they are. -/
theorem Broker.Adds.stays {b b' : Broker} {source : TopicPartition} {m m' : Message}
    (h : b.Adds b' source m) {place : TopicPartition × Nat} (hm : b.message? place = some m') :
    b'.message? place = some m' := by
  rw [h place, if_neg, hm]
  rintro rfl
  have hlt := (b.isSome_message?_iff (source, b.size source)).1 (by rw [hm]; rfl)
  exact Nat.lt_irrefl _ hlt

theorem Admits.message?_stays (h : Admits topic k e k' e') {place : TopicPartition × Nat}
    (ht : place.1.topic = topic) {m : Message} (hm : e.broker.message? place = some m) :
    e'.broker.message? place = some m := by
  cases h with
  | nothing hsame => rw [hsame place ht, hm]
  | delivered _ hadds => exact hadds.stays hm
  | published _ _ _ _ _ _ _ _ _ hadds => exact hadds.stays hm

theorem Engine.Made.step {o n : Nat} (h : e.Made topic o n) (hs : e.Sound)
    (hstep : Engine.Step w e e') (ha : Admits topic k e k' e') : e'.Made topic o n := by
  obtain ⟨t, l, m, ht, hdone, hl, hlt, hm, hheaders⟩ := h
  obtain ⟨t', ht', hloop, henvelope, hdone'⟩ := hstep.handling_stays hs ht
  obtain ⟨l', hl', hsame, -⟩ := (advances_of_step hs hstep).sameClaim hl
  refine ⟨t', l', m, ht', hdone' hdone, hloop ▸ hl', ?_, ha.message?_stays rfl hm, ?_⟩
  · rw [henvelope, hsame.redeliverer_eq]
    exact hlt
  · rw [henvelope]
    exact hheaders

/-- A place behind all others is new. -/
theorem Ledger.Tells.not_mem (h : k.Tells topic e) (source : TopicPartition) :
    (source, e.broker.size source) ∉ k.places topic := by
  intro hmem
  have hlt := (e.broker.isSome_message?_iff _).1 ((h.places _).1 hmem).2
  exact Nat.lt_irrefl _ hlt

/-- The places are those of all messages after one was added. -/
theorem Ledger.Tells.places_add (h : k.Tells topic e) {source : TopicPartition} {m : Message}
    (hs : source.topic = topic) (hadds : e.broker.Adds e'.broker source m)
    (place : TopicPartition × Nat) :
    (place = (source, e.broker.size source) ∨ place ∈ k.places topic) ↔
      place.1.topic = topic ∧ (e'.broker.message? place).isSome = true := by
  rw [hadds place, h.places place]
  by_cases hp : place = (source, e.broker.size source)
  · simp [hp, hs]
  · simp [hp]

theorem Ledger.Tells.step (h : k.Tells topic e) (hs : e.Sound) (hstep : Engine.Step w e e')
    (ha : Admits topic k e k' e') : k'.Tells topic e' := by
  have hmade : ∀ p ∈ k.published, e'.Made topic p.1 p.2 :=
    fun p hp => (h.made p hp).step hs hstep ha
  cases ha with
  | nothing hsame haccepted =>
    refine ⟨fun place => ?_, h.nodup, haccepted ▸ h.accepted, h.once, hmade⟩
    rw [h.places place]
    exact and_congr_right fun ht => by rw [hsame place ht]
  | @delivered _ source m ht hadds haccepted =>
    refine ⟨fun place => ?_, ?_, haccepted ▸ h.accepted, h.once, hmade⟩
    · rw [← h.places_add ht hadds]
      exact List.mem_cons
    · exact List.nodup_cons.2 ⟨h.not_mem source, h.nodup⟩
  | @published _ n t t' l m hn hphase hl hn' hdone hloop henvelope hlt hheaders hadds haccepted =>
    have hperm : (Ledger.places topic
        { k with published := (e.broker.size ⟨topic, 0⟩, n) :: k.published }).Perm
        ((⟨topic, 0⟩, e.broker.size ⟨topic, 0⟩) :: k.places topic) := List.perm_middle
    refine ⟨fun place => ?_, ?_, ?_, ?_, ?_⟩
    · rw [← h.places_add rfl hadds, hperm.mem_iff]
      exact List.mem_cons
    · rw [hperm.nodup_iff]
      exact List.nodup_cons.2 ⟨h.not_mem _, h.nodup⟩
    · rw [haccepted, ← h.accepted]
      rfl
    · -- a handling that has published is done, and does not go on
      refine List.nodup_cons.2 ⟨?_, h.once⟩
      intro hmem
      obtain ⟨p, hp, hpn⟩ := List.mem_map.1 hmem
      obtain ⟨s, -, -, hs, hsdone, -⟩ := h.made p hp
      rw [hpn] at hs
      obtain rfl := Option.some.inj (hn.symm.trans hs)
      exact hphase hsdone
    · intro p hp
      rcases List.mem_cons.1 hp with rfl | hp
      · obtain ⟨l', hl', hsame, -⟩ := (Engine.advances_of_step hs hstep).sameClaim hl
        refine ⟨t', l', m, hn', hdone, hloop ▸ hl', ?_, (hadds _).trans (if_pos rfl), ?_⟩
        · rw [henvelope, hsame.redeliverer_eq]
          exact hlt
        · rw [henvelope]
          exact hheaders
      · exact hmade p hp

/-- **The ledger.**  Every message of the topic is in the ledger once; it came in from outside, or is
the redelivery of the message of the handling that published it. -/
theorem Feeding.tells (h : Feeding w topic k e) : k.Tells topic e := by
  induction h with
  | new =>
    refine ⟨?_, List.nodup_nil, rfl, List.nodup_nil, nofun⟩
    intro place
    have hnone : ({} : Broker).log? place.1 = none := Broker.log?_eq_none rfl
    simp [Ledger.places, Broker.message?, hnone]
  | step h hstep _ ih => exact ih.step h.service.sound hstep.step (h.admits hstep)

end ConsumerGroup
