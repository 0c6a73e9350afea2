import ConsumerGroup.Proofs.Broker.Draws
import ConsumerGroup.Proofs.Engine.Service

/-!
# The offsets of a claim

At a broker that serves a topic the messages of a claim come in in order, whether or not it loses
some of them.  So all that is known about marks holds there.

* `Engine.Serve` — one step at a broker that serves a topic.
* `draws_of_service` — what comes in on a claim comes from the log.
* `Service.ordered` — it comes in in order, and so marks are safe.
* `Service.startOffset_le` — what a group has marked lies in the log, or right behind it.
-/

namespace ConsumerGroup

namespace Engine

variable {w : World} {topic group : String} {source : TopicPartition} {e e' : Engine}

/-- What may happen next at a broker that serves topic `topic`. -/
inductive Serve (w : World) (topic : String) : Engine → Engine → Prop where
  /-- a task goes on -/
  | task {e e' : Engine} (t : TaskId) : e.step? w t = some e' → Serve w topic e e'
  /-- something happens from outside -/
  | act {e : Engine} (a : Act) : a.Serves topic e → Serve w topic e (e.act a)
  /-- time passes -/
  | tick {e : Engine} (t : Nat) : e.now ≤ t → Serve w topic e { e with now := t }

theorem Serve.step (h : Serve w topic e e') : Step w e e' := by
  cases h with
  | task t ht => exact .task t ht
  | act a _ => exact .act a
  | tick t ht => exact .tick t ht

theorem Serve.service (h : Serve w topic e e') (hs : Service w topic e) : Service w topic e' := by
  cases h with
  | task t ht => exact hs.task t ht
  | act a ha => exact hs.act a ha
  | tick t ht => exact hs.tick t ht

theorem Serve.does (h : Serve w source.topic e e') (hs : Service w source.topic e) :
    Does source e e' := by
  have hserving : e.Serving "" source := serving_of_service hs
  cases h with
  | task t ht => exact does_of_task hs.sound hserving ht
  | act a ha => exact does_of_act hserving a ha
  | tick t _ => exact .of_eq (.stays (.refl _)) rfl rfl

/-! ## What comes in -/

/-- The messages of a claim that draws from a log come in in order. -/
theorem Serving.ordered (h : e.Serving group source) (hd : ∀ s, e.broker.Draws source 0 s) {i : Nat}
    {l : ClaimLoop} (hl : e.loops[i]? = some l) (hs : l.source = source) : (e.view i l).Ordered := by
  obtain ⟨s, -, hfeeds⟩ := h.loops i l hl
  obtain ⟨log, hlog, -, hsub, -⟩ := hd s l.channel (hs ▸ hfeeds)
  obtain ⟨hincreasing, hnonneg⟩ := (h.broker.logged.isLog log hlog).increasing hsub
  exact ⟨hincreasing, hnonneg⟩

/-- No mark lies beyond the log. -/
theorem Serving.marked_le (h : e.Serving group source) (hd : ∀ s, e.broker.Draws source 0 s) {i : Nat}
    {l : ClaimLoop} (hl : e.loops[i]? = some l) (hs : l.source = source)
    (hr : ClaimView.Reachable w i (e.view i l)) {o : Offset} (ho : .marked i o ∈ e.events)
    {log : Array Message} (hlog : e.broker.log? source = some log) : o ≤ log.size := by
  obtain ⟨s, -, hfeeds⟩ := h.loops i l hl
  obtain ⟨log', hlog', -, hsub, -⟩ := hd s l.channel (hs ▸ hfeeds)
  obtain rfl := Option.some.inj (hlog.symm.trans hlog')
  have hle := (hr.safe (h.ordered hd hl hs)).le_low o ho
  have hnext := hr.exact.low_le_next
  rw [Offset.next] at hnext
  rcases hr.high_arrived with hhigh | ⟨m, hm, hoff⟩
  · have := Int.natCast_nonneg log.size
    lia
  · have hlt := (h.broker.logged.isLog log hlog).offset_lt (hsub.subset hm)
    rw [Array.length_toList] at hlt
    lia

/-- What a group has marked lies in the log, or right behind it. -/
theorem Serving.startOffset_le (h : e.Serving group source) (hd : ∀ s, e.broker.Draws source 0 s)
    (hreach : ∀ (i : Nat) (l : ClaimLoop), e.loops[i]? = some l →
      ClaimView.Reachable w i (e.view i l)) {log : Array Message}
    (hlog : e.broker.log? source = some log) : e.broker.startOffset group source ≤ log.size := by
  rw [Broker.startOffset]
  rcases ho : e.broker.committed.get? (group, source) with _ | o
  · exact Int.natCast_nonneg _
  · obtain ⟨i, l, hl, -, hs, hmarked⟩ := h.marked o ho
    exact h.marked_le hd hl hs (hreach i l hl) hmarked hlog

/-- **Claims draw from the log.**  Whatever a claim loses, what comes in on it comes from the log of its
partition, in order. -/
theorem draws_of_service (h : Service w source.topic e) (s : SessionId) :
    e.broker.Draws source 0 s := by
  have hstep : ∀ {e e'}, Service w source.topic e → (∀ s, e.broker.Draws source 0 s) →
      Serve w source.topic e e' → ∀ s, e'.broker.Draws source 0 s := by
    intro e e' hs hd h
    have hserving : ∀ group, e.Serving group source := fun _ => serving_of_service hs
    refine (h.does hs).broker.draws hs.wired (h.service hs).logged hd ?_
    intro group log hlog
    exact (hserving group).startOffset_le hd (fun _ _ => hs.reachable) hlog
  induction h generalizing s with
  | new => exact Broker.draws_of_size_le (Nat.zero_le s)
  | task t h ht ih => exact hstep h ih (.task t ht) s
  | act a h ha ih => exact hstep h ih (.act a ha) s
  | tick t h ht ih => exact hstep h ih (.tick t ht) s

end Engine

variable {w : World} {source : TopicPartition} {e : Engine}

/-- The messages of a claim come in in order. -/
theorem Service.ordered (h : Service w source.topic e) {i : Nat} {l : ClaimLoop}
    (hl : e.loops[i]? = some l) (hs : l.source = source) : (e.view i l).Ordered :=
  have hserving : e.Serving "" source := Engine.serving_of_service h
  hserving.ordered (Engine.draws_of_service h) hl hs

/-- What a group has marked lies in the log, or right behind it. -/
theorem Service.startOffset_le (h : Service w source.topic e) (group : String) {log : Array Message}
    (hlog : e.broker.log? source = some log) : e.broker.startOffset group source ≤ log.size :=
  (Engine.serving_of_service h).startOffset_le (Engine.draws_of_service h) (fun _ _ => h.reachable) hlog

end ConsumerGroup
