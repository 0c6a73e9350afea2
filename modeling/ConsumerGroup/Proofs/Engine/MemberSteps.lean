import ConsumerGroup.Engine.Member

/-!
# A member in a running engine

* `Engine.MemberStep` — what a member does in one go: what becomes of the broker and of the claim
  loops, where the member stands afterwards, and what is noted.
* `Engine.stepMember?_inv` — a member that goes on does one such step, and nothing else happens.
-/

namespace ConsumerGroup.Engine

/-- What member number `m` does in one go.  What is noted comes the latest first. -/
inductive MemberStep (e : Engine) (m : Nat) (member : Member) :
    Broker → Array ClaimLoop → MemberPhase → List Event → Prop where
  /-- it joins, and that panics -/
  | joinPanics : member.phase = .joining →
      MemberStep e m member e.broker e.loops .stopped [.joining m]
  /-- it joins -/
  | joins {s : SessionId} {b : Broker} : member.phase = .joining →
      e.broker.join member.cluster member.config.groupId [member.config.topic] = (.ok s, b) →
      MemberStep e m member b e.loops (.consuming s) [.joining m]
  /-- it cannot join -/
  | joinFails {error : BrokerError} {b : Broker} : member.phase = .joining →
      e.broker.join member.cluster member.config.groupId [member.config.topic] = (.error error, b) →
      MemberStep e m member b e.loops
        (.backingOff (e.now + (restartReason (some error)).backoffSeconds * 1000))
        [.restarting m (restartReason (some error)), .joining m]
  /-- it is handed a claim -/
  | claims {s : SessionId} {claim : Claim} {b : Broker} : member.phase = .consuming s →
      e.broker.nextClaim s = (.claim claim, b) →
      MemberStep e m member b (e.loops.push (member.loopFor m claim)) (.consuming s)
        [.claimed e.loops.size]
  /-- its session has ended -/
  | ends {s : SessionId} {answer : Broker.NextClaim} {b : Broker} {result : Option BrokerError} :
      member.phase = .consuming s → e.broker.nextClaim s = (answer, b) →
      answer = result.elim .ended .failed →
      MemberStep e m member b (e.modifyLoopsOf m ({ · with cancelled := true })).loops
        (.leaving s result) []
  /-- all its claim loops have ended, and it is to join again -/
  | restarts {s : SessionId} {result : Option BrokerError} : member.phase = .leaving s result →
      e.loopsEnded m = true → member.rejoins = true →
      MemberStep e m member (e.broker.dropSession s) e.loops
        (.backingOff (e.now + (restartReason result).backoffSeconds * 1000))
        [.restarting m (restartReason result), .left m result]
  /-- all its claim loops have ended, and it is not to join again -/
  | finishes {s : SessionId} {result : Option BrokerError} : member.phase = .leaving s result →
      e.loopsEnded m = true → member.rejoins = false →
      MemberStep e m member (e.broker.dropSession s) e.loops (.finished result) [.left m result]
  /-- it has waited long enough to join again -/
  | retries {wakeAt : Nat} : member.phase = .backingOff wakeAt → wakeAt ≤ e.now →
      MemberStep e m member e.broker e.loops .joining []
  /-- it is stopped -/
  | stops {b : Broker} : member.signalled = true →
      b = e.broker ∨ (∃ s, b = e.broker.dropSession s) →
      MemberStep e m member b (e.modifyLoopsOf m ({ · with aborted := true })).loops .stopped []

/-- From `e` to `e'` nothing has happened but that member number `m` has gone on to a phase. -/
structure Moves (e : Engine) (m : Nat) (member : Member) (b : Broker) (loops : Array ClaimLoop)
    (phase : MemberPhase) (events : List Event) (e' : Engine) : Prop where
  /-- the clock stands -/
  now_eq : e'.now = e.now
  /-- what becomes of the broker -/
  broker_eq : e'.broker = b
  /-- other members do not change -/
  members_eq : e'.members = e.members.setIfInBounds m { member with phase }
  /-- what becomes of the loops -/
  loops_eq : e'.loops = loops
  /-- handlings do not change -/
  handlings_eq : e'.handlings = e.handlings
  /-- what is noted -/
  journal_eq : e'.journal = events.map (e.now, ·) ++ e.journal

variable {e e' : Engine} {m : Nat} {member : Member}

/-- A member that is stopped leaves its session, if it has one. -/
theorem broker_stopMember (e : Engine) (m : Nat) (member : Member) :
    (e.stopMember m member).broker = e.broker ∨
      ∃ s, (e.stopMember m member).broker = e.broker.dropSession s := by
  rw [stopMember]
  dsimp only [setMember, modifyLoopsOf]
  split
  · exact Or.inr ⟨_, rfl⟩
  · exact Or.inr ⟨_, rfl⟩
  · exact Or.inl rfl

/-- **Steps.**  A member that goes on does one step, and nothing else happens. -/
theorem stepMember?_inv (h : e.stepMember? m = some e') :
    ∃ member b loops phase events, e.members[m]? = some member ∧
      e.MemberStep m member b loops phase events ∧ e.Moves m member b loops phase events e' := by
  rcases hm : e.members[m]? with _ | member
  · simp only [stepMember?, hm] at h
    cases h
  refine ⟨member, ?_⟩
  simp only [stepMember?, hm] at h
  split at h
  · cases h
  split at h
  · rename_i hsignal
    obtain rfl := Option.some.inj h
    exact ⟨_, _, _, _, rfl, .stops hsignal (broker_stopMember e m member), rfl, rfl, rfl, rfl, rfl, rfl⟩
  rw [goMember?] at h
  split at h
  · rename_i hp
    obtain rfl := Option.some.inj h
    unfold joinGroup
    dsimp only
    split
    · exact ⟨_, _, _, _, rfl, .joinPanics hp, rfl, rfl, rfl, rfl, rfl, rfl⟩
    · split
      · rename_i hj
        exact ⟨_, _, _, _, rfl, .joins hp hj, rfl, rfl, rfl, rfl, rfl, rfl⟩
      · rename_i hj
        exact ⟨_, _, _, _, rfl, .joinFails hp hj, rfl, rfl, rfl, rfl, rfl, rfl⟩
  · rename_i s hp
    split at h
    · rename_i hn
      obtain rfl := Option.some.inj h
      refine ⟨_, _, _, _, rfl, .claims hp hn, rfl, rfl, ?_, rfl, rfl, rfl⟩
      obtain ⟨hlt, rfl⟩ := Array.getElem?_eq_some_iff.1 hm
      rw [← hp, Array.setIfInBounds_def, dif_pos hlt, Array.set_getElem_self]
      rfl
    · cases h
    · rename_i hn
      obtain rfl := Option.some.inj h
      exact ⟨_, _, .leaving s none, _, rfl, .ends hp hn rfl, rfl, rfl, rfl, rfl, rfl, rfl⟩
    · rename_i error _ hn
      obtain rfl := Option.some.inj h
      exact ⟨_, _, .leaving s (some error), _, rfl, .ends hp hn rfl, rfl, rfl, rfl, rfl, rfl, rfl⟩
  · rename_i hp
    split at h
    · rename_i hended
      obtain rfl := Option.some.inj h
      unfold leave
      dsimp only
      split
      · rename_i hr
        exact ⟨_, _, _, _, rfl, .restarts hp hended hr, rfl, rfl, rfl, rfl, rfl, rfl⟩
      · rename_i hr
        exact ⟨_, _, _, _, rfl, .finishes hp hended (Bool.not_eq_true _ ▸ hr), rfl, rfl, rfl, rfl, rfl,
          rfl⟩
    · cases h
  · rename_i hp
    split at h
    · rename_i hwake
      obtain rfl := Option.some.inj h
      exact ⟨_, _, _, _, rfl, .retries hp hwake, rfl, rfl, rfl, rfl, rfl, rfl⟩
    · cases h
  · cases h
  · cases h

end ConsumerGroup.Engine
