import ConsumerGroup.Engine.Run
import ConsumerGroup.Proofs.Claim.View
import ConsumerGroup.Proofs.Engine.HandlingSteps
import ConsumerGroup.Proofs.Engine.LoopSteps
import ConsumerGroup.Proofs.Engine.MemberSteps

/-!
# The claims of a running engine

* `Engine.Sound` — what always holds of an engine: numbers are in use, channels are owned, pools fit.
* `Engine.view` — what concerns one claim.
* `Engine.Advances` — a sound engine stays sound, its claims make moves of `ClaimView.Move`, and
  claims that it did not have before are new.
* `Engine.Outside` — most of what members do, and all that happens from outside but the release of a
  handler, is outside the claims; `Outside.advances` says that the engine advances then.
-/

namespace ConsumerGroup

/-! ## Owned channels -/

namespace Broker

theorem sessions_append {b b' : Broker} {now : Int} {source : TopicPartition} {payload : ByteArray}
    {headers : Headers} {o : Offset} (h : b.append now source payload headers = .ok (o, b')) :
    b'.sessions = b.sessions := by
  rw [append] at h
  split at h
  · cases h
  · obtain ⟨-, rfl⟩ := Prod.mk.inj (Except.ok.inj h)
    have hfold : ∀ (feeds : List ChannelId) (m : Message) (b : Broker),
        (feeds.foldl (fun b c => b.modifyChannel c (·.send m)) b).sessions = b.sessions := by
      intro feeds m
      induction feeds with
      | nil => exact fun _ => rfl
      | cons c feeds ih => exact fun b => (ih _).trans rfl
    exact hfold _ _ _

theorem sessions_publish (b : Broker) (now : Int) (record : Record) :
    (b.publish now record).2.sessions = b.sessions := by
  rw [publish]
  split
  · rfl
  · dsimp only
    split
    · split
      · rename_i h
        exact (sessions_append h :)
      · rfl
    · rfl

/-- The reader of a claim that was taken may do as it likes. -/
theorem Owned.readTo {b b' : Broker} {taken : List ChannelId} {c : ChannelId}
    {queue : List Message} (h : b.Owned taken) (hc : c ∈ taken) (hr : b.ReadTo b' c queue) :
    b'.Owned taken where
  nodup := by
    rw [pendingChannels_congr hr.sessions_eq]
    exact h.nodup
  lt_size c' hc' := by
    rw [pendingChannels_congr hr.sessions_eq] at hc'
    rw [hr.size_eq]
    exact h.lt_size c' hc'
  unread c' hc' := by
    rw [pendingChannels_congr hr.sessions_eq] at hc'
    have hne : c' ≠ c := by
      rintro rfl
      exact List.disjoint_of_nodup_append h.nodup hc' hc
    rw [hr.channel_ne c' hne]
    exact h.unread c' hc'

end Broker

/-! ## Sound engines -/

/-- A claim loop is one of a member. -/
structure ClaimLoop.IsOf (l : ClaimLoop) (member : Member) : Prop where
  /-- it reads for the member's group -/
  group_eq : l.group = member.config.groupId
  /-- it has as many tokens as the member is to use -/
  capacity_eq : l.pool.capacity = member.config.concurrency
  /-- it redelivers as the member is to -/
  redeliverer_eq : l.redeliverer = member.redeliverer

/-- Members are configured alike. -/
structure Member.Like (member member' : Member) : Prop where
  /-- they read the same in the same way -/
  config_eq : member'.config = member.config
  /-- they hold messages back in the same topics -/
  delayTopics_eq : member'.delayTopics = member.delayTopics

theorem ClaimLoop.IsOf.like {l : ClaimLoop} {member member' : Member} (h : l.IsOf member)
    (hl : member.Like member') : l.IsOf member' where
  group_eq := by rw [hl.config_eq, h.group_eq]
  capacity_eq := by rw [hl.config_eq, h.capacity_eq]
  redeliverer_eq := by
    rw [h.redeliverer_eq, Member.redeliverer, Member.redeliverer, hl.config_eq, hl.delayTopics_eq]

/-- A claim loop is told to stop, or nothing. -/
structure ClaimLoop.Told (l l' : ClaimLoop) : Prop where
  /-- nothing else changes -/
  eq : l' = { l with cancelled := l'.cancelled, aborted := l'.aborted }
  /-- what it was told stays -/
  cancelled : l.cancelled = true → l'.cancelled = true
  /-- what it was told stays -/
  aborted : l.aborted = true → l'.aborted = true

theorem ClaimLoop.Told.refl (l : ClaimLoop) : l.Told l := ⟨rfl, id, id⟩

namespace Engine

/-- What has happened, the latest first. -/
def events (e : Engine) : List Event := e.journal.map Prod.snd

/-- The handlings of claim loop number `i`. -/
def handlingOf? (e : Engine) (i h : Nat) : Option Handling :=
  (e.handlings[h]?).filter fun t => t.loop = i

/-- What concerns claim number `i`. -/
def view (e : Engine) (i : Nat) (l : ClaimLoop) : ClaimView :=
  ⟨l, (e.broker.channel l.channel).arrived, (e.broker.channel l.channel).queue, e.handlingOf? i,
    e.handlings.size, e.events⟩

theorem arrived_view (e : Engine) (i : Nat) (l : ClaimLoop) :
    (e.view i l).arrived = (e.broker.channel l.channel).arrived := rfl

theorem handlingOf?_eq_some {e : Engine} {i h : Nat} {t : Handling} :
    e.handlingOf? i h = some t ↔ e.handlings[h]? = some t ∧ t.loop = i := by
  simp [handlingOf?, Option.filter_eq_some_iff]

theorem events_of_journal_eq {e e' : Engine} {now : Nat} {news : List Event}
    (h : e'.journal = news.map (now, ·) ++ e.journal) : e'.events = news ++ e.events := by
  rw [events, h, List.map_append, List.map_map]
  simp [events, Function.comp_def]

/-- What always holds of a running engine. -/
structure Sound (e : Engine) : Prop where
  /-- each handling has a claim loop -/
  loop_lt : ∀ (h : Nat) (t : Handling), e.handlings[h]? = some t → t.loop < e.loops.size
  /-- what has happened was done by claim loops that there are -/
  claim_lt : ∀ event ∈ e.events, ∀ i, event.claim? = some i → i < e.loops.size
  /-- or by handlings that there are -/
  handling_lt : ∀ event ∈ e.events, ∀ h, event.handling? = some h → h < e.handlings.size
  /-- the channels of the claims are their own -/
  owned : e.broker.Owned (e.loops.toList.map ClaimLoop.channel)
  /-- the pool of each claim loop fits -/
  fits : ∀ (i : Nat) (l : ClaimLoop), e.loops[i]? = some l → l.PoolFits
  /-- each claim loop has a member -/
  employed : ∀ (i : Nat) (l : ClaimLoop), e.loops[i]? = some l →
    ∃ member, e.members[l.member]? = some member ∧ l.IsOf member

/-- From `e` on to `e'`, the engine stays sound, its claims make moves, and there may be new ones. -/
structure Advances (w : World) (e e' : Engine) : Prop where
  /-- it stays sound -/
  sound : e'.Sound
  /-- claims make moves -/
  moves : ∀ (i : Nat) (l : ClaimLoop), e.loops[i]? = some l → ∃ l', e'.loops[i]? = some l' ∧
    Relation.ReflTransGen (ClaimView.Move w i) (e.view i l) (e'.view i l')
  /-- there may be new ones -/
  isNew : ∀ (i : Nat) (l' : ClaimLoop), e.loops[i]? = none → e'.loops[i]? = some l' →
    (e'.view i l').IsNew i

/-! ## Outside the claims -/

section

variable {w : World} {e e' : Engine} {i : Nat} {l : ClaimLoop}

theorem Sound.mem_channels (hl : e.loops[i]? = some l) :
    l.channel ∈ e.loops.toList.map ClaimLoop.channel :=
  List.mem_map.2 ⟨l, Array.mem_toList_iff.2 (Array.mem_of_getElem? hl), rfl⟩

theorem Sound.channel_lt (h : e.Sound) (hl : e.loops[i]? = some l) :
    l.channel < e.broker.channels.size :=
  h.owned.lt_size _ (List.mem_append_right _ (Sound.mem_channels hl))

/-- Different claims have different channels. -/
theorem Sound.channel_ne (h : e.Sound) {j : Nat} {l' : ClaimLoop} (hl : e.loops[i]? = some l)
    (hl' : e.loops[j]? = some l') (hij : i ≠ j) : l.channel ≠ l'.channel := by
  intro hc
  have hnd := List.Nodup.of_append_right h.owned.nodup
  have hi : (e.loops.toList.map ClaimLoop.channel)[i]? = some l.channel := by simp [hl]
  have hj : (e.loops.toList.map ClaimLoop.channel)[j]? = some l.channel := by simp [hl', hc]
  obtain ⟨hlt, -⟩ := List.getElem?_eq_some_iff.1 hi
  exact hij ((List.getElem?_inj hlt hnd).1 (hi.trans hj.symm))

/-- What happens elsewhere is a few moves for a claim. -/
theorem moves_elsewhere {l' : ClaimLoop} {news : List Event} (htold : l.Told l')
    (hgrows : (e.broker.channel l.channel).Grows (e'.broker.channel l.channel))
    (hhandlings : e'.handlingOf? i = e.handlingOf? i) (hsize : e.handlings.size ≤ e'.handlings.size)
    (hevents : e'.events = news ++ e.events)
    (hnews : ∀ event ∈ news, event.claim? ≠ some i ∧
      ∀ h, event.handling? = some h → e.handlingOf? i h = none ∧ h < e'.handlings.size) :
    Relation.ReflTransGen (ClaimView.Move w i) (e.view i l) (e'.view i l') := by
  obtain ⟨⟨ms, hqueue, harrived⟩, -⟩ := hgrows
  obtain ⟨heq, hc, ha⟩ := htold
  have hview : e'.view i l' =
      ⟨{ l with cancelled := l'.cancelled, aborted := l'.aborted },
        (e.broker.channel l.channel).arrived ++ ms, (e.broker.channel l.channel).queue ++ ms,
        e.handlingOf? i, e'.handlings.size, news ++ e.events⟩ := by
    rw [← heq, view, heq, hqueue, harrived, hhandlings, hevents]
  rw [hview]
  exact ((Relation.ReflTransGen.single (.arrives ms)).tail (.told hc ha)).tail
    (.elsewhere hsize hnews)

/-- From `e` to `e'` nothing has happened to claims but that messages came in and loops were told to
stop. -/
structure Outside (e e' : Engine) : Prop where
  /-- owned channels stay owned -/
  owned : ∀ taken, e.broker.Owned taken → e'.broker.Owned taken
  /-- and messages may come in -/
  grows : ∀ taken, e.broker.Owned taken → ∀ c ∈ taken,
    (e.broker.channel c).Grows (e'.broker.channel c)
  /-- loops may be told to stop -/
  told : ∃ f : ClaimLoop → ClaimLoop, e'.loops = e.loops.map f ∧ ∀ l : ClaimLoop, l.Told (f l)
  /-- handlings do not change -/
  handlings_eq : e'.handlings = e.handlings
  /-- what is noted is about neither -/
  noted : ∃ news, e'.events = news ++ e.events ∧
    ∀ event ∈ news, event.claim? = none ∧ event.handling? = none
  /-- members keep their configuration -/
  members : ∀ (m : Nat) (member : Member), e.members[m]? = some member →
    ∃ member', e'.members[m]? = some member' ∧ member.Like member'

theorem Outside.advances (ho : e.Outside e') (h : e.Sound) : Advances w e e' := by
  obtain ⟨f, hloops, htold⟩ := ho.told
  obtain ⟨news, hevents, hnews⟩ := ho.noted
  have hsize : e'.loops.size = e.loops.size := by rw [hloops, Array.size_map]
  have hback : ∀ {i : Nat} {l' : ClaimLoop}, e'.loops[i]? = some l' →
      ∃ l, e.loops[i]? = some l ∧ f l = l' := by
    intro i l' hl'
    rw [hloops, Array.getElem?_map] at hl'
    exact Option.map_eq_some_iff.1 hl'
  have hmem : ∀ event ∈ e'.events,
      (event.claim? = none ∧ event.handling? = none) ∨ event ∈ e.events := by
    intro event hevent
    rw [hevents, List.mem_append] at hevent
    exact hevent.imp_left (hnews event)
  have hchannels : e'.loops.toList.map ClaimLoop.channel = e.loops.toList.map ClaimLoop.channel := by
    rw [hloops, Array.toList_map, List.map_map]
    refine List.map_congr_left ?_
    intro l _
    rw [Function.comp_apply, (htold l).eq]
  refine ⟨⟨?_, ?_, ?_, ?_, ?_, ?_⟩, ?_, ?_⟩
  · rw [ho.handlings_eq, hsize]
    exact h.loop_lt
  · intro event hevent i hi
    rcases hmem event hevent with ⟨hnone, -⟩ | hevent
    · rw [hnone] at hi
      cases hi
    · exact hsize ▸ h.claim_lt event hevent i hi
  · intro event hevent n hn
    rcases hmem event hevent with ⟨-, hnone⟩ | hevent
    · rw [hnone] at hn
      cases hn
    · exact ho.handlings_eq ▸ h.handling_lt event hevent n hn
  · rw [hchannels]
    exact ho.owned _ h.owned
  · intro i l' hl'
    obtain ⟨l, hl, rfl⟩ := hback hl'
    rw [(htold l).eq]
    exact ⟨(h.fits i l hl).balanced, (h.fits i l hl).asks⟩
  · intro i l' hl'
    obtain ⟨l, hl, rfl⟩ := hback hl'
    obtain ⟨member, hm, hof⟩ := h.employed i l hl
    obtain ⟨member', hm', hlike⟩ := ho.members _ member hm
    have hof' := hof.like hlike
    rw [(htold l).eq]
    exact ⟨member', hm', hof'.group_eq, hof'.capacity_eq, hof'.redeliverer_eq⟩
  · intro i l hl
    refine ⟨f l, by rw [hloops, Array.getElem?_map, hl, Option.map_some], ?_⟩
    refine moves_elsewhere (htold l) (ho.grows _ h.owned _ (Sound.mem_channels hl)) ?_ ?_ hevents ?_
    · funext n
      rw [handlingOf?, ho.handlings_eq, handlingOf?]
    · exact Nat.le_of_eq (congrArg Array.size ho.handlings_eq).symm
    · intro event hevent
      obtain ⟨hclaim, hhandling⟩ := hnews event hevent
      rw [hclaim, hhandling]
      exact ⟨nofun, nofun⟩
  · intro i l' hl hl'
    obtain ⟨l, hl₀, -⟩ := hback hl'
    rw [hl] at hl₀
    cases hl₀

/-! ## Acts and time -/

theorem Outside.of_eq (hb : e'.broker = e.broker) (hm : e'.members = e.members)
    (hl : e'.loops = e.loops) (hh : e'.handlings = e.handlings) (hj : e'.journal = e.journal) :
    e.Outside e' where
  owned _ h := hb ▸ h
  grows _ _ _ _ := hb ▸ .refl _
  told := ⟨id, by rw [hl, Array.map_id], .refl⟩
  handlings_eq := hh
  noted := ⟨[], by rw [events, hj, events, List.nil_append], nofun⟩
  members _ member hmem := ⟨member, hm ▸ hmem, rfl, rfl⟩

theorem Outside.refl (e : Engine) : e.Outside e := .of_eq rfl rfl rfl rfl rfl

/-- Whatever happens to the broker is outside the claims, if it only lets channels grow. -/
theorem Outside.of_broker {b : Broker}
    (howned : ∀ taken, e.broker.Owned taken → b.Owned taken) (hgrows : e.broker.Grows b) :
    e.Outside { e with broker := b } where
  owned := howned
  grows _ h c hc := hgrows.channel c (h.lt_size c (List.mem_append_right _ hc))
  told := (refl e).told
  handlings_eq := rfl
  noted := (refl e).noted
  members := (refl e).members

/-- The same, if it is no session that changes. -/
theorem Outside.of_grows {b : Broker} (hgrows : e.broker.Grows b)
    (hs : b.sessions = e.broker.sessions) : e.Outside { e with broker := b } :=
  .of_broker (fun _ h => h.of_sessions_eq hgrows hs) hgrows

theorem Outside.of_members {members : Array Member} (hm : ∀ (m : Nat) (member : Member),
    e.members[m]? = some member → ∃ member', members[m]? = some member' ∧ member.Like member') :
    e.Outside { e with members } where
  owned _ h := h
  grows _ _ _ _ := .refl _
  told := (refl e).told
  handlings_eq := rfl
  noted := (refl e).noted
  members := hm

/-- Acts are outside the claims, unless they release a handler. -/
theorem outside_act (a : Act) (hr : ∀ h, a ≠ .release h) : e.Outside (e.act a) := by
  cases a with
  | createTopic topic partitions => exact .of_grows (.of_channels_eq rfl) rfl
  | deliver source payload headers =>
    unfold act
    dsimp only
    split
    · rename_i happend
      exact .of_grows (Broker.grows_append happend) (Broker.sessions_append happend)
    · exact .refl e
  | closeGroup group how =>
    exact .of_broker (fun _ h => h.closeGroup group how) (Broker.grows_closeGroup _ group how)
  | failNextJoin error => exact .of_grows (.of_channels_eq rfl) rfl
  | failNextPublishes n => exact .of_grows (.of_channels_eq rfl) rfl
  | finishSession s how =>
    exact .of_broker (fun _ h => h.finishSession s how) (Broker.grows_finishSession _ s how)
  | offerClaim s source capacity backlog =>
    refine .of_broker (fun _ h => h.offerClaim s source rfl) ?_
    rw [Broker.offerClaim]
    split
    · exact (Broker.Grows.openChannel _ _).trans (.of_channels_eq rfl)
    · exact Broker.Grows.openChannel _ _
  | send c m => exact .of_grows (.modifyChannel _ c fun ch => .send ch m) rfl
  | closeFeed c => exact .of_grows (.modifyChannel _ c .closeFeed) rfl
  | script replies => exact .of_eq rfl rfl rfl rfl rfl
  | panicMarks n => exact .of_eq rfl rfl rfl rfl rfl
  | panicJoins n => exact .of_eq rfl rfl rfl rfl rfl
  | release h => exact absurd rfl (hr h)
  | start member =>
    refine .of_members fun m member' hm => ⟨member', ?_, rfl, rfl⟩
    obtain ⟨hlt, -⟩ := Array.getElem?_eq_some_iff.1 hm
    rw [Array.getElem?_push, if_neg (Nat.ne_of_lt hlt), hm]
  | signal m =>
    refine .of_members ?_
    intro m' member hm
    rw [Array.getElem?_modify]
    split
    · rw [hm]
      exact ⟨_, rfl, rfl, rfl⟩
    · exact ⟨member, hm, rfl, rfl⟩

/-! ## Members -/

theorem like_setMember {m : Nat} {member : Member} (hm : e.members[m]? = some member)
    (phase : MemberPhase) (m' : Nat) (member' : Member) (hm' : e.members[m']? = some member') :
    ∃ member'', (e.members.setIfInBounds m { member with phase })[m']? = some member'' ∧
      member'.Like member'' := by
  obtain ⟨hlt, -⟩ := Array.getElem?_eq_some_iff.1 hm
  rw [Array.getElem?_setIfInBounds]
  split
  · rename_i heq
    subst heq
    obtain rfl := Option.some.inj (hm.symm.trans hm')
    exact ⟨_, rfl, rfl, rfl⟩
  · exact ⟨member', hm', rfl, rfl⟩

variable {m : Nat} {member : Member} {b : Broker} {loops : Array ClaimLoop} {phase : MemberPhase}
  {events : List Event}

/-- A member that changes nothing but the broker, its phase and what its loops are told stays outside
the claims. -/
theorem Moves.outside (hmv : e.Moves m member b loops phase events e')
    (hm : e.members[m]? = some member) (howned : ∀ taken, e.broker.Owned taken → b.Owned taken)
    (hgrows : ∀ taken, e.broker.Owned taken → ∀ c ∈ taken,
      (e.broker.channel c).Grows (b.channel c))
    (htold : ∃ f : ClaimLoop → ClaimLoop, loops = e.loops.map f ∧ ∀ l : ClaimLoop, l.Told (f l))
    (hevents : ∀ event ∈ events, event.claim? = none ∧ event.handling? = none) : e.Outside e' where
  owned := hmv.broker_eq ▸ howned
  grows := hmv.broker_eq ▸ hgrows
  told := hmv.loops_eq ▸ htold
  handlings_eq := hmv.handlings_eq
  noted := ⟨events, events_of_journal_eq hmv.journal_eq, hevents⟩
  members := hmv.members_eq ▸ like_setMember hm phase

theorem told_modifyLoopsOf (e : Engine) (m : Nat) {f : ClaimLoop → ClaimLoop}
    (hf : ∀ l : ClaimLoop, l.Told (f l)) : ∃ g : ClaimLoop → ClaimLoop,
      (e.modifyLoopsOf m f).loops = e.loops.map g ∧ ∀ l : ClaimLoop, l.Told (g l) := by
  refine ⟨_, rfl, ?_⟩
  intro l
  split
  · exact hf l
  · exact .refl l

theorem owned_dropSession_grows {b : Broker} (s : SessionId) (taken : List ChannelId)
    (h : b.Owned taken) (c : ChannelId) (hc : c ∈ taken) :
    (b.channel c).Grows ((b.dropSession s).channel c) := by
  rw [h.channel_dropSession s hc]
  exact .refl _

/-- A member that takes no claim stays outside the claims. -/
theorem MemberStep.outside (hstep : e.MemberStep m member b loops phase events)
    (hmv : e.Moves m member b loops phase events e') (hm : e.members[m]? = some member)
    (hsize : loops.size = e.loops.size) : e.Outside e' := by
  have hsame : ∃ f : ClaimLoop → ClaimLoop, e.loops = e.loops.map f ∧ ∀ l : ClaimLoop, l.Told (f l) :=
    ⟨id, (Array.map_id _).symm, .refl⟩
  cases hstep with
  | joinPanics =>
    exact hmv.outside hm (fun _ h => h) (fun _ _ _ _ => .refl _) hsame
      (by simp [Event.claim?, Event.handling?])
  | joins _ hj =>
    have hjoin := fun taken (h : e.broker.Owned taken) =>
      h.join member.cluster member.config.groupId [member.config.topic]
    rw [hj] at hjoin
    refine hmv.outside hm (fun taken h => (hjoin taken h).2) ?_ hsame (by simp [Event.claim?,
      Event.handling?])
    intro taken h c hc
    exact (hjoin taken h).1.channel c (h.lt_size c (List.mem_append_right _ hc))
  | joinFails _ hj =>
    have hjoin := fun taken (h : e.broker.Owned taken) =>
      h.join member.cluster member.config.groupId [member.config.topic]
    rw [hj] at hjoin
    refine hmv.outside hm (fun taken h => (hjoin taken h).2) ?_ hsame (by simp [Event.claim?,
      Event.handling?])
    intro taken h c hc
    exact (hjoin taken h).1.channel c (h.lt_size c (List.mem_append_right _ hc))
  | claims => simp at hsize
  | @ends s answer _ result _ hn hanswer =>
    have hb : b = (e.broker.nextClaim s).2 := by rw [hn]
    have hclaim : ∀ claim, (e.broker.nextClaim s).1 ≠ .claim claim := by
      intro claim h
      rw [hn, hanswer] at h
      cases result <;> cases h
    refine hmv.outside hm (fun taken h => hb ▸ h.nextClaim hclaim) ?_ (told_modifyLoopsOf e m fun l
      => ⟨rfl, fun _ => rfl, id⟩) (by simp)
    intro _ _ c _
    rw [hb, Broker.channel_congr (Broker.channels_nextClaim _ _)]
    exact .refl _
  | restarts =>
    exact hmv.outside hm (fun _ h => h.dropSession _) (owned_dropSession_grows _) hsame
      (by simp [Event.claim?, Event.handling?])
  | finishes =>
    exact hmv.outside hm (fun _ h => h.dropSession _) (owned_dropSession_grows _) hsame
      (by simp [Event.claim?, Event.handling?])
  | retries => exact hmv.outside hm (fun _ h => h) (fun _ _ _ _ => .refl _) hsame (by simp)
  | stops _ hb =>
    have htold := told_modifyLoopsOf e m (f := ({ · with aborted := true }))
      fun l => ⟨rfl, id, fun _ => rfl⟩
    rcases hb with rfl | ⟨s, rfl⟩
    · exact hmv.outside hm (fun _ h => h) (fun _ _ _ _ => .refl _) htold (by simp)
    · exact hmv.outside hm (fun _ h => h.dropSession s) (owned_dropSession_grows s) htold (by simp)

end

end Engine

end ConsumerGroup
