import ConsumerGroup.Proofs.AtLeastOnce
import ConsumerGroup.Proofs.Engine.Offsets

/-!
# One session after the other

What a group has marked on a partition rises as long as only the session marks that joined last.  For
its claim begins where the group has marked, and its own marks rise.

* `Engine.ServeWithin` — a run at a broker that serves a topic, through engines with some property.
* `Engine.InTurn` — the last mark is not one of a session that another has followed.
* `Engine.Rises` — each mark since some time has passed all before it.
* `Engine.UpToDate` — the claim of the session that joined last is where the group has marked, or
  begins there.
* `UpToDate.step`, `UpToDate.run` — while marks are made in turn, that stays so, and marks rise.
-/

namespace ConsumerGroup.Engine

/-- A run at a broker that serves topic `topic`, through engines that all have some property. -/
inductive ServeWithin (w : World) (topic : String) (P : Engine → Prop) : Engine → Engine → Prop where
  /-- nothing happens -/
  | refl {e : Engine} : P e → ServeWithin w topic P e e
  /-- one more step -/
  | tail {e e' e'' : Engine} : ServeWithin w topic P e e' → Serve w topic e' e'' → P e'' →
      ServeWithin w topic P e e''

/-- A later session of the group than session `s` has a claim on the partition. -/
def IsFollowed (e : Engine) (group : String) (source : TopicPartition) (s : SessionId) : Prop :=
  ∃ s' < e.broker.sessions.size, s < s' ∧ (e.broker.session s').group = group ∧
    ((e.broker.session s').feeds.get? source).isSome = true

/-- If the last thing that has happened is a mark of the group on the partition, it was made for a
session that no other has followed. -/
def InTurn (group : String) (source : TopicPartition) (e : Engine) : Prop :=
  ∀ i o earlier, e.events = .marked i o :: earlier → ∀ s l, e.Reads group source s i l →
    ¬ e.IsFollowed group source s

/-- From `e₀` on, each mark of the group on the partition has passed all before it, and what is marked
last is what the group reads next. -/
structure Rises (group : String) (source : TopicPartition) (e₀ e : Engine) : Prop where
  /-- the marks since then -/
  marks : ∃ marks : List Offset,
    e.broker.commitHistory group source = e₀.broker.commitHistory group source ++ marks ∧
      marks.Pairwise (· < ·) ∧
      ∀ o ∈ marks, e₀.broker.startOffset group source < o ∧ o ≤ e.broker.startOffset group source
  /-- a session that begins now begins where one would have begun then, or later -/
  le : e₀.broker.startOffset group source ≤ e.broker.startOffset group source

/-- The claim of the last session of the group on the partition has marked what the group has marked
last, or begins there. -/
def UpToDate (group : String) (source : TopicPartition) (e : Engine) : Prop :=
  ∀ s c, (e.broker.session s).group = group → (e.broker.session s).feeds.get? source = some c →
    ¬ e.IsFollowed group source s →
    (∃ i l, e.Reads group source s i l ∧ .marked i (e.broker.startOffset group source) ∈ e.events) ∨
      e.broker.Draws source (e.broker.startOffset group source) s

variable {w : World} {topic group : String} {source : TopicPartition} {P : Engine → Prop}
  {e e' e₀ : Engine} {s : SessionId}

namespace ServeWithin

theorem service (h : ServeWithin w topic P e e') (hs : Service w topic e) : Service w topic e' := by
  induction h with
  | refl => exact hs
  | tail _ hstep _ ih => exact hstep.service ih

theorem run (h : ServeWithin w topic P e e') : Run w e e' := by
  induction h with
  | refl => exact .refl
  | tail _ hstep _ ih => exact ih.tail hstep.step

theorem within (h : ServeWithin w topic P e e') : P e' := by
  cases h with
  | refl hp => exact hp
  | tail _ _ hp => exact hp

theorem trans (h : ServeWithin w topic P e₀ e) (h' : ServeWithin w topic P e e') :
    ServeWithin w topic P e₀ e' := by
  induction h' with
  | refl => exact h
  | tail _ hstep hp ih => exact ih.tail hstep hp

theorem mono {Q : Engine → Prop} (h : ServeWithin w topic P e e') (hpq : ∀ e, P e → Q e) :
    ServeWithin w topic Q e e' := by
  induction h with
  | refl hp => exact .refl (hpq _ hp)
  | tail _ hstep hp ih => exact ih.tail hstep (hpq _ hp)

/-- A script that may happen to such a broker is such a run. -/
theorem play (h : ServeWithin w topic P e₀ e) {script : List Happening} (hs : e.AllServe w topic script)
    (hp : ∀ k ≤ script.length, P (play w e (script.take k))) :
    ServeWithin w topic P e₀ (Engine.play w e script) := by
  induction script generalizing e with
  | nil => exact h
  | cons line script ih =>
    have hnext := fun k hk => hp (k + 1) (Nat.succ_le_succ hk)
    refine ih ?_ hs.2 hnext
    have hp' : P (happen w e line) := hnext 0 (Nat.zero_le _)
    cases line with
    | task t =>
      rw [happen] at hp' ⊢
      rcases ht : e.step? w t with _ | e'
      · exact h
      · rw [ht] at hp'
        exact h.tail (.task t ht) hp'
    | act a => exact h.tail (.act a hs.1) hp'
    | pass millis => exact h.tail (.tick _ (Nat.le_add_right _ _)) hp'

end ServeWithin

/-! ## Sessions and their claims go on -/

theorem IsFollowed.extends (h : e.IsFollowed group source s) (hx : e.broker.Extends e'.broker) :
    e'.IsFollowed group source s := by
  obtain ⟨s', hs', hlt, hg, hf⟩ := h
  refine ⟨s', Nat.lt_of_lt_of_le hs' hx.size_le, hlt, ?_, ?_⟩
  · rw [hx.group_eq s' hs', hg]
  · rw [hx.feeds_eq s' hs', hf]

/-- Of two sessions of a group that have claims on a partition the earlier one is followed. -/
theorem isFollowed_of_lt {s' : SessionId} {c : ChannelId} (hlt : s < s')
    (hg : (e.broker.session s').group = group)
    (hf : (e.broker.session s').feeds.get? source = some c) : e.IsFollowed group source s :=
  ⟨s', Broker.lt_size_of_feeds hf, hlt, hg, by rw [hf, Option.isSome_some]⟩

theorem Reads.serve {i : Nat} {l : ClaimLoop} (h : e.Reads group source s i l)
    (hx : e.broker.Extends e'.broker) (hadv : Advances w e e') :
    ∃ l', e'.Reads group source s i l' := by
  obtain ⟨l', hl', hsame, -⟩ := hadv.sameClaim h.loop
  have hs := Broker.lt_size_of_feeds h.feeds
  refine ⟨l', hl', hsame.group_eq.trans h.group_eq, hsame.source_eq.trans h.source_eq, ?_, ?_⟩
  · rw [hx.group_eq s hs, h.session]
  · rw [hx.feeds_eq s hs, h.feeds, hsame.channel_eq]

/-! ## Marks rise -/

namespace Rises

theorem refl : Rises group source e e := ⟨⟨[], by simp⟩, Int.le_refl _⟩

theorem trans {e₁ : Engine} (h : Rises group source e₀ e₁) (h' : Rises group source e₁ e) :
    Rises group source e₀ e := by
  obtain ⟨⟨marks, heq, hsorted, hbounds⟩, hle⟩ := h
  obtain ⟨⟨marks', heq', hsorted', hbounds'⟩, hle'⟩ := h'
  refine ⟨⟨marks ++ marks', by rw [heq', heq, List.append_assoc], ?_, ?_⟩, Int.le_trans hle hle'⟩
  · refine List.pairwise_append.2 ⟨hsorted, hsorted', ?_⟩
    intro o ho o' ho'
    exact Int.lt_of_le_of_lt (hbounds o ho).2 (hbounds' o' ho').1
  · intro o ho
    rcases List.mem_append.1 ho with ho | ho
    · exact ⟨(hbounds o ho).1, Int.le_trans (hbounds o ho).2 hle'⟩
    · exact ⟨Int.lt_of_le_of_lt hle (hbounds' o ho).1, (hbounds' o ho).2⟩

/-- Nothing is marked. -/
theorem quiet
    (hhistory : e'.broker.commitHistory group source = e.broker.commitHistory group source)
    (hstart : e'.broker.startOffset group source = e.broker.startOffset group source) :
    Rises group source e e' :=
  ⟨⟨[], by simp [hhistory]⟩, Int.le_of_eq hstart.symm⟩

/-- One mark passes all before it. -/
theorem mark {o : Offset}
    (hhistory : e'.broker.commitHistory group source = e.broker.commitHistory group source ++ [o])
    (hstart : e'.broker.startOffset group source = o) (hlt : e.broker.startOffset group source < o) :
    Rises group source e e' := by
  subst hstart
  refine ⟨⟨[_], hhistory, List.pairwise_singleton _ _, ?_⟩, Int.le_of_lt hlt⟩
  intro o ho
  obtain rfl := List.mem_singleton.1 ho
  exact ⟨hlt, Int.le_refl _⟩

end Rises

/-- What one claim marks rises. -/
theorem lt_of_marked (h : Service w source.topic e) {i : Nat} {l : ClaimLoop}
    (hr : e.Reads group source s i l) {c : Offset} {earlier : List Event}
    (hc : .marked i c :: earlier <:+ e.events) {c' : Offset} (hc' : .marked i c' ∈ earlier) : c' < c :=
  ((h.reachable hr.loop).safe (h.ordered hr.loop hr.source_eq)).increasing c earlier hc c' hc'

/-- And it lies above the offset where the claim begins. -/
theorem Reads.base_lt {base : Offset} {i : Nat} {l : ClaimLoop} (hr : e.Reads group source s i l)
    (h : Service w source.topic e) (hd : e.broker.Draws source base s) {o : Offset}
    (ho : .marked i o ∈ e.events) : base < o := by
  obtain ⟨m, hm, hlt⟩ := (h.reachable hr.loop).exists_lt_of_marked ho
  obtain ⟨log, -, -, -, hge⟩ := hd l.channel hr.feeds
  exact Int.lt_of_le_of_lt (hge m hm) hlt

/-- A step in which nothing is marked for the group on the partition. -/
theorem UpToDate.quiet (hup : e.UpToDate group source) (hs : Service w source.topic e)
    (h : Serve w source.topic e e')
    (hstart : e'.broker.startOffset group source = e.broker.startOffset group source) :
    e'.UpToDate group source := by
  have hdoes := h.does hs
  have hadv := advances_of_step hs.sound h.step
  have hwired := hs.wired
  intro s c hg hf hnot
  rw [hstart]
  by_cases hlt : s < e.broker.sessions.size
  · rw [hdoes.broker.sessions.group_eq s hlt] at hg
    rw [hdoes.broker.sessions.feeds_eq s hlt] at hf
    refine (hup s c hg hf fun hfollowed => hnot (hfollowed.extends hdoes.broker.sessions)).imp ?_ ?_
    · rintro ⟨i, l, hreads, hmarked⟩
      obtain ⟨-, -, -, hsuffix⟩ := hadv.sameClaim hreads.loop
      obtain ⟨l', hreads'⟩ := hreads.serve hdoes.broker.sessions hadv
      exact ⟨i, l', hreads', hsuffix.subset hmarked⟩
    · exact fun hd => hd.change hwired hlt hdoes.broker
  · -- the session is new, and its claim begins where the group has marked
    have hopened := hdoes.broker.opened (Nat.le_of_not_lt hlt) (Broker.lt_size_of_feeds hf)
      fun group log hlog => hs.startOffset_le group hlog
    rw [hg] at hopened
    exact Or.inr hopened

/-- A mark that is made in turn passes all before it. -/
theorem UpToDate.marks (hup : e.UpToDate group source) (hs : Service w source.topic e)
    (h : Serve w source.topic e e') (hturn : e'.InTurn group source) {i : Nat} {l : ClaimLoop}
    {o : Offset} {news : List Event} (hl : e.loops[i]? = some l) (hg : l.group = group)
    (hsource : l.source = source) (hevents : e'.events = .marked i o :: (news ++ e.events))
    (hstart : e'.broker.startOffset group source = o) :
    e'.UpToDate group source ∧ e.broker.startOffset group source < o := by
  have hs' := h.service hs
  have hdoes := h.does hs
  have hserving : e.Serving group source := serving_of_service hs
  have hadv := advances_of_step hs.sound h.step
  obtain ⟨s, hsession, hfeeds⟩ := hserving.loops i l hl
  have hreads : e.Reads group source s i l := ⟨hl, hg, hsource, hsession.trans hg, hsource ▸ hfeeds⟩
  obtain ⟨l', hreads'⟩ := hreads.serve hdoes.broker.sessions hadv
  have hlast := hturn i o _ hevents s l' hreads'
  have hmark : .marked i o :: (news ++ e.events) <:+ e'.events := hevents ▸ List.suffix_refl _
  refine ⟨?_, ?_⟩
  · -- no other session is the last one
    intro s' c hg' hf' hnot'
    obtain rfl : s' = s := by
      rcases Nat.lt_trichotomy s' s with hlt | heq | hlt
      · exact absurd (isFollowed_of_lt hlt hreads'.session hreads'.feeds) hnot'
      · exact heq
      · exact absurd (isFollowed_of_lt hlt hg' hf') hlast
    exact Or.inl ⟨i, l', hreads', hstart ▸ hmark.subset List.mem_cons_self⟩
  · have hlast₀ : ¬ e.IsFollowed group source s := fun hf => hlast (hf.extends hdoes.broker.sessions)
    rcases hup s l.channel hreads.session hreads.feeds hlast₀ with ⟨i', l'', hreads'', hmarked⟩ | hd
    · obtain ⟨rfl, -⟩ := hreads.unique hreads'' hs.sound
      exact lt_of_marked hs' hreads' hmark (List.mem_append_right _ hmarked)
    · have hlt := Broker.lt_size_of_feeds hreads.feeds
      exact hreads'.base_lt hs' (hd.change hserving.broker.wired hlt hdoes.broker)
        (hmark.subset List.mem_cons_self)

/-- **One step.**  While marks are made in turn, a step marks nothing for the group on the partition,
or an offset that passes all before it. -/
theorem UpToDate.step (hup : e.UpToDate group source) (hs : Service w source.topic e)
    (h : Serve w source.topic e e') (hturn : e'.InTurn group source) :
    e'.UpToDate group source ∧ ∃ mark : Option Offset,
      e'.broker.commitHistory group source =
        e.broker.commitHistory group source ++ mark.toList ∧
      e'.broker.startOffset group source = mark.getD (e.broker.startOffset group source) ∧
      ∀ o, mark = some o → e.broker.startOffset group source < o := by
  have hothers : ∀ {commit : Option Commit}, e.broker.Commits commit e'.broker →
      (∀ c, commit = some c → (c.group, c.source) ≠ (group, source)) → e'.UpToDate group source ∧
      ∃ mark : Option Offset, e'.broker.commitHistory group source =
          e.broker.commitHistory group source ++ mark.toList ∧
        e'.broker.startOffset group source = mark.getD (e.broker.startOffset group source) ∧
        ∀ o, mark = some o → e.broker.startOffset group source < o := by
    intro commit hcommits hne
    obtain ⟨hhistory, hstart⟩ := hcommits.others hne
    exact ⟨hup.quiet hs h hstart, none, by simp [hhistory], hstart, nofun⟩
  cases commits_of_step hs.sound h.step with
  | nothing _ _ hcommits => exact hothers hcommits nofun
  | @marks i l o news hl hevents _ hcommits =>
    by_cases hkey : (l.group, l.source) = (group, source)
    · obtain ⟨hg, hsource⟩ := Prod.mk.inj hkey
      rw [hg, hsource] at hcommits
      obtain ⟨hhistory, hstart⟩ := hcommits.own
      obtain ⟨hup', hlt⟩ := hup.marks hs h hturn hl hg hsource hevents hstart
      refine ⟨hup', some o, hhistory, hstart, ?_⟩
      intro o' ho'
      exact Option.some.inj ho' ▸ hlt
    · refine hothers hcommits ?_
      intro c hc
      obtain rfl := Option.some.inj hc
      exact hkey

/-- **A run.**  While marks are made in turn, what the group marks on the partition rises. -/
theorem UpToDate.run (hup : e₀.UpToDate group source) (hs : Service w source.topic e₀)
    (h : ServeWithin w source.topic (InTurn group source) e₀ e) :
    e.UpToDate group source ∧ Rises group source e₀ e := by
  induction h with
  | refl => exact ⟨hup, .refl⟩
  | tail hrun hserve hturn ih =>
    obtain ⟨hup', hrises⟩ := ih
    obtain ⟨hup'', mark, hhistory, hstart, hlt⟩ := hup'.step (hrun.service hs) hserve hturn
    cases mark with
    | none => exact ⟨hup'', hrises.trans (.quiet (by simpa using hhistory) hstart)⟩
    | some o => exact ⟨hup'', hrises.trans (.mark hhistory hstart (hlt o rfl))⟩

/-- Nobody has joined a broker that has just been made. -/
theorem upToDate_empty : ({} : Engine).UpToDate group source :=
  fun _ _ _ hf => absurd (Broker.lt_size_of_feeds hf) (Nat.not_lt_zero _)

end ConsumerGroup.Engine
