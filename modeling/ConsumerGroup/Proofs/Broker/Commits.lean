import ConsumerGroup.Broker.Basic

/-!
# What a broker commits

A mark replaces what its group has committed on its partition, and is kept in the list of all marks.
Nothing else does anything to either.

* `Broker.Commits` — between two brokers one mark is committed, or none.
* `commits_join`, `commits_append`, `commits_closeGroup` and others — what a broker does without a mark.
* `Commits.own`, `Commits.others` — what a mark comes to for the group on the partition, and for others.
-/

namespace ConsumerGroup.Broker

variable {b b' b'' : Broker} {commit : Option Commit} {group : String}
  {source : TopicPartition}

/-- From `b` to `b'` a mark is committed, if one is given, and no other. -/
structure Commits (b : Broker) (commit : Option Commit) (b' : Broker) : Prop where
  /-- it takes the place of the last one -/
  committed_eq : b'.committed =
    commit.elim b.committed fun c => b.committed.insert (c.group, c.source) c.offset
  /-- and is kept -/
  commitLog_eq : b'.commitLog = commit.elim b.commitLog b.commitLog.push

namespace Commits

theorem refl (b : Broker) : b.Commits none b := ⟨rfl, rfl⟩

/-- Before a mark nothing was committed. -/
theorem after (h : b.Commits none b') (h' : b'.Commits commit b'') : b.Commits commit b'' where
  committed_eq := by rw [h'.committed_eq, h.committed_eq, Option.elim_none]
  commitLog_eq := by rw [h'.commitLog_eq, h.commitLog_eq, Option.elim_none]

theorem mark (b : Broker) (group : String) (source : TopicPartition) (o : Offset) :
    b.Commits (some ⟨group, source, o⟩) (b.mark group source o) := ⟨rfl, rfl⟩

/-- Telling one channel after the other commits nothing if telling one does not. -/
theorem foldl {β : Type} {f : Broker → β → Broker} (hf : ∀ (b : Broker) (x : β), b.Commits none (f b x))
    (xs : List β) (b : Broker) : b.Commits none (xs.foldl f b) := by
  induction xs generalizing b with
  | nil => exact refl b
  | cons x xs ih => exact (hf b x).after (ih _)

/-- Nor does claiming one thing after the other. -/
theorem foldl_claims {β : Type} {f : Session × Broker → β → Session × Broker}
    (hf : ∀ (x : Session × Broker) (y : β), x.2.Commits none (f x y).2) (ys : List β)
    (x : Session × Broker) : x.2.Commits none (ys.foldl f x).2 := by
  induction ys generalizing x with
  | nil => exact refl x.2
  | cons y ys ih => exact (hf x y).after (ih _)

/-! ## The marks of a group on a partition -/

/-- A mark of the group on the partition is where it reads next, and the last of its marks. -/
theorem own {o : Offset} (h : b.Commits (some ⟨group, source, o⟩) b') :
    b'.commitHistory group source = b.commitHistory group source ++ [o] ∧
      b'.startOffset group source = o := by
  refine ⟨?_, ?_⟩
  · rw [commitHistory, h.commitLog_eq, commitHistory]
    simp
  · rw [startOffset, h.committed_eq, Option.elim_some, Table.get?_insert_self, Option.getD_some]

/-- The marks of other groups and on other partitions change nothing there. -/
theorem others (h : b.Commits commit b')
    (hne : ∀ c, commit = some c → (c.group, c.source) ≠ (group, source)) :
    b'.commitHistory group source = b.commitHistory group source ∧
      b'.startOffset group source = b.startOffset group source := by
  rw [commitHistory, h.commitLog_eq, commitHistory, startOffset, h.committed_eq, startOffset]
  cases commit with
  | none => exact ⟨rfl, rfl⟩
  | some c =>
    have hne := hne c rfl
    have hnot : ¬ (c.group = group ∧ c.source = source) := fun heq => hne (Prod.ext heq.1 heq.2)
    refine ⟨?_, ?_⟩
    · rw [Option.elim_some, Array.toList_push, List.filter_append]
      simp [hnot]
    · rw [Option.elim_some, Table.get?_insert_of_ne _ hne.symm]

end Commits

/-! ## What commits nothing -/

theorem commits_modifyChannel (b : Broker) (c : ChannelId) (f : Channel → Channel) :
    b.Commits none (b.modifyChannel c f) := ⟨rfl, rfl⟩

theorem commits_modifySession (b : Broker) (s : SessionId) (f : Session → Session) :
    b.Commits none (b.modifySession s f) := ⟨rfl, rfl⟩

theorem commits_finishSession (b : Broker) (s : SessionId) (how : SessionEnd) :
    b.Commits none (b.finishSession s how) :=
  (Commits.foldl (fun b _ => b.commits_modifyChannel _ _) (b.session s).feeds.entries b).after
    (commits_modifySession _ s _)

theorem commits_closeGroup (b : Broker) (group : String) (how : SessionEnd) :
    b.Commits none (b.closeGroup group how) := by
  rw [closeGroup]
  split
  · exact commits_finishSession b _ how
  · exact .refl b

theorem commits_dropSession (b : Broker) (s : SessionId) : b.Commits none (b.dropSession s) :=
  (Commits.foldl (fun b _ => b.commits_modifyChannel _ _) (b.session s).pending b).after
    (commits_modifySession _ s _)

theorem commits_nextClaim (b : Broker) (s : SessionId) : b.Commits none (b.nextClaim s).2 := by
  unfold nextClaim
  dsimp only
  split <;> exact ⟨rfl, rfl⟩

theorem commits_append {now : Int} {payload : ByteArray} {headers : Headers} {o : Offset}
    (h : b.append now source payload headers = .ok (o, b')) : b.Commits none b' := by
  rw [append] at h
  split at h
  · cases h
  · rename_i log _
    obtain ⟨-, rfl⟩ := Prod.mk.inj (Except.ok.inj h)
    have hlogged : b.Commits none (b.setLog source (log.push ⟨log.size, payload, headers, some now⟩)) :=
      ⟨rfl, rfl⟩
    exact hlogged.after (.foldl (fun b _ => b.commits_modifyChannel _ _) _ _)

theorem commits_publish (b : Broker) (now : Int) (record : Record) :
    b.Commits none (b.publish now record).2 := by
  rw [publish]
  split
  · exact ⟨rfl, rfl⟩
  · dsimp only
    split
    · split
      · rename_i ha
        have happend := commits_append ha
        exact ⟨happend.committed_eq, happend.commitLog_eq⟩
      · exact ⟨rfl, rfl⟩
    · exact ⟨rfl, rfl⟩

theorem commits_claimPartition (b : Broker) (session : Session) (source : TopicPartition)
    (log : Array Message) : b.Commits none (b.claimPartition session source log).2 := by
  rw [claimPartition]
  dsimp only
  split <;> exact ⟨rfl, rfl⟩

theorem commits_claimTopic (b : Broker) (session : Session) (topic : String) :
    b.Commits none (b.claimTopic session topic).2 := by
  refine Commits.foldl_claims ?_ ((b.topics.get? topic).getD []).zipIdx (session, b)
  rintro ⟨session, b⟩ ⟨log, i⟩
  exact commits_claimPartition b session ⟨topic, i⟩ log

theorem commits_join {cluster : ClusterSpec} {topics : List String}
    {answer : Except BrokerError SessionId} (h : b.join cluster group topics = (answer, b')) :
    b.Commits none b' := by
  rw [join] at h
  dsimp only at h
  split at h
  · obtain ⟨-, rfl⟩ := Prod.mk.inj h
    exact ⟨rfl, rfl⟩
  · split at h
    · obtain ⟨-, rfl⟩ := Prod.mk.inj h
      exact ⟨rfl, rfl⟩
    · obtain ⟨-, rfl⟩ := Prod.mk.inj h
      have hnoted : b.Commits none { b with joins := b.joins.push ⟨group, cluster.brokers, topics⟩ } :=
        ⟨rfl, rfl⟩
      have hclaims := (hnoted.after (commits_closeGroup _ group .ended)).after
        (.foldl_claims (fun x topic => x.2.commits_claimTopic x.1 topic) topics ({ group }, _))
      exact ⟨hclaims.committed_eq, hclaims.commitLog_eq⟩

end ConsumerGroup.Broker
