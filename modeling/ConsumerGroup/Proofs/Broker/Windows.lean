import ConsumerGroup.Broker.Basic
import Mathlib.Data.List.Basic

/-!
# Windows on a log

A claim brings what its log holds from some offset on, without a gap.

* `IsLog` — the messages of a log have their places as offsets.
* `Channel.Window` — what came in on a channel is what the log holds from its base on, as far as it
  came; as long as the channel is fed, all of it has come.
* `Window.unsent`, `Window.sent` — a message that is appended to the log keeps windows.
-/

namespace ConsumerGroup

/-! ## Logs -/

/-- Each message has its place in the log as its offset. -/
def IsLog (log : List Message) : Prop := ∀ (k : Nat) (m : Message), log[k]? = some m → m.offset = k

theorem IsLog.append {log : List Message} (h : IsLog log) {m : Message}
    (hm : m.offset = log.length) : IsLog (log ++ [m]) := by
  intro k m' hk
  rw [List.getElem?_append] at hk
  split at hk
  · exact h k m' hk
  · rw [List.getElem?_singleton] at hk
    split at hk
    · obtain rfl := Option.some.inj hk
      rw [hm]
      lia
    · cases hk

/-- The offset tells the message. -/
theorem IsLog.eq_of_offset_eq {log : List Message} (h : IsLog log) {m m' : Message} (hm : m ∈ log)
    (hm' : m' ∈ log) (ho : m.offset = m'.offset) : m = m' := by
  obtain ⟨k, hk⟩ := List.mem_iff_getElem?.1 hm
  obtain ⟨k', hk'⟩ := List.mem_iff_getElem?.1 hm'
  have heq : (k : Offset) = k' := by rw [← h k m hk, ho, h k' m' hk']
  rw [Int.ofNat_inj.1 heq] at hk
  exact Option.some.inj (hk.symm.trans hk')

/-- Whatever comes from a log in its order comes in order. -/
theorem IsLog.increasing {log ms : List Message} (h : IsLog log) (hsub : ms.Sublist log) :
    (ms.map Message.offset).Pairwise (· < ·) ∧ ∀ m ∈ ms, 0 ≤ m.offset := by
  have hpair : (log.map Message.offset).Pairwise (· < ·) := by
    rw [List.pairwise_iff_getElem]
    intro j k hj hk hjk
    rw [List.length_map] at hj hk
    rw [List.getElem_map, List.getElem_map, h j _ (List.getElem?_eq_getElem hj),
      h k _ (List.getElem?_eq_getElem hk)]
    exact Int.ofNat_lt.2 hjk
  refine ⟨hpair.sublist (hsub.map _), ?_⟩
  intro m hm
  obtain ⟨k, hk⟩ := List.mem_iff_getElem?.1 (hsub.subset hm)
  rw [h k m hk]
  exact Int.natCast_nonneg k

/-- The messages of a log lie below its end. -/
theorem IsLog.offset_lt {log : List Message} (h : IsLog log) {m : Message} (hm : m ∈ log) :
    m.offset < log.length := by
  obtain ⟨k, hk⟩ := List.mem_iff_getElem?.1 hm
  obtain ⟨hlt, -⟩ := List.getElem?_eq_some_iff.1 hk
  rw [h k m hk]
  exact Int.ofNat_lt.2 hlt

/-- The messages at a given offset and after it are those from that place on. -/
theorem IsLog.filter_eq_drop {log : List Message} (h : IsLog log) (o : Offset) :
    log.filter (fun m => o ≤ m.offset) = log.drop o.toNat := by
  conv_lhs => rw [← List.take_append_drop o.toNat log, List.filter_append]
  have hbelow : (log.take o.toNat).filter (fun m => o ≤ m.offset) = [] := by
    rw [List.filter_eq_nil_iff]
    intro m hm
    obtain ⟨k, hk, rfl⟩ := List.mem_take_iff_getElem.1 hm
    have := h k _ (List.getElem?_eq_getElem (by omega))
    rw [decide_eq_true_eq]
    lia
  have habove : (log.drop o.toNat).filter (fun m => o ≤ m.offset) = log.drop o.toNat := by
    rw [List.filter_eq_self]
    intro m hm
    obtain ⟨k, hk, rfl⟩ := List.mem_drop_iff_getElem.1 hm
    have := h _ _ (List.getElem?_eq_getElem hk)
    rw [decide_eq_true_eq]
    lia
  rw [hbelow, habove, List.nil_append]

/-! ## Windows -/

/-- What has come in on a channel from a log is what the log holds from `base` on; all of it has come
as long as the claim is live and both ends of the channel are open. -/
structure Channel.Window (ch : Channel) (log : List Message) (base : Nat) (live : Bool) : Prop where
  /-- it starts within the log, or right behind it -/
  base_le : base ≤ log.length
  /-- nothing is left out -/
  comes : ch.arrived <+: log.drop base
  /-- nothing is missing -/
  complete : live = true → ch.fed = true → ch.read = true → ch.arrived = log.drop base

/-- What may happen to a channel without anything coming in. -/
structure Channel.Stays (ch ch' : Channel) : Prop where
  /-- nothing comes in -/
  arrived_eq : ch'.arrived = ch.arrived
  /-- nothing is lost for want of room -/
  lost_eq : ch'.lost = ch.lost
  /-- the feeding end is not opened again -/
  fed_of : ch'.fed = true → ch.fed = true
  /-- nor is the reading end -/
  read_of : ch'.read = true → ch.read = true

namespace Channel

variable {ch ch' : Channel} {log : List Message} {base : Nat} {live live' : Bool}

theorem Stays.refl (ch : Channel) : ch.Stays ch := ⟨rfl, rfl, id, id⟩

theorem Stays.trans {ch'' : Channel} (h : ch.Stays ch') (h' : ch'.Stays ch'') : ch.Stays ch'' where
  arrived_eq := h'.arrived_eq.trans h.arrived_eq
  lost_eq := h'.lost_eq.trans h.lost_eq
  fed_of hf := h.fed_of (h'.fed_of hf)
  read_of hr := h.read_of (h'.read_of hr)

theorem stays_closeFeed (ch : Channel) : ch.Stays ch.closeFeed := ⟨rfl, rfl, nofun, id⟩

theorem stays_closeReader (ch : Channel) : ch.Stays ch.closeReader := ⟨rfl, rfl, id, nofun⟩

/-- As long as nothing comes in, a window stays one. -/
theorem Window.stays (h : ch.Window log base live) (hs : ch.Stays ch')
    (hl : live' = true → live = true) : ch'.Window log base live' where
  base_le := h.base_le
  comes := hs.arrived_eq ▸ h.comes
  complete hlive hf hr := hs.arrived_eq ▸ h.complete (hl hlive) (hs.fed_of hf) (hs.read_of hr)

/-- A claim that is not live does not get what is appended to the log. -/
theorem Window.unsent (h : ch.Window log base false) (m : Message) :
    ch.Window (log ++ [m]) base false where
  base_le := by
    have := h.base_le
    rw [List.length_append]
    omega
  comes := by
    rw [List.drop_append_of_le_length h.base_le]
    exact h.comes.trans (List.prefix_append _ _)
  complete := nofun

/-- What is sent comes in, or does not. -/
theorem arrived_send (ch : Channel) (m : Message) :
    (ch.send m).arrived = ch.arrived ∨ (ch.send m).arrived = ch.arrived ++ [m] := by
  rw [send]
  split
  · exact Or.inr rfl
  · split
    · exact Or.inl rfl
    · exact Or.inl rfl

/-- What was lost stays lost. -/
theorem lost_of_send (m : Message) (h : (ch.send m).lost = []) : ch.lost = [] := by
  rw [send] at h
  split at h
  · exact h
  · split at h
    · exact absurd h (by simp)
    · exact h

/-- A live claim gets what is appended to the log, unless it is lost. -/
theorem Window.sent (h : ch.Window log base true) (m : Message) (hlost : (ch.send m).lost = []) :
    (ch.send m).Window (log ++ [m]) base true := by
  have hdrop : (log ++ [m]).drop base = log.drop base ++ [m] := List.drop_append_of_le_length h.base_le
  have hbase : base ≤ (log ++ [m]).length := by
    have := h.base_le
    rw [List.length_append]
    omega
  rw [send] at hlost ⊢
  split
  · rename_i hacc
    simp only [accepts, Bool.and_eq_true] at hacc
    have heq : ch.arrived ++ [m] = (log ++ [m]).drop base := by
      rw [hdrop, h.complete rfl hacc.1.1 hacc.1.2]
    exact ⟨hbase, heq ▸ List.prefix_refl _, fun _ _ _ => heq⟩
  · rename_i hacc
    rw [if_neg hacc] at hlost
    split
    · rename_i hopen
      rw [if_pos hopen] at hlost
      exact absurd hlost (by simp)
    · rename_i hopen
      refine ⟨hbase, ?_, fun _ hf hr => absurd (by simp [hf, hr]) hopen⟩
      rw [hdrop]
      exact h.comes.trans (List.prefix_append _ _)

/-- A new claim brings what the log holds. -/
theorem window_ofBacklog {capacity : Nat} (hbase : base ≤ log.length)
    (hlost : (ofBacklog capacity (log.drop base)).lost = []) (live : Bool) :
    (ofBacklog capacity (log.drop base)).Window log base live := by
  have hall : (ofBacklog capacity (log.drop base)).arrived = log.drop base :=
    List.take_of_length_le (List.drop_eq_nil_iff.1 hlost)
  exact ⟨hbase, List.take_prefix _ _, fun _ _ _ => hall⟩

/-- The message at offset `o` has come in if it lies in the window, and one at `o` or after it has. -/
theorem Window.mem_of_le (h : ch.Window log base live) (hn : IsLog log) {o : Nat} {m : Message}
    (ho : base ≤ o) (hm : m ∈ ch.arrived) (hle : (o : Offset) ≤ m.offset) :
    ∃ m' ∈ ch.arrived, m'.offset = o ∧ log[o]? = some m' := by
  obtain ⟨k, hk, rfl⟩ := List.getElem_of_mem hm
  have hget : ∀ j (hj : j < ch.arrived.length), log[base + j]? = some ch.arrived[j] := by
    intro j hj
    rw [← List.getElem?_drop, ← List.getElem?_eq_getElem hj]
    exact (List.prefix_iff_getElem?.1 h.comes j hj).trans (List.getElem?_eq_getElem hj).symm
  have hoff := hn _ _ (hget k hk)
  have hlt : o - base < ch.arrived.length := by lia
  have hat := hget (o - base) hlt
  rw [Nat.add_sub_cancel' ho] at hat
  exact ⟨_, List.getElem_mem hlt, hn o _ hat, hat⟩

/-- What comes in through a window comes in in order. -/
theorem Window.increasing (h : ch.Window log base live) (hn : IsLog log) :
    (ch.arrived.map Message.offset).Pairwise (· < ·) ∧ ∀ m ∈ ch.arrived, 0 ≤ m.offset :=
  hn.increasing (h.comes.sublist.trans (List.drop_sublist _ _))

end Channel

end ConsumerGroup
