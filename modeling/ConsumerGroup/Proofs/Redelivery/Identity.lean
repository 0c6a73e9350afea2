import ConsumerGroup.Proofs.Redelivery.Hops
import Mathlib.Data.List.Nodup
import Mathlib.Logic.Relation

/-!
# A redelivered message stays the same message

However often a message is published again, by whatever consumers and wherever it is read, it keeps
its content, its trace, whom it is addressed to and the topic it came from.  Its header list is only
touched where the count, the trace and the origin stand (`Headers.Rewritten`).

Main statement: `redelivered_keeps_identity`.
-/

namespace ConsumerGroup

namespace Headers

/-! ## Lists rewritten under a few names -/

/-- `h.Rewritten keys h'`: `h'` is `h` except for the first values under these names.  Names that are
missing may be added at the end. -/
structure Rewritten (keys : List String) (h h' : Headers) : Prop where
  /-- all names stay in their places, and what is added is among the names and was missing -/
  names : ∃ added, h'.toList.map Prod.fst = h.toList.map Prod.fst ++ added ∧ added.Nodup ∧
    ∀ k ∈ added, k ∈ keys ∧ k ∉ h.toList.map Prod.fst
  /-- a pair keeps its place and its value, unless it is the first one under one of the names -/
  kept : ∀ (j : Nat) k v, h.toList[j]? = some (k, v) →
    (k ∈ keys → k ∈ (h.toList.take j).map Prod.fst) → h'.toList[j]? = some (k, v)

namespace Rewritten

variable {keys : List String} {h h' h'' : Headers}

theorem refl (keys : List String) (h : Headers) : h.Rewritten keys h where
  names := ⟨[], (List.append_nil _).symm, List.nodup_nil, fun _ hk => by cases hk⟩
  kept _ _ _ hj _ := hj

theorem trans (h₁ : h.Rewritten keys h') (h₂ : h'.Rewritten keys h'') : h.Rewritten keys h'' := by
  obtain ⟨added₁, hnames₁, hnodup₁, hmem₁⟩ := h₁.names
  obtain ⟨added₂, hnames₂, hnodup₂, hmem₂⟩ := h₂.names
  rw [hnames₁] at hnames₂ hmem₂
  refine ⟨⟨added₁ ++ added₂, ?_, ?_, ?_⟩, ?_⟩
  · rw [hnames₂, List.append_assoc]
  · refine List.nodup_append.2 ⟨hnodup₁, hnodup₂, ?_⟩
    rintro k hk₁ _ hk₂ rfl
    exact (hmem₂ k hk₂).2 (List.mem_append_right _ hk₁)
  · intro k hk
    rcases List.mem_append.1 hk with hk | hk
    · exact hmem₁ k hk
    · exact ⟨(hmem₂ k hk).1, fun hk' => (hmem₂ k hk).2 (List.mem_append_left _ hk')⟩
  · intro j k v hj hfirst
    obtain ⟨hlt, -⟩ := List.getElem?_eq_some_iff.1 hj
    -- the names before position `j` are the same in the list between
    have hbefore : (h'.toList.take j).map Prod.fst = (h.toList.take j).map Prod.fst := by
      rw [List.map_take, hnames₁, List.take_append_of_le_length, ← List.map_take]
      rw [List.length_map]
      exact Nat.le_of_lt hlt
    exact h₂.kept j k v (h₁.kept j k v hj hfirst) fun hk => by rw [hbefore]; exact hfirst hk

end Rewritten

theorem map_fst_replace (key value : String) (l : List (String × String)) :
    (replace key value l).map Prod.fst =
      l.map Prod.fst ++ if key ∈ l.map Prod.fst then [] else [key] := by
  induction l with
  | nil => rfl
  | cons e l ih =>
    obtain ⟨k, v⟩ := e
    rw [replace]
    split
    · rename_i hk
      simp [hk]
    · rename_i hk
      have hk' : key ≠ k := Ne.symm hk
      simp only [List.map_cons, ih, List.mem_cons, hk', false_or, List.cons_append]

theorem getElem?_replace {key value k v : String} {l : List (String × String)} {j : Nat}
    (hj : l[j]? = some (k, v)) (hfirst : k = key → k ∈ (l.take j).map Prod.fst) :
    (replace key value l)[j]? = some (k, v) := by
  induction l generalizing j with
  | nil => cases hj
  | cons e l ih =>
    obtain ⟨k', v'⟩ := e
    rw [replace]
    cases j with
    | zero =>
      cases hj
      have hne : k ≠ key := fun hk => by cases hfirst hk
      rw [if_neg hne]
      rfl
    | succ j =>
      split
      · exact hj
      · rename_i hne
        refine ih hj ?_
        rintro rfl
        exact (List.mem_cons.1 (hfirst rfl)).resolve_left (Ne.symm hne)

/-- Setting a header rewrites the list under its name. -/
theorem rewritten_set {keys : List String} {key : String} (hkey : key ∈ keys) (h : Headers)
    (value : String) : h.Rewritten keys (h.set key value) := by
  refine ⟨⟨_, map_fst_replace key value h.toList, ?_, ?_⟩, ?_⟩
  · split
    · exact List.nodup_nil
    · exact List.nodup_singleton key
  · intro k hk
    split at hk
    · cases hk
    · rename_i hmissing
      rw [List.mem_singleton] at hk
      exact hk ▸ ⟨hkey, hmissing⟩
  · intro j k v hj hfirst
    exact getElem?_replace hj fun hk => hfirst (hk ▸ hkey)

/-- The names under which a redelivery writes. -/
def redeliveryKeys : List String := [retryKey, traceKey, topicKey]

end Headers

namespace Redeliverer

variable {r : Redeliverer} {e e' : Envelope}

/-- The record that redelivers a message has the headers of the message, rewritten under the names of
the count, the trace and the origin. -/
theorem rewritten_headersFor (e : Envelope) :
    e.headers.Rewritten Headers.redeliveryKeys (headersFor e) := by
  have hbefore : e.headers.Rewritten Headers.redeliveryKeys e.redeliveryHeaders :=
    (Headers.rewritten_set (by decide) _ _).trans (Headers.rewritten_set (by decide) _ _)
  simp only [headersFor]
  split
  · exact hbefore
  · exact hbefore.trans (Headers.rewritten_set (by decide) _ _)

namespace Hop

theorem rewritten (h : r.Hop e e') : e.headers.Rewritten Headers.redeliveryKeys e'.headers := by
  rw [h.headers_eq]
  exact rewritten_headersFor e

/-- The message stays addressed to the same group. -/
theorem group?_eq (h : r.Hop e e') : e'.group? = e.group? := by
  have hgroup : (headersFor e).get? Headers.groupKey = e.headers.get? Headers.groupKey :=
    get?_headersFor_of_ne (by decide) (by decide) (by decide) e
  rw [Envelope.group?, Envelope.group?, Envelope.headerNonempty?, Envelope.headerNonempty?,
    h.headers_eq, hgroup]

theorem isAddressedTo_eq (h : r.Hop e e') (group : String) :
    e'.isAddressedTo group = e.isAddressedTo group := by
  simp only [Envelope.isAddressedTo, h.group?_eq]

/-- The origin of a message is read back, wherever it is read, if it has a name. -/
theorem originTopic_eq (h : r.Hop e e') (horigin : e.originTopic ≠ "") :
    e'.originTopic = e.originTopic := by
  rw [Envelope.originTopic, Envelope.headerNonempty?, h.headers_eq, get?_topicKey_headersFor,
    Option.filter_some, if_pos (decide_eq_true horigin), Option.getD_some]

end Hop

end Redeliverer

namespace Envelope

/-- `e.Redelivered e'`: `e'` is read of `e` after any number of hops, each at any consumer. -/
abbrev Redelivered : Envelope → Envelope → Prop :=
  Relation.ReflTransGen fun e e' => ∃ r : Redeliverer, r.Hop e e'

/-- A message read from a topic with a name came from a topic with a name. -/
theorem originTopic_ne {e : Envelope} (h : e.topic ≠ "") : e.originTopic ≠ "" := by
  rw [originTopic, headerNonempty?]
  rcases hvalue : (e.headers.get? Headers.topicKey).filter (· ≠ "") with _ | origin
  · exact h
  · exact of_decide_eq_true (Option.filter_eq_some_iff.1 hvalue).2

/-- **A redelivered message keeps its identity over any number of hops.**  Of a message that was read
from a topic with a name, whatever its headers are:

* content, trace, addressee and origin are the same after any hops, wherever it is read;
* if it brought no trace id, the fresh one it got when it was first read is the one of every hop;
* of its headers only the first count, the first trace and the first origin change; what is added to
  them stands at the end, and under each of these three names at most once. -/
theorem redelivered_keeps_identity (e e' : Envelope) (htopic : e.topic ≠ "")
    (h : e.Redelivered e') :
    e'.payload = e.payload ∧ e'.trace = e.trace ∧ e'.group? = e.group? ∧
    (∀ group, e'.isAddressedTo group = e.isAddressedTo group) ∧ e'.originTopic = e.originTopic ∧
    (∀ fresh source m, e = .ofMessage fresh source m →
      (m.headers.get? Headers.traceKey).bind TraceId.ofText? = none → e'.trace = fresh) ∧
    e.headers.Rewritten Headers.redeliveryKeys e'.headers := by
  induction h with
  | refl =>
    refine ⟨rfl, rfl, rfl, fun _ => rfl, rfl, ?_, Headers.Rewritten.refl _ _⟩
    rintro fresh source m rfl hnone
    simp only [ofMessage, TraceId.ofHeader, hnone, Option.getD_none]
  | tail _ hop ih =>
    obtain ⟨r, hop⟩ := hop
    obtain ⟨hpayload, htrace, hgroup, haddressed, horigin, hfresh, hheaders⟩ := ih
    have hnamed := horigin ▸ originTopic_ne htopic
    refine ⟨hop.payload_eq.trans hpayload, hop.trace_eq.trans htrace, hop.group?_eq.trans hgroup,
      fun group => (hop.isAddressedTo_eq group).trans (haddressed group),
      (hop.originTopic_eq hnamed).trans horigin, ?_, hheaders.trans hop.rewritten⟩
    intro fresh source m he hnone
    exact hop.trace_eq.trans (hfresh fresh source m he hnone)

/-- A message that names its group twice and its topic with an empty text is redelivered by two
consumers, in between through another topic. -/
theorem redelivered_keeps_identity_twice :
    let m : Message := ⟨4, ⟨#[1]⟩,
      ⟨[("group", "billing"), ("topic", ""), ("group", "mail"), ("retryTimes", "x")]⟩, none⟩
    let e := ofMessage default ⟨"orders", 3⟩ m
    let e₁ := ofMessage default ⟨"", 0⟩ ⟨0, e.payload, Redeliverer.headersFor e, none⟩
    let e₂ := ofMessage default ⟨"orders", 1⟩ ⟨9, e₁.payload, Redeliverer.headersFor e₁, none⟩
    e.Redelivered e₂ ∧ e₂.group? = some "billing" ∧ e₂.originTopic = "orders" ∧
      e₂.headers.toList[2]? = some ("group", "mail") := by
  intro m e e₁ e₂
  have hop₁ : ∃ r : Redeliverer, r.Hop e e₁ :=
    ⟨⟨∅, 1, ⟨[]⟩⟩, Redeliverer.hop_of_lt (by decide +kernel) _ _ _ _⟩
  have hop₂ : ∃ r : Redeliverer, r.Hop e₁ e₂ :=
    ⟨⟨∅, 2, ⟨[]⟩⟩, Redeliverer.hop_of_lt (by decide +kernel) _ _ _ _⟩
  have h : e.Redelivered e₂ := .tail (.tail .refl hop₁) hop₂
  obtain ⟨-, -, hgroup, -, horigin, -, hheaders⟩ := redelivered_keeps_identity e e₂ (by decide) h
  exact ⟨h, hgroup.trans (by decide), horigin.trans (by decide),
    hheaders.kept 2 "group" "mail" (by decide) (by decide)⟩

end Envelope

end ConsumerGroup
