import ConsumerGroup.Settings.Validation
import Mathlib.Data.List.Perm.Basic

/-!
# Group levels

The levels of a settings file come in no order of their own, and they are found by their normal form,
which two of them may share.  So which groups a level stands for may depend on the order.

* `Settings.Means` — the groups a level can stand for, said without an order; `means_iff` — these are the
  answers that some order gives.
* `levels_order_free` — the order does not matter exactly when levels of the same normal form have the
  same groups.
* `levels_order_matters` — the validation does not ask for that.
-/

namespace ConsumerGroup.Settings

/-- The settings with other levels, such as the same ones in another order. -/
def relisted (s : Settings) (levels : List (String × List String)) : Settings :=
  { s with groupLevels := levels }

/-! ## What levels stand for -/

/-- A level of that normal form is listed with these groups. -/
def Lists (s : Settings) (normal : String) (ids : List String) : Prop :=
  ∃ e ∈ s.groupLevels, normalLevel e.1 = normal ∧ e.2 = ids

/-- The groups that a level can stand for. -/
inductive Means (s : Settings) (level : String) : List String → Prop where
  /-- those of a listed level that differs from it in nothing but case and blanks around it -/
  | listed {ids : List String} (h : s.Lists (normalLevel level) ids) : s.Means level ids
  /-- if there is none, those of a default level -/
  | default {ids : List String} (hnone : ∀ ids, ¬ s.Lists (normalLevel level) ids)
      (h : s.Lists defaultLevel ids) : s.Means level ids
  /-- and if there is none of these, no groups at all -/
  | unlisted (hnone : ∀ ids, ¬ s.Lists (normalLevel level) ids)
      (hdefault : ∀ ids, ¬ s.Lists defaultLevel ids) : s.Means level []

/-- Levels of the same normal form have the same groups. -/
def Unambiguous (s : Settings) : Prop :=
  ∀ e ∈ s.groupLevels, ∀ e' ∈ s.groupLevels, normalLevel e.1 = normalLevel e'.1 → e.2 = e'.2

variable {s : Settings} {level normal : String} {ids ids' : List String}

/-- A listed level is found, or there is none. -/
theorem groupsOf?_cases (s : Settings) (normal : String) :
    (∃ ids, s.groupsOf? normal = some ids ∧ s.Lists normal ids) ∨
      (s.groupsOf? normal = none ∧ ∀ ids, ¬ s.Lists normal ids) := by
  cases hfound : s.groupsOf? normal with
  | none =>
    refine .inr ⟨rfl, ?_⟩
    rintro ids ⟨e, he, hnormal, -⟩
    rw [groupsOf?, Option.map_eq_none_iff, List.find?_eq_none] at hfound
    exact hfound e he (beq_iff_eq.2 hnormal)
  | some ids =>
    rw [groupsOf?, Option.map_eq_some_iff] at hfound
    obtain ⟨e, hfound, hids⟩ := hfound
    have hnormal := List.find?_some hfound
    exact .inl ⟨ids, rfl, e, List.mem_of_find?_eq_some hfound, beq_iff_eq.1 hnormal, hids⟩

theorem groupsOf?_eq_none (h : ∀ ids, ¬ s.Lists normal ids) : s.groupsOf? normal = none := by
  rcases s.groupsOf?_cases normal with ⟨ids, -, hlists⟩ | ⟨hnone, -⟩
  · exact absurd hlists (h ids)
  · exact hnone

/-- The groups of a level are some that it can stand for. -/
theorem means_groupIds (s : Settings) (level : String) : s.Means level (s.groupIds level) := by
  rw [groupIds]
  rcases s.groupsOf?_cases (normalLevel level) with ⟨ids, hfound, hlists⟩ | ⟨hfound, hnone⟩
  · rw [hfound]
    exact .listed hlists
  · rw [hfound]
    rcases s.groupsOf?_cases defaultLevel with ⟨ids, hfound, hlists⟩ | ⟨hfound, hdefault⟩
    · rw [hfound]
      exact .default hnone hlists
    · rw [hfound]
      exact .unlisted hnone hdefault

/-- There is but one answer if levels of the same normal form have the same groups. -/
theorem Means.unique (hs : s.Unambiguous) (h : s.Means level ids) (h' : s.Means level ids') :
    ids = ids' := by
  have hlists : ∀ {normal ids ids'}, s.Lists normal ids → s.Lists normal ids' → ids = ids' := by
    rintro normal - - ⟨e, he, hnormal, rfl⟩ ⟨e', he', hnormal', rfl⟩
    exact hs e he e' he' (hnormal.trans hnormal'.symm)
  cases h with
  | listed h =>
    cases h' with
    | listed h' => exact hlists h h'
    | default hnone => exact absurd h (hnone _)
    | unlisted hnone => exact absurd h (hnone _)
  | default hnone h =>
    cases h' with
    | listed h' => exact absurd h' (hnone _)
    | default _ h' => exact hlists h h'
    | unlisted _ hdefault => exact absurd h (hdefault _)
  | unlisted hnone hdefault =>
    cases h' with
    | listed h' => exact absurd h' (hnone _)
    | default _ h' => exact absurd h' (hdefault _)
    | unlisted => rfl

/-! ## Other orders -/

variable {levels : List (String × List String)}

/-- What is listed has no order. -/
theorem lists_relisted (h : levels.Perm s.groupLevels) :
    (s.relisted levels).Lists normal ids ↔ s.Lists normal ids :=
  exists_congr fun _ => and_congr_left fun _ => h.mem_iff

/-- Nor has what a level can stand for. -/
theorem means_of_relisted (hperm : levels.Perm s.groupLevels)
    (h : (s.relisted levels).Means level ids) : s.Means level ids := by
  have hnone : ∀ {normal}, (∀ ids, ¬ (s.relisted levels).Lists normal ids) →
      ∀ ids, ¬ s.Lists normal ids := fun h ids => mt (lists_relisted hperm).2 (h ids)
  cases h with
  | listed h => exact .listed ((lists_relisted hperm).1 h)
  | default hlevel h => exact .default (hnone hlevel) ((lists_relisted hperm).1 h)
  | unlisted hlevel hdefault => exact .unlisted (hnone hlevel) (hnone hdefault)

/-- A listed level comes first in some order. -/
theorem Lists.exists_first (h : s.Lists normal ids) :
    ∃ levels, levels.Perm s.groupLevels ∧ (s.relisted levels).groupsOf? normal = some ids := by
  obtain ⟨e, he, hnormal, rfl⟩ := h
  refine ⟨e :: s.groupLevels.erase e, (List.perm_cons_erase he).symm, ?_⟩
  change ((e :: s.groupLevels.erase e).find? fun e => normalLevel e.1 == normal).map _ = _
  rw [List.find?_cons, beq_iff_eq.2 hnormal]
  rfl

/-- The groups that a level can stand for are those that some order gives. -/
theorem means_iff (s : Settings) (level : String) (ids : List String) :
    s.Means level ids ↔
      ∃ levels, levels.Perm s.groupLevels ∧ (s.relisted levels).groupIds level = ids := by
  constructor
  · rintro (hlists | ⟨hnone, hlists⟩ | ⟨hnone, hdefault⟩)
    · obtain ⟨levels, hperm, hfound⟩ := hlists.exists_first
      exact ⟨levels, hperm, by rw [groupIds, hfound]⟩
    · obtain ⟨levels, hperm, hfound⟩ := hlists.exists_first
      have hmissing : (s.relisted levels).groupsOf? (normalLevel level) = none :=
        groupsOf?_eq_none fun ids => mt (lists_relisted hperm).1 (hnone ids)
      exact ⟨levels, hperm, by rw [groupIds, hmissing, hfound]; rfl⟩
    · refine ⟨s.groupLevels, .refl _, ?_⟩
      change s.groupIds level = []
      rw [groupIds, groupsOf?_eq_none hnone, groupsOf?_eq_none hdefault]
      rfl
  · rintro ⟨levels, hperm, rfl⟩
    exact means_of_relisted hperm (means_groupIds _ level)

/-- The same groups for each level are the same configurations. -/
theorem consumerConfigs_relisted
    (h : ∀ level, (s.relisted levels).groupIds level = s.groupIds level) :
    (s.relisted levels).consumerConfigs = s.consumerConfigs := by
  simp only [consumerConfigs, requests, h]
  rfl

/-- And the same problems. -/
theorem problems_relisted (h : ∀ level, (s.relisted levels).groupIds level = s.groupIds level) :
    (s.relisted levels).problems = s.problems := by
  have hconsumers : ∀ (entries : List ConsumerEntry) (index : Nat),
      consumerProblems (s.relisted levels) index entries = consumerProblems s index entries := by
    intro entries
    induction entries with
    | nil => exact fun _ => rfl
    | cons e entries ih => exact fun index => by rw [consumerProblems, consumerProblems, h, ih]
  rw [problems, hconsumers]
  rfl

/-- **Levels have no order.**  The groups that a level can stand for are those that some order of the listed
levels gives.  The order does not matter exactly when levels of the same normal form have the same groups;
then a level stands for nothing else, and the configurations and what the validation finds are the same in
every order. -/
theorem levels_order_free (s : Settings) :
    (∀ level ids, s.Means level ids ↔
      ∃ levels, levels.Perm s.groupLevels ∧ (s.relisted levels).groupIds level = ids) ∧
    ((∀ levels, levels.Perm s.groupLevels →
      ∀ level, (s.relisted levels).groupIds level = s.groupIds level) ↔ s.Unambiguous) ∧
    (s.Unambiguous → (∀ level ids, s.Means level ids ↔ s.groupIds level = ids) ∧
      ∀ levels, levels.Perm s.groupLevels →
        (s.relisted levels).consumerConfigs = s.consumerConfigs ∧
        (s.relisted levels).problems = s.problems) := by
  have hsame (hs : s.Unambiguous) (levels) (hperm : levels.Perm s.groupLevels) (level : String) :
      (s.relisted levels).groupIds level = s.groupIds level :=
    (means_of_relisted hperm (means_groupIds _ level)).unique hs (means_groupIds s level)
  refine ⟨means_iff s, ⟨fun h e he e' he' hnormal => ?_, hsame⟩, fun hs => ⟨fun level ids => ?_, ?_⟩⟩
  · -- each of the two comes first in some order
    have hmeans : s.Means e.1 e.2 := .listed ⟨e, he, rfl, rfl⟩
    have hmeans' : s.Means e.1 e'.2 := .listed ⟨e', he', hnormal.symm, rfl⟩
    obtain ⟨levels, hperm, hids⟩ := (means_iff s _ _).1 hmeans
    obtain ⟨levels', hperm', hids'⟩ := (means_iff s _ _).1 hmeans'
    rw [← hids, ← hids', h levels hperm, h levels' hperm']
  · exact ⟨(means_groupIds s level).unique hs, fun h => h ▸ means_groupIds s level⟩
  · exact fun levels hperm =>
      ⟨consumerConfigs_relisted (hsame hs levels hperm), problems_relisted (hsame hs levels hperm)⟩

/-- A level that is listed in two spellings, with the same groups. -/
theorem levels_order_free_spellings :
    let s : Settings := {
      consumers := [{ topic := "orders", groupLevel := " Yoga" }]
      groupLevels := [("yoga", ["a", "b"]), ("YOGA ", ["a", "b"]), ("default", ["svc"])] }
    let levels := [("default", ["svc"]), ("YOGA ", ["a", "b"]), ("yoga", ["a", "b"])]
    s.Unambiguous ∧ levels.Perm s.groupLevels ∧ s.Means " Yoga" ["a", "b"] ∧ s.Means "gold" ["svc"] ∧
      (s.relisted levels).groupIds " Yoga" = s.groupIds " Yoga" ∧
      (s.relisted levels).consumerConfigs = s.consumerConfigs := by
  intro s levels
  have hs : s.Unambiguous := by
    unfold Unambiguous
    decide +kernel
  have hperm : levels.Perm s.groupLevels := by decide
  obtain ⟨-, horder, hall⟩ := levels_order_free s
  obtain ⟨hmeans, hconfigs⟩ := hall hs
  exact ⟨hs, hperm, (hmeans _ _).2 (by decide +kernel), (hmeans _ _).2 (by decide +kernel),
    horder.2 hs levels hperm _, (hconfigs levels hperm).1⟩

/-- The validation takes two spellings of a level with different groups, and then the order matters. -/
theorem levels_order_matters :
    ¬ ∀ (s : Settings) (levels : List (String × List String)) (level : String),
      (s.groupLevels.map Prod.fst).Nodup → s.problems = [] → levels.Perm s.groupLevels →
        (s.relisted levels).groupIds level = s.groupIds level := by
  intro h
  let s : Settings := {
    defaultCluster := { brokers := ["memory:9092"] }
    consumers := [{ topic := "orders", groupLevel := "yoga" }]
    groupLevels := [("yoga", ["a"]), ("YOGA", ["b"])] }
  have hvalid : s.problems = [] := by decide +kernel
  have hdiffers : (s.relisted [("YOGA", ["b"]), ("yoga", ["a"])]).groupIds "yoga" ≠
      s.groupIds "yoga" := by decide +kernel
  exact hdiffers (h s _ _ (by decide) hvalid (by decide))

end ConsumerGroup.Settings
