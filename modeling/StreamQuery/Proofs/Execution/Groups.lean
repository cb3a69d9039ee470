import StreamQuery.Proofs.Execution.Folding

/-!
# Groups do not interfere

In a query that groups its rows, the row of a group is the one that the records of the group alone
would give, however they are interleaved with those of other groups. Two folds that agree on a group
go on to agree on it, whatever the records of other groups do in between.
-/

namespace StreamQuery

open Stateful

/-! ### Agreeing on a group -/

/-- The same accumulators and the same records of a group. -/
structure Progress.Agrees (key : String) (progress other : Progress) : Prop where
  slots : progress.1.slotsOf key = other.1.slotsOf key
  records : progress.2.filter (·.groupKey == key) = other.2.filter (·.groupKey == key)

theorem Progress.Agrees.refl (key : String) (progress : Progress) :
    Progress.Agrees key progress progress :=
  ⟨rfl, rfl⟩

theorem Progress.Agrees.trans {key : String} {first second third : Progress}
    (h : Progress.Agrees key first second) (hnext : Progress.Agrees key second third) :
    Progress.Agrees key first third :=
  ⟨h.slots.trans hnext.slots, h.records.trans hnext.records⟩

theorem Progress.Agrees.symm {key : String} {progress other : Progress}
    (h : Progress.Agrees key progress other) : Progress.Agrees key other progress :=
  ⟨h.slots.symm, h.records.symm⟩

namespace Plan

variable {plan : Plan} {scope : Scope} {key : String} {progress other after : Progress}

/-- A row of a group adds one record of that group. -/
theorem records_of_absorb (hverdict : plan.verdict scope = .groups key)
    (habsorb : plan.absorb scope progress = some after) :
    ∃ values, after.2 = ⟨values, [], key⟩ :: progress.2 := by
  unfold absorb at habsorb
  rw [hverdict] at habsorb
  dsimp only at habsorb
  split at habsorb
  · obtain rfl := Option.some.inj habsorb
    exact ⟨_, rfl⟩
  · cases habsorb

/-- A row of a group is absorbed alike by two folds that agree on the group. -/
theorem absorb_agrees (hplan : plan.Separates) (hverdict : plan.verdict scope = .groups key)
    (h : Progress.Agrees key progress other) (habsorb : plan.absorb scope progress = some after) :
    ∃ last, plan.absorb scope other = some last ∧ Progress.Agrees key after last := by
  unfold absorb at habsorb ⊢
  rw [hverdict] at habsorb ⊢
  dsimp only at habsorb ⊢
  rcases project_matches hplan scope key _ _ (Aggregates.Matches.startRow h.slots) with
    ⟨values, table, otherTable, hleft, hright, hmatches⟩ | ⟨error, _, _, _, hleft, _⟩
  · rw [hleft.outcome_eq] at habsorb
    rw [hright.outcome_eq]
    obtain rfl := Option.some.inj habsorb
    exact ⟨_, rfl, hmatches.slots, by simp [h.records]⟩
  · rw [hleft.outcome_eq] at habsorb
    cases habsorb

/-- A row of no group, or of another one, changes nothing of a group. -/
theorem agrees_of_absorb (hplan : plan.Separates) (hverdict : plan.verdict scope ≠ .groups key)
    (habsorb : plan.absorb scope progress = some after) : Progress.Agrees key after progress := by
  unfold absorb at habsorb
  cases hother : plan.verdict scope with
  | fails =>
    rw [hother] at habsorb
    cases habsorb
  | drops =>
    rw [hother] at habsorb
    obtain rfl := Option.some.inj habsorb
    exact ⟨rfl, rfl⟩
  | groups group =>
    rw [hother] at habsorb hverdict
    dsimp only at habsorb
    have hne : group ≠ key := fun heq => hverdict (heq ▸ rfl)
    have hstart : Aggregates.Leaves key (progress.1.slotsOf key) (progress.1.startRow group) :=
      ⟨hne, rfl⟩
    rcases project_leaves hplan scope key _ _ _ ⟨rfl, hstart⟩ with
      ⟨values, table, _, hleft, -, -, hleaves⟩ | ⟨error, _, _, _, hleft, _⟩
    · rw [hleft.outcome_eq] at habsorb
      obtain rfl := Option.some.inj habsorb
      exact ⟨hleaves.slots, by simp [hne]⟩
    · rw [hleft.outcome_eq] at habsorb
      cases habsorb

end Plan

namespace Job

variable {job : Job} {layout : Layout} {key : String} {pull : Pull}
  {progress other after : Progress}

/-- A record that is absorbed belongs to no group and changes nothing, or is absorbed by the plan in
its group. -/
theorem absorb_cases (habsorb : job.absorb layout progress pull = some after) :
    (job.groupOf layout pull = none ∧ after = progress ∧
      ∀ other, job.absorb layout other pull = some other) ∨
    ∃ plan scope key, layout.plan = .ok plan ∧ plan.verdict scope = .groups key ∧
      job.groupOf layout pull = some key ∧
      ∀ other, job.absorb layout other pull = plan.absorb scope other := by
  unfold absorb at habsorb ⊢
  split at habsorb
  · next htakes =>
    simp only [if_pos htakes, groupOf]
    cases hrow : pull.row? with
    | none =>
      rw [hrow] at habsorb
      exact .inl ⟨by cases layout.plan <;> rfl, (Option.some.inj habsorb).symm, fun _ => rfl⟩
    | some values =>
      cases hlayout : layout.plan with
      | error error => simp [hrow, hlayout] at habsorb
      | ok plan =>
        simp only [hrow, hlayout] at habsorb ⊢
        cases hverdict : plan.verdict (job.rowScope layout.names values) with
        | fails => simp [Plan.absorb, hverdict] at habsorb
        | drops =>
          simp only [Plan.absorb, hverdict] at habsorb ⊢
          exact .inl ⟨trivial, (Option.some.inj habsorb).symm, fun _ => trivial⟩
        | groups key => exact .inr ⟨plan, _, key, rfl, hverdict, rfl, fun _ => rfl⟩
  · cases habsorb

/-- A record that belongs to no group and is absorbed among others changes nothing anywhere. -/
theorem drops_of_absorb (hgroup : job.groupOf layout pull = none)
    (habsorb : job.absorb layout progress pull = some after) (other : Progress) :
    job.absorb layout other pull = some other := by
  rcases absorb_cases habsorb with ⟨-, -, hdrops⟩ | ⟨plan, scope, key, -, -, hgroups, -⟩
  · exact hdrops other
  · rw [hgroup] at hgroups
    cases hgroups

theorem drops_of_fold {records : Source}
    (hfold : records.foldlM (job.absorb layout) progress = some after) :
    ∀ pull ∈ records, job.groupOf layout pull = none →
      ∀ other, job.absorb layout other pull = some other := by
  induction records generalizing progress with
  | nil => exact fun _ hpull => nomatch hpull
  | cons pull rest ih =>
    rw [List.foldlM_cons] at hfold
    obtain ⟨middle, habsorb, hfold⟩ := Option.bind_eq_some_iff.mp hfold
    rw [List.forall_mem_cons]
    exact ⟨fun hgroup => drops_of_absorb hgroup habsorb, ih hfold⟩

section Separated

variable (hplans : ∀ plan, layout.plan = .ok plan → plan.Separates)
include hplans

theorem absorb_agrees (hgroup : job.groupOf layout pull = some key)
    (h : Progress.Agrees key progress other)
    (habsorb : job.absorb layout progress pull = some after) :
    ∃ last, job.absorb layout other pull = some last ∧ Progress.Agrees key after last := by
  rcases absorb_cases habsorb with
    ⟨hnone, -, -⟩ | ⟨plan, scope, group, hlayout, hverdict, hkey, heq⟩
  · rw [hgroup] at hnone
    cases hnone
  · obtain rfl := Option.some.inj (hgroup.symm.trans hkey)
    rw [heq] at habsorb ⊢
    exact Plan.absorb_agrees (hplans plan hlayout) hverdict h habsorb

theorem agrees_of_absorb (hgroup : job.groupOf layout pull ≠ some key)
    (habsorb : job.absorb layout progress pull = some after) :
    Progress.Agrees key after progress := by
  rcases absorb_cases habsorb with ⟨-, rfl, -⟩ | ⟨plan, scope, group, hlayout, hverdict, hkey, heq⟩
  · exact .refl key after
  · rw [heq] at habsorb
    refine Plan.agrees_of_absorb (hplans plan hlayout) (fun hsame => hgroup ?_) habsorb
    rw [hkey, Plan.Verdict.groups.inj (hverdict.symm.trans hsame)]

/-- The records of one group alone are absorbed as among all records. -/
theorem fold_of_group {records : Source}
    (hfold : records.foldlM (job.absorb layout) progress = some after)
    (h : Progress.Agrees key progress other) :
    ∃ last, (records.filter fun pull => job.groupOf layout pull == some key).foldlM
      (job.absorb layout) other = some last ∧ Progress.Agrees key after last := by
  induction records generalizing progress other with
  | nil =>
    obtain rfl := Option.some.inj hfold
    exact ⟨other, rfl, h⟩
  | cons pull rest ih =>
    rw [List.foldlM_cons] at hfold
    obtain ⟨middle, habsorb, hfold⟩ := Option.bind_eq_some_iff.mp hfold
    by_cases hgroup : job.groupOf layout pull = some key
    · obtain ⟨next, hnext, hagrees⟩ := absorb_agrees hplans hgroup h habsorb
      obtain ⟨last, hlast, hafter⟩ := ih hfold hagrees
      refine ⟨last, ?_, hafter⟩
      rw [List.filter_cons_of_pos (by simpa using hgroup), List.foldlM_cons, hnext]
      exact hlast
    · rw [List.filter_cons_of_neg (by simpa using hgroup)]
      exact ih hfold ((agrees_of_absorb hplans hgroup habsorb).trans h)

/-- Records are absorbed in any order in which those of each group can be absorbed alone. -/
theorem fold_of_groups {records : Source}
    (hdrops : ∀ pull ∈ records, job.groupOf layout pull = none →
      ∀ progress, job.absorb layout progress pull = some progress)
    (hgroups : ∀ key, ∃ other last, Progress.Agrees key other progress ∧
      (records.filter fun pull => job.groupOf layout pull == some key).foldlM
        (job.absorb layout) other = some last) :
    ∃ after, records.foldlM (job.absorb layout) progress = some after := by
  induction records generalizing progress with
  | nil => exact ⟨progress, rfl⟩
  | cons pull rest ih =>
    rw [List.forall_mem_cons] at hdrops
    rw [List.foldlM_cons]
    cases hgroup : job.groupOf layout pull with
    | none =>
      rw [hdrops.1 hgroup]
      refine ih hdrops.2 fun key => ?_
      obtain ⟨other, last, hagrees, hfold⟩ := hgroups key
      rw [List.filter_cons_of_neg (by simp [hgroup])] at hfold
      exact ⟨other, last, hagrees, hfold⟩
    | some group =>
      obtain ⟨other, last, hagrees, hfold⟩ := hgroups group
      rw [List.filter_cons_of_pos (by simp [hgroup]), List.foldlM_cons] at hfold
      obtain ⟨next, habsorb, hfold⟩ := Option.bind_eq_some_iff.mp hfold
      obtain ⟨middle, hmiddle, hnext⟩ := absorb_agrees hplans hgroup hagrees habsorb
      rw [hmiddle]
      -- The record moves its own group on; every other group is where it was.
      refine ih hdrops.2 fun key => ?_
      by_cases hkey : group = key
      · subst hkey
        exact ⟨next, last, hnext, hfold⟩
      · obtain ⟨other, last, hagrees, hfold⟩ := hgroups key
        have hne : job.groupOf layout pull ≠ some key := by simpa [hgroup] using hkey
        rw [List.filter_cons_of_neg (by simpa using hne)] at hfold
        exact ⟨other, last, hagrees.trans (agrees_of_absorb hplans hne hmiddle).symm, hfold⟩

end Separated

/-! ### The groups of records -/

theorem groupKeys_of_absorb (habsorb : job.absorb layout progress pull = some after) :
    after.2.map (·.groupKey) =
      (job.groupOf layout pull).toList ++ progress.2.map (·.groupKey) := by
  rcases absorb_cases habsorb with ⟨hnone, rfl, -⟩ | ⟨plan, scope, key, -, hverdict, hkey, heq⟩
  · rw [hnone]
    rfl
  · rw [heq] at habsorb
    obtain ⟨values, hrecords⟩ := Plan.records_of_absorb hverdict habsorb
    rw [hkey, hrecords]
    rfl

theorem groupKeys_of_fold {records : Source}
    (hfold : records.foldlM (job.absorb layout) progress = some after) :
    (after.2.map (·.groupKey)).reverse =
      (progress.2.map (·.groupKey)).reverse ++ records.filterMap (job.groupOf layout) := by
  induction records generalizing progress with
  | nil =>
    obtain rfl := Option.some.inj hfold
    simp
  | cons pull rest ih =>
    rw [List.foldlM_cons] at hfold
    obtain ⟨middle, habsorb, hfold⟩ := Option.bind_eq_some_iff.mp hfold
    rw [ih hfold, groupKeys_of_absorb habsorb]
    cases hgroup : job.groupOf layout pull <;> simp [hgroup]

end Job

/-- The row of a group among records, of which the latest comes first. -/
def rowIn (records : List OutputRecord) (key : String) : List Value :=
  (((records.filter (·.groupKey == key)).head?).map (·.values)).getD []

theorem Progress.Agrees.rowIn_eq {key : String} {progress other : Progress}
    (h : Progress.Agrees key progress other) : rowIn progress.2 key = rowIn other.2 key := by
  rw [rowIn, h.records, rowIn]

/-- Two folds over the same records of a group give the group the same row. -/
theorem Job.rowIn_of_fold {job : Job} {layout : Layout} {key : String}
    {progress after last : Progress} {records others : Source}
    (hplans : ∀ plan, layout.plan = .ok plan → plan.Separates)
    (hgroup : (others.filter fun pull => job.groupOf layout pull == some key) =
      records.filter fun pull => job.groupOf layout pull == some key)
    (hfold : records.foldlM (job.absorb layout) progress = some after)
    (hother : others.foldlM (job.absorb layout) progress = some last) :
    rowIn last.2 key = rowIn after.2 key := by
  obtain ⟨alone, halone, hagrees⟩ := fold_of_group hplans hfold (.refl key progress)
  obtain ⟨apart, hapart, hagrees'⟩ := fold_of_group hplans hother (.refl key progress)
  rw [hgroup, halone] at hapart
  obtain rfl := Option.some.inj hapart
  exact hagrees'.rowIn_eq.trans hagrees.rowIn_eq.symm

theorem lastOfEach_reverse (records : List OutputRecord) :
    (lastOfEach OutputRecord.groupKey records.reverse).map (·.values) =
      ((records.map (·.groupKey)).reverse.eraseDups).map (rowIn records) := by
  have hrow : ∀ key ∈ (records.map (·.groupKey)).reverse.eraseDups,
      ((records.reverse.filter (·.groupKey == key)).getLast?).map (·.values) =
        some (rowIn records key) := by
    intro key hkey
    have hmem : key ∈ records.map (·.groupKey) := by simpa using hkey
    obtain ⟨record, hrecord, rfl⟩ := List.mem_map.mp hmem
    have hfilter : records.filter (·.groupKey == record.groupKey) ≠ [] :=
      List.ne_nil_of_mem (List.mem_filter.mpr ⟨hrecord, beq_self_eq_true _⟩)
    rw [List.filter_reverse, List.getLast?_reverse, rowIn, List.head?_eq_some_head hfilter]
    rfl
  rw [lastOfEach, List.map_filterMap, List.map_reverse, List.filterMap_congr hrow]
  exact congrFun List.filterMap_eq_map' _

end StreamQuery
