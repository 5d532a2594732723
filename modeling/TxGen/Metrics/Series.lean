import TxGen.Metrics.RemoteWrite

set_option autoImplicit false

/-! # The time series of a request

What a request has to be for its receiver to take every sample as the series it was measured for. The
labels of a sample are rewritten before samples are grouped by them, so this depends on the rewriting
to keep them apart. -/

namespace TxGen.Metrics

variable {order : List TimeSeries → List TimeSeries} {batch : List Sample}

/-- A label name matches `[a-zA-Z_][a-zA-Z0-9_]*`. -/
def IsLabelName (name : String) : Prop :=
  ∃ first chars, name.toList = first :: chars ∧ (first.isAlpha ∨ first = '_') ∧
    ∀ c ∈ chars, c.isAlphanum ∨ c = '_'

/-- The request has one valid series for each metric: name and label map. -/
structure Faithful (batch : List Sample) (request : WriteRequest) : Prop where
  valid : ∀ ts ∈ request.timeseries, ∀ label ∈ ts.labels, IsLabelName label.name
  sorted : ∀ ts ∈ request.timeseries, ts.labels.Pairwise fun a b => a.name < b.name
  named : ∀ ts ∈ request.timeseries, ts.labels.countP (fun label => label.name = labelName) = 1
  ascending : ∀ ts ∈ request.timeseries, ts.samples.Pairwise fun a b => a.timestamp ≤ b.timestamp
  distinct : request.timeseries.Pairwise fun ts ts' => ts.labels ≠ ts'.labels
  placed : ∀ ts ∈ request.timeseries, ts.samples.Perm
    ((batch.filter fun s => s.kept && seriesLabels s = ts.labels).map promSample)
  together : ∀ a ∈ batch, ∀ b ∈ batch, a.kept = true → b.kept = true →
    ((∃ ts ∈ request.timeseries, ts.labels = seriesLabels a ∧ ts.labels = seriesLabels b) ↔
      a.name = b.name ∧ a.labels = b.labels)

/-! ## Rewritten labels -/

/-- The map has a label that is rewritten to the name and has the value. -/
def Rewritten (labels : LabelMap) (name value : String) : Prop :=
  name ≠ "" ∧ ∃ entry ∈ labels.entries, sanitizeLabelName entry.1 = name ∧ entry.2 = value

/-- The names of the map stay apart from each other and from the name of the metric. -/
structure KeepsNames (labels : LabelMap) : Prop where
  apart : labels.entries.Pairwise fun a b =>
    sanitizeLabelName a.1 ≠ "" → sanitizeLabelName a.1 ≠ sanitizeLabelName b.1
  reserved : ∀ entry ∈ labels.entries, sanitizeLabelName entry.1 ≠ labelName

/-- The rewriting of the labels keeps apart what differs. -/
structure RewritesApart (batch : List Sample) : Prop where
  names : ∀ s ∈ batch, s.kept = true → KeepsNames s.labels
  maps : ∀ a ∈ batch, ∀ b ∈ batch, a.kept = true → b.kept = true → a.name = b.name →
    (∀ name value, Rewritten a.labels name value ↔ Rewritten b.labels name value) →
    a.labels = b.labels

theorem mem_userLabels {s : Sample} {label : Label} :
    label ∈ userLabels s ↔ Rewritten s.labels label.name label.value := by
  rw [userLabels, List.mem_filterMap, Rewritten]
  constructor
  · rintro ⟨⟨k, v⟩, hmem, hlabel⟩
    by_cases hkey : sanitizeLabelName k = ""
    · simp [hkey] at hlabel
    · simp only [hkey, if_false, Option.some.injEq] at hlabel
      subst hlabel
      exact ⟨hkey, _, hmem, rfl, rfl⟩
  · rintro ⟨hne, ⟨k, v⟩, hmem, hname, hvalue⟩
    refine ⟨⟨k, v⟩, hmem, ?_⟩
    simp only at hname hvalue
    simp [hname, hne, hvalue]

theorem nodup_userLabels_iff (s : Sample) :
    ((userLabels s).map Label.name).Nodup ↔ s.labels.entries.Pairwise fun a b =>
      sanitizeLabelName a.1 ≠ "" → sanitizeLabelName a.1 ≠ sanitizeLabelName b.1 := by
  rw [List.Nodup, List.pairwise_map, userLabels, List.pairwise_filterMap]
  refine List.Pairwise.iff fun a b => ?_
  constructor
  · intro h hne heq
    have hne' : sanitizeLabelName b.1 ≠ "" := heq ▸ hne
    exact h ⟨sanitizeLabelName a.1, a.2⟩ (by simp [hne]) ⟨sanitizeLabelName b.1, b.2⟩
      (by simp [hne']) heq
  · intro h label hlabel label' hlabel' heq
    by_cases hkey : sanitizeLabelName a.1 = ""
    · simp [hkey] at hlabel
    · by_cases hkey' : sanitizeLabelName b.1 = ""
      · simp [hkey'] at hlabel'
      · simp only [hkey, hkey', if_false, Option.some.injEq] at hlabel hlabel'
        subst hlabel hlabel'
        exact h hkey heq

theorem reserved_userLabels_iff (s : Sample) :
    labelName ∉ (userLabels s).map Label.name ↔
      ∀ entry ∈ s.labels.entries, sanitizeLabelName entry.1 ≠ labelName := by
  constructor
  · intro h entry hmem heq
    have hne : labelName ≠ "" := by decide
    refine h (List.mem_map.2 ⟨⟨labelName, entry.2⟩, mem_userLabels.2 ⟨hne, ?_⟩, rfl⟩)
    exact ⟨entry, hmem, heq, rfl⟩
  · rintro h hmem
    obtain ⟨label, hlabel, hname⟩ := List.mem_map.1 hmem
    obtain ⟨-, entry, hentry, hsanitized, -⟩ := mem_userLabels.1 hlabel
    exact h entry hentry (hsanitized.trans hname)

/-- The names of the labels of a series are distinct exactly if the rewriting keeps them apart. -/
theorem keepsNames_iff (s : Sample) :
    KeepsNames s.labels ↔ ((seriesLabels s).map Label.name).Nodup := by
  have hperm : ((seriesLabels s).map Label.name).Perm
      (labelName :: (userLabels s).map Label.name) :=
    (List.mergeSort_perm ..).map Label.name
  rw [hperm.nodup_iff, List.nodup_cons, nodup_userLabels_iff, reserved_userLabels_iff]
  exact ⟨fun h => ⟨h.reserved, h.apart⟩, fun h => ⟨h.2, h.1⟩⟩

theorem isLabelName_sanitize {name : String} (hne : sanitizeLabelName name ≠ "") :
    IsLabelName (sanitizeLabelName name) := by
  have hchars : ∀ c ∈ name.toList.map (fun c => if c.isAlphanum || c = '_' then c else '_'),
      c.isAlphanum ∨ c = '_' := by
    intro c hc
    obtain ⟨c', -, rfl⟩ := List.mem_map.1 hc
    split
    · rename_i hvalid
      simpa using hvalid
    · exact Or.inr rfl
  unfold sanitizeLabelName at hne ⊢
  revert hchars hne
  cases name.toList.map (fun c => if c.isAlphanum || c = '_' then c else '_') with
  | nil =>
      intro hne
      exact absurd rfl hne
  | cons first chars =>
      intro _ hchars
      by_cases hdigit : first.isDigit
      · exact ⟨'_', first :: chars, by simp [hdigit], Or.inr rfl, hchars⟩
      · refine ⟨first, chars, by simp [hdigit], ?_, fun c hc => hchars c (List.mem_cons_of_mem _ hc)⟩
        rcases hchars first List.mem_cons_self with halnum | hunderscore
        · left
          simpa [Char.isAlphanum, hdigit] using halnum
        · exact Or.inr hunderscore

/-! ## Labels of a series -/

theorem seriesLabels_perm (s : Sample) :
    (seriesLabels s).Perm (⟨labelName, s.name⟩ :: userLabels s) := List.mergeSort_perm ..

theorem isLabelName_seriesLabels {s : Sample} {label : Label} (h : label ∈ seriesLabels s) :
    IsLabelName label.name := by
  rcases List.mem_cons.1 ((seriesLabels_perm s).mem_iff.1 h) with rfl | h
  · have hchars : labelName.toList = '_' :: ['_', 'n', 'a', 'm', 'e', '_', '_'] := by decide
    exact ⟨_, _, hchars, by decide, by simp⟩
  · obtain ⟨hne, entry, -, hname, -⟩ := mem_userLabels.1 h
    rw [← hname] at hne ⊢
    exact isLabelName_sanitize hne

theorem seriesLabels_sorted (s : Sample) :
    (seriesLabels s).Pairwise fun a b => a.name ≤ b.name := by
  have hsorted : (seriesLabels s).Pairwise fun a b => decide (a.name ≤ b.name) = true :=
    List.pairwise_mergeSort
      (fun a b c hab hbc => by simpa using le_trans (by simpa using hab) (by simpa using hbc))
      (fun a b => by simpa using le_total a.name b.name) _
  exact hsorted.imp fun h => of_decide_eq_true h

/-- The labels of a series are in strict order exactly if the rewriting keeps the names apart. -/
theorem strictly_sorted_iff (s : Sample) :
    (seriesLabels s).Pairwise (fun a b => a.name < b.name) ↔ KeepsNames s.labels := by
  rw [keepsNames_iff, List.Nodup, List.pairwise_map]
  constructor
  · intro h
    exact h.imp ne_of_lt
  · intro h
    exact ((seriesLabels_sorted s).and h).imp fun ⟨hle, hne⟩ => lt_of_le_of_ne hle hne

theorem countP_labelName {s : Sample} (h : KeepsNames s.labels) :
    (seriesLabels s).countP (fun label => label.name = labelName) = 1 := by
  have hnone : (userLabels s).countP (fun label => label.name = labelName) = 0 := by
    refine List.countP_eq_zero.2 fun label hmem heq => ?_
    exact (reserved_userLabels_iff s).2 h.reserved
      (List.mem_map.2 ⟨label, hmem, of_decide_eq_true heq⟩)
  rw [(seriesLabels_perm s).countP_eq, List.countP_cons, hnone]
  simp

/-- Samples share their labels exactly if they have one name and their maps are rewritten alike. -/
theorem seriesLabels_eq_iff {a b : Sample} (ha : KeepsNames a.labels) (hb : KeepsNames b.labels) :
    seriesLabels a = seriesLabels b ↔ a.name = b.name ∧
      ∀ name value, Rewritten a.labels name value ↔ Rewritten b.labels name value := by
  constructor
  · intro heq
    have hperm : (⟨labelName, a.name⟩ :: userLabels a : List Label).Perm
        (⟨labelName, b.name⟩ :: userLabels b) :=
      (seriesLabels_perm a).symm.trans (heq ▸ seriesLabels_perm b)
    have hname : a.name = b.name := by
      rcases List.mem_cons.1 (hperm.mem_iff.1 List.mem_cons_self) with hlabel | hmem
      · exact congrArg Label.value hlabel
      · exact absurd (List.mem_map_of_mem (f := Label.name) hmem)
          ((reserved_userLabels_iff b).2 hb.reserved)
    rw [hname] at hperm
    refine ⟨hname, fun name value => ?_⟩
    have hmem := (hperm.cons_inv).mem_iff (a := ⟨name, value⟩)
    rwa [mem_userLabels, mem_userLabels] at hmem
  · rintro ⟨hname, halike⟩
    have huser : (userLabels a).Perm (userLabels b) := by
      refine (List.perm_ext_iff_of_nodup ?_ ?_).2 fun label => ?_
      · exact List.Nodup.of_map _ ((nodup_userLabels_iff a).2 ha.apart)
      · exact List.Nodup.of_map _ ((nodup_userLabels_iff b).2 hb.apart)
      · rw [mem_userLabels, mem_userLabels, halike]
    have hperm : (seriesLabels a).Perm (seriesLabels b) := by
      refine (seriesLabels_perm a).trans (List.Perm.trans ?_ (seriesLabels_perm b).symm)
      rw [hname]
      exact huser.cons _
    refine List.Perm.eq_of_pairwise ?_ ((strictly_sorted_iff a).2 ha)
      ((strictly_sorted_iff b).2 hb) hperm
    intro x y _ _ hlt hgt
    exact absurd hlt (lt_asymm hgt)

/-! ## Series of a request -/

theorem timestamps_sorted (ts : TimeSeries) :
    ts.sorted.samples.Pairwise fun a b => a.timestamp ≤ b.timestamp := by
  have hsorted : ts.sorted.samples.Pairwise fun a b => decide (a.timestamp ≤ b.timestamp) = true :=
    List.pairwise_mergeSort
      (fun a b c hab hbc => by
        simpa using Int64.le_trans (by simpa using hab) (by simpa using hbc))
      (fun a b => by simpa using Int64.le_total a.timestamp b.timestamp) _
  exact hsorted.imp fun h => of_decide_eq_true h

/-- Every series of the request is that of a group. -/
theorem mem_timeseries (horder : ∀ map, (order map).Perm map) {ts : TimeSeries} :
    ts ∈ (buildWriteRequest order batch).timeseries ↔
      ∃ g ∈ Grouping.groups seriesLabels (batch.filter Sample.kept), (groupSeries g).sorted = ts := by
  simp only [buildWriteRequest, List.mem_map, (horder _).mem_iff, seriesMap_eq]
  simp

theorem exists_sample (horder : ∀ map, (order map).Perm map) {ts : TimeSeries}
    (h : ts ∈ (buildWriteRequest order batch).timeseries) :
    ∃ s ∈ batch, s.kept = true ∧ ts.labels = seriesLabels s := by
  obtain ⟨g, hg, rfl⟩ := (mem_timeseries horder).1 h
  have hgrouped := Grouping.grouped_groups seriesLabels (batch.filter Sample.kept)
  obtain ⟨s, hs⟩ := List.exists_mem_of_ne_nil _ (hgrouped.nonempty g hg)
  rw [hgrouped.group g hg] at hs
  obtain ⟨hmem, hlabels⟩ := List.mem_filter.1 hs
  obtain ⟨hmem, hkept⟩ := List.mem_filter.1 hmem
  exact ⟨s, hmem, hkept, (of_decide_eq_true hlabels).symm⟩

theorem exists_series (horder : ∀ map, (order map).Perm map) {s : Sample} (hmem : s ∈ batch)
    (hkept : s.kept = true) :
    ∃ ts ∈ (buildWriteRequest order batch).timeseries, ts.labels = seriesLabels s := by
  obtain ⟨as, hgroup, -⟩ := Grouping.exists_group seriesLabels
    (List.mem_filter.2 ⟨hmem, hkept⟩)
  exact ⟨_, (mem_timeseries horder).2 ⟨_, hgroup, rfl⟩, rfl⟩

theorem series_distinct (horder : ∀ map, (order map).Perm map) :
    (buildWriteRequest order batch).timeseries.Pairwise fun ts ts' => ts.labels ≠ ts'.labels := by
  have hgroups : (seriesMap batch).Pairwise fun ts ts' => ts.labels ≠ ts'.labels := by
    rw [seriesMap_eq, List.pairwise_map]
    exact List.pairwise_map.1 (Grouping.grouped_groups seriesLabels (batch.filter Sample.kept)).nodup
  rw [buildWriteRequest, List.pairwise_map]
  exact hgroups.perm (horder _).symm Ne.symm

theorem series_placed (horder : ∀ map, (order map).Perm map) {ts : TimeSeries}
    (h : ts ∈ (buildWriteRequest order batch).timeseries) :
    ts.samples.Perm ((batch.filter fun s => s.kept && seriesLabels s = ts.labels).map promSample) := by
  obtain ⟨g, hg, rfl⟩ := (mem_timeseries horder).1 h
  refine (List.mergeSort_perm ..).trans ?_
  simp only [groupSeries, TimeSeries.sorted]
  rw [(Grouping.grouped_groups seriesLabels (batch.filter Sample.kept)).group g hg, List.filter_filter]
  simp only [Bool.and_comm]
  exact List.Perm.refl _

/-- Every series of a request is valid and faithful exactly if the rewriting of the labels keeps apart
    what differs. -/
theorem faithful_iff (horder : ∀ map, (order map).Perm map) :
    Faithful batch (buildWriteRequest order batch) ↔ RewritesApart batch := by
  constructor
  · intro h
    have hnames : ∀ s ∈ batch, s.kept = true → KeepsNames s.labels := by
      intro s hmem hkept
      obtain ⟨ts, hts, hlabels⟩ := exists_series horder hmem hkept
      rw [← strictly_sorted_iff, ← hlabels]
      exact h.sorted ts hts
    refine ⟨hnames, fun a ha b hb hkept hkept' hname halike => ?_⟩
    have heq : seriesLabels a = seriesLabels b :=
      (seriesLabels_eq_iff (hnames a ha hkept) (hnames b hb hkept')).2 ⟨hname, halike⟩
    obtain ⟨ts, hts, hlabels⟩ := exists_series horder ha hkept
    exact ((h.together a ha b hb hkept hkept').1 ⟨ts, hts, hlabels, heq ▸ hlabels⟩).2
  · intro h
    refine ⟨fun ts hts label hlabel => ?_, fun ts hts => ?_, fun ts hts => ?_, fun ts hts => ?_,
      series_distinct horder, fun ts hts => series_placed horder hts,
      fun a ha b hb hkept hkept' => ?_⟩
    · obtain ⟨s, -, -, hlabels⟩ := exists_sample horder hts
      exact isLabelName_seriesLabels (hlabels ▸ hlabel)
    · obtain ⟨s, hmem, hkept, hlabels⟩ := exists_sample horder hts
      rw [hlabels, strictly_sorted_iff]
      exact h.names s hmem hkept
    · obtain ⟨s, hmem, hkept, hlabels⟩ := exists_sample horder hts
      rw [hlabels]
      exact countP_labelName (h.names s hmem hkept)
    · obtain ⟨g, -, rfl⟩ := (mem_timeseries horder).1 hts
      exact timestamps_sorted _
    · have hiff := seriesLabels_eq_iff (h.names a ha hkept) (h.names b hb hkept')
      constructor
      · rintro ⟨ts, -, hlabels, hlabels'⟩
        obtain ⟨hname, halike⟩ := hiff.1 (hlabels.symm.trans hlabels')
        exact ⟨hname, h.maps a ha b hb hkept hkept' hname halike⟩
      · rintro ⟨hname, hmaps⟩
        obtain ⟨ts, hts, hlabels⟩ := exists_series horder ha hkept
        refine ⟨ts, hts, hlabels, hlabels.trans (hiff.2 ⟨hname, fun name value => ?_⟩)⟩
        rw [hmaps]

namespace SeriesSample

def metric (labels : LabelMap) : Sample := ⟨"m", labels, ⟨0x3ff0000000000000⟩, 0, 1⟩

/-- `{a.b="1"}` -/
def dotted : Sample := metric ⟨[("a.b", "1")], by decide⟩

/-- `{a_b="1"}` -/
def underscored : Sample := metric ⟨[("a_b", "1")], by decide⟩

theorem faithful_iff_dotted :
    (∀ map, (id map : List TimeSeries).Perm map) ∧
      (Faithful [dotted] (buildWriteRequest id [dotted]) ↔ RewritesApart [dotted]) :=
  ⟨fun _ => .refl _, faithful_iff fun _ => .refl _⟩

/-- Two series are merged. -/
theorem merged_not_faithful :
    ¬ Faithful [dotted, underscored] (buildWriteRequest id [dotted, underscored]) := by
  intro h
  have hlabels : seriesLabels dotted = seriesLabels underscored := by
    unfold seriesLabels
    congr 1
  obtain ⟨ts, hts, hdotted⟩ : ∃ ts ∈ (buildWriteRequest id [dotted, underscored]).timeseries,
      ts.labels = seriesLabels dotted := exists_series (fun _ => .refl _) (by simp) (by decide)
  have hmaps := ((h.together dotted (by simp) underscored (by simp) (by decide) (by decide)).1
    ⟨ts, hts, hdotted, hlabels ▸ hdotted⟩).2
  exact absurd hmaps (by decide)

end SeriesSample

end TxGen.Metrics
