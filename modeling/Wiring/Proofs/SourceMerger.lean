import Wiring.Proofs.Sequence
import Wiring.Proofs.SourceList
import Wiring.SourceMerger

/-!
# Merging declared property sources

Tables of properties that were read from resources are added one after the other to a list of
sources. The list is then that of the sources that were there first, unchanged, and behind them one
source for each name, in reverse order of first addition; several tables of one name are a group in
which the newest one comes first.
-/

namespace Wiring

/-! ## Tables from resources -/

/-- A table of properties that was read from a resource. -/
structure ResourceTable where
  name : String
  resourceName : String
  properties : Table String
deriving DecidableEq

namespace ResourceTable

/-- The table as a property source. -/
def source (t : ResourceTable) : PropertySource :=
  .table t.name (some t.resourceName) t.properties

/-- The table in a group, where it has the name of its resource. -/
def member (t : ResourceTable) : PropertySource :=
  .table t.resourceName (some t.resourceName) t.properties

/-- The names of tables, in order of first occurrence. -/
def distinctNames (ts : List ResourceTable) : List String := (ts.map (·.name)).eraseDups

/-- The tables of a name. -/
def named (ts : List ResourceTable) (name : String) : List ResourceTable :=
  ts.filter (·.name == name)

/-- What tables of one name come to: one is left as it is, several are a group, the last one first.
-/
def combined (name : String) : List ResourceTable → PropertySource
  | [t] => t.source
  | ts => .composite name (ts.reverse.map member)

variable {t : ResourceTable} {ts : List ResourceTable} {name : String}

theorem mem_distinctNames : name ∈ distinctNames ts ↔ ∃ t ∈ ts, t.name = name := by
  unfold distinctNames
  rw [List.mem_eraseDups, List.mem_map]

theorem mem_named : t ∈ named ts name ↔ t ∈ ts ∧ t.name = name := by
  unfold named
  rw [List.mem_filter, beq_iff_eq]

theorem named_ne_nil (h : name ∈ distinctNames ts) : named ts name ≠ [] := by
  obtain ⟨t, ht, hname⟩ := mem_distinctNames.1 h
  exact List.ne_nil_of_mem (mem_named.2 ⟨ht, hname⟩)

theorem distinctNames_concat_of_mem (h : t.name ∈ distinctNames ts) :
    distinctNames (ts ++ [t]) = distinctNames ts := by
  unfold distinctNames at h ⊢
  rw [List.map_append]
  exact eraseDups_concat_of_mem (List.mem_eraseDups.1 h)

theorem distinctNames_concat_of_not_mem (h : t.name ∉ distinctNames ts) :
    distinctNames (ts ++ [t]) = distinctNames ts ++ [t.name] := by
  unfold distinctNames at h ⊢
  rw [List.map_append]
  exact eraseDups_concat_of_not_mem fun hm => h (List.mem_eraseDups.2 hm)

theorem named_concat_self : named (ts ++ [t]) t.name = named ts t.name ++ [t] := by
  unfold named
  rw [List.filter_append, List.filter_singleton, beq_self_eq_true]
  rfl

theorem named_concat_of_ne (h : t.name ≠ name) : named (ts ++ [t]) name = named ts name := by
  unfold named
  rw [List.filter_append, List.filter_singleton, beq_false_of_ne h]
  exact List.append_nil _

theorem named_eq_nil (h : name ∉ distinctNames ts) : named ts name = [] := by
  rw [List.eq_nil_iff_forall_not_mem]
  intro t ht
  exact h (mem_distinctNames.2 ⟨t, mem_named.1 ht⟩)

/-- What the tables of a name come to. -/
def sourceOf (ts : List ResourceTable) (name : String) : PropertySource :=
  combined name (named ts name)

@[simp] theorem name_sourceOf (ts : List ResourceTable) (name : String) :
    (sourceOf ts name).name = name := by
  unfold sourceOf combined
  split
  next t ht => exact (mem_named.1 (ht ▸ List.mem_singleton_self t)).2
  next => rfl

theorem get?_combined (key name : String) (ts : List ResourceTable) :
    (combined name ts).get? key = ts.reverse.findSome? (·.properties.get? key) := by
  unfold combined
  split
  next t =>
    show t.properties.get? key = _
    rw [List.reverse_singleton, List.findSome?_cons]
    cases t.properties.get? key <;> rfl
  next =>
    show PropertySource.firstValue? key _ = _
    rw [PropertySource.firstValue?_eq_findSome?, List.findSome?_map]
    rfl

theorem combined_concat (name : String) (t : ResourceTable) (h : ts ≠ []) :
    combined name (ts ++ [t]) = .composite name (t.member :: ts.reverse.map member) := by
  unfold combined
  split
  next u hu => exact absurd (List.append_eq_singleton_iff.1 hu) (by simp [h])
  next => rw [List.reverse_concat, List.map_cons]

/-- A table joins those of its name in front of them. -/
theorem joined_combined (hne : ts ≠ []) (hname : ∀ u ∈ ts, u.name = t.name)
    (hres : ∀ u ∈ ts, u.resourceName ≠ t.resourceName) :
    SourceMerger.joined t.member (combined t.name ts) = combined t.name (ts ++ [t]) := by
  have hkept : (ts.reverse.map member).filter (·.name != t.resourceName) =
      ts.reverse.map member := by
    refine List.filter_eq_self.2 fun s hs => ?_
    obtain ⟨u, hu, rfl⟩ := List.mem_map.1 hs
    exact bne_iff_ne.2 (hres u (List.mem_reverse.1 hu))
  rw [combined_concat _ _ hne, ← hkept]
  unfold combined
  split
  next u =>
    rw [← hname u List.mem_cons_self]
    rfl
  next => rfl

theorem sourceOf_concat_of_ne (h : t.name ≠ name) :
    sourceOf (ts ++ [t]) name = sourceOf ts name := by
  unfold sourceOf
  rw [named_concat_of_ne h]

theorem sourceOf_concat_of_not_mem (h : t.name ∉ distinctNames ts) :
    sourceOf (ts ++ [t]) t.name = t.source := by
  unfold sourceOf
  rw [named_concat_self, named_eq_nil h]
  rfl

theorem sourceOf_concat_of_mem (h : t.name ∈ distinctNames ts)
    (hres : ∀ u ∈ ts, u.name = t.name → u.resourceName ≠ t.resourceName) :
    sourceOf (ts ++ [t]) t.name = SourceMerger.joined t.member (sourceOf ts t.name) := by
  unfold sourceOf
  rw [named_concat_self, joined_combined (named_ne_nil h) (fun u hu => (mem_named.1 hu).2)]
  intro u hu
  obtain ⟨hu, hname⟩ := mem_named.1 hu
  exact hres u hu hname

theorem map_sourceOf_concat {names : List String} (h : t.name ∉ names) :
    names.map (sourceOf (ts ++ [t])) = names.map (sourceOf ts) :=
  List.map_congr_left fun _ hname => sourceOf_concat_of_ne fun he => h (he ▸ hname)

end ResourceTable

/-! ## Adding tables -/

open ResourceTable (distinctNames named sourceOf)

namespace SourceList

/-- The list once tables have been added: what was there first, and behind it a source for each
name, in reverse order of first addition. -/
def merged (l : SourceList) (ts : List ResourceTable) : SourceList :=
  ⟨l.sources ++ (distinctNames ts).reverse.map (sourceOf ts)⟩

variable {l : SourceList} {t : ResourceTable} {ts : List ResourceTable} {name : String}
  {before after : List String}

theorem names_merged (l : SourceList) (ts : List ResourceTable) :
    (l.merged ts).names = l.names ++ (distinctNames ts).reverse := by
  unfold merged names
  rw [List.map_append, List.map_map]
  simp [Function.comp_def]

/-- The sources that were there first answer first, then the names from the last one added, and of
each name the newest table. -/
theorem property?_merged (l : SourceList) (ts : List ResourceTable) (key : String) :
    (l.merged ts).property? key = (l.property? key).or
      ((distinctNames ts).reverse.findSome? fun name =>
        (named ts name).reverse.findSome? (·.properties.get? key)) := by
  unfold merged property?
  rw [PropertySource.firstValue?_eq_findSome?, PropertySource.firstValue?_eq_findSome?,
    List.findSome?_append, List.findSome?_map]
  simp only [Function.comp_def, sourceOf, ResourceTable.get?_combined]

theorem merged_eq (h : distinctNames ts = before ++ name :: after) :
    l.merged ts = ⟨(l.sources ++ after.reverse.map (sourceOf ts)) ++
      sourceOf ts name :: before.reverse.map (sourceOf ts)⟩ := by
  unfold merged
  rw [h, List.reverse_append, List.reverse_cons, List.append_assoc, List.map_append,
    List.singleton_append, List.map_cons, List.append_assoc]

theorem name_not_mem_ahead (ts : List ResourceTable) (hl : name ∉ l.names) (hafter : name ∉ after) :
    (sourceOf ts name).name ∉ (l.sources ++ after.reverse.map (sourceOf ts)).map (·.name) := by
  rw [ResourceTable.name_sourceOf, List.map_append, List.map_map, List.mem_append, not_or]
  exact ⟨hl, by simpa [Function.comp_def] using hafter⟩

theorem merged_concat_of_not_mem (h : t.name ∉ distinctNames ts) :
    l.merged (ts ++ [t]) =
      ⟨l.sources ++ t.source :: (distinctNames ts).reverse.map (sourceOf ts)⟩ := by
  unfold merged
  rw [ResourceTable.distinctNames_concat_of_not_mem h, List.reverse_concat, List.map_cons,
    ResourceTable.map_sourceOf_concat (mt List.mem_reverse.1 h),
    ResourceTable.sourceOf_concat_of_not_mem h]

theorem merged_concat_of_mem (hsplit : distinctNames ts = before ++ t.name :: after)
    (hbefore : t.name ∉ before) (hafter : t.name ∉ after) :
    l.merged (ts ++ [t]) = ⟨(l.sources ++ after.reverse.map (sourceOf ts)) ++
      sourceOf (ts ++ [t]) t.name :: before.reverse.map (sourceOf ts)⟩ := by
  have ht : t.name ∈ distinctNames ts := by simp [hsplit]
  rw [merged_eq ((ResourceTable.distinctNames_concat_of_mem ht).trans hsplit),
    ResourceTable.map_sourceOf_concat (mt List.mem_reverse.1 hbefore),
    ResourceTable.map_sourceOf_concat (mt List.mem_reverse.1 hafter)]

end SourceList

namespace SourceMerger

variable {l : SourceList} {t : ResourceTable} {ts : List ResourceTable}

/-- A table of a new name comes before those added so far. -/
theorem add_of_new (hl : ∀ u ∈ ts ++ [t], u.name ∉ l.names) (ht : t.name ∉ distinctNames ts) :
    (⟨distinctNames ts⟩ : SourceMerger).add (l.merged ts) t.source =
      (.ok (), ⟨distinctNames (ts ++ [t])⟩, l.merged (ts ++ [t])) := by
  have hnew : t.name ∉ (l.merged ts).names := by
    rw [SourceList.names_merged, List.mem_append, not_or]
    exact ⟨hl t (List.mem_append_right _ (List.mem_singleton_self t)), mt List.mem_reverse.1 ht⟩
  rw [SourceList.merged_concat_of_not_mem ht, ResourceTable.distinctNames_concat_of_not_mem ht]
  unfold add
  rw [if_neg (by simp [ResourceTable.source, PropertySource.name, ht])]
  rcases List.eq_nil_or_concat (distinctNames ts) with hnames | ⟨rest, last, hnames⟩
  · have hmerged : l.merged ts = l := by
      unfold SourceList.merged
      rw [hnames]
      simp
    rw [hmerged] at hnew ⊢
    rw [hnames]
    show (Except.ok (), _, l.addLast t.source) = _
    rw [SourceList.addLast_of_not_mem hnew]
    rfl
  · rw [List.concat_eq_append] at hnames
    have hlast : last ∉ l.names := by
      have hmem : last ∈ distinctNames ts := by simp [hnames]
      obtain ⟨u, hu, rfl⟩ := ResourceTable.mem_distinctNames.1 hmem
      exact hl u (List.mem_append_left _ hu)
    have hadded : (l.merged ts).addBefore last t.source = (.ok (),
        ⟨l.sources ++ t.source :: sourceOf ts last :: rest.reverse.map (sourceOf ts)⟩) := by
      have hahead := SourceList.name_not_mem_ahead ts hlast List.not_mem_nil
      rw [SourceList.merged_eq hnames] at hnew ⊢
      have hbefore := SourceList.addBefore_append_cons (t := t.source) hahead hnew
      rw [ResourceTable.name_sourceOf] at hbefore
      simpa using hbefore
    have hgetLast : (distinctNames ts).getLast? = some last := by
      rw [hnames, List.getLast?_concat]
    simp only [hgetLast, hadded]
    rw [hnames, List.reverse_concat, List.map_cons]
    rfl

/-- A table of a name that was added joins what was added under it. -/
theorem add_of_known (hl : ∀ u ∈ ts, u.name ∉ l.names) (ht : t.name ∈ distinctNames ts)
    (hres : ∀ u ∈ ts, u.name = t.name → u.resourceName ≠ t.resourceName) :
    (⟨distinctNames ts⟩ : SourceMerger).add (l.merged ts) t.source =
      (.ok (), ⟨distinctNames (ts ++ [t])⟩, l.merged (ts ++ [t])) := by
  obtain ⟨before, after, hsplit, hbefore, hafter⟩ :
      ∃ before after, distinctNames ts = before ++ t.name :: after ∧ t.name ∉ before ∧
        t.name ∉ after := exists_eraseDups_split (List.mem_eraseDups.1 ht)
  have hcontains : (l.merged ts).contains t.name = true := by
    rw [SourceList.contains_iff_mem_names, SourceList.names_merged]
    exact List.mem_append_right _ (List.mem_reverse.2 ht)
  have hmodified : (l.merged ts).modify t.name (joined t.member) = l.merged (ts ++ [t]) := by
    obtain ⟨u, hu, hname⟩ := ResourceTable.mem_distinctNames.1 ht
    have hahead := SourceList.name_not_mem_ahead ts (hname ▸ hl u hu) hafter
    have hmodify := SourceList.modify_append_cons hahead (before.reverse.map (sourceOf ts))
      (joined t.member)
    rw [ResourceTable.name_sourceOf] at hmodify
    rw [SourceList.merged_eq hsplit, hmodify, SourceList.merged_concat_of_mem hsplit hbefore hafter,
      ResourceTable.sourceOf_concat_of_mem ht hres]
  rw [ResourceTable.distinctNames_concat_of_mem ht, ← hmodified]
  unfold add
  rw [if_pos (by rw [Bool.and_eq_true]; exact ⟨decide_eq_true ht, hcontains⟩)]
  rfl

/-- Add sources one after the other, whatever comes of each of them. -/
def addAll : SourceMerger → SourceList → List PropertySource →
    List (Except Error Unit) × SourceMerger × SourceList
  | m, l, [] => ([], m, l)
  | m, l, s :: rest =>
    let (outcome, m, l) := m.add l s
    let (outcomes, m, l) := addAll m l rest
    (outcome :: outcomes, m, l)

/-- No name is one of the list, and the tables of one name come from different resources. -/
structure Mergeable (l : SourceList) (ts : List ResourceTable) : Prop where
  unlisted : ∀ t ∈ ts, t.name ∉ l.names
  distinct : ts.Pairwise fun t u => t.name = u.name → t.resourceName ≠ u.resourceName

theorem add_merged (h : Mergeable l (ts ++ [t])) :
    (⟨distinctNames ts⟩ : SourceMerger).add (l.merged ts) t.source =
      (.ok (), ⟨distinctNames (ts ++ [t])⟩, l.merged (ts ++ [t])) := by
  by_cases ht : t.name ∈ distinctNames ts
  · refine add_of_known (fun u hu => h.unlisted u (List.mem_append_left _ hu)) ht
      fun u hu hname => ?_
    exact (List.pairwise_append.1 h.distinct).2.2 u hu t (List.mem_singleton_self t) hname
  · exact add_of_new h.unlisted ht

theorem addAll_merged {rest : List ResourceTable} (h : Mergeable l (ts ++ rest)) :
    addAll ⟨distinctNames ts⟩ (l.merged ts) (rest.map (·.source)) =
      (rest.map fun _ => .ok (), ⟨distinctNames (ts ++ rest)⟩, l.merged (ts ++ rest)) := by
  induction rest generalizing ts with
  | nil =>
    rw [List.append_nil]
    rfl
  | cons t rest ih =>
    rw [List.append_cons] at h ⊢
    have hstep : Mergeable l (ts ++ [t]) :=
      ⟨fun u hu => h.unlisted u (List.mem_append_left _ hu),
        (List.pairwise_append.1 h.distinct).1⟩
    unfold addAll
    rw [List.map_cons, List.map_cons]
    simp only [add_merged hstep, ih h]

/-- Of a key that only one table knows, this table gives the value. -/
theorem property?_of_only {t : ResourceTable} {key value : String} (ht : t ∈ ts)
    (hvalue : t.properties.get? key = some value) (hl : l.property? key = none)
    (honly : ∀ u ∈ ts, u ≠ t → u.properties.get? key = none) :
    (l.merged ts).property? key = some value := by
  have hgives : ∀ u ∈ ts, ∀ given, u.properties.get? key = some given → given = value := by
    intro u hu given hgiven
    by_cases he : u = t
    · rw [he, hvalue] at hgiven
      exact (Option.some.inj hgiven).symm
    · rw [honly u hu he] at hgiven
      cases hgiven
  rw [SourceList.property?_merged, hl, Option.none_or]
  cases hfound : (distinctNames ts).reverse.findSome? fun name =>
      (named ts name).reverse.findSome? (·.properties.get? key) with
  | none =>
    have hname := List.findSome?_eq_none_iff.1 hfound t.name
      (List.mem_reverse.2 (ResourceTable.mem_distinctNames.2 ⟨t, ht, rfl⟩))
    have hnone := List.findSome?_eq_none_iff.1 hname t
      (List.mem_reverse.2 (ResourceTable.mem_named.2 ⟨ht, rfl⟩))
    rw [hvalue] at hnone
    cases hnone
  | some given =>
    obtain ⟨name, -, hname⟩ := List.exists_of_findSome?_eq_some hfound
    obtain ⟨u, hu, hgiven⟩ := List.exists_of_findSome?_eq_some hname
    rw [hgives u (ResourceTable.mem_named.1 (List.mem_reverse.1 hu)).1 given hgiven]

/-- Adding tables to a list of sources never fails. The names of the list are then those that were
there first, and behind them the names of the tables in reverse order of first addition. The sources
that were there stay as they are and answer first; then answer the names from the last one added,
and of each name its newest table. So a key that only one table knows has the value of this table.
-/
theorem addAll_merges (h : Mergeable l ts) : ∃ m merged,
    addAll {} l (ts.map (·.source)) = (ts.map fun _ => .ok (), m, merged) ∧
    merged.names = l.names ++ (distinctNames ts).reverse ∧
    m.names = distinctNames ts ∧
    l.sources <+: merged.sources ∧
    (∀ key, merged.property? key = (l.property? key).or
      ((distinctNames ts).reverse.findSome? fun name =>
        (named ts name).reverse.findSome? (·.properties.get? key))) ∧
    ∀ t ∈ ts, ∀ key value, t.properties.get? key = some value → l.property? key = none →
      (∀ u ∈ ts, u ≠ t → u.properties.get? key = none) → merged.property? key = some value := by
  have hnil : l.merged [] = l := by
    unfold SourceList.merged
    exact congrArg SourceList.mk (List.append_nil _)
  have hadd : addAll {} (l.merged []) (ts.map (·.source)) =
      (ts.map fun _ => .ok (), ⟨distinctNames ts⟩, l.merged ts) :=
    addAll_merged (show Mergeable l ([] ++ ts) from h)
  rw [hnil] at hadd
  exact ⟨_, _, hadd, SourceList.names_merged l ts, rfl, List.prefix_append _ _,
    SourceList.property?_merged l ts, fun _ ht _ _ => property?_of_only ht⟩

/-- Two tables of one name and a table of another name between them. -/
def interleaved : List ResourceTable :=
  [{ name := "app", resourceName := "first.properties",
      properties := .ofList [("key", "one"), ("only", "yes")] },
    { name := "other", resourceName := "other.properties",
      properties := .ofList [("port", "80")] },
    { name := "app", resourceName := "second.properties",
      properties := .ofList [("key", "two"), ("port", "90")] }]

theorem addAll_merges_interleaved : ∃ l m merged,
    l.names = ["base"] ∧ Mergeable l interleaved ∧
    addAll {} l (interleaved.map (·.source)) = ([.ok (), .ok (), .ok ()], m, merged) ∧
    merged.names = ["base", "other", "app"] ∧ m.names = ["app", "other"] ∧
    merged.property? "base" = some "no" ∧ merged.property? "key" = some "two" ∧
    merged.property? "port" = some "80" ∧ merged.property? "only" = some "yes" := by
  have h : Mergeable ⟨[.table "base" none (.ofList [("base", "no")])]⟩ interleaved :=
    ⟨by decide, by decide⟩
  obtain ⟨m, merged, hadd, hnames, hm, -, hproperty, hreach⟩ := addAll_merges h
  refine ⟨_, m, merged, rfl, h, hadd, hnames, hm, ?_, ?_, ?_, ?_⟩
  · rw [hproperty]; decide
  · rw [hproperty]; decide
  · rw [hproperty]; decide
  · exact hreach _ List.mem_cons_self "only" "yes" (by decide) (by decide) (by decide)

end SourceMerger

end Wiring
