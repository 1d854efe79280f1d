import Wiring.Deferred
import Wiring.Proofs.Sequence

/-!
# Settling deferred imports

Selections that have waited are sorted by precedence and put into groups, and each group gives the
imports of its members in the order of its strategy. Nothing is lost or repeated on the way, and
selections of different groups stay apart: those with a tag are together with all others of the tag,
and each of the others is alone.
-/

namespace Wiring

/-! ## Waiting -/

namespace DeferredQueue

/-- Let selections wait, one after the other; those that are handed back are given. -/
def handleAll (q : DeferredQueue) : List DeferredImport → List DeferredImport × DeferredQueue
  | [] => ([], q)
  | d :: rest =>
    let (handed?, q) := q.handle d
    let (handed, q) := q.handleAll rest
    (handed?.toList ++ handed, q)

theorem handleAll_pending (ds rest : List DeferredImport) :
    handleAll ⟨some ds⟩ rest = ([], ⟨some (ds ++ rest)⟩) := by
  induction rest generalizing ds with
  | nil => rw [List.append_nil]; rfl
  | cons d rest ih =>
    unfold handleAll handle
    simp only [ih, List.append_assoc, List.singleton_append]
    rfl

/-- While selections are being settled it is the selection itself that is handed back. -/
theorem eq_of_handle {q : DeferredQueue} {d d' : DeferredImport} (h : (q.handle d).1 = some d') :
    d' = d := by
  unfold handle at h
  split at h
  · cases h
  · exact (Option.some.inj h).symm

end DeferredQueue

/-! ## Strategies -/

namespace GroupStrategy

/-- What a strategy makes of the entries that a group has collected. -/
def Gives (s : GroupStrategy) (collected given : List DeferredEntry) : Prop :=
  match s with
  | .declared => given = collected
  | .reverse => given = collected.reverse
  | .sorted => StablySorted (fun a b => a.className ≤ b.className) collected given

theorem gives_arrange (s : GroupStrategy) (entries : List DeferredEntry) :
    s.Gives entries (s.arrange entries) := by
  cases s with
  | declared => rfl
  | reverse => rfl
  | sorted =>
    exact stablySorted_mergeSort
      (fun a b => decide_eq_true_iff (p := a.className ≤ b.className))
      (fun _ _ _ => String.le_trans) (fun _ _ => String.le_total _ _) entries

theorem Gives.perm {s : GroupStrategy} {collected given : List DeferredEntry}
    (h : s.Gives collected given) : given.Perm collected := by
  cases s with
  | declared => exact .of_eq h
  | reverse => exact h ▸ List.reverse_perm collected
  | sorted => exact StablySorted.perm h

end GroupStrategy

/-! ## Seats -/

/-- Where a selection belongs: with all others of its tag, or alone, which is told by its place
among all selections. -/
inductive Seat where
  | tagged (tag : String)
  | alone (place : Nat)
deriving DecidableEq

/-- The seat of a selection at a place. -/
def DeferredImport.seat (place : Nat) (d : DeferredImport) : Seat :=
  match d.selection.group? with
  | some tag => .tagged tag
  | none => .alone place

namespace Seat

/-- The seats that selections take, in order of first occurrence. -/
def taken (ds : List DeferredImport) : List Seat := (ds.mapIdx DeferredImport.seat).eraseDups

/-- The selections of a seat. -/
def members (ds : List DeferredImport) : Seat → List DeferredImport
  | tagged tag => ds.filter (·.selection.group? == some tag)
  | alone place => ds[place]?.toList

/-- The strategy of a seat, where those of the tags are known. -/
def strategy (strategies : String → GroupStrategy) : Seat → GroupStrategy
  | tagged tag => strategies tag
  | alone _ => .declared

/-- The key of the group of a seat at a position. -/
def key (position : Nat) : Seat → GroupKey
  | tagged tag => .tag tag
  | alone _ => .isolated position

variable {ds : List DeferredImport} {d : DeferredImport} {seat : Seat}

theorem mem_taken : seat ∈ taken ds ↔ ∃ (i : Nat) (h : i < ds.length), ds[i].seat i = seat := by
  unfold taken
  rw [List.mem_eraseDups, List.mem_mapIdx]

theorem lt_length_of_alone {place : Nat} (h : alone place ∈ taken ds) : place < ds.length := by
  obtain ⟨i, hi, hseat⟩ := mem_taken.1 h
  unfold DeferredImport.seat at hseat
  split at hseat
  · cases hseat
  · cases hseat
    exact hi

theorem taken_concat_of_mem (h : d.seat ds.length ∈ taken ds) : taken (ds ++ [d]) = taken ds := by
  unfold taken at h ⊢
  rw [List.mapIdx_concat]
  exact eraseDups_concat_of_mem (List.mem_eraseDups.1 h)

theorem taken_concat_of_not_mem (h : d.seat ds.length ∉ taken ds) :
    taken (ds ++ [d]) = taken ds ++ [d.seat ds.length] := by
  unfold taken at h ⊢
  rw [List.mapIdx_concat]
  exact eraseDups_concat_of_not_mem fun hm => h (List.mem_eraseDups.2 hm)

theorem members_concat_self : members (ds ++ [d]) (d.seat ds.length) =
    members ds (d.seat ds.length) ++ [d] := by
  unfold DeferredImport.seat
  split
  next tag htag =>
    show (ds ++ [d]).filter _ = ds.filter _ ++ [d]
    rw [List.filter_append, List.filter_singleton, htag, beq_self_eq_true]
    rfl
  next =>
    show (ds ++ [d])[ds.length]?.toList = ds[ds.length]?.toList ++ [d]
    rw [List.getElem?_concat_length, List.getElem?_eq_none (Nat.le_refl _)]
    rfl

theorem members_concat_of_ne (h : seat ∈ taken ds) (hne : seat ≠ d.seat ds.length) :
    members (ds ++ [d]) seat = members ds seat := by
  cases seat with
  | tagged tag =>
    have htag : d.selection.group? ≠ some tag := by
      intro htag
      refine hne ?_
      unfold DeferredImport.seat
      rw [htag]
    show (ds ++ [d]).filter _ = ds.filter _
    rw [List.filter_append, List.filter_singleton, beq_false_of_ne htag]
    exact List.append_nil _
  | alone place =>
    show (ds ++ [d])[place]?.toList = ds[place]?.toList
    rw [List.getElem?_append_left (lt_length_of_alone h)]

/-- A seat that is not taken has no members when a selection takes it. -/
theorem members_eq_nil (h : d.seat ds.length ∉ taken ds) : members ds (d.seat ds.length) = [] := by
  revert h
  unfold DeferredImport.seat
  split
  next tag htag =>
    intro h
    refine List.filter_eq_nil_iff.2 fun u hu hut => h ?_
    obtain ⟨i, hi, rfl⟩ := List.mem_iff_getElem.1 hu
    refine mem_taken.2 ⟨i, hi, ?_⟩
    unfold DeferredImport.seat
    rw [eq_of_beq hut]
  next =>
    intro
    show ds[ds.length]?.toList = []
    rw [List.getElem?_eq_none (Nat.le_refl _)]
    rfl

theorem mem_of_mem_members (h : d ∈ members ds seat) : d ∈ ds := by
  cases seat with
  | tagged tag => exact (List.mem_filter.1 h).1
  | alone place => exact List.mem_of_getElem? (Option.mem_toList.1 h)

/-- All selections have a seat, and only one. -/
theorem flatMap_members_perm (ds : List DeferredImport) :
    ((taken ds).flatMap (members ds)).Perm ds := by
  induction ds using List.reverseRecOn with
  | nil => exact .refl _
  | append_singleton ds d ih =>
    by_cases h : d.seat ds.length ∈ taken ds
    · obtain ⟨before, after, hsplit, hbefore, hafter⟩ :=
        exists_eraseDups_split (List.mem_eraseDups.1 h)
      have hothers (seats : List Seat) (hs : seats ⊆ taken ds) (hd : d.seat ds.length ∉ seats) :
          ∀ seat ∈ seats, members (ds ++ [d]) seat = members ds seat := fun seat hseat =>
        members_concat_of_ne (hs hseat) fun he => hd (he ▸ hseat)
      have hsplit : taken ds = before ++ d.seat ds.length :: after := hsplit
      rw [taken_concat_of_mem h]
      refine .trans ?_ (ih.append_right [d])
      rw [hsplit] at hothers ⊢
      refine flatMap_concat_perm members_concat_self (hothers _ (by simp) hbefore)
        (hothers _ (by simp) hafter)
    · rw [taken_concat_of_not_mem h, List.flatMap_append, List.flatMap_singleton,
        members_concat_self, members_eq_nil h]
      refine .trans (.of_eq ?_) (ih.append_right [d])
      rw [List.flatMap_congr fun seat hseat => members_concat_of_ne hseat fun he => h (he ▸ hseat)]
      rfl

theorem key_eq_iff {i n : Nat} (h : seat ∈ taken ds) (hi : i < n) :
    seat.key i = (d.seat ds.length).key n ↔ seat = d.seat ds.length := by
  unfold DeferredImport.seat
  cases seat with
  | tagged tag => split <;> simp [key]
  | alone place =>
    have hplace := lt_length_of_alone h
    split
    · simp [key]
    · simp only [key, GroupKey.isolated.injEq, alone.injEq]
      omega

end Seat

/-! ## Groups -/

namespace DeferredGroup

variable {ctx : Context} {strategies : String → GroupStrategy} {ds : List DeferredImport}
  {d : DeferredImport}

/-- The group of a seat at a position. -/
def ofSeat (strategies : String → GroupStrategy) (ds : List DeferredImport) (position : Nat)
    (seat : Seat) : DeferredGroup :=
  { key := seat.key position, strategy := seat.strategy strategies, members := seat.members ds }

/-- The groups of all seats taken. -/
def ofSeats (strategies : String → GroupStrategy) (ds : List DeferredImport) :
    List DeferredGroup :=
  (Seat.taken ds).mapIdx (ofSeat strategies ds)

theorem key_ofSeat_iff {i : Nat} (hi : i < (Seat.taken ds).length) :
    (ofSeat strategies ds i (Seat.taken ds)[i]).key =
      (d.seat ds.length).key (Seat.taken ds).length ↔ (Seat.taken ds)[i] = d.seat ds.length :=
  Seat.key_eq_iff (List.getElem_mem hi) hi

theorem any_key_ofSeats :
    (ofSeats strategies ds).any (·.key == (d.seat ds.length).key (Seat.taken ds).length) = true ↔
      d.seat ds.length ∈ Seat.taken ds := by
  unfold ofSeats
  rw [List.any_eq_true, List.mem_iff_getElem]
  constructor
  · rintro ⟨g, hg, hkey⟩
    obtain ⟨i, hi, rfl⟩ := List.mem_mapIdx.1 hg
    exact ⟨i, hi, (key_ofSeat_iff hi).1 (eq_of_beq hkey)⟩
  · rintro ⟨i, hi, hseat⟩
    exact ⟨_, List.mem_mapIdx.2 ⟨i, hi, rfl⟩, beq_iff_eq.2 ((key_ofSeat_iff hi).2 hseat)⟩

theorem nodup_keys : ((ofSeats strategies ds).map (·.key)).Nodup := by
  have hseats : (Seat.taken ds).Nodup := nodup_eraseDups _
  refine List.pairwise_iff_getElem.2 fun i j hi hj hij => ?_
  have hi : i < (Seat.taken ds).length := by simpa [ofSeats] using hi
  have hj : j < (Seat.taken ds).length := by simpa [ofSeats] using hj
  have hne : (Seat.taken ds)[i] ≠ (Seat.taken ds)[j] :=
    List.pairwise_iff_getElem.1 hseats i j hi hj hij
  simp only [ofSeats, List.getElem_map, List.getElem_mapIdx, ofSeat]
  revert hne
  cases (Seat.taken ds)[i] <;> cases (Seat.taken ds)[j] <;> simp [Seat.key]
  omega

theorem map_ofSeats (h : d.seat ds.length ∈ Seat.taken ds) :
    ((ofSeats strategies ds).map fun g =>
      if g.key = (d.seat ds.length).key (Seat.taken ds).length then
        { g with members := g.members ++ [d] } else g) = ofSeats strategies (ds ++ [d]) := by
  unfold ofSeats
  rw [Seat.taken_concat_of_mem h]
  refine List.ext_getElem (by simp) fun i hi hi' => ?_
  have hi : i < (Seat.taken ds).length := by simpa using hi
  rw [List.getElem_map, List.getElem_mapIdx, List.getElem_mapIdx]
  by_cases hseat : (Seat.taken ds)[i] = d.seat ds.length
  · rw [if_pos ((key_ofSeat_iff hi).2 hseat), hseat]
    unfold ofSeat
    rw [Seat.members_concat_self]
  · rw [if_neg fun hk => hseat ((key_ofSeat_iff hi).1 hk)]
    unfold ofSeat
    rw [Seat.members_concat_of_ne (List.getElem_mem hi) hseat]

/-- A selection whose seat is not taken makes a group of its own. -/
theorem ofSeats_concat (h : d.seat ds.length ∉ Seat.taken ds) :
    ofSeats strategies (ds ++ [d]) = ofSeats strategies ds ++
      [{ key := (d.seat ds.length).key (Seat.taken ds).length
         strategy := (d.seat ds.length).strategy strategies
         members := [d] }] := by
  unfold ofSeats
  rw [Seat.taken_concat_of_not_mem h, List.mapIdx_concat]
  congr 1
  · refine List.ext_getElem (by simp) fun i hi hi' => ?_
    have hi : i < (Seat.taken ds).length := by simpa using hi
    rw [List.getElem_mapIdx, List.getElem_mapIdx]
    unfold ofSeat
    rw [Seat.members_concat_of_ne (List.getElem_mem hi) fun he => h (he ▸ List.getElem_mem hi)]
  · unfold ofSeat
    rw [Seat.members_concat_self, Seat.members_eq_nil h]
    rfl

theorem register_eq (ctx : Context) (groups : List DeferredGroup) (d : DeferredImport)
    (place : Nat) : register ctx groups d =
      if groups.any (·.key == (d.seat place).key groups.length) then
        .ok (groups.map fun g =>
          if g.key = (d.seat place).key groups.length then
            { g with members := g.members ++ [d] } else g)
      else strategyOf ctx ((d.seat place).key groups.length) >>= fun strategy =>
        pure (groups ++
          [{ key := (d.seat place).key groups.length, strategy, members := [d] }]) := by
  unfold register DeferredImport.seat
  cases d.selection.group? <;> rfl

theorem register_ofSeats (hd : ∀ tag, d.selection.group? = some tag →
      ctx.instantiate tag = .ok (.group (strategies tag))) :
    register ctx (ofSeats strategies ds) d = .ok (ofSeats strategies (ds ++ [d])) := by
  have hlength : (ofSeats strategies ds).length = (Seat.taken ds).length := List.length_mapIdx
  have hstrategy : strategyOf ctx ((d.seat ds.length).key (Seat.taken ds).length) =
      .ok ((d.seat ds.length).strategy strategies) := by
    unfold DeferredImport.seat
    split
    next tag htag =>
      show (ctx.instantiate tag >>= _) = _
      rw [hd tag htag]
      rfl
    next => rfl
  rw [register_eq ctx _ d ds.length, hlength]
  by_cases h : d.seat ds.length ∈ Seat.taken ds
  · rw [if_pos (any_key_ofSeats.2 h), map_ofSeats h]
  · rw [if_neg (mt any_key_ofSeats.1 h), hstrategy, ofSeats_concat h]
    rfl

theorem ofList_eq (hds : ∀ d ∈ ds, ∀ tag, d.selection.group? = some tag →
      ctx.instantiate tag = .ok (.group (strategies tag))) :
    ofList ctx ds = .ok (ofSeats strategies ds) := by
  unfold ofList
  induction ds using List.reverseRecOn with
  | nil => rfl
  | append_singleton ds d ih =>
    rw [List.foldlM_append, ih fun d hd => hds d (List.mem_append_left _ hd)]
    show (List.foldlM (register ctx) (ofSeats strategies ds) [d]) = _
    rw [List.foldlM_cons, register_ofSeats (hds d (List.mem_append_right _ (by simp)))]
    rfl

/-- Registering a selection puts nothing else into a group. -/
theorem mem_of_register {ctx : Context} {groups groups' : List DeferredGroup}
    (h : register ctx groups d = .ok groups') {g : DeferredGroup} (hg : g ∈ groups')
    {e : DeferredImport} (he : e ∈ g.members) : e = d ∨ ∃ g ∈ groups, e ∈ g.members := by
  rw [register_eq ctx groups d 0] at h
  split at h
  · cases h
    obtain ⟨g₀, hg₀, rfl⟩ := List.mem_map.1 hg
    split at he
    · rcases List.mem_append.1 he with he | he
      · exact .inr ⟨g₀, hg₀, he⟩
      · exact .inl (List.mem_singleton.1 he)
    · exact .inr ⟨g₀, hg₀, he⟩
  · obtain ⟨strategy, -, ⟨⟩⟩ := bind_eq_ok.1 h
    rcases List.mem_append.1 hg with hg | hg
    · exact .inr ⟨g, hg, he⟩
    · rw [List.mem_singleton.1 hg] at he
      exact .inl (List.mem_singleton.1 he)

/-- The members of groups are selections that were to be grouped. -/
theorem mem_of_ofList {ctx : Context} {groups : List DeferredGroup} (h : ofList ctx ds = .ok groups)
    {g : DeferredGroup} (hg : g ∈ groups) {e : DeferredImport} (he : e ∈ g.members) : e ∈ ds := by
  unfold ofList at h
  induction ds using List.reverseRecOn generalizing groups g with
  | nil =>
    cases h
    cases hg
  | append_singleton ds d ih =>
    rw [List.foldlM_append] at h
    obtain ⟨before, hbefore, h⟩ := bind_eq_ok.1 h
    rw [List.foldlM_cons] at h
    obtain ⟨after, hafter, ⟨⟩⟩ := bind_eq_ok.1 h
    rcases mem_of_register hafter hg he with rfl | ⟨g', hg', he'⟩
    · simp
    · exact List.mem_append_left _ (ih hbefore hg' he')

/-! ## Entries -/

/-- The entries that a selection makes of the names that it gives. -/
def produced (names : DeferredImport → List String) (d : DeferredImport) : List DeferredEntry :=
  (names d).map fun className => { importing := d.importing, className }

variable {env : Environment} {names : DeferredImport → List String}

theorem entries_eq {g : DeferredGroup}
    (h : ∀ d ∈ g.members, d.selection.names env = .ok (names d)) :
    entries env g = .ok (g.strategy.arrange (g.members.flatMap (produced names))) := by
  have hparts : g.members.mapM (entriesOf env) = .ok (g.members.map (produced names)) :=
    mapM_eq_ok fun d hd => by
      unfold entriesOf
      rw [h d hd]
      rfl
  unfold entries
  rw [hparts, List.flatMap_def]
  rfl

theorem exists_of_entries {g : DeferredGroup} {given : List DeferredEntry}
    (h : entries env g = .ok given) {entry : DeferredEntry} (he : entry ∈ given) :
    ∃ d ∈ g.members, entry.importing = d.importing := by
  obtain ⟨parts, hparts, ⟨⟩⟩ := bind_eq_ok.1 h
  have hmem : entry ∈ parts.flatten :=
    (g.strategy.gives_arrange parts.flatten).perm.mem_iff.1 he
  obtain ⟨part, hpart, hentry⟩ := List.mem_flatten.1 hmem
  obtain ⟨d, hd, hf⟩ := exists_of_mem_mapM hparts hpart
  obtain ⟨names, -, ⟨⟩⟩ := bind_eq_ok.1 hf
  obtain ⟨className, -, rfl⟩ := List.mem_map.1 hentry
  exact ⟨d, hd, rfl⟩

theorem mapM_entries (h : ∀ d ∈ ds, d.selection.names env = .ok (names d)) :
    (ofSeats strategies ds).mapM (entries env) = .ok ((Seat.taken ds).map fun seat =>
      (seat.strategy strategies).arrange ((seat.members ds).flatMap (produced names))) := by
  have hentries : ∀ g ∈ ofSeats strategies ds, entries env g =
      .ok (g.strategy.arrange (g.members.flatMap (produced names))) := by
    intro g hg
    obtain ⟨i, hi, rfl⟩ := List.mem_mapIdx.1 hg
    exact entries_eq fun d hd => h d (Seat.mem_of_mem_members hd)
  rw [mapM_eq_ok hentries]
  refine congrArg _ (List.ext_getElem (by simp [ofSeats]) fun i hi hi' => ?_)
  simp only [ofSeats, List.getElem_map, List.getElem_mapIdx, ofSeat]

/-- Selections that wait while others are collected, whose groups are known and whose names are
given, are settled without loss: they are sorted by precedence, those that are equal in it in the
order in which they came; there is one group for each seat, in order of first occurrence; and each
group gives what its members produce, in the order of its strategy, so that all groups together give
what all selections produce. -/
theorem settles_all (hgroups : ∀ d ∈ ds, ∀ tag, d.selection.group? = some tag →
      ctx.instantiate tag = .ok (.group (strategies tag)))
    (hnames : ∀ d ∈ ds, d.selection.names env = .ok (names d)) :
    ∃ queue sorted given,
      DeferredQueue.handleAll {} ds = ([], queue) ∧
      queue.begin = (sorted, ⟨none⟩) ∧
      StablySorted (fun a b => a.selection.precedence.Before b.selection.precedence) ds sorted ∧
      ofList ctx sorted = .ok (ofSeats strategies sorted) ∧
      ((ofSeats strategies sorted).map (·.key)).Nodup ∧
      (ofSeats strategies sorted).mapM (entries env) = .ok given ∧
      List.Forall₂ (fun seat part => (seat.strategy strategies).Gives
        ((seat.members sorted).flatMap (produced names)) part) (Seat.taken sorted) given ∧
      given.flatten.Perm (ds.flatMap (produced names)) := by
  have hsorted : StablySorted _ ds (Precedence.sort (·.selection.precedence) ds) :=
    Precedence.stablySorted_sort (·.selection.precedence) ds
  generalize hsort : Precedence.sort (fun d : DeferredImport => d.selection.precedence) ds = sorted
    at hsorted
  have hmem : ∀ d ∈ sorted, d ∈ ds := fun d hd => hsorted.perm.mem_iff.1 hd
  have hgives : List.Forall₂ (fun seat part => (seat.strategy strategies).Gives
      ((seat.members sorted).flatMap (produced names)) part) (Seat.taken sorted)
      ((Seat.taken sorted).map fun seat =>
        (seat.strategy strategies).arrange ((seat.members sorted).flatMap (produced names))) :=
    List.forall₂_map_right_iff.2 (List.forall₂_same.2 fun seat _ => GroupStrategy.gives_arrange _ _)
  refine ⟨⟨some ds⟩, sorted, _, DeferredQueue.handleAll_pending [] ds, congrArg (·, _) hsort,
    hsorted, ofList_eq fun d hd => hgroups d (hmem d hd), nodup_keys,
    mapM_entries fun d hd => hnames d (hmem d hd), hgives, ?_⟩
  rw [← List.flatMap_def]
  refine (List.Perm.flatMap_left _ fun seat _ => (GroupStrategy.gives_arrange _ _).perm).trans ?_
  rw [← List.flatMap_assoc]
  exact ((Seat.flatMap_members_perm sorted).trans hsorted.perm).flatMap_right _

/-- Two groups, one of which reverses and one of which sorts. -/
def branches : Descriptor :=
  { plugins := [.group "Back" .reverse, .group "Sort" .sorted] }

/-- Selections for both groups and for none, in no order. -/
def waiting : List DeferredImport :=
  [⟨"Late", { name := "App" }, ⟨⟨["D", "C"], false⟩, some "Sort", {}⟩⟩,
    ⟨"Free", { name := "App" }, ⟨⟨["F", "E"], false⟩, none, .ofValue 2⟩⟩,
    ⟨"Turned", { name := "Shop" }, ⟨⟨["A", "B"], false⟩, some "Back", .ofValue 1⟩⟩,
    ⟨"Other", { name := "Shop" }, ⟨⟨["F"], false⟩, none, {}⟩⟩,
    ⟨"First", { name := "Shop" }, ⟨⟨["C", "B"], false⟩, some "Sort", .priority 9⟩⟩]

/-- The strategies of the two groups. -/
def turning (tag : String) : GroupStrategy := if tag = "Back" then .reverse else .sorted

theorem known_waiting : ∃ ctx w,
    Context.ofDescriptor branches "." { workingDirectory := [], files := [] } Table.empty =
      .ok (ctx, w) ∧
    (∀ d ∈ waiting, ∀ tag, d.selection.group? = some tag →
      ctx.instantiate tag = .ok (.group (turning tag))) ∧
    ∀ d ∈ waiting, d.selection.names w.environment = .ok d.selection.imports := by
  have h : Context.ofDescriptor branches "." { workingDirectory := [], files := [] } Table.empty =
    .ok (_, _) := rfl
  refine ⟨_, _, h, fun d hd tag htag => ?_, fun d hd => ?_⟩
  · obtain rfl | rfl : tag = "Sort" ∨ tag = "Back" := by
      have htags : ∀ d ∈ waiting, ∀ tag ∈ d.selection.group?, tag = "Sort" ∨ tag = "Back" := by
        decide
      exact htags d hd tag htag
    · rfl
    · rfl
  · have hplain : ∀ d ∈ waiting, d.selection.expands = false := by decide
    unfold Selection.names
    rw [hplain d hd, if_neg Bool.false_ne_true]

theorem settles_all_waiting : ∃ ctx w,
    Context.ofDescriptor branches "." { workingDirectory := [], files := [] } Table.empty =
      .ok (ctx, w) ∧
    (∀ d ∈ waiting, ∀ tag, d.selection.group? = some tag →
      ctx.instantiate tag = .ok (.group (turning tag))) ∧
    (∀ d ∈ waiting, d.selection.names w.environment = .ok d.selection.imports) ∧
    ((DeferredQueue.handleAll {} waiting).2.begin.1.map (·.selectorClass)) =
      ["First", "Turned", "Free", "Late", "Other"] ∧
    ∃ queue sorted given,
      DeferredQueue.handleAll {} waiting = ([], queue) ∧
      queue.begin = (sorted, ⟨none⟩) ∧
      StablySorted (fun a b => a.selection.precedence.Before b.selection.precedence)
        waiting sorted ∧
      ofList ctx sorted = .ok (ofSeats turning sorted) ∧
      ((ofSeats turning sorted).map (·.key)).Nodup ∧
      (ofSeats turning sorted).mapM (entries w.environment) = .ok given ∧
      List.Forall₂ (fun seat part => (seat.strategy turning).Gives
        ((seat.members sorted).flatMap (produced (·.selection.imports))) part)
        (Seat.taken sorted) given ∧
      given.flatten.Perm (waiting.flatMap (produced (·.selection.imports))) := by
  obtain ⟨ctx, w, h, hgroups, hnames⟩ := known_waiting
  have hsorted : (Precedence.sort (·.selection.precedence) waiting).map (·.selectorClass) =
      ["First", "Turned", "Free", "Late", "Other"] := by
    unfold Precedence.sort waiting
    simp +decide [List.mergeSort, List.MergeSort.Internal.splitInTwo]
  exact ⟨ctx, w, h, hgroups, hnames, hsorted, settles_all hgroups hnames⟩

end DeferredGroup

end Wiring
