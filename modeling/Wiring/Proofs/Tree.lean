import Mathlib.Data.Finset.Basic
import Mathlib.Data.List.Chain
import Mathlib.Data.List.Nodup
import Mathlib.Data.List.Perm.Subperm
import Mathlib.Logic.Relation
import Wiring.Report.Tree

/-!
# What the import tree shows

The import tree is a tree of classes, of which the labels are shown. It is bounded by the number of
classes, and the bound is never felt: under a class that does not stand above itself, nor as deep as
asked for, stand all classes that it imports. So without a depth the tree shows every way along
imports from a class at the top, up to where a class comes up again, and every class that there is a
way to. A walk that has the names above in one set, and puts it back as it was, builds the same
tree.
-/

namespace Wiring

/-- The class is one of the model that the other one imports. -/
def Model.Imports (m : Model) (c d : ConfigurationClass) : Prop :=
  d ∈ m.classes ∧ c.name ∈ d.importedBy

namespace Report

/-! ## Trees of classes -/

/-- A tree of classes. -/
inductive ClassTree where
  | node (top : ConfigurationClass) (subtrees : List ClassTree)

namespace ClassTree

/-- The class at the top. -/
def top : ClassTree → ConfigurationClass
  | node c _ => c

/-- The trees right below the top. -/
def subtrees : ClassTree → List ClassTree
  | node _ ts => ts

mutual

/-- What is shown of a tree. -/
def labels : ClassTree → LabelTree
  | node c ts => .node (label c) (allLabels ts)

/-- What is shown of several trees. -/
def allLabels : List ClassTree → List LabelTree
  | [] => []
  | t :: rest => labels t :: allLabels rest

end

@[simp] theorem top_node (c : ConfigurationClass) (ts : List ClassTree) : (node c ts).top = c := rfl

@[simp] theorem subtrees_node (c : ConfigurationClass) (ts : List ClassTree) :
    (node c ts).subtrees = ts := rfl

theorem allLabels_eq_map (ts : List ClassTree) : allLabels ts = ts.map labels := by
  induction ts with
  | nil => rfl
  | cons t rest ih => rw [allLabels, ih, List.map_cons]

/-- A node of a tree: the classes above it, innermost first, and the tree from there on. -/
inductive Node (t : ClassTree) : List ConfigurationClass → ClassTree → Prop
  | top : Node t [] t
  | down {above : List ConfigurationClass} {u v : ClassTree} (h : Node t above u)
    (hv : v ∈ u.subtrees) : Node t (u.top :: above) v

end ClassTree

open ClassTree (Node)

/-- The tree ends at a class: it stands as deep as asked for, or above itself. -/
def Ends (depth? : Option Nat) (above : List ConfigurationClass) (c : ConfigurationClass) : Prop :=
  (∃ depth ∈ depth?, depth ≤ above.length) ∨ c.name ∈ above.map (·.name)

/-- The classes lead from one at the top to each next one by an import, and none of them comes up
twice, but that the last one may have come up before. -/
structure ImportPath (m : Model) (path : List ConfigurationClass) : Prop where
  top : ∃ c ∈ m.classes, isTop c = true ∧ path.head? = some c
  imports : path.IsChain m.Imports
  once : (path.dropLast.map (·.name)).Nodup

/-- The trees have the classes at the top of a model at their tops, in order, and below each node in
order all classes that its class imports, or none where the tree ends. -/
structure Unfolds (m : Model) (depth? : Option Nat) (trees : List ClassTree) : Prop where
  tops : trees.map (·.top) = m.classes.filter isTop
  ends {t above u} : t ∈ trees → Node t above u → Ends depth? above u.top → u.subtrees = []
  inner {t above u} : t ∈ trees → Node t above u → ¬ Ends depth? above u.top →
    u.subtrees.map (·.top) = m.classes.filter (·.importedBy.contains u.top.name)

/-! ## The tree under a class -/

/-- The tree of classes under a class. -/
def treeUnder (classes : List ConfigurationClass) (depth? : Option Nat) :
    Nat → List ConfigurationClass → ConfigurationClass → ClassTree
  | 0, _, c => .node c []
  | bound + 1, above, c =>
    if depth?.any (· ≤ above.length) || (above.map (·.name)).contains c.name then .node c []
    else
      .node c ((classes.filter (·.importedBy.contains c.name)).map
        (treeUnder classes depth? bound (c :: above)))

section Under

variable {classes : List ConfigurationClass} {depth? : Option Nat}

@[simp] theorem top_treeUnder (bound : Nat) (above : List ConfigurationClass)
    (c : ConfigurationClass) : (treeUnder classes depth? bound above c).top = c := by
  cases bound with
  | zero => rfl
  | succ bound =>
    rw [treeUnder]
    split <;> rfl

/-- What is shown is the import tree. -/
theorem labels_treeUnder (bound : Nat) (above : List ConfigurationClass) (c : ConfigurationClass) :
    (treeUnder classes depth? bound above c).labels =
      treeOf classes depth? bound (above.map (·.name)) c := by
  induction bound generalizing above c with
  | zero => rfl
  | succ bound ih =>
    rw [treeUnder, treeOf, List.length_map]
    split
    · rfl
    · rw [ClassTree.labels, ClassTree.allLabels_eq_map, List.map_map]
      congr 2
      funext d
      exact ih (c :: above) d

theorem ends_iff {above : List ConfigurationClass} {c : ConfigurationClass} :
    (depth?.any (· ≤ above.length) || (above.map (·.name)).contains c.name) = true ↔
      Ends depth? above c := by
  unfold Ends
  cases depth? <;> simp

theorem subtrees_treeUnder_of_ends {bound : Nat} {above : List ConfigurationClass}
    {c : ConfigurationClass} (h : Ends depth? above c) :
    (treeUnder classes depth? (bound + 1) above c).subtrees = [] := by
  rw [treeUnder, if_pos (ends_iff.2 h)]
  rfl

theorem subtrees_treeUnder {bound : Nat} {above : List ConfigurationClass} {c : ConfigurationClass}
    (h : ¬ Ends depth? above c) :
    (treeUnder classes depth? (bound + 1) above c).subtrees =
      (classes.filter (·.importedBy.contains c.name)).map
        (treeUnder classes depth? bound (c :: above)) := by
  rw [treeUnder, if_neg (fun hc => h (ends_iff.1 hc))]
  rfl

/-- What is known of a node of the tree under a class: there is more room left than there are
classes that do not stand above, and the classes lead up to the class by imports. -/
structure Stands (classes : List ConfigurationClass) (depth? : Option Nat) (c : ConfigurationClass)
    (above : List ConfigurationClass) (u : ClassTree) : Prop where
  room : ∃ left, left + above.length = classes.length + 1 ∧
    u = treeUnder classes depth? (left + 1) above u.top
  once : (above.map (·.name)).Nodup
  known : ∀ d ∈ u.top :: above, d ∈ classes
  imports : (u.top :: above).IsChain fun e d => d.name ∈ e.importedBy
  last : (u.top :: above).getLast? = some c

variable {c : ConfigurationClass} {above : List ConfigurationClass} {u : ClassTree}

theorem Stands.subtrees_of_ends (h : Stands classes depth? c above u)
    (he : Ends depth? above u.top) :
    u.subtrees = [] := by
  obtain ⟨left, -, hu⟩ := h.room
  rw [hu]
  exact subtrees_treeUnder_of_ends he

/-- Where the tree does not end there is room for what stands below. -/
theorem Stands.exists_subtree (h : Stands classes depth? c above u)
    (he : ¬ Ends depth? above u.top) :
    ∃ left, left + 1 + above.length = classes.length + 1 ∧
      u.subtrees = (classes.filter (·.importedBy.contains u.top.name)).map
        (treeUnder classes depth? (left + 1) (u.top :: above)) := by
  obtain ⟨left, hleft, hu⟩ := h.room
  have honce : ((u.top :: above).map (·.name)).Nodup := by
    rw [List.map_cons, List.nodup_cons]
    exact ⟨fun hm => he (.inr hm), h.once⟩
  -- the classes above have different names, so they are not more than there are classes
  have hlen : above.length + 1 ≤ classes.length := by
    have hsub : (u.top :: above).map (·.name) ⊆ classes.map (·.name) := by
      intro name hn
      obtain ⟨d, hd, rfl⟩ := List.mem_map.1 hn
      exact List.mem_map_of_mem (h.known d hd)
    simpa using (honce.subperm hsub).length_le
  obtain ⟨left, rfl⟩ : ∃ n, left = n + 1 := ⟨left - 1, by omega⟩
  refine ⟨left, by omega, ?_⟩
  rw [hu, top_treeUnder]
  exact subtrees_treeUnder he

theorem Stands.map_top_subtrees (h : Stands classes depth? c above u)
    (he : ¬ Ends depth? above u.top) :
    u.subtrees.map (·.top) = classes.filter (·.importedBy.contains u.top.name) := by
  obtain ⟨left, -, hb⟩ := h.exists_subtree he
  simp [hb, Function.comp_def]

theorem Stands.down {v : ClassTree} (h : Stands classes depth? c above u) (hv : v ∈ u.subtrees) :
    Stands classes depth? c (u.top :: above) v := by
  have he : ¬ Ends depth? above u.top := by
    intro he
    rw [h.subtrees_of_ends he] at hv
    exact List.not_mem_nil hv
  obtain ⟨left, hleft, hb⟩ := h.exists_subtree he
  rw [hb] at hv
  obtain ⟨d, hd, rfl⟩ := List.mem_map.1 hv
  simp only [List.mem_filter, List.contains_iff_mem] at hd
  constructor
  case room =>
    refine ⟨left, ?_, ?_⟩
    · rw [List.length_cons]
      omega
    · rw [top_treeUnder]
  case once =>
    rw [List.map_cons, List.nodup_cons]
    exact ⟨fun hm => he (.inr hm), h.once⟩
  case known =>
    intro e hm
    rw [top_treeUnder] at hm
    rcases List.mem_cons.1 hm with rfl | hm
    · exact hd.1
    · exact h.known e hm
  case imports =>
    rw [top_treeUnder]
    exact List.isChain_cons_cons.2 ⟨hd.2, h.imports⟩
  case last =>
    rw [List.getLast?_cons_cons]
    exact h.last

theorem stands_of_node (hc : c ∈ classes)
    (h : Node (treeUnder classes depth? (classes.length + 2) [] c) above u) :
    Stands classes depth? c above u := by
  induction h with
  | top =>
    constructor
    case room => exact ⟨classes.length + 1, rfl, by rw [top_treeUnder]⟩
    case once => exact .nil
    case known =>
      rw [top_treeUnder]
      simpa using hc
    case imports => exact .singleton _
    case last => rw [top_treeUnder]; rfl
  | down _ hv ih => exact ih.down hv

end Under

/-! ## One set for all paths -/

/-- The tree under a class by a walk that has the names above in one set: each class puts its name
in on the way down, and takes it out again on the way back. -/
def walkUnder (classes : List ConfigurationClass) (depth? : Option Nat) :
    Nat → Nat → ConfigurationClass → StateM (Finset String) LabelTree
  | 0, _, c => pure (.node (label c) [])
  | bound + 1, depth, c => do
    let above ← get
    if depth?.any (· ≤ depth) || decide (c.name ∈ above) then pure (.node (label c) [])
    else do
      set (insert c.name above)
      let children ← (classes.filter (·.importedBy.contains c.name)).mapM
        (walkUnder classes depth? bound (depth + 1))
      modify (·.erase c.name)
      pure (.node (label c) children)

theorem mapM_run_of_restores {σ α β : Type} {f : α → StateM σ β} {g : α → β} {s : σ} {l : List α}
    (h : ∀ a ∈ l, (f a).run s = (g a, s)) : (l.mapM f).run s = (l.map g, s) := by
  induction l with
  | nil => rfl
  | cons a l ih =>
    have hrest := ih fun b hb => h b (List.mem_cons_of_mem _ hb)
    rw [List.mapM_cons, StateT.run_bind, h a List.mem_cons_self]
    show ((l.mapM f >>= fun bs => pure (g a :: bs)).run s) = _
    rw [StateT.run_bind, hrest]
    rfl

/-- The walk gives the tree that is built with the names above at hand, and puts the set back as it
was, wherever it ends. -/
theorem walkUnder_run (classes : List ConfigurationClass) (depth? : Option Nat) (bound : Nat)
    (above : List String) (c : ConfigurationClass) :
    (walkUnder classes depth? bound above.length c).run above.toFinset =
      (treeOf classes depth? bound above c, above.toFinset) := by
  induction bound generalizing above c with
  | zero => rfl
  | succ bound ih =>
    have hmem : decide (c.name ∈ above.toFinset) = above.contains c.name := by simp
    rw [walkUnder, treeOf, ← hmem, StateT.run_bind]
    by_cases hends : (depth?.any (· ≤ above.length) || decide (c.name ∈ above.toFinset)) = true
    · simp only [StateT.run_get, pure_bind, if_pos hends]
      rfl
    · -- the name is new, so that taking it out again leaves the set as it was before
      have hnew : c.name ∉ above.toFinset := by
        intro hin
        simp [hin] at hends
      have hchildren := mapM_run_of_restores (l := classes.filter (·.importedBy.contains c.name))
        fun d _ => ih (c.name :: above) d
      rw [List.toFinset_cons, List.length_cons] at hchildren
      simp only [StateT.run_get, pure_bind, if_neg hends, StateT.run_bind, StateT.run_set,
        hchildren]
      show (_, (insert c.name above.toFinset).erase c.name) = _
      rw [Finset.erase_insert hnew]

/-! ## The whole tree -/

section Whole

variable {m : Model} {depth? : Option Nat} {trees : List ClassTree} {c : ConfigurationClass}

/-- The trees of classes of a model. -/
def classTrees (m : Model) (depth? : Option Nat) : List ClassTree :=
  (m.classes.filter isTop).map (treeUnder m.classes depth? (m.classes.length + 2) [])

theorem tree_eq (m : Model) (depth? : Option Nat) :
    tree m depth? = .node "configuration" ((classTrees m depth?).map (·.labels)) := by
  unfold tree classTrees
  rw [List.map_map]
  congr 2
  funext c
  exact (labels_treeUnder _ [] c).symm

/-- The import tree comes of walks with one set, which is empty at each class at the top. -/
theorem tree_eq_walk (m : Model) (depth? : Option Nat) :
    tree m depth? = .node "configuration" ((m.classes.filter isTop).map fun c =>
      ((walkUnder m.classes depth? (m.classes.length + 2) 0 c).run ∅).1) := by
  unfold tree
  congr 2
  funext c
  exact (congrArg Prod.fst (walkUnder_run m.classes depth? (m.classes.length + 2) [] c)).symm

theorem exists_of_mem_classTrees {t : ClassTree} (h : t ∈ classTrees m depth?) :
    ∃ c ∈ m.classes, isTop c = true ∧
      t = treeUnder m.classes depth? (m.classes.length + 2) [] c := by
  obtain ⟨c, hc, rfl⟩ := List.mem_map.1 h
  rw [List.mem_filter] at hc
  exact ⟨c, hc.1, hc.2, rfl⟩

theorem stands_of_mem_classTrees {t u : ClassTree} {above : List ConfigurationClass}
    (h : t ∈ classTrees m depth?) (hu : Node t above u) :
    ∃ c ∈ m.classes, isTop c = true ∧ Stands m.classes depth? c above u := by
  obtain ⟨c, hc, htop, rfl⟩ := exists_of_mem_classTrees h
  exact ⟨c, hc, htop, stands_of_node hc hu⟩

theorem unfolds_classTrees (m : Model) (depth? : Option Nat) :
    Unfolds m depth? (classTrees m depth?) where
  tops := by simp [classTrees, Function.comp_def]
  ends ht hu he := by
    obtain ⟨c, -, -, hs⟩ := stands_of_mem_classTrees ht hu
    exact hs.subtrees_of_ends he
  inner ht hu he := by
    obtain ⟨c, -, -, hs⟩ := stands_of_mem_classTrees ht hu
    exact hs.map_top_subtrees he

/-- The classes from the top of the tree down to a node. -/
def pathTo (above : List ConfigurationClass) (u : ClassTree) : List ConfigurationClass :=
  (u.top :: above).reverse

/-- A node shows the path to it. -/
theorem importPath_of_node {t u : ClassTree} {above : List ConfigurationClass}
    (h : t ∈ classTrees m depth?) (hu : Node t above u) : ImportPath m (pathTo above u) := by
  obtain ⟨c, hc, htop, hs⟩ := stands_of_mem_classTrees h hu
  unfold pathTo
  constructor
  case top => exact ⟨c, hc, htop, by rw [List.head?_reverse]; exact hs.last⟩
  case imports =>
    rw [List.isChain_reverse]
    refine hs.imports.imp_of_mem_imp ?_
    intro e d he _ hed
    exact ⟨hs.known e he, hed⟩
  case once =>
    rw [List.reverse_cons, List.dropLast_concat, List.map_reverse, List.nodup_reverse]
    exact hs.once

theorem Unfolds.exists_top (h : Unfolds m depth? trees) (hc : c ∈ m.classes)
    (htop : isTop c = true) : ∃ t ∈ trees, t.top = c := by
  have hm : c ∈ trees.map (·.top) := by
    rw [h.tops, List.mem_filter]
    exact ⟨hc, htop⟩
  simpa using hm

theorem Unfolds.exists_subtree {t u : ClassTree} {above : List ConfigurationClass}
    (h : Unfolds m depth? trees) (ht : t ∈ trees) (hu : Node t above u)
    (he : ¬ Ends depth? above u.top) (hc : m.Imports u.top c) : ∃ v ∈ u.subtrees, v.top = c := by
  have hm : c ∈ u.subtrees.map (·.top) := by
    rw [h.inner ht hu he, List.mem_filter, List.contains_iff_mem]
    exact hc
  simpa using hm

theorem ends_none {above : List ConfigurationClass} :
    Ends none above c ↔ c.name ∈ above.map (·.name) := by
  simp [Ends]

/-- Without a depth every path is shown. The path is gone along from its end. -/
theorem Unfolds.exists_node (h : Unfolds m none trees) {path : List ConfigurationClass}
    (hp : ImportPath m (path ++ [c])) : ∃ t ∈ trees, ∃ u, Node t path.reverse u ∧ u.top = c := by
  induction path using List.reverseRecOn generalizing c with
  | nil =>
    obtain ⟨d, hd, htop, hhead⟩ := hp.top
    obtain rfl : c = d := by simpa using hhead
    obtain ⟨t, ht, rfl⟩ := h.exists_top hd htop
    exact ⟨t, ht, t, .top, rfl⟩
  | append_singleton path d ih =>
    have honce : ((path ++ [d]).map (·.name)).Nodup := by
      simpa only [List.dropLast_concat] using hp.once
    have hchain := List.isChain_append.1 hp.imports
    have hshort : ImportPath m (path ++ [d]) := by
      constructor
      case top =>
        obtain ⟨e, he, htop, hhead⟩ := hp.top
        refine ⟨e, he, htop, ?_⟩
        rwa [List.head?_append_of_ne_nil _ (by simp)] at hhead
      case imports => exact hchain.1
      case once =>
        rw [List.dropLast_concat]
        rw [List.map_append] at honce
        exact honce.of_append_left
    obtain ⟨t, ht, u, hu, rfl⟩ := ih hshort
    have hends : ¬ Ends none path.reverse u.top := by
      rw [ends_none, List.map_reverse, List.mem_reverse]
      rw [List.map_append, List.nodup_append'] at honce
      intro hm
      exact honce.2.2 hm (by simp)
    have himports : m.Imports u.top c := hchain.2.2 u.top (by simp) c (by simp)
    obtain ⟨v, hv, rfl⟩ := h.exists_subtree ht hu hends himports
    refine ⟨t, ht, v, ?_, rfl⟩
    rw [List.reverse_concat]
    exact .down hu hv

/-- A class above a node stands at a node of its own, where the tree does not end. -/
theorem Unfolds.exists_node_of_mem_above {t u : ClassTree} {above : List ConfigurationClass}
    (h : Unfolds m none trees) (ht : t ∈ trees) (hu : Node t above u) (hc : c ∈ above) :
    ∃ above' v, Node t above' v ∧ v.top = c ∧ ¬ Ends none above' c := by
  induction hu with
  | top => exact absurd hc List.not_mem_nil
  | @down above u v hu hv ih =>
    rcases List.mem_cons.1 hc with rfl | hc
    · refine ⟨above, u, hu, rfl, ?_⟩
      intro he
      rw [h.ends ht hu he] at hv
      exact List.not_mem_nil hv
    · exact ih hc

/-- Without a depth every class that there is a way to stands somewhere where the tree does not
end. -/
theorem Unfolds.exists_inner (h : Unfolds m none trees) (hn : m.classNames.Nodup)
    (hknown : ∀ t ∈ trees, ∀ above u, Node t above u → ∀ d ∈ above, d ∈ m.classes)
    {top : ConfigurationClass} (ht : top ∈ m.classes) (htop : isTop top = true)
    (hr : Relation.ReflTransGen m.Imports top c) :
    ∃ t ∈ trees, ∃ above u, Node t above u ∧ u.top = c ∧ ¬ Ends none above c := by
  induction hr with
  | refl =>
    obtain ⟨t, htrees, rfl⟩ := h.exists_top ht htop
    exact ⟨t, htrees, [], t, .top, rfl, by simp [ends_none]⟩
  | @tail d e _ hde ih =>
    obtain ⟨t, htrees, above, u, hu, rfl, he⟩ := ih
    obtain ⟨v, hv, rfl⟩ := h.exists_subtree htrees hu he hde
    by_cases hends : Ends none (u.top :: above) v.top
    · -- the class comes up again, so it stands above, and names are distinct
      rw [ends_none] at hends
      obtain ⟨k, hk, hname⟩ := List.mem_map.1 hends
      have hkm := hknown t htrees _ v (.down hu hv) k hk
      obtain rfl : k = v.top := List.inj_on_of_nodup_map hn hkm hde.1 hname
      obtain ⟨above', w, hw, hwtop, hwe⟩ := h.exists_node_of_mem_above htrees (.down hu hv) hk
      exact ⟨t, htrees, above', w, hw, hwtop, hwe⟩
    · exact ⟨t, htrees, _, v, .down hu hv, rfl, hends⟩

end Whole

/-- The import tree of a model shows trees of classes that begin with the classes at the top, in
order. Down to the depth asked for, and up to where a class comes up again, all classes that a class
imports stand below it, in order, and nothing stands below any other node. Without a depth the paths
from the top down to the nodes are those along imports on which no class but the last comes up
twice, and every class that there is a way to is among the nodes. -/
theorem tree_provenance (m : Model) (hn : m.classNames.Nodup) (depth? : Option Nat) :
    ∃ trees, tree m depth? = .node "configuration" (trees.map (·.labels)) ∧
      Unfolds m depth? trees ∧
      (depth? = none →
        (∀ path, (∃ t ∈ trees, ∃ above u, Node t above u ∧ path = pathTo above u) ↔
          ImportPath m path) ∧
        ∀ top ∈ m.classes, isTop top = true → ∀ c, Relation.ReflTransGen m.Imports top c →
          ∃ t ∈ trees, ∃ above u, Node t above u ∧ u.top = c) := by
  refine ⟨classTrees m depth?, tree_eq m depth?, unfolds_classTrees m depth?, ?_⟩
  rintro rfl
  have hunfolds := unfolds_classTrees m none
  refine ⟨?_, ?_⟩
  · intro path
    constructor
    · rintro ⟨t, ht, above, u, hu, rfl⟩
      exact importPath_of_node ht hu
    · intro hp
      cases path using List.reverseRecOn with
      | nil =>
        obtain ⟨c, -, -, hhead⟩ := hp.top
        cases hhead
      | append_singleton path c =>
        obtain ⟨t, ht, u, hu, rfl⟩ := hunfolds.exists_node hp
        exact ⟨t, ht, _, u, hu, by simp [pathTo]⟩
  · intro top ht htop c hr
    have hknown : ∀ t ∈ classTrees m none, ∀ above u, Node t above u → ∀ d ∈ above,
        d ∈ m.classes := by
      intro t ht above u hu d hd
      obtain ⟨c, -, -, hs⟩ := stands_of_mem_classTrees ht hu
      exact hs.known d (List.mem_cons_of_mem _ hd)
    obtain ⟨t, htrees, above, u, hu, hutop, -⟩ := hunfolds.exists_inner hn hknown ht htop hr
    exact ⟨t, htrees, above, u, hu, hutop⟩

/-- A root, and two classes that import each other, of which the root imports both. -/
def ring : Model :=
  { classes :=
      [{ decl := { name := "Web" }, importedBy := ["App", "Data"] },
        { decl := { name := "Data" }, importedBy := ["Web", "App"] },
        { decl := { name := "App" }, beanName? := some "app" }]
    sources := {}
    problems := []
    imports := {} }

/-- The tree goes around the circle once from either class. -/
theorem tree_provenance_ring :
    ring.classNames.Nodup ∧
    (tree ring none).lines =
      ["configuration", "└─ App (app)", "   ├─ Web", "   │  └─ Data", "   │     └─ Web",
        "   └─ Data", "      └─ Web", "         └─ Data"] ∧
    ∃ trees, tree ring none = .node "configuration" (trees.map (·.labels)) ∧
      Unfolds ring none trees ∧
      (none = (none : Option Nat) →
        (∀ path, (∃ t ∈ trees, ∃ above u, Node t above u ∧ path = pathTo above u) ↔
          ImportPath ring path) ∧
        ∀ top ∈ ring.classes, isTop top = true → ∀ c, Relation.ReflTransGen ring.Imports top c →
          ∃ t ∈ trees, ∃ above u, Node t above u ∧ u.top = c) := by
  have hn : ring.classNames.Nodup := by decide
  exact ⟨hn, by decide +kernel, tree_provenance ring hn none⟩

end Report

end Wiring
