import Wiring.Proofs.Count
import Wiring.Proofs.Failure
import Wiring.Proofs.Interfaces
import Wiring.Walk

/-!
# What a step of a walk refuses to do

A step of a walk may refuse to go on: a class cannot be read, a plugin class does something else
than what it is used for, a bean name is taken. In the context of a descriptor a refusal has a
direct cause. The search of interfaces is bounded, and it never uses up its bound: it meets each of
them once, so circles among interfaces do not keep it going.
-/

namespace Wiring

namespace Walk

/-! ## The search of interfaces -/

section Interfaces

variable {r : Reader}

theorem interfaces_length_le {name : String} {c : ClassDecl} (h : r.read? name = some c) :
    c.interfaces.length ≤ widestInterfaces r := by
  obtain ⟨d, hd, rfl⟩ := Option.map_eq_some_iff.1 h
  have hmem : d.interfaces.length ∈
      r.catalogue.classes.toList.map fun e => e.2.interfaces.length := by
    obtain ⟨l₁, l₂, hl, -⟩ := List.lookup_eq_some_iff.1 hd
    refine List.mem_map.2 ⟨(name, d), ?_, rfl⟩
    unfold Table.toList
    rw [hl]
    exact List.mem_append_right _ List.mem_cons_self
  show d.interfaces.length ≤ List.foldl max 0 _
  rw [List.foldl_max_eq_max (List.ne_nil_of_mem hmem)]
  exact Nat.le_trans (List.le_max_of_mem hmem) (Nat.le_max_right _ _)

/-- With room for the interfaces that are left and for those that each class not met may add, a
search does not use up its bound. -/
theorem failsDirectly_interfaceMethods {bound : Nat} {met names : List String}
    (h : names.length + unmet r.classNames met * (widestInterfaces r + 1) ≤ bound) :
    FailsDirectly (interfaceMethods r bound met names) := by
  induction bound generalizing met names with
  | zero =>
    cases names with
    | nil => exact .ok _
    | cons name rest => rw [List.length_cons] at h; omega
  | succ bound ih =>
    cases names with
    | nil => exact .ok _
    | cons name rest =>
      rw [List.length_cons] at h
      unfold interfaceMethods
      split
      · exact ih (by omega)
      next hm =>
        have hm : name ∉ met := by simp at hm; exact hm.2
        have hread : FailsDirectly (r.read name) := fun e he => Reader.read_eq_error he ▸ rfl
        refine hread.bind_of_ok fun c hc => ?_
        rw [Reader.read_eq_ok] at hc
        have hw := interfaces_length_le hc
        have hlt := Nat.mul_le_mul_right (widestInterfaces r + 1)
          (unmet_cons_lt (Reader.mem_classNames hc) hm)
        rw [Nat.succ_mul] at hlt
        refine (ih (by omega)).bind_of_ok fun above ha => ?_
        -- what the interfaces above have met is not left any more for the rest
        obtain ⟨_, hsearch, -⟩ := search_of_interfaceMethods ha
        have hle := Nat.mul_le_mul_right (widestInterfaces r + 1) (unmet_anti r.classNames
          (List.Subset.trans (List.subset_cons_self _ _) hsearch.subset_met))
        exact (ih (by omega)).bind fun _ => .ok _

theorem failsDirectly_methodsOfInterfaces (c : ClassDecl) :
    FailsDirectly (methodsOfInterfaces r c) := by
  refine (failsDirectly_interfaceMethods ?_).map _
  have hsize : r.classNames.length = r.catalogue.classes.size := List.length_map _
  have hle := Nat.mul_le_mul (unmet_le r.classNames [])
    (show widestInterfaces r + 1 ≤ max c.interfaces.length (widestInterfaces r) + 2 by omega)
  rw [hsize] at hle
  rw [Nat.add_mul]
  omega

end Interfaces

/-! ## Refusals -/

/-- The failures that a single step of a walk comes to, by what refuses to go on. -/
inductive Refused (ctx : Context) : Error → Prop
  | unreadable {name e} (h : ctx.reader.read name = .error e) : Refused ctx e
  | condition {env element phase? e} (h : ctx.skips env element phase? = .error e) : Refused ctx e
  | scan {env directive source e} (h : Scan.candidates ctx env directive source = .error e) :
    Refused ctx e
  | definition {r found e} (h : (Scan.register r found).1 = .error e) : Refused ctx e
  | source {m env name directive e}
    (h : (SourceMerger.process ctx m env name directive).1 = .error e) : Refused ctx e
  | plugin {name e} (h : ctx.instantiate name = .error e) : Refused ctx e
  | mismatch (name expected : String) (found : Plugin) :
    Refused ctx (Context.mismatch name expected found)
  | selection {s env e} (h : Selection.names s env = .error e) : Refused ctx e
  | grouping {ds e} (h : DeferredGroup.ofList ctx ds = .error e) : Refused ctx e
  | entries {g env e} (h : DeferredGroup.entries env g = .error e) : Refused ctx e
  | location {env text e} (h : Environment.expandRequired env text = .error e) : Refused ctx e
  | interfaces {source e} (h : methodsOfInterfaces ctx.reader source = .error e) : Refused ctx e
  | depth (name : String) : Refused ctx (.importDepthExceeded name ctx.settings.maxImportDepth)

/-- In the context of a descriptor every refusal has a cause that a single operation may come to. -/
theorem Refused.isOwn {ctx : Context} (hc : ctx.Declared) {e : Error} (h : Refused ctx e) :
    e.isOwn = true := by
  cases h with
  | unreadable h => exact Reader.read_eq_error h ▸ rfl
  | condition h => exact failsDirectly_skips hc _ _ _ _ h
  | scan h => exact failsDirectly_candidates hc _ _ _ _ h
  | definition h => exact failsDirectly_register _ _ _ h
  | source h => exact failsDirectly_process hc _ _ _ _ _ h
  | plugin h => exact failsDirectly_instantiate hc _ _ h
  | selection h => exact failsDirectly_names _ _ _ h
  | grouping h => exact failsDirectly_ofList hc _ _ h
  | entries h => exact failsDirectly_entries _ _ _ h
  | location h => exact failsDirectly_expandRequired _ _ _ h
  | interfaces h => exact failsDirectly_methodsOfInterfaces _ _ h
  | mismatch | depth => rfl

theorem Refused.isDirect {ctx : Context} (hc : ctx.Declared) {e : Error} (h : Refused ctx e) :
    e.isDirect = true :=
  Error.isDirect_of_isOwn (h.isOwn hc)

end Walk

end Wiring
