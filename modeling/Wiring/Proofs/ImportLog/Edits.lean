import Mathlib.Data.List.Induction
import Mathlib.Dynamics.PeriodicPts.Defs
import Wiring.Proofs.ImportLog
import Wiring.Proofs.Table

/-!
# Edits of the import log

Classes are begun and done with, imports are recorded, and what a class imported is forgotten, one
edit after the other. Which class imported another one last can be read off the edits: it is the
last one whose import was recorded and that has not been forgotten since. Whatever the edits, a
class counts as part of a chain exactly if it is being gone through and is met again on the way from
it along these last importers. The way may also end, or come to a circle that leaves the class out;
then it does not, and the search finds out by itself.
-/

namespace Wiring

open Relation (TransGen)

/-- An edit of an import log. -/
inductive ImportEdit where
  | push (name : String)
  | pop
  | record (importing imported : String)
  | forget (importing : String)
deriving DecidableEq

namespace ImportEdit

/-! ## What stands after edits -/

/-- The importers of a class that are on record after edits, in the order in which they were
recorded: those that have not been forgotten since. -/
def importers (imported : String) : List ImportEdit → List String
  | [] => []
  | .record importing other :: rest =>
    if other = imported ∧ .forget importing ∉ rest then importing :: importers imported rest
    else importers imported rest
  | _ :: rest => importers imported rest

/-- The class that imported another one last, after edits. -/
def lastImporter? (es : List ImportEdit) (imported : String) : Option String :=
  (importers imported es).getLast?

/-- Where following the last importers comes to from a class after some steps. -/
def importerAfter (es : List ImportEdit) (name : String) (steps : Nat) : Option String :=
  (·.bind (lastImporter? es))^[steps] (some name)

variable {imported importing : String}

theorem importers_concat (es : List ImportEdit) (e : ImportEdit) :
    importers imported (es ++ [e]) =
      match e with
      | .record importing other =>
        importers imported es ++ if other = imported then [importing] else []
      | .forget importing => (importers imported es).filter (· != importing)
      | _ => importers imported es := by
  induction es with
  | nil => cases e <;> simp [importers]
  | cons d es ih =>
    rw [List.cons_append]
    cases d with
    | record importing other =>
      -- only forgetting what was recorded makes a difference to what stands
      simp only [importers, List.mem_append, List.mem_singleton, not_or, ih]
      cases e <;> grind
    | _ => exact ih

end ImportEdit

namespace ImportLog

/-! ## Edited logs -/

/-- Edit a log. -/
def edit (l : ImportLog) : ImportEdit → ImportLog
  | .push name => l.push name
  | .pop => l.pop
  | .record importing imported => l.record importing imported
  | .forget importing => l.forget importing

/-- The log that edits make of the empty one. -/
def edited (es : List ImportEdit) : ImportLog := es.foldl edit {}

theorem edited_concat (es : List ImportEdit) (e : ImportEdit) :
    edited (es ++ [e]) = (edited es).edit e := List.foldl_append

theorem importersOf_record (l : ImportLog) (importing other imported : String) :
    (l.record importing other).importersOf imported =
      l.importersOf imported ++ if other = imported then [importing] else [] := by
  unfold record importersOf
  rw [Table.get?_insert]
  by_cases h : imported = other
  · subst h
    simp
  · simp [h, Ne.symm h]

/-- The importers that are left when one is forgotten, if any are. -/
def remaining? (importing : String) (importers : List String) : Option (List String) :=
  match importers.filter (· != importing) with
  | [] => none
  | rest => some rest

theorem getD_remaining? (importing : String) (importers : List String) :
    (remaining? importing importers).getD [] = importers.filter (· != importing) := by
  unfold remaining?
  split
  next h => rw [h]; rfl
  next => rfl

theorem importers_forget (l : ImportLog) (importing : String) : (l.forget importing).importers =
    .ofList (l.importers.toList.filterMap fun e => (remaining? importing e.2).map (e.1, ·)) := by
  refine congrArg Table.ofList (List.filterMap_congr fun e _ => ?_)
  obtain ⟨imported, importers⟩ := e
  simp only [remaining?]
  cases importers.filter (· != importing) <;> rfl

theorem importersOf_forget (l : ImportLog) (importing imported : String) :
    (l.forget importing).importersOf imported =
      (l.importersOf imported).filter (· != importing) := by
  unfold importersOf
  rw [importers_forget, Table.get?_ofList_filterMap]
  cases l.importers.get? imported with
  | none => rfl
  | some importers => exact getD_remaining? importing importers

/-- The importers that a log has on record are those that stand after its edits. -/
theorem importersOf_edited (es : List ImportEdit) (imported : String) :
    (edited es).importersOf imported = ImportEdit.importers imported es := by
  induction es using List.reverseRecOn with
  | nil => rfl
  | append_singleton es e ih =>
    rw [edited_concat, ImportEdit.importers_concat, ← ih]
    cases e with
    | record importing other => exact importersOf_record _ _ _ _
    | forget importing => exact importersOf_forget _ _ _
    | _ => rfl

theorem lastImporter?_edited (es : List ImportEdit) :
    (edited es).lastImporter? = ImportEdit.lastImporter? es := by
  funext imported
  unfold lastImporter?
  rw [importersOf_edited]
  rfl

/-! ## The search without a bound -/

/-- What the search for a class along the last importers answers, however long it takes, from where
it has come with the importers that it has met. -/
inductive Answers (l : ImportLog) (target : String) : List String → Option String → Bool → Prop
  | ended {met} : Answers l target met none false
  | back {met} : Answers l target met (some target) true
  | again {met importer} (hne : importer ≠ target) (hmet : importer ∈ met) :
    Answers l target met (some importer) false
  | onward {met importer answer} (hne : importer ≠ target) (hnew : importer ∉ met)
    (hnext : Answers l target (importer :: met) (l.lastImporter? importer) answer) :
    Answers l target met (some importer) answer

namespace Answers

variable {l : ImportLog} {target : String} {met : List String} {current? : Option String}
  {answer answer' : Bool}

/-- The search answers only once. -/
theorem unique (h : Answers l target met current? answer)
    (h' : Answers l target met current? answer') : answer' = answer := by
  induction h with
  | ended => cases h'; rfl
  | back =>
    cases h' with
    | back => rfl
    | again hne _ => exact absurd rfl hne
    | onward hne _ _ => exact absurd rfl hne
  | again hne hmet =>
    cases h' with
    | back => exact absurd rfl hne
    | again _ _ => rfl
    | onward _ hnew _ => exact absurd hmet hnew
  | onward hne hnew _ ih =>
    cases h' with
    | back => exact absurd rfl hne
    | again _ hmet => exact absurd hmet hnew
    | onward _ _ hnext => exact ih hnext

/-- A bound that leaves room for every class with importers that has not been met is enough. -/
theorem of_leadsTo (l : ImportLog) (target : String) {bound : Nat} {met : List String}
    {current? : Option String} (hb : current? ≠ none → unmet l.importers.names met < bound) :
    Answers l target met current? (l.leadsTo target bound met current?) := by
  induction bound generalizing met current? with
  | zero =>
    cases current? with
    | none => exact .ended
    | some importer => exact absurd (hb nofun) (Nat.not_lt_zero _)
  | succ bound ih =>
    cases current? with
    | none => exact .ended
    | some importer =>
      unfold leadsTo
      by_cases hne : importer = target
      · rw [if_pos hne, hne]
        exact .back
      by_cases hmet : importer ∈ met
      · rw [if_neg hne, if_pos hmet]
        exact .again hne hmet
      rw [if_neg hne, if_neg hmet]
      refine .onward hne hmet (ih fun hnext => ?_)
      -- where the search goes on, the class that it leaves has importers
      obtain ⟨next, hnext⟩ := Option.ne_none_iff_exists'.1 hnext
      have hlt := unmet_cons_lt (Follows.mem_names hnext) hmet
      have hbound := hb nofun
      omega

end Answers

/-- For a class that is being gone through, the search ends, and its answer is whether the import is
chained. -/
theorem answers_iff {l : ImportLog} {name : String} (h : name ∈ l.stack) {answer : Bool} :
    Answers l name [] (l.lastImporter? name) answer ↔ answer = l.isChained name := by
  have hsize : l.importers.size = l.importers.names.length := (List.length_map _).symm
  have hle := unmet_le l.importers.names []
  have hends : Answers l name [] (l.lastImporter? name) (l.isChained name) := by
    have hchained : l.isChained name =
        l.leadsTo name (l.importers.size + 2) [] (l.lastImporter? name) := by
      unfold isChained contains
      rw [List.contains_iff_mem.2 h, Bool.true_and]
    rw [hchained]
    exact .of_leadsTo l name fun _ => by omega
  exact ⟨fun ha => hends.unique ha, fun he => he ▸ hends⟩

/-! ## Following the last importers -/

section Follows

variable {es : List ImportEdit} {name other : String}

theorem importerAfter_succ (es : List ImportEdit) (name : String) (k : Nat) :
    ImportEdit.importerAfter es name (k + 1) =
      (ImportEdit.importerAfter es name k).bind (edited es).lastImporter? := by
  rw [lastImporter?_edited]
  exact Function.iterate_succ_apply' _ _ _

/-- What the last importers lead to is where following them comes to after some steps. -/
theorem transGen_follows_iff : TransGen (edited es).Follows name other ↔
    ∃ k, 1 ≤ k ∧ ImportEdit.importerAfter es name k = some other := by
  constructor
  · intro h
    induction h with
    | single hab => exact ⟨1, Nat.le_refl 1, by rw [importerAfter_succ]; exact hab⟩
    | tail _ hbc ih =>
      obtain ⟨k, hk, hafter⟩ := ih
      exact ⟨k + 1, Nat.le_add_left 1 k, by rw [importerAfter_succ, hafter]; exact hbc⟩
  · rintro ⟨k, hk, hafter⟩
    induction k generalizing other with
    | zero => omega
    | succ k ih =>
      rw [importerAfter_succ] at hafter
      obtain ⟨b, hb, hbc⟩ := Option.bind_eq_some_iff.1 hafter
      cases k with
      | zero => cases hb; exact .single hbc
      | succ k => exact .tail (ih (Nat.le_add_left 1 k) hb) hbc

theorem importerAfter_eq_none {i j : Nat} (hij : i ≤ j)
    (h : ImportEdit.importerAfter es name i = none) :
    ImportEdit.importerAfter es name j = none := by
  obtain ⟨k, rfl⟩ := Nat.exists_eq_add_of_le' hij
  unfold ImportEdit.importerAfter at *
  rw [Function.iterate_add_apply, h]
  exact Function.iterate_fixed rfl k

/-- A class that the way leads back to is met again however far the way has come. -/
theorem exists_importerAfter_self {k : Nat} (hk : 1 ≤ k)
    (h : ImportEdit.importerAfter es name k = some name) (j : Nat) :
    ∃ i, j ≤ i ∧ ImportEdit.importerAfter es name i = some name := by
  have hperiod : Function.IsPeriodicPt (·.bind (ImportEdit.lastImporter? es)) k (some name) := h
  have hle : j ≤ k * j := Nat.le_mul_of_pos_left j hk
  exact ⟨k * j, hle, hperiod.mul_const j⟩

/-- Once the way is in a circle it only comes to what is on the circle. -/
theorem exists_importerAfter_of_circle {i j k : Nat} (hjk : j < k)
    (h : ImportEdit.importerAfter es name k = ImportEdit.importerAfter es name j) (hji : j ≤ i) :
    ∃ m, j ≤ m ∧ m < k ∧
      ImportEdit.importerAfter es name m = ImportEdit.importerAfter es name i := by
  unfold ImportEdit.importerAfter at *
  have hperiod : Function.IsPeriodicPt (·.bind (ImportEdit.lastImporter? es)) (k - j)
      ((·.bind (ImportEdit.lastImporter? es))^[j] (some name)) := by
    unfold Function.IsPeriodicPt Function.IsFixedPt
    rw [← Function.iterate_add_apply, Nat.sub_add_cancel hjk.le]
    exact h
  have hlt : (i - j) % (k - j) < k - j := Nat.mod_lt _ (by omega)
  refine ⟨(i - j) % (k - j) + j, by omega, by omega, ?_⟩
  rw [Function.iterate_add_apply, hperiod.iterate_mod_apply, ← Function.iterate_add_apply,
    Nat.sub_add_cancel hji]

end Follows

/-- After any edits: the last importer of a class is the last one that was recorded and has not been
forgotten since. For a class that is being gone through, the search along the last importers ends,
with one answer. An import of a class is chained exactly if the class is being gone through and some
steps along the last importers lead back to it. If they end, or come to a circle that leaves the
class out, its import is not chained. -/
theorem isChained_edited (es : List ImportEdit) (name : String) :
    (∀ imported, (edited es).lastImporter? imported = ImportEdit.lastImporter? es imported) ∧
    (name ∈ (edited es).stack → ∀ answer,
      Answers (edited es) name [] ((edited es).lastImporter? name) answer ↔
        answer = (edited es).isChained name) ∧
    ((edited es).isChained name = true ↔
      name ∈ (edited es).stack ∧ ∃ k, 1 ≤ k ∧ ImportEdit.importerAfter es name k = some name) ∧
    ((∃ k, ImportEdit.importerAfter es name k = none) → (edited es).isChained name = false) ∧
    ((∃ j k, j < k ∧ ImportEdit.importerAfter es name k = ImportEdit.importerAfter es name j ∧
        ∀ i, j ≤ i → i < k → ImportEdit.importerAfter es name i ≠ some name) →
      (edited es).isChained name = false) := by
  have hchained : (edited es).isChained name = true ↔
      name ∈ (edited es).stack ∧ ∃ k, 1 ≤ k ∧ ImportEdit.importerAfter es name k = some name := by
    rw [isChained_iff, transGen_follows_iff, contains, List.contains_iff_mem]
  refine ⟨fun _ => by rw [lastImporter?_edited], fun h _ => answers_iff h, hchained, ?_, ?_⟩
  · rintro ⟨j, hnone⟩
    refine Bool.eq_false_iff.2 fun h => ?_
    obtain ⟨-, k, hk, hback⟩ := hchained.1 h
    obtain ⟨i, hji, hi⟩ := exists_importerAfter_self hk hback j
    rw [importerAfter_eq_none hji hnone] at hi
    cases hi
  · rintro ⟨j, k, hjk, hcircle, hout⟩
    refine Bool.eq_false_iff.2 fun h => ?_
    obtain ⟨-, k', hk', hback⟩ := hchained.1 h
    obtain ⟨i, hji, hi⟩ := exists_importerAfter_self hk' hback j
    obtain ⟨m, hjm, hmk, hm⟩ := exists_importerAfter_of_circle hjk hcircle hji
    exact hout m hjm hmk (hm.trans hi)

/-- Two classes that import each other, where a third class, that is on a circle of its own, has
imported the first one since. -/
def detoured : List ImportEdit :=
  [.push "A", .record "A" "B", .push "B", .record "B" "A", .record "C" "A", .record "D" "C",
    .record "C" "D", .push "C", .pop]

/-- The way from the first class leads to the other circle until what the third class imported is
forgotten. -/
theorem isChained_edited_detoured :
    Answers (edited detoured) "A" [] ((edited detoured).lastImporter? "A") false ∧
    (edited detoured).isChained "A" = false ∧
    (edited (detoured ++ [.forget "C"])).isChained "A" = true ∧
    (edited (detoured ++ [.forget "C"])).isChained "D" = false := by
  obtain ⟨-, hanswers, -, -, hcircle⟩ := isChained_edited detoured "A"
  have hout : (edited detoured).isChained "A" = false := by
    have hleft : ∀ i < 3, 1 ≤ i → ImportEdit.importerAfter detoured "A" i ≠ some "A" := by decide
    exact hcircle ⟨1, 3, by decide, by decide, fun i hi hk => hleft i hk hi⟩
  refine ⟨(hanswers (by decide) _).2 hout.symm, hout, ?_, ?_⟩
  · obtain ⟨-, -, hchained, -⟩ := isChained_edited (detoured ++ [.forget "C"]) "A"
    exact hchained.2 ⟨by decide, 2, by decide, by decide⟩
  · obtain ⟨-, -, -, hended, -⟩ := isChained_edited (detoured ++ [.forget "C"]) "D"
    exact hended ⟨1, by decide⟩

end ImportLog

end Wiring
