import Wiring.Proofs.Placeholder.Expansion

/-!
# Templates

A template is a sequence of literals and placeholders, and the body of a placeholder is a template.
Expanding the text of a template comes to evaluating the template, as long as no value has a dollar
sign in it: brackets that a value brings along are never taken for those of a placeholder.
-/

namespace Wiring.Placeholder

open Delimiters

/-! ## Values of placeholders -/

/-- The value of a placeholder: that of the whole, else that of the part before the first colon,
else the part behind it. -/
def Lookup.valueOf (lookup : Lookup) (placeholder : List Char) : Option (List Char) :=
  match lookup placeholder with
  | some value => some value
  | none =>
    if ':' ∈ placeholder then
      match lookup (placeholder.takeWhile (· != ':')) with
      | some value => some value
      | none => some (placeholder.dropWhile (· != ':')).tail
    else none

theorem cutFirst_separator (s : List Char) : cutFirst [':'] s =
    if ':' ∈ s then some (s.takeWhile (· != ':'), (s.dropWhile (· != ':')).tail) else none := by
  induction s with
  | nil => rfl
  | cons c s ih =>
    by_cases hc : c = ':'
    · subst hc
      rw [if_pos List.mem_cons_self]
      rfl
    · have hnone : [':'].isPrefixOf? (c :: s) = none := by
        show (if ':' == c then _ else none) = none
        rw [if_neg fun h => hc (beq_iff_eq.1 h).symm]
      have htake : (c :: s).takeWhile (· != ':') = c :: s.takeWhile (· != ':') :=
        List.takeWhile_cons_of_pos (bne_iff_ne.2 hc)
      have hdrop : (c :: s).dropWhile (· != ':') = s.dropWhile (· != ':') :=
        List.dropWhile_cons_of_pos (bne_iff_ne.2 hc)
      rw [cutFirst, hnone, ih, htake, hdrop]
      by_cases hs : ':' ∈ s
      · rw [if_pos hs, if_pos (List.mem_cons_of_mem _ hs)]
        rfl
      · rw [if_neg hs, if_neg fun h => (List.mem_cons.1 h).elim (fun h => hc h.symm) hs]
        rfl

theorem value?_standard (lookup : Lookup) (placeholder : List Char) :
    value? standard lookup placeholder = lookup.valueOf placeholder := by
  unfold value? Lookup.valueOf
  cases lookup placeholder with
  | some value => rfl
  | none =>
    show (cutFirst [':'] placeholder).bind _ = _
    rw [cutFirst_separator]
    split
    · show (lookup (placeholder.takeWhile (· != ':')) <|>
        some (placeholder.dropWhile (· != ':')).tail) = _
      cases lookup (placeholder.takeWhile (· != ':')) with
      | some value => rfl
      | none => rfl
    · rfl

/-! ## Templates and what they come to -/

/-- A placeholder without a value, and the text of the template that it stands in. -/
structure Unresolved where
  placeholder : List Char
  text : List Char
deriving DecidableEq

/-- The failure of an expansion that comes to such a placeholder. -/
def Unresolved.failure (u : Unresolved) : Failure := .unresolvable u.placeholder u.text

/-- The value of a placeholder, which stands in a template with this text. -/
def Lookup.resolve (lookup : Lookup) (text placeholder : List Char) :
    Except Unresolved (List Char) :=
  match lookup.valueOf placeholder with
  | some value => .ok value
  | none => .error ⟨placeholder, text⟩

theorem Lookup.resolve_eq_ok {lookup : Lookup} {placeholder value : List Char}
    (h : lookup.valueOf placeholder = some value) (text : List Char) :
    lookup.resolve text placeholder = .ok value := by
  unfold resolve
  rw [h]

theorem Lookup.resolve_eq_error {lookup : Lookup} {placeholder : List Char}
    (h : lookup.valueOf placeholder = none) (text : List Char) :
    lookup.resolve text placeholder = .error ⟨placeholder, text⟩ := by
  unfold resolve
  rw [h]

/-- A sequence of literals and placeholders. -/
inductive Template where
  | done
  | literal (text : List Char) (plain : ∀ c ∈ text, c ≠ '$' ∧ c ≠ '\x7b' ∧ c ≠ '\x7d')
    (rest : Template)
  | placeholder (body rest : Template)

namespace Template

/-- The text of a template. -/
def render : Template → List Char
  | done => []
  | literal text _ rest => text ++ rest.render
  | placeholder body rest => '$' :: '\x7b' :: (body.render ++ '\x7d' :: rest.render)

/-- How deep placeholders are nested. -/
def depth : Template → Nat
  | done => 0
  | literal _ _ rest => rest.depth
  | placeholder body rest => max (body.depth + 1) rest.depth

/-- What a part of the template of `text` comes to: literals stand for themselves, and a placeholder
for the value of what its body comes to. -/
def evalIn (lookup : Lookup) (text : List Char) : Template → Except Unresolved (List Char)
  | done => .ok []
  | literal s _ rest => do
    let parts ← rest.evalIn lookup text
    .ok (s ++ parts)
  | placeholder body rest => do
    let placeholder ← body.evalIn lookup body.render
    let value ← lookup.resolve text placeholder
    let parts ← rest.evalIn lookup text
    .ok (value ++ parts)

/-- What a template comes to. -/
def eval (lookup : Lookup) (t : Template) : Except Unresolved (List Char) :=
  t.evalIn lookup t.render

variable {lookup : Lookup} {bound : Nat} {inProgress : List (List Char)} {text : List Char}

theorem closes_render (t : Template) : Closes 0 t.render := by
  induction t with
  | done => exact .nil
  | literal s hs rest ih => exact (closes_of_plain fun c hc => (hs c hc).2).append ih
  | placeholder body rest hbody hrest =>
    have hbraced := hbody.braced.append hrest
    rw [List.cons_append, List.append_assoc] at hbraced
    exact .other (by decide) (by decide) hbraced

theorem depth_le_length (t : Template) : t.depth ≤ t.render.length := by
  induction t with
  | done => exact Nat.le_refl 0
  | literal s hs rest ih =>
    rw [render, List.length_append]
    exact Nat.le_add_left_of_le ih
  | placeholder body rest hbody hrest =>
    rw [render, List.length_cons, List.length_cons, List.length_append, List.length_cons, depth]
    omega

section Plain

variable (hlookup : ∀ key value, lookup key = some value → '$' ∉ value)

include hlookup

theorem dollar_not_mem_of_resolve {placeholder value : List Char} (hp : '$' ∉ placeholder)
    (h : lookup.resolve text placeholder = .ok value) : '$' ∉ value := by
  cases hv : lookup.valueOf placeholder with
  | none => cases (Lookup.resolve_eq_error hv text).symm.trans h
  | some raw =>
    cases (Lookup.resolve_eq_ok hv text).symm.trans h
    rw [← value?_standard] at hv
    rcases value?_cases hv with ⟨key, hkey⟩ | ⟨before, rfl⟩
    · exact hlookup key value hkey
    · exact fun hmem => hp (List.mem_append_right _ hmem)

/-- Nothing that a template comes to has a dollar sign in it. -/
theorem dollar_not_mem_of_evalIn (t : Template) {result : List Char}
    (h : t.evalIn lookup text = .ok result) : '$' ∉ result := by
  induction t generalizing text result with
  | done =>
    cases h
    exact List.not_mem_nil
  | literal s hs rest ih =>
    obtain ⟨parts, hparts, h⟩ := bind_eq_ok.1 h
    cases h
    exact List.not_mem_append (fun hd => (hs _ hd).1 rfl) (ih hparts)
  | placeholder body rest hbody hrest =>
    obtain ⟨placeholder, hp, h⟩ := bind_eq_ok.1 h
    obtain ⟨value, hv, h⟩ := bind_eq_ok.1 h
    obtain ⟨parts, hparts, h⟩ := bind_eq_ok.1 h
    cases h
    exact List.not_mem_append (dollar_not_mem_of_resolve hlookup (hbody hp) hv) (hrest hparts)

/-- A placeholder is replaced by the value of what its body comes to. -/
theorem expandSegment_placeholder (body : Template)
    (hbody : expandWithin standard .required lookup (bound + 1) (body.render :: inProgress)
      body.render = (body.evalIn lookup body.render).mapError Unresolved.failure)
    (hnew : body.render ∉ inProgress) :
    expandSegment standard .required lookup (bound + 1) inProgress text
      (.placeholder body.render) =
        (body.evalIn lookup body.render >>= lookup.resolve text).mapError Unresolved.failure := by
  cases hp : body.evalIn lookup body.render with
  | error u => exact expandSegment_failed hnew (hbody.trans (by rw [hp]; rfl))
  | ok placeholder =>
    have hexpand := hbody.trans (by rw [hp]; rfl : _ = .ok placeholder)
    cases hv : lookup.valueOf placeholder with
    | none =>
      rw [expandSegment_unresolved hnew hexpand ((value?_standard lookup placeholder).trans hv)]
      exact congrArg (Except.mapError Unresolved.failure) (Lookup.resolve_eq_error hv text).symm
    | some value =>
      have hresolve := Lookup.resolve_eq_ok hv text
      have hplain := dollar_not_mem_of_resolve hlookup (dollar_not_mem_of_evalIn hlookup body hp)
        hresolve
      rw [expandSegment_eq value hnew hexpand ((value?_standard lookup placeholder).trans hv),
        expandWithin_literal (segments_of_plain hplain)]
      exact congrArg (Except.mapError Unresolved.failure) hresolve.symm

/-- What the segments of a template are replaced by is what it comes to. -/
theorem expandAll_segments (t : Template) (hd : t.depth ≤ bound)
    (hlong : ∀ body ∈ inProgress, t.render.length ≤ body.length) :
    expandAll (expandSegment standard .required lookup bound inProgress text)
      (segments standard t.render) = (t.evalIn lookup text).mapError Unresolved.failure := by
  induction t generalizing bound inProgress text with
  | done => rfl
  | literal s hs rest ih =>
    obtain ⟨x, l, hrest, happend⟩ := segments_append (fun h => (hs _ h).1 rfl) rest.render
    have ih := @ih bound inProgress text hd fun body hbody => by
      have := hlong body hbody
      rw [render, List.length_append] at this
      omega
    rw [render, happend, expandAll_literal_append, evalIn, ← hrest, ih]
    cases rest.evalIn lookup text with
    | error u => rfl
    | ok parts => rfl
  | placeholder body rest hbody hrest =>
    obtain ⟨hdbody, hdrest⟩ := Nat.max_le.1 hd
    obtain ⟨b, rfl⟩ : ∃ b, bound = b + 1 := ⟨bound - 1, by omega⟩
    have hshort {s : List Char} (hs : s ∈ inProgress) :
        body.render.length < s.length ∧ rest.render.length ≤ s.length := by
      have := hlong s hs
      simp only [render, List.length_cons, List.length_append] at this
      omega
    have hexpand : expandWithin standard .required lookup (b + 1) (body.render :: inProgress)
        body.render = (body.evalIn lookup body.render).mapError Unresolved.failure := by
      rw [expandWithin_succ]
      refine hbody (Nat.le_of_succ_le_succ hdbody) fun s hs => ?_
      rcases List.mem_cons.1 hs with rfl | hs
      · exact Nat.le_refl _
      · exact Nat.le_of_lt (hshort hs).1
    -- a body in progress has all of this text in it, so it is none of the bodies in this text
    have hnew : body.render ∉ inProgress := fun hmem => Nat.lt_irrefl _ (hshort hmem).1
    have hsegment := @expandSegment_placeholder _ _ _ text hlookup body hexpand hnew
    have hparts := @hrest _ _ text hdrest fun s hs => (hshort hs).2
    rw [render, segments_placeholder body.closes_render, expandAll_literal_nil, expandAll, hsegment,
      hparts, evalIn]
    rw [mapError_bind, mapError_bind, bind_assoc]
    refine bind_congr fun placeholder => ?_
    rw [mapError_bind]
    refine bind_congr fun value => ?_
    rw [mapError_bind]
    rfl

/-- Expanding the text of a template, however deep it is nested, comes to evaluating it. -/
theorem expandChars_render (t : Template) (valueSize : Nat) :
    expandChars standard .required valueSize lookup t.render =
      (t.eval lookup).mapError Unresolved.failure := by
  obtain ⟨bound, hbound⟩ : ∃ bound, depthBound t.render valueSize = bound + 1 :=
    ⟨t.render.length + valueSize + 1199, rfl⟩
  have hd := t.depth_le_length
  unfold expandChars
  rw [hbound, expandWithin_succ]
  refine expandAll_segments hlookup t ?_ (List.forall_mem_nil _)
  unfold depthBound spareDepth at hbound
  omega

end Plain

end Template

/-- Where no value has a dollar sign in it, expanding the text of a template gives what the template
comes to: each placeholder, the innermost ones first, is replaced by the value of what its body came
to, and the first one without a value is reported. Values may have braces and colons in them. -/
theorem expand_render (t : Template) (lookup : String → Option String) (valueSize : Nat)
    (hlookup : ∀ key value, lookup key = some value → '$' ∉ value.toList) :
    expand standard .required valueSize lookup (String.ofList t.render) =
      match t.eval (.ofStrings lookup) with
      | .ok result => .ok (String.ofList result)
      | .error u => .error
        (.unresolvablePlaceholder (String.ofList u.placeholder) (String.ofList u.text)) := by
  have hplain (key value : List Char) (h : Lookup.ofStrings lookup key = some value) :
      '$' ∉ value := by
    obtain ⟨s, hs, rfl⟩ := Option.map_eq_some_iff.1 h
    exact hlookup _ s hs
  unfold expand
  rw [String.toList_ofList, Template.expandChars_render hplain]
  cases t.eval (Lookup.ofStrings lookup) with
  | ok result => rfl
  | error u => rfl

/-- The value of an inner placeholder brings the colon before the default of the outer one. -/
theorem expand_render_nested :
    let letter (c : Char) (hc : c ≠ '$' ∧ c ≠ '\x7b' ∧ c ≠ '\x7d') (rest : Template) : Template :=
      .literal [c] (List.forall_mem_singleton.2 hc) rest
    let t : Template := letter 'u' (by decide) (.placeholder
      (letter 'b' (by decide) (.placeholder (letter 'c' (by decide) .done) .done)) .done)
    let lookup (key : String) := if key = "c" then some "\x7b:x\x7d" else none
    String.ofList t.render = "u$\x7bb$\x7bc\x7d\x7d" ∧
      expand standard .required 4 lookup (String.ofList t.render) = .ok "ux\x7d" :=
  ⟨rfl, expand_render _ _ 4 fun key value h => by
    split at h
    · cases h
      decide
    · cases h⟩

end Wiring.Placeholder
