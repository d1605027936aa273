import Mathlib.Data.List.Basic
import ClusterConfig.Yaml.Node

/-!
# The tokens that documents are read from

A node is read from the tokens it starts with, one after the other, and none of them is the one that
stands where a text cannot be read on. So a text whose documents can be read has only valid tokens.
-/

set_option autoImplicit false

namespace ClusterConfig.Yaml

namespace Composer

variable {α β : Type} {s s' s₁ s₂ : Composer} {token : Token} {rest : List Token} {fuel : Nat}

/-- From the one composer to the other only valid tokens are taken. -/
def Takes (s s' : Composer) : Prop := ∃ taken, s.tokens = taken ++ s'.tokens ∧ Token.invalid ∉ taken

theorem Takes.refl (s : Composer) : Takes s s := ⟨[], rfl, by simp⟩

theorem Takes.trans (h : Takes s s₁) (h₁ : Takes s₁ s₂) : Takes s s₂ := by
  obtain ⟨taken, hs, hvalid⟩ := h
  obtain ⟨more, hs₁, hvalid₁⟩ := h₁
  exact ⟨taken ++ more, by rw [hs, hs₁, List.append_assoc], by simp [hvalid, hvalid₁]⟩

theorem Takes.of_cons (h : s.tokens = token :: rest) (ht : token ≠ .invalid)
    (hs' : s'.tokens = rest) : Takes s s' :=
  ⟨[token], by rw [h, hs']; rfl, by simpa using ht.symm⟩

theorem takes_skip (h : s.tokens = token :: rest) (ht : token ≠ .invalid) : Takes s s.skip :=
  .of_cons h ht (by rw [skip, h, List.tail_cons])

theorem takes_properties (s : Composer) : Takes s s.properties.2 := by
  rw [properties]
  split
  · rename_i name handle suffix rest h
    exact ⟨[.anchor name, .tag handle suffix], h, by simp⟩
  · rename_i handle suffix name rest h
    exact ⟨[.tag handle suffix, .anchor name], h, by simp⟩
  · rename_i h
    exact .of_cons h (by simp) rfl
  · rename_i h
    exact .of_cons h (by simp) rfl
  · exact .refl s

/-- What is found, if anything is, takes valid tokens only. -/
def TakesValid (s : Composer) (found : Option (α × Composer)) : Prop := ∀ x s', found = some (x, s') → Takes s s'

theorem TakesValid.none : TakesValid s (none : Option (α × Composer)) := by simp [TakesValid]

theorem TakesValid.some {x : α} (h : Takes s s') : TakesValid s (some (x, s')) := by
  rintro y s'' heq
  obtain ⟨-, rfl⟩ := Prod.mk.inj (Option.some.inj heq)
  exact h

theorem TakesValid.bind {found : Option (α × Composer)} {f : α × Composer → Option (β × Composer)}
    (h : TakesValid s found) (hf : ∀ x s₁, TakesValid s₁ (f (x, s₁))) : TakesValid s (found.bind f) := by
  intro y s₂ heq
  obtain ⟨⟨x, s₁⟩, hx, hy⟩ := Option.bind_eq_some_iff.mp heq
  exact (h x s₁ hx).trans (hf x s₁ y s₂ hy)

theorem TakesValid.ite {p : Prop} [Decidable p] {a b : Option (α × Composer)} (ha : TakesValid s a)
    (hb : TakesValid s b) : TakesValid s (if p then a else b) := by
  split
  · exact ha
  · exact hb

theorem TakesValid.behind {found : Option (α × Composer)} (h : Takes s s₁) (hf : TakesValid s₁ found) :
    TakesValid s found := fun x s' heq => h.trans (hf x s' heq)

/-- With some fuel every kind of node takes valid tokens only. -/
structure NodesTake (fuel : Nat) : Prop where
  node : ∀ context s, TakesValid s (node fuel context s)
  content : ∀ context tag named s, TakesValid s (content fuel context tag named s)
  blockItems : ∀ s, TakesValid s (blockItems fuel s)
  alignedItems : ∀ s, TakesValid s (alignedItems fuel s)
  blockEntries : ∀ s, TakesValid s (blockEntries fuel s)
  flowItems : ∀ first s, TakesValid s (flowItems fuel first s)
  pair : ∀ s, TakesValid s (pair fuel s)
  flowEntries : ∀ first s, TakesValid s (flowEntries fuel first s)

namespace NodesTake

variable {context : Context}

theorem node_succ (h : NodesTake fuel) (context : Context) (s : Composer) :
    TakesValid s (Composer.node (fuel + 1) context s) := by
  rw [Composer.node]
  split
  · rename_i name rest htokens
    cases lookup name s.anchors with
    | none => exact .none
    | some number => exact .some (takes_skip htokens (by simp))
  · refine .behind (takes_properties s) ?_
    generalize s.properties = found
    obtain ⟨⟨anchor, tag⟩, s⟩ := found
    cases tag with
    | none =>
      cases anchor with
      | none => exact (h.content _ _ _ _).bind fun _ s₂ => .some (.refl s₂)
      | some name => exact (h.content _ _ _ _).bind fun _ s₂ => .some (.refl s₂)
    | some pair =>
      simp only [Option.bind_eq_bind, Option.bind_map]
      cases s.resolveTag pair.1 pair.2 with
      | none => exact .none
      | some text =>
        cases anchor with
        | none => exact (h.content _ _ _ _).bind fun _ s₂ => .some (.refl s₂)
        | some name => exact (h.content _ _ _ _).bind fun _ s₂ => .some (.refl s₂)

/-- What is found behind a node that may be left out. -/
theorem item {p : Bool} {f : Graph × Composer → Option (α × Composer)} (h : NodesTake fuel)
    (hf : ∀ x s₁, TakesValid s₁ (f (x, s₁))) :
    TakesValid s (if p then (some (Graph.absent, s)).bind f else (Composer.node fuel context s).bind f) :=
  .ite (.bind (.some (.refl s)) hf) ((h.node context s).bind hf)

/-- What is found behind a value, which may be left out with or without its mark. -/
theorem value {p : List Token → Bool} {f : Graph × Composer → Option (α × Composer)}
    (h : NodesTake fuel) (hf : ∀ x s₁, TakesValid s₁ (f (x, s₁))) :
    TakesValid s (match s.tokens with
      | .value :: rest =>
        if p rest then (some (Graph.absent, s.skip)).bind f
        else (Composer.node fuel context s.skip).bind f
      | _ => (some (Graph.absent, s)).bind f) := by
  split
  · rename_i htokens
    exact .behind (takes_skip htokens (by simp)) (h.item hf)
  · exact .bind (.some (.refl s)) hf

theorem content_succ (h : NodesTake fuel) (context : Context) (tag : Option String) (named : Bool)
    (s : Composer) : TakesValid s (Composer.content (fuel + 1) context tag named s) := by
  have hmap {γ : Type} (f : γ → Graph) {found : Option (γ × Composer)} (hfound : TakesValid s found) :
      TakesValid s (found.map fun x => (f x.1, x.2)) := by
    cases found with
    | none => exact .none
    | some x => exact .some (hfound _ _ rfl)
  have homitted : TakesValid s (if named then some (Graph.scalar tag .plain "", s) else none) :=
    .ite (.some (.refl s)) .none
  unfold Composer.content
  generalize (if tag = some "!" then none else tag) = found
  generalize (if named then some (Graph.scalar tag .plain "", s) else none) = omitted at homitted ⊢
  split
  · rename_i htokens
    exact .some (takes_skip htokens (by simp))
  · rename_i htokens
    exact hmap _ ((h.flowItems _ _).behind (takes_skip htokens (by simp)))
  · rename_i htokens
    exact hmap _ ((h.flowEntries _ _).behind (takes_skip htokens (by simp)))
  · rename_i htokens
    exact hmap _ ((h.blockItems _).behind (takes_skip htokens (by simp)))
  · rename_i htokens
    exact hmap _ ((h.blockItems _).behind (takes_skip htokens (by simp)))
  · rename_i htokens
    exact hmap _ ((h.blockEntries _).behind (takes_skip htokens (by simp)))
  · rename_i htokens
    exact hmap _ ((h.blockEntries _).behind (takes_skip htokens (by simp)))
  · exact hmap _ (h.alignedItems _)
  · exact homitted

theorem blockItems_succ (h : NodesTake fuel) (s : Composer) :
    TakesValid s (Composer.blockItems (fuel + 1) s) := by
  rw [Composer.blockItems]
  split
  · rename_i htokens
    exact .behind (takes_skip htokens (by simp))
      (h.item fun _ s₁ => (h.blockItems s₁).bind fun _ s₂ => .some (.refl s₂))
  · rename_i htokens
    exact .some (takes_skip htokens (by simp))
  · exact .none

theorem alignedItems_succ (h : NodesTake fuel) (s : Composer) :
    TakesValid s (Composer.alignedItems (fuel + 1) s) := by
  rw [Composer.alignedItems]
  split
  · rename_i htokens
    exact .behind (takes_skip htokens (by simp))
      (h.item fun _ s₁ => (h.alignedItems s₁).bind fun _ s₂ => .some (.refl s₂))
  · exact .some (.refl s)

theorem blockEntries_succ (h : NodesTake fuel) (s : Composer) :
    TakesValid s (Composer.blockEntries (fuel + 1) s) := by
  rw [Composer.blockEntries]
  split
  · rename_i htokens
    exact .behind (takes_skip htokens (by simp)) (h.item fun _ s₁ => h.value fun _ s₂ =>
      (h.blockEntries s₂).bind fun _ s₃ => .some (.refl s₃))
  · rename_i htokens
    exact .some (takes_skip htokens (by simp))
  · exact .none

/-- What is found behind the comma between two items; there is none before the first one. -/
theorem entry {first : Bool} {f : Composer → Option (α × Composer)} (hf : ∀ s₁, TakesValid s₁ (f s₁)) :
    TakesValid s (if first then (some s).bind f else
      match s.tokens with
      | .flowEntry :: _ => (some s.skip).bind f
      | _ => none.bind f) := by
  refine .ite (hf s) ?_
  split
  · rename_i htokens
    exact (hf s.skip).behind (takes_skip htokens (by simp))
  · exact .none

theorem flowItems_succ (h : NodesTake fuel) (first : Bool) (s : Composer) :
    TakesValid s (Composer.flowItems (fuel + 1) first s) := by
  have hitems (x : Graph) (s : Composer) : TakesValid s ((Composer.flowItems fuel false s).bind fun found =>
      some (x :: found.1, found.2)) := (h.flowItems _ _).bind fun _ s₂ => .some (.refl s₂)
  rw [Composer.flowItems]
  split
  · rename_i htokens
    exact .some (takes_skip htokens (by simp))
  · refine entry fun s => ?_
    dsimp only
    split
    · rename_i htokens
      exact .some (takes_skip htokens (by simp))
    · rename_i htokens
      exact .behind (takes_skip htokens (by simp)) ((h.pair _).bind fun _ s₁ => hitems _ s₁)
    · exact (h.node _ _).bind fun _ s₁ => hitems _ s₁

theorem pair_succ (h : NodesTake fuel) (s : Composer) :
    TakesValid s (Composer.pair (fuel + 1) s) := by
  have hvalue (key : Graph) (s : Composer) : TakesValid s ((match s.tokens with
      | .value :: rest =>
        if isPairValueEnd rest then (some (Graph.absent, s.skip)).bind fun found =>
          some ((key, found.1), found.2)
        else (Composer.node fuel .flow s.skip).bind fun found => some ((key, found.1), found.2)
      | _ => (some (Graph.absent, s)).bind fun found => some ((key, found.1), found.2))) :=
    h.value fun _ s₁ => .some (.refl s₁)
  rw [Composer.pair]
  by_cases hend : isPairKeyEnd s.tokens = true
  · rw [if_pos hend]
    have hskip : ∃ token rest, s.tokens = token :: rest ∧ token ≠ .invalid := by
      cases hs : s.tokens with
      | nil => simp [hs, isPairKeyEnd] at hend
      | cons token rest =>
        refine ⟨token, rest, rfl, ?_⟩
        rintro rfl
        simp [hs, isPairKeyEnd] at hend
    obtain ⟨token, rest, htokens, ht⟩ := hskip
    exact (hvalue _ _).behind (takes_skip htokens ht)
  · rw [if_neg hend]
    exact (h.node _ _).bind fun key s₁ => hvalue key s₁

theorem flowEntries_succ (h : NodesTake fuel) (first : Bool) (s : Composer) :
    TakesValid s (Composer.flowEntries (fuel + 1) first s) := by
  have hentries (x : Graph × Graph) (s : Composer) :
      TakesValid s ((Composer.flowEntries fuel false s).bind fun found => some (x :: found.1, found.2)) :=
    (h.flowEntries _ _).bind fun _ s₂ => .some (.refl s₂)
  rw [Composer.flowEntries]
  split
  · rename_i htokens
    exact .some (takes_skip htokens (by simp))
  · refine entry fun s => ?_
    dsimp only
    split
    · rename_i htokens
      exact .some (takes_skip htokens (by simp))
    · rename_i htokens
      exact .behind (takes_skip htokens (by simp)) (h.item fun _ s₁ => h.value fun _ s₂ =>
        hentries _ s₂)
    · exact (h.node _ _).bind fun _ s₁ => hentries _ s₁

theorem all (fuel : Nat) : NodesTake fuel := by
  induction fuel with
  | zero =>
    constructor <;> intros <;> simp [TakesValid, Composer.node, Composer.content, Composer.blockItems,
      Composer.alignedItems, Composer.blockEntries, Composer.flowItems, Composer.pair,
      Composer.flowEntries]
  | succ fuel ih =>
    exact ⟨ih.node_succ, ih.content_succ, ih.blockItems_succ, ih.alignedItems_succ,
      ih.blockEntries_succ, ih.flowItems_succ, ih.pair_succ, ih.flowEntries_succ⟩

end NodesTake

theorem directives_takes {versioned : Bool} (h : directives fuel versioned s = some s') :
    Takes s s' := by
  induction fuel generalizing versioned s with
  | zero => cases h
  | succ fuel ih =>
    rw [directives] at h
    split at h
    · rename_i htokens
      rw [Option.ite_none_left_eq_some] at h
      exact (takes_skip htokens (by simp)).trans (ih h.2)
    · rename_i htokens
      rw [Option.ite_none_left_eq_some] at h
      have hmore := ih h.2
      exact (takes_skip htokens (by simp)).trans hmore
    · obtain rfl := Option.some.inj h
      exact .refl s

/-- The tokens behind a document, whose end may be marked. -/
def behindRoot (found : Graph × Composer) : Option (Graph × List Token) :=
  match found.2.tokens with
  | .invalid :: _ => none
  | .documentEnd :: rest => some (found.1, rest)
  | rest => some (found.1, rest)

theorem behindRoot_takes {root g : Graph} {more : List Token}
    (h : behindRoot (g, s) = some (root, more)) :
    ∃ taken, s.tokens = taken ++ more ∧ Token.invalid ∉ taken := by
  rw [behindRoot] at h
  split at h
  · cases h
  · rename_i htokens
    obtain ⟨-, rfl⟩ := Prod.mk.inj (Option.some.inj h)
    exact ⟨[.documentEnd], htokens, by simp⟩
  · obtain ⟨-, rfl⟩ := Prod.mk.inj (Option.some.inj h)
    exact ⟨[], rfl, by simp⟩

/-- A document takes valid tokens only. -/
theorem document_takes {first : Bool} {tokens more : List Token} {root : Graph}
    (h : document fuel first tokens = some (root, more)) :
    ∃ taken, tokens = taken ++ more ∧ Token.invalid ∉ taken := by
  have hroot (bare : Bool) (s : Composer) (h : (if !bare && isEmptyDocument s.tokens then
      (some (Graph.absent, s)).bind behindRoot else (node fuel .block s).bind behindRoot) =
        some (root, more)) : ∃ taken, s.tokens = taken ++ more ∧ Token.invalid ∉ taken := by
    obtain ⟨⟨g, s₁⟩, htake, h⟩ : ∃ found : Graph × Composer, Takes s found.2 ∧
        behindRoot found = some (root, more) := by
      split at h
      · exact ⟨_, .refl s, h⟩
      · obtain ⟨⟨g, s₁⟩, hnode, h⟩ := Option.bind_eq_some_iff.mp h
        exact ⟨_, (NodesTake.all fuel).node .block s g s₁ hnode, h⟩
    obtain ⟨taken, hs, hvalid⟩ := htake
    obtain ⟨last, hs₁, hlast⟩ := behindRoot_takes h
    exact ⟨taken ++ last, by rw [hs, hs₁, List.append_assoc], by simp [hvalid, hlast]⟩
  cases hbare : first && !startsExplicitly tokens with
  | true =>
    simp only [document, hbare] at h
    exact hroot true _ h
  | false =>
    simp only [document, hbare] at h
    obtain ⟨s, hs, h⟩ := Option.bind_eq_some_iff.mp h
    obtain ⟨taken, htokens, hvalid⟩ := directives_takes hs
    split at h
    · rename_i hstart
      obtain ⟨last, hlast, hvalid'⟩ := hroot false { s.skip with
        handles := s.skip.handles ++ defaultHandles } h
      rw [show s.skip.tokens = s.tokens.tail from rfl, hstart, List.tail_cons] at hlast
      refine ⟨taken ++ .documentStart :: last, ?_, by simp [hvalid, hvalid']⟩
      exact htokens.trans (by rw [hstart, hlast, List.append_assoc, List.cons_append])
    · cases h

theorem skipEnds_takes (tokens : List Token) :
    ∃ taken, tokens = taken ++ skipEnds tokens ∧ Token.invalid ∉ taken := by
  induction tokens using skipEnds.induct with
  | case1 rest ih =>
    obtain ⟨taken, hrest, hvalid⟩ := ih
    exact ⟨.documentEnd :: taken, by rw [skipEnds, List.cons_append, ← hrest], by simp [hvalid]⟩
  | case2 tokens hne => exact ⟨[], by rw [skipEnds.eq_2 _ hne, List.nil_append], by simp⟩

end Composer

theorem valid_of_documentsFrom {fuel steps : Nat} {first : Bool} {tokens : List Token}
    (h : ∀ root ∈ documentsFrom fuel steps first tokens, root.isSome) : Token.invalid ∉ tokens := by
  induction steps generalizing first tokens with
  | zero => simp [documentsFrom] at h
  | succ steps ih =>
    obtain ⟨taken, htaken, hvalid⟩ : ∃ taken,
        tokens = taken ++ (if first then tokens else Composer.skipEnds tokens) ∧
          Token.invalid ∉ taken := by
      cases first with
      | true => exact ⟨[], rfl, by simp⟩
      | false => exact Composer.skipEnds_takes tokens
    rw [documentsFrom] at h
    generalize (if first then tokens else Composer.skipEnds tokens) = rest at htaken h
    subst htaken
    rw [List.mem_append, not_or]
    refine ⟨hvalid, ?_⟩
    split at h
    · simp
    · split at h
      · simp at h
      · rename_i hdocument
        obtain ⟨taken', rfl, hvalid'⟩ := Composer.document_takes hdocument
        have hmore := ih fun root hroot => h root (List.mem_cons_of_mem _ hroot)
        simp [hvalid', hmore]

/-- A text whose documents can be read has valid tokens only. -/
theorem valid_of_nodes {text : String} (h : ∀ node ∈ nodes text, node.isSome) :
    Token.invalid ∉ tokens text.toList := by
  have hgraphs : ∀ root ∈ graphs text.toList, root.isSome := by
    intro root hroot
    have hnode := h _ (List.mem_map_of_mem hroot)
    simpa using hnode
  rw [graphs] at hgraphs
  split at hgraphs
  · rename_i htokens
    simp [htokens]
  · exact valid_of_documentsFrom hgraphs

end ClusterConfig.Yaml
