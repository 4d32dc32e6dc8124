import TopologyConfig.Proofs.Yaml.Tokens
import TopologyConfig.Yaml.Node

/-!
What stops the nodes of a YAML text. A node is read as its tokens allow it, and where they end before it does, their
fault is the one of the node. A document that contains itself has an anchor and an alias of one name.
-/
namespace TopologyConfig.Yaml

/-- An anchor and an alias of one name are among the tokens. -/
def HasAliasedAnchor (ts : List Token) : Prop := ∃ name, .anchor name ∈ ts ∧ .alias name ∈ ts

namespace NodeReader

/-- What is left are some of the given tokens, with the same end, and the anchors that are known are among them too. -/
structure Within (o : Option Fault) (ts : List Token) (r : NodeReader) : Prop where
  fault : r.fault = o
  tokens : r.tokens ⊆ ts
  anchors : ∀ e ∈ r.anchors, .anchor e.1 ∈ ts
  recursive : r.recursive = true → HasAliasedAnchor ts

/-- The reading has a result with the property, or stops at the given end of the tokens, or they make no document. -/
def Keeps {α : Type} (o : Option Fault) (Q : α → Prop) : Except Fault α → Prop
  | .ok a => Q a
  | .error f => f = .malformed ∨ o = some f

section

variable {α β : Type} {o : Option Fault} {Q : α → Prop} {R : β → Prop} {x : Except Fault α}

theorem keeps_malformed : Keeps o Q (.error .malformed) := .inl rfl

theorem Keeps.bind {k : α → Except Fault β} (h : Keeps o Q x) (hk : ∀ a, Q a → Keeps o R (k a)) :
    Keeps o R (x >>= k) := by
  cases x with
  | ok a => exact hk a h
  | error f => exact h

theorem keeps_ite {p : Prop} [Decidable p] {y : Except Fault α} (h : Keeps o Q x) (h' : Keeps o Q y) :
    Keeps o Q (if p then x else y) := by
  split
  · exact h
  · exact h'

end

variable {o : Option Fault} {ts : List Token}

/-- The anchor of a node is one of the tokens. -/
def Anchored (ts : List Token) (anchor : Option String) : Prop := ∀ name, anchor = some name → .anchor name ∈ ts

theorem anchored_none : Anchored ts none := nofun

section

variable {r : NodeReader} (h : Within o ts r)
include h

theorem Within.next : Within o ts r.next where
  fault := h.fault
  tokens := List.Subset.trans (List.drop_subset 1 r.tokens) h.tokens
  anchors := h.anchors
  recursive := h.recursive

theorem Within.nextUnless (first : Bool) : Within o ts (if first then r else r.next) := by
  split
  · exact h
  · exact h.next

theorem keeps_peek : Keeps o (· ∈ ts) r.peek := by
  unfold peek
  split
  · next t us htokens => exact h.tokens (htokens ▸ List.mem_cons_self)
  · cases hf : r.fault with
    | none => exact keeps_malformed
    | some f => exact .inr (h.fault ▸ hf)

theorem keeps_anchor : Keeps o (fun p => Within o ts p.2 ∧ Anchored ts p.1) r.anchor := by
  refine (keeps_peek h).bind fun t ht => ?_
  split
  · next name =>
    refine ⟨h.next, fun name' hname => ?_⟩
    cases hname
    exact ht
  · exact ⟨h, anchored_none⟩

theorem keeps_tag : Keeps o (fun p => Within o ts p.2) r.tag := by
  refine (keeps_peek h).bind fun t _ => ?_
  split
  · exact h.next
  · exact h

omit h in
theorem keeps_fullTag (t : Option (Option String × String)) : Keeps o (fun _ => True) (r.fullTag t) := by
  unfold fullTag
  split
  · trivial
  · trivial
  · split
    · trivial
    · exact keeps_malformed

theorem keeps_properties : Keeps o (fun p => Within o ts p.2 ∧ Anchored ts p.1.anchor) r.properties := by
  unfold properties
  refine (keeps_anchor h).bind fun p hp => ?_
  refine (keeps_tag hp.1).bind fun q hq => ?_
  have hend : ∀ p : Option String × NodeReader, Within o ts p.2 ∧ Anchored ts p.1 →
      Keeps o (fun p => Within o ts p.2 ∧ Anchored ts p.1.anchor) (do
        pure (Properties.mk p.1 (← p.2.fullTag q.1), p.2)) := fun p hp =>
    (keeps_fullTag q.1).bind fun _ _ => hp
  dsimp only
  split
  · exact hend (_, _) ⟨hq, hp.2⟩
  · exact (keeps_anchor hq).bind hend

theorem keeps_openAnchor {name : Option String} (hname : Anchored ts name) :
    Keeps o (Within o ts) (r.openAnchor name) := by
  unfold openAnchor
  split
  · exact h
  · refine keeps_ite keeps_malformed ⟨h.fault, h.tokens, ?_, h.recursive⟩
    exact List.forall_mem_cons.mpr ⟨hname _ rfl, h.anchors⟩

/-- An alias that is read within the node of its anchor makes the document contain itself. -/
theorem keeps_aliased {name : String} (hname : .alias name ∈ ts) :
    Keeps o (fun p => Within o ts p.2) (r.aliased name) := by
  unfold aliased
  split
  · exact h.next
  · next hopen =>
    obtain ⟨before, after, hanchors, -⟩ := List.lookup_eq_some_iff.mp hopen
    have hknown : .anchor name ∈ ts := h.anchors (name, none) (hanchors ▸ by simp)
    exact ⟨h.fault, h.next.tokens, h.anchors, fun _ => ⟨name, hknown, hname⟩⟩
  · exact keeps_malformed

theorem Within.closeAnchor {name : Option String} (hname : Anchored ts name) (n : Node) :
    Within o ts (r.closeAnchor name n) := by
  unfold NodeReader.closeAnchor
  split
  · exact h
  · exact ⟨h.fault, h.tokens, List.forall_mem_cons.mpr ⟨hname _ rfl, h.anchors⟩, h.recursive⟩

end

/-- All readers of nodes keep to the end of the tokens. -/
structure KeepsAll (o : Option Fault) (ts : List Token) (fuel : Nat) : Prop where
  node : ∀ block indentless (r : NodeReader), Within o ts r → Keeps o (fun p => Within o ts p.2) (readNode block indentless fuel r)
  nodeUnless : ∀ block indentless stops (r : NodeReader), Within o ts r →
    Keeps o (fun p => Within o ts p.2) (readUnless block indentless stops fuel r)
  blockItems : ∀ r : NodeReader, Within o ts r → Keeps o (fun p => Within o ts p.2) (readBlockItems fuel r)
  indentlessItems : ∀ r : NodeReader, Within o ts r → Keeps o (fun p => Within o ts p.2) (readIndentlessItems fuel r)
  blockEntries : ∀ r : NodeReader, Within o ts r → Keeps o (fun p => Within o ts p.2) (readBlockEntries fuel r)
  blockValue : ∀ r : NodeReader, Within o ts r → Keeps o (fun p => Within o ts p.2) (readBlockValue fuel r)
  flowEntry : ∀ close (r : NodeReader), Within o ts r → Keeps o (fun p => Within o ts p.2.2) (readFlowEntry close fuel r)
  flowItems : ∀ first (r : NodeReader), Within o ts r → Keeps o (fun p => Within o ts p.2) (readFlowItems first fuel r)
  flowEntries : ∀ first (r : NodeReader), Within o ts r → Keeps o (fun p => Within o ts p.2) (readFlowEntries first fuel r)

namespace KeepsAll

variable {fuel : Nat} {r : NodeReader} (ih : KeepsAll o ts fuel) (h : Within o ts r)
include ih h

theorem node_succ (block indentless : Bool) :
    Keeps o (fun p => Within o ts p.2) (readNode block indentless (fuel + 1) r) := by
  rw [readNode]
  refine (keeps_peek h).bind fun t ht => ?_
  split
  · exact keeps_aliased h ht
  · refine (keeps_properties h).bind fun p ⟨hp, hname⟩ => ?_
    refine (keeps_peek hp).bind fun t _ => ?_
    -- Every collection is closed in the same way.
    have hclosed : ∀ {α : Type} (make : α → Node) {parts : Except Fault (α × NodeReader)},
        Keeps o (fun q => Within o ts q.2) parts → Keeps o (fun q => Within o ts q.2)
          (parts >>= fun q => pure (make q.1, q.2.closeAnchor p.1.anchor (make q.1))) :=
      fun _ _ hparts => hparts.bind fun q hq => hq.closeAnchor hname _
    have hopen := keeps_openAnchor hp hname
    split
    · exact hopen.bind fun r hr => hr.next.closeAnchor hname _
    · exact hopen.bind fun r hr => hclosed _ (ih.flowItems true _ hr.next)
    · exact hopen.bind fun r hr => hclosed _ (ih.flowEntries true _ hr.next)
    · refine keeps_ite (hopen.bind fun r hr => hclosed _ (ih.indentlessItems _ hr)) ?_
      refine keeps_ite (hopen.bind fun r hr => hclosed _ (ih.blockItems _ hr.next)) ?_
      refine keeps_ite (hopen.bind fun r hr => hclosed _ (ih.blockEntries _ hr.next)) ?_
      exact keeps_ite keeps_malformed (hopen.bind fun r hr => hr.closeAnchor hname _)

theorem nodeUnless_succ (block indentless : Bool) (stops : List Token) :
    Keeps o (fun p => Within o ts p.2) (readUnless block indentless stops (fuel + 1) r) := by
  rw [readUnless]
  refine (keeps_peek h).bind fun t _ => ?_
  exact keeps_ite h (ih.node _ _ _ h)

theorem blockItems_succ : Keeps o (fun p => Within o ts p.2) (readBlockItems (fuel + 1) r) := by
  rw [readBlockItems]
  refine (keeps_peek h).bind fun t _ => ?_
  split
  · refine (ih.nodeUnless _ _ _ r.next h.next).bind fun p hp => ?_
    exact (ih.blockItems p.2 hp).bind fun q hq => hq
  · exact h.next
  · exact keeps_malformed

theorem indentlessItems_succ : Keeps o (fun p => Within o ts p.2) (readIndentlessItems (fuel + 1) r) := by
  rw [readIndentlessItems]
  refine (keeps_peek h).bind fun t _ => ?_
  split
  · refine (ih.nodeUnless _ _ _ r.next h.next).bind fun p hp => ?_
    exact (ih.indentlessItems p.2 hp).bind fun q hq => hq
  · exact h

theorem blockEntries_succ : Keeps o (fun p => Within o ts p.2) (readBlockEntries (fuel + 1) r) := by
  rw [readBlockEntries]
  refine (keeps_peek h).bind fun t _ => ?_
  split
  · exact h.next
  · refine (ih.nodeUnless _ _ _ r.next h.next).bind fun p hp => ?_
    refine (ih.blockValue p.2 hp).bind fun q hq => ?_
    exact (ih.blockEntries q.2 hq).bind fun s hs => hs
  · exact keeps_malformed

theorem blockValue_succ : Keeps o (fun p => Within o ts p.2) (readBlockValue (fuel + 1) r) := by
  rw [readBlockValue]
  refine (keeps_peek h).bind fun t _ => ?_
  exact keeps_ite (ih.nodeUnless _ _ _ r.next h.next) h

theorem flowEntry_succ (close : Token) : Keeps o (fun p => Within o ts p.2.2) (readFlowEntry close (fuel + 1) r) := by
  rw [readFlowEntry]
  refine (ih.nodeUnless _ _ _ r.next h.next).bind fun p hp => ?_
  refine (keeps_peek hp).bind fun t _ => ?_
  exact keeps_ite ((ih.nodeUnless _ _ _ p.2.next hp.next).bind fun q hq => hq) hp

theorem flowItems_succ (first : Bool) : Keeps o (fun p => Within o ts p.2) (readFlowItems first (fuel + 1) r) := by
  have hnext := h.nextUnless first
  rw [readFlowItems]
  refine (keeps_peek h).bind fun t _ => ?_
  refine keeps_ite h.next (keeps_ite keeps_malformed ?_)
  refine (keeps_peek hnext).bind fun t _ => ?_
  split
  · exact hnext.next
  · refine (ih.flowEntry _ _ hnext).bind fun p hp => ?_
    exact (ih.flowItems false p.2.2 hp).bind fun q hq => hq
  · refine (ih.node _ _ _ hnext).bind fun p hp => ?_
    exact (ih.flowItems false p.2 hp).bind fun q hq => hq

theorem flowEntries_succ (first : Bool) : Keeps o (fun p => Within o ts p.2) (readFlowEntries first (fuel + 1) r) := by
  have hnext := h.nextUnless first
  rw [readFlowEntries]
  refine (keeps_peek h).bind fun t _ => ?_
  refine keeps_ite h.next (keeps_ite keeps_malformed ?_)
  refine (keeps_peek hnext).bind fun t _ => ?_
  split
  · exact hnext.next
  · refine (ih.flowEntry _ _ hnext).bind fun p hp => ?_
    exact (ih.flowEntries false p.2.2 hp).bind fun q hq => hq
  · refine (ih.node _ _ _ hnext).bind fun p hp => ?_
    exact (ih.flowEntries false p.2 hp).bind fun q hq => hq

end KeepsAll

theorem keepsAll (o : Option Fault) (ts : List Token) (fuel : Nat) : KeepsAll o ts fuel := by
  induction fuel with
  | zero =>
    constructor <;> intros <;> exact keeps_malformed
  | succ fuel ih =>
    exact {
      node := fun block indentless _ h => ih.node_succ h block indentless
      nodeUnless := fun block indentless stops _ h => ih.nodeUnless_succ h block indentless stops
      blockItems := fun _ h => ih.blockItems_succ h
      indentlessItems := fun _ h => ih.indentlessItems_succ h
      blockEntries := fun _ h => ih.blockEntries_succ h
      blockValue := fun _ h => ih.blockValue_succ h
      flowEntry := fun close _ h => ih.flowEntry_succ h close
      flowItems := fun first _ h => ih.flowItems_succ h first
      flowEntries := fun first _ h => ih.flowEntries_succ h first }

section

variable {r : NodeReader} (h : Within o ts r)
include h

theorem Within.skipEnds : Within o ts r.skipEnds where
  fault := h.fault
  tokens := List.Subset.trans (List.dropWhile_subset _) h.tokens
  anchors := h.anchors
  recursive := h.recursive

theorem keeps_root : Keeps o (fun p => Within o ts p.2) r.root := (keepsAll o ts _).node true false r h

theorem keeps_begin : Keeps o (Within o ts) r.begin := by
  have hdirectives : ∀ us seen handles, us ⊆ ts →
      Keeps o (fun p => p.2 ⊆ ts) (readDirectives us seen handles) := by
    intro us
    induction us with
    | nil => exact fun _ _ hsub => hsub
    | cons t us ih =>
      intro seen handles hsub
      have hrest : us ⊆ ts := List.Subset.trans (List.subset_cons_self t us) hsub
      unfold readDirectives
      split
      · next heq =>
        cases heq
        exact keeps_ite keeps_malformed (ih _ _ hrest)
      · next heq =>
        cases heq
        exact keeps_ite keeps_malformed (ih _ _ hrest)
      · next heq =>
        cases heq
        exact ih _ _ hrest
      · exact hsub
  refine (hdirectives _ _ _ h.tokens).bind fun p hp => ?_
  have hmade : Within o ts { r with tokens := p.2, handles := p.1 ++ standardHandles } :=
    ⟨h.fault, hp, h.anchors, h.recursive⟩
  refine (keeps_peek hmade).bind fun t _ => ?_
  exact keeps_ite hmade.next keeps_malformed

theorem keeps_markedRoot : Keeps o (fun p => Within o ts p.2) r.markedRoot := by
  refine (keeps_peek h).bind fun t _ => ?_
  split
  any_goals exact h
  exact keeps_root h

theorem keeps_markedDocument : Keeps o (fun p => Within o ts p.2) r.markedDocument := by
  refine (keeps_peek h.skipEnds).bind fun t _ => ?_
  refine keeps_ite h.skipEnds ?_
  refine (keeps_begin h.skipEnds).bind fun r hr => ?_
  exact (keeps_markedRoot hr).bind fun p hp => hp

theorem keeps_document : Keeps o (fun p => Within o ts p.2) r.document := by
  refine (keeps_peek h).bind fun t _ => ?_
  split
  any_goals exact keeps_markedDocument h
  exact (keeps_root h).bind fun p hp => hp

theorem keeps_ensureEnd : Keeps o (fun _ => .streamEnd ∈ ts) r.ensureEnd := by
  refine (keeps_peek h).bind fun t ht => ?_
  split
  · next hend => exact beq_iff_eq.mp hend ▸ ht
  · exact (keeps_begin h).bind fun _ _ => keeps_malformed

end

theorem within_ofStream (s : TokenStream) : Within s.fault s.tokens (ofStream s) :=
  ⟨rfl, List.Subset.refl _, nofun, nofun⟩

end NodeReader

namespace Node

variable {s : TokenStream}

/-- Tokens that are no document are malformed, or end in the fault that is met, or the document contains itself. -/
theorem fault_ofTokens {f : Fault} (h : ofTokens s = .error f) :
    f = .malformed ∨ s.fault = some f ∨ f = .recursive ∧ HasAliasedAnchor s.tokens := by
  have hkeeps := NodeReader.keeps_document (NodeReader.within_ofStream s)
  unfold ofTokens at h
  cases hdocument : (NodeReader.ofStream s).document with
  | error g =>
    rw [hdocument] at h hkeeps
    cases h
    exact hkeeps.imp_right .inl
  | ok p =>
    rw [hdocument] at h hkeeps
    obtain ⟨n, r⟩ := p
    have hkeepsEnd := NodeReader.keeps_ensureEnd hkeeps.skipEnds
    cases hend : r.skipEnds.ensureEnd with
    | error g =>
      rw [hend] at hkeepsEnd
      simp only [bind, Except.bind, hend] at h
      cases h
      exact hkeepsEnd.imp_right .inl
    | ok u =>
      simp only [bind, Except.bind, hend] at h
      cases hrecursive : r.recursive with
      | true =>
        rw [hrecursive, if_pos rfl] at h
        cases h
        exact .inr (.inr ⟨rfl, hkeeps.recursive hrecursive⟩)
      | false =>
        rw [hrecursive] at h
        cases h

/-- Tokens without an end are no document. -/
theorem streamEnd_mem_of_ofTokens {n : Option Node} (h : ofTokens s = .ok n) : .streamEnd ∈ s.tokens := by
  have hkeeps := NodeReader.keeps_document (NodeReader.within_ofStream s)
  unfold ofTokens at h
  cases hdocument : (NodeReader.ofStream s).document with
  | error g =>
    rw [hdocument] at h
    cases h
  | ok p =>
    rw [hdocument] at h hkeeps
    obtain ⟨n, r⟩ := p
    have hkeepsEnd := NodeReader.keeps_ensureEnd hkeeps.skipEnds
    cases hend : r.skipEnds.ensureEnd with
    | error g =>
      simp only [bind, Except.bind, hend] at h
      cases h
    | ok u =>
      rw [hend] at hkeepsEnd
      exact hkeepsEnd

end Node

end TopologyConfig.Yaml
