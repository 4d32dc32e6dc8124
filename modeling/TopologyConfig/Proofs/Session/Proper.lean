import TopologyConfig.Proofs.Session.Run
import TopologyConfig.Proofs.Value.InPlace
import TopologyConfig.Proofs.Session.Inside
import Mathlib.Data.List.Forall2

/-!
Sessions that programs reach. What a program hands to a command is proper, and so is everything that the maps hold
after it.
-/
namespace TopologyConfig

open Value ConfigMap Relation

namespace Value

variable {count : Nat} {v w : Value}

theorem isContainer_relabelled (label : Nat) (contents : Value) (h : v.isContainer = true) :
    (relabelled label contents v).isContainer = true := by
  cases v <;> first | exact h | exact absurd h Bool.false_ne_true

theorem isContainer_refreshed (maps : List ConfigMap) (h : v.isContainer = true) :
    (v.refreshed maps).isContainer = true := by
  cases v <;> first | exact h | exact absurd h Bool.false_ne_true

theorem bare_of_isContainer (h : v.isContainer = true) : v.bare = v := by
  cases v <;> first | rfl | exact absurd h Bool.false_ne_true

/-- A list, map or set gets a label of its own. -/
theorem exists_withLabels_of_isContainer (h : v.isContainer = true) (next : Nat) :
    ∃ l x, (v.withLabels next).1 = labelled l x ∧ x.isContainer = true := by
  cases v <;> first | exact ⟨_, _, rfl, rfl⟩ | exact absurd h Bool.false_ne_true

theorem Proper.labels (h : Proper count v) (hw : Labels v w) : Proper count w := by
  have hitems {xs ys : List Value} (ih : ∀ x ∈ xs, ∀ y, Labels x y → Proper count y)
      (hxs : List.Forall₂ Labels xs ys) : ∀ y ∈ ys, Proper count y := by
    intro y hy
    obtain ⟨x, hx, hr⟩ := exists_of_forall₂ hxs hy
    exact ih x hx y hr
  have hentries {es fs : Entries} (hk : ∀ e ∈ es, IsKey e.1) (ih : ∀ e ∈ es, ∀ y, Labels e.2 y → Proper count y)
      (hd : es.Distinct) (hes : es.Pointwise Labels fs) : fs.Holds IsKey (Proper count) := by
    refine ⟨hes.distinct hd, fun f hf => ?_, fun f hf => ?_⟩ <;> obtain ⟨e, he, hkey, hr⟩ := hes.of_mem hf
    · exact hkey ▸ hk e he
    · exact ih e he f.2 hr
  induction h generalizing w with
  | leaf v h =>
    obtain ⟨next, rfl⟩ := hw
    rw [withLabels_of_isLeaf h]
    exact .leaf v h
  | list xs _ ih =>
    obtain ⟨next, rfl⟩ := hw
    exact .labelled _ _ rfl (.list _ (hitems (fun x hx y => ih x hx) (labels_items next xs)))
  | frozenList xs _ ih =>
    obtain ⟨next, rfl⟩ := hw
    exact .frozenList _ (hitems (fun x hx y => ih x hx) (labels_items next xs))
  | tuple xs _ ih =>
    obtain ⟨next, rfl⟩ := hw
    exact .tuple _ (hitems (fun x hx y => ih x hx) (labels_items next xs))
  | set xs h =>
    obtain ⟨next, rfl⟩ := hw
    exact .labelled _ _ rfl (.set xs h)
  | map es hd hk _ ih =>
    obtain ⟨next, rfl⟩ := hw
    have hes := hentries hk (fun e he y => ih e he) hd (labels_entries next es)
    exact .labelled _ _ rfl (.map _ hes.distinct hes.keys hes.values)
  | frozenMap es hd hk _ ih =>
    obtain ⟨next, rfl⟩ := hw
    have hes := hentries hk (fun e he y => ih e he) hd (labels_entries next es)
    exact .frozenMap _ hes.distinct hes.keys hes.values
  | view es hd hk _ ih =>
    obtain ⟨next, rfl⟩ := hw
    have hes := hentries hk (fun e he y => ih e he) hd (labels_entries next es)
    exact .view _ hes.distinct hes.keys hes.values
  | config n b es hn hd hk hv _ =>
    obtain ⟨next, rfl⟩ := hw
    exact .config n b es hn hd hk hv
  | labelled l v hc hv _ =>
    obtain ⟨next, rfl⟩ := hw
    exact .labelled l v hc hv

/-- What stands directly in a value may become another proper value; a list, map or set has to stay one. -/
theorem Proper.mapInside {f : Value → Value} (hc : ∀ x, x.isContainer = true → (f x).isContainer = true)
    (h : Proper count v) (hf : ∀ x ∈ v.inside, Proper count (f x)) : Proper count (Value.mapInside f v) := by
  have hvalues {es : Entries} (hf : ∀ x ∈ es.map (·.2), Proper count (f x)) : ∀ e ∈ mapValues f es, Proper count e.2 :=
    forall_mapValues fun e he => hf e.2 (List.mem_map_of_mem he)
  cases h with
  | leaf v h => cases v <;> exact .leaf _ h
  | list xs _ => exact .list _ (List.forall_mem_map.mpr hf)
  | frozenList xs _ => exact .frozenList _ (List.forall_mem_map.mpr hf)
  | tuple xs _ => exact .tuple _ (List.forall_mem_map.mpr hf)
  | set xs h => exact .set xs h
  | map es hd hk _ => exact .map _ (Entries.distinct_mapValues hd) (isKey_mapValues hk) (hvalues hf)
  | frozenMap es hd hk _ => exact .frozenMap _ (Entries.distinct_mapValues hd) (isKey_mapValues hk) (hvalues hf)
  | view es hd hk _ => exact .view _ (Entries.distinct_mapValues hd) (isKey_mapValues hk) (hvalues hf)
  | config n b es hn hd hk hv => exact .config n b es hn hd hk hv
  | labelled l v hb _ => exact .labelled l _ (hc v hb) (hf v (by simp [inside]))

theorem Proper.inside (h : Proper count v) {x : Value} (hx : x ∈ v.inside) : Proper count x := by
  cases h with
  | leaf v h => cases v <;> first | exact absurd h Bool.false_ne_true | cases hx
  | list xs h | frozenList xs h | tuple xs h => exact h x hx
  | map es _ _ h | frozenMap es _ _ h | view es _ _ h =>
    obtain ⟨e, he, rfl⟩ := List.mem_map.mp hx
    exact h e he
  | labelled l v _ h => exact List.mem_singleton.mp hx ▸ h
  | _ => cases hx

theorem Proper.holdsMap_lt {n : Nat} (hv : Proper count v) (h : HoldsMap n v) : n < count := by
  induction h with
  | itself b es =>
    cases hv with
    | leaf _ h => exact absurd h Bool.false_ne_true
    | config _ _ _ hn => exact hn
  | inside v x hx _ ih => exact ih (hv.inside hx)

theorem Proper.relabelled {label : Nat} {contents : Value} (hc : Proper count (.labelled label contents))
    (h : Proper count v) : Proper count (Value.relabelled label contents v) := by
  induction v using inside_induction with
  | held n b es => exact h
  | other v _ ih =>
    by_cases hl : ∃ x, v = .labelled label x
    · obtain ⟨x, rfl⟩ := hl
      rwa [relabelled_label]
    · rw [relabelled_eq_mapInside fun x hx => hl ⟨x, hx⟩]
      exact h.mapInside (fun x => isContainer_relabelled label contents) fun x hx => ih x hx (h.inside hx)

theorem Proper.refreshed {maps : List ConfigMap} (hm : ∀ c ∈ maps, c.entries.Holds IsKey (Proper count))
    (h : Proper count v) : Proper count (v.refreshed maps) := by
  induction v using inside_induction with
  | held n b es =>
    cases hget : maps[n]? with
    | none => rwa [refreshed_config_of_none hget]
    | some c =>
      rw [refreshed_config_of_some hget]
      have hc := hm c (List.mem_of_getElem? hget)
      exact .config n c.isSealed c.entries (h.holdsMap_lt (.itself b es)) hc.distinct hc.keys hc.values
  | other v hv ih =>
    rw [refreshed_eq_mapInside hv]
    exact h.mapInside (fun x => isContainer_refreshed maps) fun x hx => ih x hx (h.inside hx)

/-- What a method leaves behind under a label gets labels on its new parts and stays proper. -/
theorem Proper.change {l : Nat} {args : List Value} (h : Proper count (.labelled l v))
    (ha : ∀ a ∈ args, Proper count a) (m : Method) (next : Nat) :
    Proper count (.labelled l (((Value.labelled l v).apply m args).after.withLabels next).1.bare) := by
  cases h with
  | leaf _ h => exact absurd h Bool.false_ne_true
  | labelled _ _ hc hv =>
    have happly : (Value.labelled l v).apply m args = v.apply m args := rfl
    obtain ⟨hc, hv⟩ := proper_apply_container hc hv ha m
    obtain ⟨l', x, hx, hxc⟩ := exists_withLabels_of_isContainer hc next
    have hlabelled : Proper count (.labelled l' x) := hx ▸ hv.labels ⟨next, rfl⟩
    rw [happly, hx, Value.bare, bare_of_isContainer hxc]
    cases hlabelled with
    | leaf _ h => exact absurd h Bool.false_ne_true
    | labelled _ _ _ hx => exact .labelled l x hxc hx

theorem hereditary_proper (count : Nat) : SessionHereditary IsKey (Proper count) where
  name _ := .leaf _ rfl
  leaf := .leaf
  list := .list
  tuple := .tuple
  map es hd h :=
    .map es hd (fun e he => (h e he).1.isKey (h e he).2.1) fun e he => (h e he).2.2
  thaw _ := Proper.thaw
  freeze _ := Proper.freeze
  part _ _ h := h.part
  entry _ _ h hes := (h.entries hes).values
  item _ _ _ := proper_getItem
  change _ _ m _ next h ha := h.change ha m next
  labels _ _ := Proper.labels
  relabelled _ _ _ hc h := hc.relabelled h
  refreshed _ _ hm h := h.refreshed hm

end Value

namespace Session

variable {A P : Value → Prop} {s s' : Session} {k : Command}

/-- All values of all maps are proper. -/
abbrev IsProper (s : Session) : Prop := s.Holds IsKey (Proper s.maps.length)

/-- What the command hands over, or brings in from a text or another process, is proper. -/
def Admits (s : Session) (k : Command) : Prop :=
  (∀ v ∈ k.step.values, Proper s.maps.length v) ∧
    (k.step.isForeign = true → ∀ s', s.after k = some s' → s'.IsProper)

/-- The session is reached by commands with proper values. -/
inductive Reached (r : Registry) : Session → Prop where
  | start : Reached r (start r)
  | step (s s' : Session) (k : Command) (hs : Reached r s) (hk : s.Admits k) (h : s.after k = some s') :
      Reached r s'

theorem Move.length_le (h : Move A P s s') : s.maps.length ≤ s'.maps.length := by
  cases h with
  | edit n d h => simp [Session.put]
  | bind name c r hr h => simp [Session.bind]
  | replace l v h => simp [Session.replace]
  | label => exact Nat.le_of_eq (walked_label s).length_eq
  | round => simp [refreshRound]

theorem Moves.length_le (h : Moves A P s s') : s.maps.length ≤ s'.maps.length := by
  induction h with
  | refl => exact Nat.le_refl _
  | tail _ hlast ih => exact Nat.le_trans ih hlast.length_le

/-- What a step appends under is among the values that it hands over. -/
theorem mem_values_of_appendTarget? {step : Step} {n i : Nat} {key : Value}
    (h : s.appendTarget? n step = some (i, key)) : key ∈ step.values := by
  unfold appendTarget? at h
  split at h
  · cases h
    exact List.mem_cons_self
  · split at h
    · cases h
      exact List.mem_cons_self
    · cases h
  · cases h

theorem IsProper.moves (hs : s.IsProper) (h : Moves IsKey (Proper s.maps.length) s s') : s'.IsProper := by
  have hheld := h.holds (hereditary_proper _) hs
  refine ⟨hheld.registry, fun c hc => ?_⟩
  obtain ⟨hd, hkeys, hv⟩ := hheld.entries c hc
  exact ⟨hd, hkeys, fun e he => (hv e he).mono h.length_le⟩

theorem isProper_after (hs : s.IsProper) (hk : s.Admits k) (h : s.after k = some s') : s'.IsProper := by
  cases hf : k.step.isForeign with
  | true => exact hk.2 hf s' h
  | false =>
    refine hs.moves (moves_after (hereditary_proper _) hs hk.1 (by simp [hf]) (fun n key i c _ ht _ _ hh _ => ?_) h)
    exact (hk.1 key (mem_values_of_appendTarget? ht)).isKey hh

theorem Reached.isProper {r : Registry} (h : Reached r s) : s.IsProper := by
  induction h with
  | start => exact holds_start r
  | step s s' k _ hk h ih => exact isProper_after ih hk h

end Session
end TopologyConfig
