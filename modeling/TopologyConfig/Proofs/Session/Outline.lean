import TopologyConfig.Proofs.Session.Refresh
import TopologyConfig.Proofs.Value.Proper

/-!
What a value shows beside its labels. The walks that follow every step of a session, for labels and for the contents
of configurations inside, leave the outlines of all values alone.
-/
namespace TopologyConfig

open Value ConfigMap

namespace Value

mutual

/-- The value without labels, in which a configuration of the session stands for itself. -/
def outline : Value → Value
  | list xs => list (outlineItems xs)
  | frozenList xs => frozenList (outlineItems xs)
  | tuple xs => tuple (outlineItems xs)
  | map es => map (outlineEntries es)
  | frozenMap es => frozenMap (outlineEntries es)
  | view es => view (outlineEntries es)
  | config (some n) _ _ => config (some n) false []
  | labelled _ v => outline v
  | v => v

def outlineItems : List Value → List Value
  | [] => []
  | x :: xs => outline x :: outlineItems xs

def outlineEntries : List (Value × Value) → List (Value × Value)
  | [] => []
  | (k, v) :: es => (k, outline v) :: outlineEntries es

end

variable {v w : Value} {f : Value → Value}

theorem outlineItems_eq_map (xs : List Value) : outlineItems xs = xs.map outline := by
  induction xs with
  | nil => rfl
  | cons x xs ih => simp [outlineItems, ih]

theorem outlineEntries_eq_mapValues (es : Entries) : outlineEntries es = mapValues outline es := by
  induction es with
  | nil => rfl
  | cons e es ih => simp [outlineEntries, mapValues, ih]

theorem outline_of_isLeaf (h : v.isLeaf = true) : v.outline = v := by
  cases v <;> first | rfl | exact absurd h Bool.false_ne_true

/-- What stands directly in a value may become another value with the same outline. -/
theorem outline_mapInside (h : ∀ x ∈ v.inside, (f x).outline = x.outline) : (mapInside f v).outline = v.outline := by
  have hitems {xs : List Value} (h : ∀ x ∈ xs, (f x).outline = x.outline) :
      outlineItems (xs.map f) = outlineItems xs := by
    simpa [outlineItems_eq_map] using h
  have hentries {es : Entries} (h : ∀ x ∈ es.map (·.2), (f x).outline = x.outline) :
      outlineEntries (mapValues f es) = outlineEntries es := by
    rw [outlineEntries_eq_mapValues, outlineEntries_eq_mapValues, mapValues_mapValues]
    exact mapValues_congr fun e he => h e.2 (List.mem_map_of_mem he)
  cases v with
  | list xs => exact congrArg list (hitems h)
  | frozenList xs => exact congrArg frozenList (hitems h)
  | tuple xs => exact congrArg tuple (hitems h)
  | map es => exact congrArg map (hentries h)
  | frozenMap es => exact congrArg frozenMap (hentries h)
  | view es => exact congrArg view (hentries h)
  | labelled l v => exact h v List.mem_cons_self
  | _ => rfl

theorem outline_refreshed (maps : List ConfigMap) (v : Value) : (v.refreshed maps).outline = v.outline := by
  induction v using inside_induction with
  | held n b es =>
    obtain ⟨b', es', h⟩ := exists_refreshed_config maps n b es
    rw [h]
    rfl
  | other v hv ih =>
    rw [refreshed_eq_mapInside hv]
    exact outline_mapInside ih

theorem outline_of_labels (h : Labels v w) : w.outline = v.outline := by
  obtain ⟨next, rfl⟩ := h
  have hitems {xs : List Value} (ih : ∀ x ∈ xs, ∀ next, (x.withLabels next).1.outline = x.outline) (next : Nat) :
      outlineItems (itemsWithLabels next xs).1 = outlineItems xs := by
    induction xs generalizing next with
    | nil => rfl
    | cons x xs ihxs =>
      obtain ⟨hfirst, hrest⟩ := List.forall_mem_cons.mp ih
      simp [itemsWithLabels, outlineItems, hfirst, ihxs hrest]
  have hentries {es : Entries} (ih : ∀ e ∈ es, ∀ next, (e.2.withLabels next).1.outline = e.2.outline) (next : Nat) :
      outlineEntries (entriesWithLabels next es).1 = outlineEntries es := by
    induction es generalizing next with
    | nil => rfl
    | cons e es ihes =>
      obtain ⟨hfirst, hrest⟩ := List.forall_mem_cons.mp ih
      simp [entriesWithLabels, outlineEntries, hfirst, ihes hrest]
  induction v using induction generalizing next with
  | leaf v h => rw [withLabels_of_isLeaf h]
  | list xs ih => exact congrArg list (hitems ih next)
  | frozenList xs ih => exact congrArg frozenList (hitems ih next)
  | tuple xs ih => exact congrArg tuple (hitems ih next)
  | map es ih => exact congrArg map (hentries ih next)
  | frozenMap es ih => exact congrArg frozenMap (hentries ih next)
  | view es ih => exact congrArg view (hentries ih next)
  | _ => rfl

/-- A plain value bears no labels and holds no configurations. -/
theorem outline_thaw (v : Value) : v.thaw.outline = v.thaw := by
  have hitems {xs : List Value} (ih : ∀ x ∈ xs, x.thaw.outline = x.thaw) :
      (list (xs.map thaw)).outline = list (xs.map thaw) := by
    simpa [outline, outlineItems_eq_map] using ih
  have hentries {es : Entries} (ih : ∀ e ∈ es, e.2.thaw.outline = e.2.thaw) :
      (map (mapValues thaw es)).outline = map (mapValues thaw es) := by
    rw [outline, outlineEntries_eq_mapValues, mapValues_mapValues, mapValues_congr ih]
  induction v using induction with
  | leaf v h => rw [thaw_of_isLeaf h, outline_of_isLeaf h]
  | list xs ih => simpa using hitems ih
  | frozenList xs ih => simpa using hitems ih
  | tuple xs ih => simpa using hitems ih
  | set xs => rfl
  | map es ih => simpa using hentries ih
  | frozenMap es ih => simpa using hentries ih
  | view es ih => simpa using hentries ih
  | config n b es ih => simpa using hentries ih
  | labelled l v ih => simpa using ih

theorem IsKey.outline_eq {k : Value} (h : IsKey k) : k.outline = k := by
  induction h with
  | leaf v h => exact outline_of_isLeaf h
  | tuple xs _ ih =>
    have hitems : xs.map outline = xs.map id := List.map_congr_left ih
    rw [outline, outlineItems_eq_map, hitems, List.map_id]

end Value

/-- The entries with the outlines of their values. -/
abbrev Entries.outlined (es : Entries) : Entries := mapValues outline es

theorem Entries.Pointwise.outlined_eq {es fs : Entries} (h : es.Pointwise Labels fs) : fs.outlined = es.outlined := by
  induction h with
  | nil => rfl
  | cons hef _ ih => exact congrArg₂ List.cons (Prod.ext hef.1.symm (outline_of_labels hef.2)) ih

namespace Session

variable {s : Session} {n : Nat}

theorem outlined_label (h : n < s.maps.length) :
    (s.label.mapAt n).isSealed = (s.mapAt n).isSealed ∧
      (s.label.mapAt n).entries.outlined = (s.mapAt n).entries.outlined := by
  obtain ⟨d, hd, -, hsealed, hes⟩ := (walked_label s).getElem?_eq_some (List.getElem?_eq_getElem h)
  rw [mapAt_of_getElem? hd, mapAt_of_lt h]
  exact ⟨hsealed, hes.outlined_eq⟩

theorem outlined_refresh (h : n < s.maps.length) :
    (s.refresh.mapAt n).isSealed = (s.mapAt n).isSealed ∧
      (s.refresh.mapAt n).entries.outlined = (s.mapAt n).entries.outlined := by
  obtain ⟨maps, hmaps⟩ := s.exists_refresh_maps
  rw [mapAt_of_maps_eq_map hmaps h]
  refine ⟨rfl, ?_⟩
  rw [ConfigMap.refreshed, refreshedEntries_eq_mapValues, Entries.outlined, mapValues_mapValues]
  exact mapValues_congr fun e _ => outline_refreshed maps e.2

end Session
end TopologyConfig
