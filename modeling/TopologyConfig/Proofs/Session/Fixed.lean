import TopologyConfig.Proofs.Session.Closed
import TopologyConfig.Proofs.Session.Marked

/-!
Values in which nothing that can change shows. A sealed map all of whose values are so stays the same for good:
no later command edits it, and no walk through the session reaches a part of it.
-/
namespace TopologyConfig

open Value ConfigMap Relation

namespace Value

/-- The value can change in place: it is a list, a map or a set that is not frozen, or an open configuration. -/
def isLive : Value → Bool
  | list _ | map _ | set _ | labelled _ _ => true
  | config _ isSealed _ => !isSealed
  | _ => false

/-- The second value stands directly in the first one, which cannot change in place itself. -/
inductive Shows : Value → Value → Prop where
  | frozenList (xs : List Value) (x : Value) (hx : x ∈ xs) : Shows (.frozenList xs) x
  | tuple (xs : List Value) (x : Value) (hx : x ∈ xs) : Shows (.tuple xs) x
  | frozenMap (es : Entries) (e : Value × Value) (he : e ∈ es) : Shows (.frozenMap es) e.2
  | view (es : Entries) (e : Value × Value) (he : e ∈ es) : Shows (.view es) e.2
  | config (n : Nat) (es : Entries) (e : Value × Value) (he : e ∈ es) : Shows (.config (some n) true es) e.2

/-- Nothing that shows in the value, at any depth, can change in place. -/
def Fixed (v : Value) : Prop := ∀ u, ReflTransGen Shows v u → u.isLive = false

variable {v x w : Value}

theorem Fixed.isLive (h : v.Fixed) : v.isLive = false := h v .refl

theorem Fixed.of_shows (h : v.Fixed) (hx : Shows v x) : x.Fixed := fun u hu => h u (.head hx hu)

theorem fixed_of_shows (hl : v.isLive = false) (h : ∀ x, Shows v x → x.Fixed) : v.Fixed := by
  intro u hu
  rcases hu.cases_head with rfl | ⟨x, hx, hu⟩
  · exact hl
  · exact h x hx u hu

/-- The value is built of lists, tuples and maps, down to values without parts. -/
inductive IsData : Value → Prop where
  | leaf (v : Value) (h : v.isLeaf = true) : IsData v
  | list (xs : List Value) (h : ∀ x ∈ xs, IsData x) : IsData (.list xs)
  | frozenList (xs : List Value) (h : ∀ x ∈ xs, IsData x) : IsData (.frozenList xs)
  | tuple (xs : List Value) (h : ∀ x ∈ xs, IsData x) : IsData (.tuple xs)
  | map (es : Entries) (h : ∀ e ∈ es, IsData e.2) : IsData (.map es)
  | frozenMap (es : Entries) (h : ∀ e ∈ es, IsData e.2) : IsData (.frozenMap es)
  | labelled (l : Nat) (v : Value) (h : IsData v) : IsData (.labelled l v)

theorem fixed_of_isLeaf (h : v.isLeaf = true) : v.Fixed := by
  refine fixed_of_shows (by cases v <;> first | rfl | cases h) fun x hx => ?_
  cases hx <;> cases h

/-- Nothing that can change shows in frozen data. -/
theorem IsData.fixed_freeze (h : IsData v) : v.freeze.Fixed := by
  induction h with
  | leaf v h => exact (freeze_of_isLeaf h).symm ▸ fixed_of_isLeaf h
  | list xs _ ih | frozenList xs _ ih | tuple xs _ ih =>
    rw [freeze, freezeItems_eq_map]
    refine fixed_of_shows rfl fun y hy => ?_
    cases hy with
    | frozenList _ _ hy =>
      obtain ⟨x, hx, rfl⟩ := List.mem_map.mp hy
      exact ih x hx
  | map es _ ih | frozenMap es _ ih =>
    rw [freeze, freezeEntries_eq_mapValues]
    refine fixed_of_shows rfl fun y hy => ?_
    cases hy with
    | frozenMap _ d hd =>
      obtain ⟨e, he, rfl⟩ := mem_mapValues.mp hd
      exact ih e he
  | labelled l v h ih =>
    cases h with
    | leaf v h => cases v <;> first | exact ih | cases h
    | _ => exact ih

theorem shows_of_mem_inside (hv : v.isLive = false) (hx : x ∈ v.inside) : Shows v x := by
  cases v with
  | list | map | labelled => cases hv
  | frozenList xs => exact .frozenList xs x hx
  | tuple xs => exact .tuple xs x hx
  | frozenMap es =>
    obtain ⟨e, he, rfl⟩ := List.mem_map.mp hx
    exact .frozenMap es e he
  | view es =>
    obtain ⟨e, he, rfl⟩ := List.mem_map.mp hx
    exact .view es e he
  | _ => cases hx

theorem Fixed.inside (h : v.Fixed) (hx : x ∈ v.inside) : x.Fixed := h.of_shows (shows_of_mem_inside h.isLive hx)

theorem Fixed.marked (h : v.Fixed) : Marked v := by
  induction v using inside_induction with
  | held n b es => exact .inside _ rfl (by simp [Value.inside])
  | other v _ ih =>
    refine .inside v ?_ fun x hx => ih x hx (h.inside hx)
    have hv := h.isLive
    cases v <;> first | rfl | cases hv

theorem Fixed.labels_eq (h : v.Fixed) (hw : Labels v w) : w = v := by
  obtain ⟨next, rfl⟩ := hw
  rw [withLabels_of_marked h.marked]

theorem Fixed.relabelled_eq (h : v.Fixed) (label : Nat) (contents : Value) : relabelled label contents v = v := by
  induction v using inside_induction with
  | held n b es => rfl
  | other v _ ih =>
    have hl : ∀ x, v ≠ labelled label x := fun x hx => by simpa [hx, Value.isLive] using h.isLive
    rw [relabelled_eq_mapInside hl]
    exact mapInside_eq_self fun x hx => ih x hx (h.inside hx)

theorem forall_inside_of_mapInside_eq {f : Value → Value} (h : mapInside f v = v) : ∀ x ∈ v.inside, f x = x := by
  have hmap : v.inside.map f = v.inside.map id := by rw [← inside_mapInside, h, List.map_id]
  exact List.map_inj_left.mp hmap

end Value

namespace Session

variable {A P : Value → Prop} {s s' m m' : Session} {n : Nat} {c : ConfigMap}

/-- The map is sealed, and nothing that can change shows in its values. -/
def Kept (s : Session) (n : Nat) : Prop :=
  ∃ c, s.maps[n]? = some c ∧ c.isSealed = true ∧ ∀ e ∈ c.entries, e.2.Fixed

/-- The maps that the first session is to keep are in the second one as they were. -/
def Keeps (s m : Session) : Prop := ∀ n, s.Kept n → m.maps[n]? = s.maps[n]?

/-- A fixed value that is up to date stays so wherever the maps to be kept are the same. -/
theorem refreshed_of_fixed {v : Value} (hf : v.Fixed) (hs : v.refreshed s.maps = v)
    (hn : ∀ n, HoldsMap n v → n < s.maps.length) (hm : s.Keeps m) : v.refreshed m.maps = v := by
  induction v using inside_induction with
  | held n b es =>
    -- The configuration is sealed and fixed itself, so that its map is one of those to be kept.
    obtain ⟨c, hget⟩ : ∃ c, s.maps[n]? = some c := ⟨_, List.getElem?_eq_getElem (hn n (.itself b es))⟩
    rw [refreshed_config_of_some hget] at hs
    obtain ⟨-, rfl, rfl⟩ := config.inj hs
    have hsealed : c.isSealed = true := by simpa [Value.isLive] using hf.isLive
    have hkept : s.Kept n := ⟨_, hget, hsealed, fun e he => hf.of_shows (hsealed ▸ .config n _ e he)⟩
    exact refreshed_config_of_some ((hm n hkept).trans hget)
  | other v hv ih =>
    rw [refreshed_eq_mapInside hv] at hs ⊢
    have hparts := forall_inside_of_mapInside_eq hs
    exact mapInside_eq_self fun x hx => ih x hx (hf.inside hx) (hparts x hx) fun n h => hn n (.inside v x hx h)

/-- A step changes none of the maps to be kept. -/
theorem Move.keeps (hs : s.Settled) (hp : s.IsProper) (h : Move A P m m') (hm : s.Keeps m) : s.Keeps m' := by
  intro n hkept
  have hsame := hm n hkept
  obtain ⟨c, hc, hsealed, hfixed⟩ := hkept
  obtain ⟨d, hd, hregistry, hseal, hes⟩ := h.walksTo (hsame.trans hc) hsealed
  have hmem : c ∈ s.maps := List.mem_of_getElem? hc
  have hentries : d.entries = c.entries := by
    refine hes.eq_of_forall fun e he w hw => ?_
    cases hw with
    | same => rfl
    | relabelled l x => exact (hfixed e he).relabelled_eq l x
    | labels _ _ h => exact (hfixed e he).labels_eq h
    | refreshed =>
      exact refreshed_of_fixed (hfixed e he) (hs.refreshed_eq hmem he)
        (fun k hk => ((hp.entries c hmem).values e he).holdsMap_lt hk) hm
  have hmap : d = c := by
    cases d
    cases hregistry
    cases hseal
    cases hentries
    rfl
  rw [hd, hmap, hc]

theorem Moves.keeps (hs : s.Settled) (hp : s.IsProper) (h : Moves A P m m') (hm : s.Keeps m) : s.Keeps m' := by
  induction h with
  | refl => exact hm
  | tail _ hlast ih => exact hlast.keeps hs hp ih

end Session
end TopologyConfig
