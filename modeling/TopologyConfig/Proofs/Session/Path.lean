import TopologyConfig.Proofs.Session.Fixed
import TopologyConfig.Proofs.Value.Subscript

/-!
What shows in a value of a session can be reached by subscripts: a path of keys and indexes leads to it, through
frozen lists and maps, tuples, views and sealed configurations.
-/
namespace TopologyConfig

open Value ConfigMap Relation

/-- The frozen lists and tuples that show in the value are no longer than an index can name. -/
def Value.HasShortLists (v : Value) : Prop :=
  ∀ u xs, ReflTransGen Shows v u → u = .frozenList xs ∨ u = .tuple xs → IsShort xs

theorem Value.HasShortLists.of_shows {v x : Value} (h : v.HasShortLists) (hx : Shows v x) : x.HasShortLists :=
  fun u xs hu => h u xs (.head hx hu)

theorem Value.hasShortLists_of_shows {v : Value} (h : ∀ xs, v = .frozenList xs ∨ v = .tuple xs → IsShort xs)
    (hx : ∀ x, Shows v x → x.HasShortLists) : v.HasShortLists := by
  intro u xs hu
  rcases hu.cases_head with rfl | ⟨x, hshows, hu⟩
  · exact h xs
  · exact hx x hshows u xs hu

namespace Session

variable {s : Session} {v x u : Value} {n : Nat} {c : ConfigMap} {e : Value × Value}

/-- The session is one that a command leaves behind. -/
structure Orderly (s : Session) : Prop where
  proper : s.IsProper
  marked : s.IsMarked
  settled : s.Settled

/-- The value is as the values of the session are. -/
structure Stores (s : Session) (v : Value) : Prop where
  proper : Proper s.maps.length v
  marked : Marked v
  settled : v.refreshed s.maps = v

theorem Reached.orderly {r : Registry} (h : Reached r s) (ha : s.Acyclic) : s.Orderly :=
  ⟨h.isProper, h.isMarked, h.settled ha⟩

theorem Orderly.stores (hs : s.Orderly) (hc : c ∈ s.maps) (he : e ∈ c.entries) : s.Stores e.2 :=
  ⟨(hs.proper.entries c hc).values e he, hs.marked c hc e he, hs.settled.refreshed_eq hc he⟩

/-- A configuration that the session stores shows one of its maps. -/
theorem Stores.mapAt {b : Bool} {es : Entries} (hv : s.Stores (.config (some n) b es)) :
    n < s.maps.length ∧ (s.mapAt n).isSealed = b ∧ (s.mapAt n).entries = es := by
  have hn : n < s.maps.length := hv.proper.holdsMap_lt (.itself b es)
  have hsettled := hv.settled
  rw [refreshed_config_of_some (List.getElem?_eq_getElem hn)] at hsettled
  obtain ⟨-, hsealed, hentries⟩ := config.inj hsettled
  rw [mapAt_of_lt hn]
  exact ⟨hn, hsealed, hentries⟩

theorem Stores.not_isContainer (hv : s.Stores v) : v.isContainer = false := by
  cases hv.marked with
  | label l w => rfl
  | inside _ hc _ => exact hc

theorem Stores.inside (hv : s.Stores v) (hl : v.isLive = false) (hh : ¬ v.IsHeld) (hx : x ∈ v.inside) :
    s.Stores x := by
  have hsettled := hv.settled
  rw [refreshed_eq_mapInside hh] at hsettled
  refine ⟨hv.proper.inside hx, ?_, forall_inside_of_mapInside_eq hsettled x hx⟩
  cases hv.marked with
  | label l w => cases hl
  | inside _ _ h => exact h x hx

/-- What shows in a value that the session stores is stored by it, too. -/
theorem Stores.of_shows (hs : s.Orderly) (hv : s.Stores v) (hx : Shows v x) : s.Stores x := by
  cases hx with
  | frozenList xs x hx => exact hv.inside rfl (by simp [IsHeld]) hx
  | tuple xs x hx => exact hv.inside rfl (by simp [IsHeld]) hx
  | frozenMap es e he => exact hv.inside rfl (by simp [IsHeld]) (List.mem_map_of_mem he)
  | view es e he => exact hv.inside rfl (by simp [IsHeld]) (List.mem_map_of_mem he)
  | config n es e he =>
    obtain ⟨hn, -, hentries⟩ := hv.mapAt
    exact hs.stores (mapAt_mem hn) (hentries ▸ he)

theorem Stores.of_reflTransGen (hs : s.Orderly) (hv : s.Stores v) (h : ReflTransGen Shows v u) : s.Stores u := by
  induction h with
  | refl => exact hv
  | tail _ hx ih => exact ih.of_shows hs hx

theorem follow_cons_of_getItem {key : Value} (h : (v.apply .getItem [key]).result = .ok x) (path : List Value) :
    s.follow (key :: path) (.part v) = s.follow path (Target.of x) := by
  rw [follow, h]

theorem follow_cons_of_mem (hs : s.IsProper) (he : e ∈ (s.mapAt n).entries) (path : List Value) :
    s.follow (e.1 :: path) (.map n) = s.follow path (Target.of e.2) := by
  rw [follow, get_of_mem (hs.mapAt n) he]
  rfl

/-- One subscript leads from a value to what shows directly in it. -/
theorem exists_key_of_shows (hs : s.Orderly) (hv : s.Stores v) (hshort : v.HasShortLists) (hx : Shows v x) :
    ∃ key, ∀ path, s.follow (key :: path) (Target.of v) = s.follow path (Target.of x) := by
  cases hx with
  | frozenList xs x hx =>
    obtain ⟨key, hkey⟩ := exists_getItem_frozenList (hshort _ xs .refl (.inl rfl)) hx
    exact ⟨key, follow_cons_of_getItem hkey⟩
  | tuple xs x hx =>
    obtain ⟨key, hkey⟩ := exists_getItem_tuple (hshort _ xs .refl (.inr rfl)) hx
    exact ⟨key, follow_cons_of_getItem hkey⟩
  | frozenMap es e he => exact ⟨e.1, follow_cons_of_getItem (getItem_frozenMap (hv.proper.entries rfl) he)⟩
  | view es e he => exact ⟨e.1, follow_cons_of_getItem (getItem_view (hv.proper.entries rfl) he)⟩
  | config n es e he =>
    obtain ⟨-, -, hentries⟩ := hv.mapAt
    exact ⟨e.1, follow_cons_of_mem hs.proper (hentries ▸ he)⟩

/-- A path leads from a value to everything that shows in it. -/
theorem exists_path (hs : s.Orderly) (hv : s.Stores v) (hshort : v.HasShortLists) (h : ReflTransGen Shows v u) :
    ∃ path, s.follow path (Target.of v) = .ok (Target.of u) := by
  -- From the value downwards: its own subscript comes first in the path.
  induction h using ReflTransGen.head_induction_on with
  | refl => exact ⟨[], rfl⟩
  | head hx _ ih =>
    obtain ⟨key, hkey⟩ := exists_key_of_shows hs hv hshort hx
    obtain ⟨path, hpath⟩ := ih (hv.of_shows hs hx) (hshort.of_shows hx)
    exact ⟨key :: path, (hkey path).trans hpath⟩

end Session
end TopologyConfig
