import TopologyConfig.Value.Freeze

/-!
Induction over values, and the laws of thawing and freezing. Both go through the parts of a value one by one
and leave a value without parts alone; doing either twice is doing it once.
-/
namespace TopologyConfig.Value

/-- The value has no parts and bears no label. -/
def isLeaf : Value → Bool
  | list _ | frozenList _ | tuple _ | set _ => false
  | map _ | frozenMap _ | view _ | config _ _ _ => false
  | labelled _ _ => false
  | _ => true

/-- Induction over the parts of a value; the keys of mappings are no parts. -/
@[elab_as_elim]
theorem induction {P : Value → Prop}
    (leaf : ∀ v : Value, v.isLeaf = true → P v)
    (list : ∀ xs, (∀ x ∈ xs, P x) → P (list xs))
    (frozenList : ∀ xs, (∀ x ∈ xs, P x) → P (frozenList xs))
    (tuple : ∀ xs, (∀ x ∈ xs, P x) → P (tuple xs))
    (set : ∀ xs, (∀ x ∈ xs, P x) → P (set xs))
    (map : ∀ es : Entries, (∀ e ∈ es, P e.2) → P (map es))
    (frozenMap : ∀ es : Entries, (∀ e ∈ es, P e.2) → P (frozenMap es))
    (view : ∀ es : Entries, (∀ e ∈ es, P e.2) → P (view es))
    (config : ∀ n b (es : Entries), (∀ e ∈ es, P e.2) → P (config n b es))
    (labelled : ∀ l v, P v → P (labelled l v)) (v : Value) : P v :=
  @Value.rec P (fun xs => ∀ x ∈ xs, P x) (fun es => ∀ e ∈ es, P e.2) (fun e => P e.2)
    (leaf _ rfl) (fun _ => leaf _ rfl) (fun _ => leaf _ rfl) (fun _ => leaf _ rfl) (fun _ => leaf _ rfl)
    (fun _ => leaf _ rfl) (fun _ => leaf _ rfl) (fun _ => leaf _ rfl) (fun _ _ => leaf _ rfl)
    (fun _ => leaf _ rfl) list frozenList tuple set map frozenMap view config labelled
    (fun _ h => absurd h List.not_mem_nil) (fun _ _ hx hs => List.forall_mem_cons.mpr ⟨hx, hs⟩)
    (fun _ h => absurd h List.not_mem_nil) (fun _ _ he hs => List.forall_mem_cons.mpr ⟨he, hs⟩)
    (fun _ _ _ h => h) v

/-- The entries with their values changed. -/
def mapValues (f : Value → Value) (es : Entries) : Entries := es.map (fun e => (e.1, f e.2))

theorem mapValues_congr {f g : Value → Value} {es : Entries} (h : ∀ e ∈ es, f e.2 = g e.2) :
    mapValues f es = mapValues g es := by
  apply List.map_congr_left
  intro e he
  rw [h e he]

theorem mapValues_mapValues (f g : Value → Value) (es : Entries) :
    mapValues f (mapValues g es) = mapValues (fun v => f (g v)) es := by
  simp [mapValues]

theorem mem_mapValues {f : Value → Value} {es : Entries} {e : Value × Value} :
    e ∈ mapValues f es ↔ ∃ d ∈ es, (d.1, f d.2) = e := List.mem_map

section equations

attribute [local simp] thaw thawItems thawEntries freeze freezeItems freezeEntries

theorem thawItems_eq_map (xs : List Value) : thawItems xs = xs.map thaw := by
  induction xs with
  | nil => rfl
  | cons x xs ih => simp [ih]

theorem thawEntries_eq_mapValues (es : Entries) : thawEntries es = mapValues thaw es := by
  induction es with
  | nil => rfl
  | cons e es ih => simp [mapValues, ih]

theorem freezeItems_eq_map (xs : List Value) : freezeItems xs = xs.map freeze := by
  induction xs with
  | nil => rfl
  | cons x xs ih => simp [ih]

theorem freezeEntries_eq_mapValues (es : Entries) : freezeEntries es = mapValues freeze es := by
  induction es with
  | nil => rfl
  | cons e es ih => simp [mapValues, ih]

end equations

theorem thaw_of_isLeaf {v : Value} (h : v.isLeaf = true) : v.thaw = v := by
  cases v <;> first | rfl | simp [isLeaf] at h

theorem freeze_of_isLeaf {v : Value} (h : v.isLeaf = true) : v.freeze = v := by
  cases v <;> first | rfl | simp [isLeaf] at h

@[simp] theorem thaw_list (xs : List Value) : (list xs).thaw = list (xs.map thaw) := by
  rw [thaw, thawItems_eq_map]
@[simp] theorem thaw_frozenList (xs : List Value) : (frozenList xs).thaw = list (xs.map thaw) := by
  rw [thaw, thawItems_eq_map]
@[simp] theorem thaw_tuple (xs : List Value) : (tuple xs).thaw = list (xs.map thaw) := by
  rw [thaw, thawItems_eq_map]
@[simp] theorem thaw_set (xs : List Value) : (set xs).thaw = set xs := rfl
@[simp] theorem thaw_map (es : Entries) : (map es).thaw = map (mapValues thaw es) := by
  rw [thaw, thawEntries_eq_mapValues]
@[simp] theorem thaw_frozenMap (es : Entries) : (frozenMap es).thaw = map (mapValues thaw es) := by
  rw [thaw, thawEntries_eq_mapValues]
@[simp] theorem thaw_view (es : Entries) : (view es).thaw = map (mapValues thaw es) := by
  rw [thaw, thawEntries_eq_mapValues]
@[simp] theorem thaw_config (n : Option Nat) (b : Bool) (es : Entries) :
    (config n b es).thaw = map (mapValues thaw es) := by
  rw [thaw, thawEntries_eq_mapValues]
@[simp] theorem thaw_labelled (l : Nat) (v : Value) : (labelled l v).thaw = v.thaw := by rw [thaw]
@[simp] theorem thaw_null : Value.null.thaw = null := rfl
@[simp] theorem thaw_str (s : String) : (str s).thaw = str s := rfl

theorem thaw_thaw (v : Value) : v.thaw.thaw = v.thaw := by
  induction v using induction with
  | leaf v h => rw [thaw_of_isLeaf h, thaw_of_isLeaf h]
  | list xs ih => simpa using ih
  | frozenList xs ih => simpa using ih
  | tuple xs ih => simpa using ih
  | set xs ih => simp
  | map es ih => simpa [mapValues_mapValues] using mapValues_congr ih
  | frozenMap es ih => simpa [mapValues_mapValues] using mapValues_congr ih
  | view es ih => simpa [mapValues_mapValues] using mapValues_congr ih
  | config n b es ih => simpa [mapValues_mapValues] using mapValues_congr ih
  | labelled l v ih => simpa using ih

def isTuple : Value → Bool
  | tuple _ => true
  | _ => false

theorem isTuple_thaw (v : Value) : v.thaw.isTuple = false := by
  induction v using induction with
  | leaf v h =>
    rw [thaw_of_isLeaf h]
    cases v <;> first | rfl | simp [isLeaf] at h
  | labelled l v ih => rwa [thaw_labelled]
  | _ => simp [isTuple]

theorem freeze_list (xs : List Value) : (list xs).freeze = frozenList (xs.map freeze) := by
  rw [freeze, freezeItems_eq_map]

theorem freeze_frozenList (xs : List Value) : (frozenList xs).freeze = frozenList (xs.map freeze) := by
  rw [freeze, freezeItems_eq_map]

theorem freeze_tuple (xs : List Value) : (tuple xs).freeze = frozenList (xs.map freeze) := by
  rw [freeze, freezeItems_eq_map]

theorem freeze_map (es : Entries) : (map es).freeze = frozenMap (mapValues freeze es) := by
  rw [freeze, freezeEntries_eq_mapValues]

theorem freeze_frozenMap (es : Entries) : (frozenMap es).freeze = frozenMap (mapValues freeze es) := by
  rw [freeze, freezeEntries_eq_mapValues]

/-- Only a set keeps its label. -/
theorem freeze_labelled_cases (l : Nat) (v : Value) : (∃ xs, v = set xs) ∨ (labelled l v).freeze = v.freeze := by
  by_cases hset : ∃ xs, v = set xs
  · exact .inl hset
  · exact .inr (freeze.eq_7 _ _ fun xs he => hset ⟨xs, he⟩)

theorem isTuple_freeze (v : Value) : v.freeze.isTuple = false := by
  induction v using induction with
  | leaf v h =>
    rw [freeze_of_isLeaf h]
    cases v <;> first | rfl | simp [isLeaf] at h
  | labelled l v ih =>
    rcases freeze_labelled_cases l v with ⟨xs, rfl⟩ | h
    · rfl
    · rwa [h]
  | _ => simp [isTuple, freeze]

/-- Freezing keeps the plain form. -/
theorem thaw_freeze (v : Value) : v.freeze.thaw = v.thaw := by
  induction v using induction with
  | leaf v h => rw [freeze_of_isLeaf h]
  | list xs ih => simpa [freeze_list] using ih
  | frozenList xs ih => simpa [freeze_frozenList] using ih
  | tuple xs ih => simpa [freeze_tuple] using ih
  | set xs ih => rfl
  | map es ih => simpa [freeze_map, mapValues_mapValues] using mapValues_congr ih
  | frozenMap es ih => simpa [freeze_frozenMap, mapValues_mapValues] using mapValues_congr ih
  | view es ih => rfl
  | config n b es ih => rfl
  | labelled l v ih =>
    rcases freeze_labelled_cases l v with ⟨xs, rfl⟩ | h
    · rfl
    · rw [h, ih, thaw_labelled]

theorem freeze_freeze (v : Value) : v.freeze.freeze = v.freeze := by
  induction v using induction with
  | leaf v h => rw [freeze_of_isLeaf h, freeze_of_isLeaf h]
  | list xs ih => simpa [freeze_list, freeze_frozenList] using ih
  | frozenList xs ih => simpa [freeze_frozenList] using ih
  | tuple xs ih => simpa [freeze_tuple, freeze_frozenList] using ih
  | set xs ih => rfl
  | map es ih => simpa [freeze_map, freeze_frozenMap, mapValues_mapValues] using mapValues_congr ih
  | frozenMap es ih => simpa [freeze_frozenMap, mapValues_mapValues] using mapValues_congr ih
  | view es ih => rfl
  | config n b es ih => rfl
  | labelled l v ih =>
    rcases freeze_labelled_cases l v with ⟨xs, rfl⟩ | h
    · rfl
    · rw [h, ih]

theorem map_thaw_map_thaw (xs : List Value) : (xs.map thaw).map thaw = xs.map thaw := by
  simp [thaw_thaw]

end TopologyConfig.Value
