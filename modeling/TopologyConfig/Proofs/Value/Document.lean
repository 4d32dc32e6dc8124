import TopologyConfig.Number.Numeral
import TopologyConfig.Proofs.ConfigMap.Copying

/-!
The plain values of documents: scalars, lists, and maps under texts. A value that is no number is not the same as
another one, so what is read back has the values of the reader in the places of those that were written.
-/
namespace TopologyConfig.Value

/-- A plain value that a document can hold. -/
inductive IsDocument : Value → Prop where
  | null : IsDocument .null
  | bool (b : Bool) : IsDocument (.bool b)
  | int (n : Int) (h : Numeral.isWritable n = true) : IsDocument (.int n)
  | float (x : Binary64) : IsDocument (.float x)
  | str (s : String) : IsDocument (.str s)
  | list (xs : List Value) (h : ∀ x ∈ xs, IsDocument x) : IsDocument (.list xs)
  | map (es : Entries) (hkeys : es.HasTextKeys) (hdistinct : es.Distinct) (h : ∀ e ∈ es, IsDocument e.2) :
    IsDocument (.map es)

mutual

/-- The plain value with `x` in the place of every float that is no number. -/
def withNaN (x : Binary64) : Value → Value
  | float y => if y.isNaN then float x else float y
  | list xs => list (withNaNItems x xs)
  | map es => map (withNaNEntries x es)
  | v => v

def withNaNItems (x : Binary64) : List Value → List Value
  | [] => []
  | v :: vs => withNaN x v :: withNaNItems x vs

def withNaNEntries (x : Binary64) : List (Value × Value) → List (Value × Value)
  | [] => []
  | (k, v) :: es => (k, withNaN x v) :: withNaNEntries x es

end

variable (x : Binary64)

@[simp] theorem withNaN_list (vs : List Value) : (list vs).withNaN x = list (vs.map (withNaN x)) := by
  have hitems : withNaNItems x vs = vs.map (withNaN x) := by
    induction vs with
    | nil => rfl
    | cons v vs ih => simp [withNaNItems, ih]
  rw [withNaN, hitems]

@[simp] theorem withNaN_map (es : Entries) : (map es).withNaN x = map (mapValues (withNaN x) es) := by
  have hentries : withNaNEntries x es = mapValues (withNaN x) es := by
    induction es with
    | nil => rfl
    | cons e es ih => simp [withNaNEntries, mapValues, ih]
  rw [withNaN, hentries]

theorem isDocument_withNaN {v : Value} (h : v.IsDocument) : (v.withNaN x).IsDocument := by
  induction h with
  | float y =>
    rw [withNaN]
    split <;> exact .float _
  | list vs h ih => simpa using .list _ (by simpa using ih)
  | map es hkeys hdistinct h ih =>
    rw [withNaN_map]
    refine .map _ (Entries.hasTextKeys_mapValues_iff.mpr hkeys) (Entries.distinct_mapValues hdistinct) fun e he => ?_
    obtain ⟨d, hd, rfl⟩ := mem_mapValues.mp he
    exact ih d hd
  | null => exact .null
  | bool b => exact .bool b
  | int n h => exact .int n h
  | str s => exact .str s

/-- Documents are plain. -/
theorem IsDocument.thaw_eq {v : Value} (h : v.IsDocument) : v.thaw = v := by
  induction h with
  | list vs h ih => simpa using List.map_congr_left ih
  | map es hkeys hdistinct h ih => simpa [mapValues] using mapValues_congr (g := id) ih
  | _ => rfl

mutual

/-- The floats of a plain value, in lists and under the keys of maps. -/
def floats : Value → List Binary64
  | float x => [x]
  | list xs => itemFloats xs
  | map es => entryFloats es
  | _ => []

def itemFloats : List Value → List Binary64
  | [] => []
  | v :: vs => floats v ++ itemFloats vs

def entryFloats : List (Value × Value) → List Binary64
  | [] => []
  | (_, v) :: es => floats v ++ entryFloats es

end

@[simp] theorem floats_list (xs : List Value) : (list xs).floats = xs.flatMap floats := by
  have hitems : itemFloats xs = xs.flatMap floats := by
    induction xs with
    | nil => rfl
    | cons x xs ih => rw [itemFloats, ih, List.flatMap_cons]
  rw [floats, hitems]

@[simp] theorem floats_map (es : Entries) : (map es).floats = es.flatMap (fun e => e.2.floats) := by
  have hentries : entryFloats es = es.flatMap (fun e => e.2.floats) := by
    induction es with
    | nil => rfl
    | cons e es ih => rw [entryFloats, ih, List.flatMap_cons]
  rw [floats, hentries]

/-- A value has `x` already in the place of every float that is no number, if it has no other one. -/
theorem withNaN_eq_self_iff (x : Binary64) (v : Value) : v.withNaN x = v ↔ ∀ y ∈ v.floats, y.isNaN = true → y = x := by
  induction v using induction with
  | leaf v h =>
    cases v with
    | float y =>
      rw [withNaN]
      split
      · next hnan =>
        simp only [floats, List.mem_singleton, forall_eq, hnan, forall_const, float.injEq]
        exact eq_comm
      · next hnan => simp [floats, hnan]
    | list | frozenList | tuple | set | map | frozenMap | view | config | labelled => cases h
    | _ => simp [withNaN, floats]
  | list xs ih =>
    have hitems : xs.map (withNaN x) = xs ↔ ∀ v ∈ xs, v.withNaN x = v := by
      simpa using List.map_inj_left (f := withNaN x) (g := id)
    simp only [withNaN_list, floats_list, list.injEq, hitems, List.mem_flatMap]
    constructor
    · intro h y hy
      obtain ⟨v, hv, hy⟩ := hy
      exact (ih v hv).mp (h v hv) y hy
    · intro h v hv
      exact (ih v hv).mpr fun y hy => h y ⟨v, hv, hy⟩
  | map es ih =>
    have hentries : mapValues (withNaN x) es = es ↔ ∀ e ∈ es, e.2.withNaN x = e.2 := by
      have := List.map_inj_left (l := es) (f := fun e => (e.1, e.2.withNaN x)) (g := id)
      simpa [mapValues, Prod.ext_iff] using this
    simp only [withNaN_map, floats_map, map.injEq, hentries, List.mem_flatMap]
    constructor
    · intro h y hy
      obtain ⟨e, he, hy⟩ := hy
      exact (ih e he).mp (h e he) y hy
    · intro h e he
      exact (ih e he).mpr fun y hy => h y ⟨e, he, hy⟩
  | _ => simp [withNaN, floats]

end TopologyConfig.Value
