import TopologyConfig.Proofs.Value.Document
import TopologyConfig.Proofs.Yaml.Written

/-!
Values as YAML gives them back. A text may be read as another one, so two keys may fall together, and a key that is too long
is not read at all. A document is given back as it is exactly if all its texts and keys are kept.
-/
namespace TopologyConfig.Value

open Yaml

/-- As a key the value stands on its line. -/
def isSimpleKey : Value → Bool
  | str s => (Node.scalar .str s).isSimpleKey
  | _ => false

def keyFits : Value → Bool
  | str s => (Node.scalar .str s).keyFits
  | _ => true

mutual

/-- No key in the value is too long. -/
def keysFit : Value → Bool
  | list xs => itemsFit xs
  | map es => entriesFit es
  | _ => true

def itemsFit : List Value → Bool
  | [] => true
  | x :: xs => keysFit x && itemsFit xs

def entriesFit : List (Value × Value) → Bool
  | [] => true
  | (k, v) :: es => keyFits k && keysFit v && entriesFit es

end

/-- The key that is read back from an entry at column `n`. -/
def keyReadBack (n : Nat) : Value → Value
  | str s => str (Node.readText (Node.scalar .str s).isSimpleKey (n + 2) .str s)
  | k => k

mutual

/-- The value that is read back from its text behind an indicator at column `m`, or behind a key on its line there. -/
def readBack (keyed : Bool) (m : Nat) : Value → Value
  | str s => str (Node.readText false (m + 2) .str s)
  | list xs => list (itemsReadBack (if keyed then m else m + 2) xs)
  | map es => map (Entries.ofPairs (entriesReadBack (m + 2) es))
  | v => v

def itemsReadBack (n : Nat) : List Value → List Value
  | [] => []
  | x :: xs => readBack false n x :: itemsReadBack n xs

/-- The entries of a map whose keys stand at column `n`. -/
def entriesReadBack (n : Nat) : List (Value × Value) → List (Value × Value)
  | [] => []
  | (k, v) :: es => (keyReadBack n k, readBack k.isSimpleKey n v) :: entriesReadBack n es

end

/-- A key in an entry at column `n` is given back: on its line if it is not too long, and else if its text is. -/
def keepsKey (n : Nat) : Value → Bool
  | str s => if (Node.scalar .str s).isSimpleKey then decide ((keyChars s).length ≤ 1024) else keepsText (n + 2) s
  | _ => true

mutual

/-- Behind an indicator at column `m`, or behind a key on its line there, all texts and keys of the value are given
back. -/
def keepsTexts (keyed : Bool) (m : Nat) : Value → Bool
  | str s => keepsText (m + 2) s
  | list xs => itemsKeepTexts (if keyed then m else m + 2) xs
  | map es => entriesKeepTexts (m + 2) es
  | _ => true

def itemsKeepTexts (n : Nat) : List Value → Bool
  | [] => true
  | x :: xs => keepsTexts false n x && itemsKeepTexts n xs

/-- The entries of a map whose keys stand at column `n`. -/
def entriesKeepTexts (n : Nat) : List (Value × Value) → Bool
  | [] => true
  | (k, v) :: es => keepsKey n k && keepsTexts k.isSimpleKey n v && entriesKeepTexts n es

end

section

variable {n : Nat} {xs : List Value} {es : Entries}

theorem itemsFit_iff : itemsFit xs = true ↔ ∀ x ∈ xs, x.keysFit = true := by
  induction xs with
  | nil => simp [itemsFit]
  | cons x xs ih => simp [itemsFit, ih]

theorem entriesFit_iff : entriesFit es = true ↔ ∀ e ∈ es, e.1.keyFits = true ∧ e.2.keysFit = true := by
  induction es with
  | nil => simp [entriesFit]
  | cons e es ih => simp [entriesFit, ih]

theorem itemsReadBack_eq_map (n : Nat) (xs : List Value) : itemsReadBack n xs = xs.map (readBack false n) := by
  induction xs with
  | nil => rfl
  | cons x xs ih => rw [itemsReadBack, ih, List.map_cons]

theorem entriesReadBack_eq_map (n : Nat) (es : Entries) :
    entriesReadBack n es = es.map fun e => (e.1.keyReadBack n, e.2.readBack e.1.isSimpleKey n) := by
  induction es with
  | nil => rfl
  | cons e es ih => rw [entriesReadBack, ih, List.map_cons]

theorem itemsKeepTexts_iff : itemsKeepTexts n xs = true ↔ ∀ x ∈ xs, x.keepsTexts false n = true := by
  induction xs with
  | nil => simp [itemsKeepTexts]
  | cons x xs ih => simp [itemsKeepTexts, ih]

theorem entriesKeepTexts_iff :
    entriesKeepTexts n es = true ↔ ∀ e ∈ es, e.1.keepsKey n = true ∧ e.2.keepsTexts e.1.isSimpleKey n = true := by
  induction es with
  | nil => simp [entriesKeepTexts]
  | cons e es ih => simp [entriesKeepTexts, ih]

end

theorem keepsKey_iff {n : Nat} {k : Value} : k.keepsKey n = true ↔ k.keyFits = true ∧ k.keyReadBack n = k := by
  cases k with
  | str s =>
    rw [keepsKey, keyFits, keyReadBack, Node.keyFits, str.injEq]
    cases hsimple : (Node.scalar .str s).isSimpleKey with
    | true => simp [Node.readText_key hsimple]
    | false => simp [Node.readText_eq_iff]
  | _ => exact ⟨fun _ => ⟨rfl, rfl⟩, fun _ => rfl⟩

section

variable {es : Entries} {v : Value}

theorem isDocument_entriesReadBack (hkeys : es.HasTextKeys) (h : ∀ e ∈ es, ∀ keyed m, (e.2.readBack keyed m).IsDocument)
    (n : Nat) : (map (Entries.ofPairs (entriesReadBack n es))).IsDocument := by
  have hentries : (Entries.ofPairs (entriesReadBack n es)).Holds (fun k => k.isString = true) IsDocument := by
    rw [entriesReadBack_eq_map]
    refine Entries.holds_ofPairs (fun p hp => ?_) fun p hp => ?_
    · obtain ⟨e, he, rfl⟩ := List.mem_map.mp hp
      have hkey := hkeys e he
      cases hk : e.1 <;> simp_all [isString, keyReadBack]
    · obtain ⟨e, he, rfl⟩ := List.mem_map.mp hp
      exact h e he _ _
  exact .map _ hentries.keys hentries.distinct hentries.values

/-- What is read back from a document is one. -/
theorem IsDocument.readBack (h : v.IsDocument) : ∀ keyed m, (v.readBack keyed m).IsDocument := by
  induction h with
  | null => exact fun _ _ => .null
  | bool b => exact fun _ _ => .bool b
  | int n hn => exact fun _ _ => .int n hn
  | float x => exact fun _ _ => .float x
  | str s => exact fun _ _ => .str _
  | list xs _ ih =>
    intro keyed m
    rw [Value.readBack, itemsReadBack_eq_map]
    refine .list _ fun y hy => ?_
    obtain ⟨x, hx, rfl⟩ := List.mem_map.mp hy
    exact ih x hx false _
  | map es hkeys _ _ ih => exact fun _ m => isDocument_entriesReadBack hkeys ih (m + 2)

theorem IsDocument.entriesReadBack (h : (Value.map es).IsDocument) (n : Nat) :
    (Value.map (Entries.ofPairs (Value.entriesReadBack n es))).IsDocument := by
  cases h with
  | map _ hkeys _ hdocs => exact isDocument_entriesReadBack hkeys (fun e he => (hdocs e he).readBack) n

/-- The value is read back as it is, and can be read, exactly if its texts and keys are kept. -/
def IsKept (x : Binary64) (v : Value) : Prop :=
  ∀ keyed m, v.keepsTexts keyed m = true ↔ v.keysFit = true ∧ (v.withNaN x).readBack keyed m = v.withNaN x

/-- Keys that fall together leave fewer entries. -/
theorem entriesKeepTexts_iff_readBack {x : Binary64} (hdistinct : es.Distinct) (h : ∀ e ∈ es, IsKept x e.2) (n : Nat) :
    entriesKeepTexts n es = true ↔ entriesFit es = true ∧
      Entries.ofPairs (entriesReadBack n (mapValues (withNaN x) es)) = mapValues (withNaN x) es := by
  rw [entriesKeepTexts_iff, entriesFit_iff, entriesReadBack_eq_map,
    Entries.ofPairs_eq_iff (Entries.distinct_mapValues hdistinct) (List.length_map _), mapValues, List.map_map,
    List.map_inj_left, ← forall₂_and]
  refine forall₂_congr fun e he => ?_
  rw [keepsKey_iff, h e he]
  simp [and_assoc, and_left_comm]

theorem IsDocument.isKept (h : v.IsDocument) (x : Binary64) : IsKept x v := by
  induction h with
  | null => exact fun _ _ => ⟨fun _ => ⟨rfl, rfl⟩, fun _ => rfl⟩
  | bool b => exact fun _ _ => ⟨fun _ => ⟨rfl, rfl⟩, fun _ => rfl⟩
  | int n hn => exact fun _ _ => ⟨fun _ => ⟨rfl, rfl⟩, fun _ => rfl⟩
  | float y =>
    intro _ _
    rw [withNaN]
    split <;> exact ⟨fun _ => ⟨rfl, rfl⟩, fun _ => rfl⟩
  | str s =>
    intro keyed m
    have hfit : (Value.str s).keysFit = true := rfl
    have hwithNaN : (Value.str s).withNaN x = .str s := rfl
    rw [keepsTexts, hfit, hwithNaN, Value.readBack, Value.str.injEq, Node.readText_eq_iff, eq_self, true_and]
  | list xs _ ih =>
    intro keyed m
    rw [keepsTexts, keysFit, itemsKeepTexts_iff, itemsFit_iff, withNaN_list, Value.readBack, itemsReadBack_eq_map, list.injEq,
      List.map_map, List.map_inj_left, ← forall₂_and]
    exact forall₂_congr fun y hy => ih y hy false _
  | map es _ hdistinct _ ih =>
    intro keyed m
    rw [keepsTexts, keysFit, withNaN_map, Value.readBack, map.injEq]
    exact entriesKeepTexts_iff_readBack hdistinct ih (m + 2)

theorem IsDocument.entriesKeepTexts_iff (h : (Value.map es).IsDocument) (x : Binary64) (n : Nat) :
    entriesKeepTexts n es = true ↔ entriesFit es = true ∧
      Entries.ofPairs (Value.entriesReadBack n (mapValues (withNaN x) es)) = mapValues (withNaN x) es := by
  cases h with
  | map _ _ hdistinct hdocs => exact entriesKeepTexts_iff_readBack hdistinct (fun e he => (hdocs e he).isKept x) n

end

end TopologyConfig.Value
