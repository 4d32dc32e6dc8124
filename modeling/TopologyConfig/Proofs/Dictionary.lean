import TopologyConfig.Proofs.Session.Outline
import TopologyConfig.Proofs.Value.Subscript

/-!
Dictionaries, and what one call does to an open map. A dictionary keeps its keys in the order in which they were
inserted, and stores the plain form of what it is given.
-/
namespace TopologyConfig

open Value ConfigMap

/-- Keys in the order of their insertion, with their values. -/
abbrev Dictionary := List (Value × Value)

namespace Dictionary

/-- The key is the text. -/
def isName (name : String) : Value → Bool
  | .str s => s == name
  | _ => false

def find? (d : Dictionary) (name : String) : Option Value := (List.find? (fun e => isName name e.1) d).map (·.2)

/-- A key that is there keeps its place; another one comes last. -/
def insert (d : Dictionary) (name : String) (v : Value) : Dictionary :=
  if (d.find? name).isSome then d.map (fun e => if isName name e.1 then (e.1, v) else e) else d ++ [(.str name, v)]

def erase (d : Dictionary) (name : String) : Dictionary := d.filter (fun e => !isName name e.1)

/-- What a dictionary can be asked for, with texts for keys. -/
inductive Call where
  | set (name : String) (v : Value)
  | assign (name : String) (v : Value)
  | find (name : String)
  | remove (name : String)
  | contains (name : String)
  | count
  | get (name : String) (default : Value)
  | keys
  | items
  | pop (name : String) (default? : Option Value)
  | popFirst
  | setDefault (name : String) (default : Value)
  | update (pairs : List (String × Value))
  | clear

/-- The dictionary after a call. Each assignment stores the plain form of its value. -/
def after (d : Dictionary) : Call → Dictionary
  | .set name v | .assign name v => d.insert name v.thaw
  | .remove name | .pop name _ => d.erase name
  | .popFirst => d.tail
  | .setDefault name v => if (d.find? name).isSome then d else d.insert name v.thaw
  | .update pairs => pairs.foldl (fun d p => d.insert p.1 p.2.thaw) d
  | .clear => []
  | _ => d

/-- The value of a key, or the error that it is missing. -/
def valueOf (d : Dictionary) (name : String) : Except ConfigError Value :=
  match d.find? name with
  | some v => .ok v
  | none => .error (.missingKey (.str name))

/-- What the dictionary answers. What it was handed over and gives back as it is has its outline alone. -/
def answer (d : Dictionary) : Call → Except ConfigError Answer
  | .set _ _ => .ok .itself
  | .assign _ _ | .update _ | .clear => .ok (.value .null)
  | .find name => (d.valueOf name).map .value
  | .remove name => (d.valueOf name).map fun _ => .value .null
  | .contains name => .ok (.value (.bool (d.find? name).isSome))
  | .count => .ok (.value (.int (Int.ofNat d.length)))
  | .get name default => .ok (.value ((d.find? name).getD default.outline))
  | .keys => .ok (.value (.list (d.map (·.1))))
  | .items => .ok (.entries d)
  | .pop name none => (d.valueOf name).map .value
  | .pop name (some default) => .ok (.value ((d.find? name).getD default.outline))
  | .popFirst =>
    match d with
    | [] => .error .nothingToPop
    | (k, v) :: _ => .ok (.value (.tuple [k, v]))
  | .setDefault name default => .ok (.value ((d.find? name).getD default.thaw))

variable {es : Entries} {d : Dictionary} {name : String} {v : Value} {k : Value}

theorem isName_iff : isName name k = true ↔ k = .str name := by
  cases k <;> simp [isName]

theorem same_str_eq_isName (h : IsKey k) : k.same (.str name) = isName name k := by
  rw [Bool.eq_iff_iff, same_str_iff, isName_iff]
  cases h with
  | leaf k h => cases k <;> first | rfl | exact absurd h Bool.false_ne_true
  | tuple xs _ => rfl

theorem find?_eq_get? (h : ∀ e ∈ es, IsKey e.1) (name : String) : find? es name = Entries.get? es (.str name) := by
  induction es with
  | nil => rfl
  | cons e es ih =>
    obtain ⟨hkey, hkeys⟩ := List.forall_mem_cons.mp h
    have hrest := ih hkeys
    simp only [find?, Entries.get?, List.find?_cons, same_str_eq_isName hkey] at hrest ⊢
    split
    · rfl
    · exact hrest

/-- Two keys that are not the same are not both the text. -/
theorem isName_eq_false_of_same (hk : k = .str name) {k' : Value} (h : k.same k' = false) : isName name k' = false := by
  rw [Bool.eq_false_iff]
  intro hk'
  rw [hk, isName_iff.mp hk', same_str_str] at h
  simp at h

theorem insert_eq_put (hd : es.Distinct) (h : ∀ e ∈ es, IsKey e.1) (name : String) (v : Value) :
    insert es name v = Entries.put (.str name) v es := by
  have hreplaced (hget : (Entries.get? es (.str name)).isSome = true) :
      es.map (fun e => if isName name e.1 then (e.1, v) else e) = Entries.put (.str name) v es := by
    induction es with
    | nil => cases hget
    | cons e es ih =>
      obtain ⟨hkey, hkeys⟩ := List.forall_mem_cons.mp h
      obtain ⟨hfirst, hdistinct⟩ := List.pairwise_cons.mp hd
      rw [List.map_cons, Entries.put, same_str_eq_isName hkey]
      cases hname : isName name e.1 with
      | true =>
        have hothers : es.map (fun e => if isName name e.1 then (e.1, v) else e) = es.map id := by
          refine List.map_congr_left fun f hf => ?_
          rw [isName_eq_false_of_same (isName_iff.mp hname) (hfirst f hf)]
          rfl
        rw [hothers, List.map_id]
        rfl
      | false =>
        rw [Entries.get?_cons_of_not_same es (by rw [same_str_eq_isName hkey, hname])] at hget
        rw [ih hdistinct hkeys hget]
        rfl
  rw [insert, find?_eq_get? h]
  split
  · next hget => exact hreplaced hget
  · next hget => exact (Entries.put_of_get?_eq_none (by simpa using hget)).symm

theorem erase_eq_remove (hd : es.Distinct) (h : ∀ e ∈ es, IsKey e.1) (name : String) :
    erase es name = Entries.remove (.str name) es := by
  induction es with
  | nil => rfl
  | cons e es ih =>
    obtain ⟨hkey, hkeys⟩ := List.forall_mem_cons.mp h
    obtain ⟨hfirst, hdistinct⟩ := List.pairwise_cons.mp hd
    have hrest := ih hdistinct hkeys
    rw [erase, List.filter_cons, Entries.remove, same_str_eq_isName hkey]
    cases hname : isName name e.1 with
    | true =>
      refine List.filter_eq_self.mpr fun f hf => ?_
      rw [isName_eq_false_of_same (isName_iff.mp hname) (hfirst f hf)]
      rfl
    | false => exact congrArg (e :: ·) hrest

theorem erase_of_find?_eq_none (h : d.find? name = none) : d.erase name = d := by
  have hnone : ∀ e ∈ d, isName name e.1 = false := by simpa [find?] using h
  exact List.filter_eq_self.mpr fun e he => by rw [hnone e he]; rfl

/-- What an open map answers: a default that it stores comes back as it was handed over. -/
def reply (d : Dictionary) : Call → Except ConfigError Answer
  | .setDefault name default => .ok (.value ((d.find? name).getD default.outline))
  | call => d.answer call

/-- This is what the dictionary answers, unless a default is stored whose plain form looks otherwise. -/
theorem reply_eq_answer_iff (d : Dictionary) (call : Call) :
    d.reply call = d.answer call ↔
      ∀ name default, call = .setDefault name default → d.find? name = none → default.outline = default.thaw := by
  cases call with
  | setDefault name default =>
    rw [reply, answer]
    cases hfind : d.find? name <;> simp [hfind]
  | _ => exact ⟨fun _ => nofun, fun _ => rfl⟩

end Dictionary

theorem Entries.mapValues_remove (f : Value → Value) (key : Value) (es : Entries) :
    mapValues f (Entries.remove key es) = Entries.remove key (mapValues f es) := by
  induction es with
  | nil => rfl
  | cons e es ih =>
    rw [Entries.remove]
    cases hk : e.1.same key with
    | true => simp [mapValues, Entries.remove, hk]
    | false =>
      have hrest : Entries.remove key (mapValues f (e :: es)) = (e.1, f e.2) :: Entries.remove key (mapValues f es) := by
        simp [mapValues, Entries.remove, hk]
      rw [hrest, ← ih]
      rfl

/-- The answer with the outlines of its values. -/
def Answer.outlined : Answer → Answer
  | .value v => .value v.outline
  | .entries es => .entries es.outlined
  | a => a

namespace ConfigMap

variable {c : ConfigMap}

theorem get_str (c : ConfigMap) (name : String) : c.get (.str name) =
    match Entries.get? c.entries (.str name) with
    | some v => .ok v
    | none => .error (.missingKey (.str name)) := by
  rw [ConfigMap.get, find?_str]
  rfl

theorem remove_str (ho : c.isSealed = false) (name : String) : c.remove (.str name) =
    (c.get (.str name)).map fun _ => { c with entries := Entries.remove (.str name) c.entries } := by
  rw [ConfigMap.remove, ensureOpen, ho]
  cases c.get (.str name) <;> rfl

theorem pop_str (ho : c.isSealed = false) (name : String) (default? : Option Value) : c.pop (.str name) default? =
    match Entries.get? c.entries (.str name), default? with
    | some v, _ => .ok (v, { c with entries := Entries.remove (.str name) c.entries })
    | none, some w => .ok (w, c)
    | none, none => .error (.missingKey (.str name)) := by
  rw [ConfigMap.pop, find?_str, remove_str ho, get_str]
  cases Entries.get? c.entries (.str name) with
  | some v => cases default? <;> rfl
  | none => cases default? <;> rfl

theorem setDefault_str (ho : c.isSealed = false) (name : String) (default : Value) :
    c.setDefault (.str name) default =
      match Entries.get? c.entries (.str name) with
      | some v => .ok (v, c)
      | none => .ok (default, { c with entries := Entries.put (.str name) default.thaw c.entries }) := by
  rw [ConfigMap.setDefault, find?_str, set_str ho]
  cases Entries.get? c.entries (.str name) <;> rfl

theorem popFirst_cons (ho : c.isSealed = false) {k v : Value} {es : Entries} (hk : IsKey k)
    (hes : c.entries = (k, v) :: es) : c.popFirst = .ok (k, v, { c with entries := es }) := by
  have hget : Entries.get? c.entries k = some v := hes ▸ Entries.get?_cons_of_same es hk.same_self
  have hremove : Entries.remove k ((k, v) :: es) = es := by rw [Entries.remove, if_pos hk.same_self]
  have hfound : c.get k = .ok v := by
    rw [ConfigMap.get, ConfigMap.find?, hashable_eq_ok_iff.mpr hk.unhashable?]
    simp [bind, Except.bind, pure, Except.pure, hget]
  unfold ConfigMap.popFirst ConfigMap.remove ensureOpen
  rw [hes]
  simp [ho, hfound, hremove, bind, Except.bind, pure, Except.pure]

theorem clear_of_open (ho : c.isSealed = false) : c.clear = .ok { c with entries := [] } := by
  rw [ConfigMap.clear, ensureOpen, ho]
  rfl

end ConfigMap

end TopologyConfig
