import TopologyConfig.Proofs.ConfigMap.Appending
import TopologyConfig.Proofs.ConfigMap.Calls
import TopologyConfig.Proofs.Schema.Frozen

/-!
Typed calls one after the other. A call that succeeds adds one entry to the list of its accumulator, or sets the
scalar of its setter; one that fails changes nothing. So each list holds the entries of its own successful calls in
their order, and each scalar the value of the last one.
-/
namespace TopologyConfig

open Value

namespace Signature

variable {p : Parameter} {v w : Value}

theorem bindAllNamed_cons (call : String) (p : Parameter) (v w : Value) (bs : List Binding)
    (named : List (String × Value)) :
    (∃ e, bindAllNamed call ((p, some v) :: bs) named = .error e ∧
      bindAllNamed call ((p, some w) :: bs) named = .error e) ∨
    ∃ ds, bindAllNamed call ((p, some v) :: bs) named = .ok ((p, some v) :: ds) ∧
      bindAllNamed call ((p, some w) :: bs) named = .ok ((p, some w) :: ds) := by
  induction named generalizing bs with
  | nil => exact Or.inr ⟨bs, rfl, rfl⟩
  | cons n named ih =>
    obtain ⟨name, x⟩ := n
    by_cases hn : (p.name == name) = true
    · exact Or.inl ⟨.repeated call name, by simp [bindAllNamed, bindNamed, hn, Bind.bind, Except.bind]⟩
    · cases hb : bindNamed call name x bs with
      | error e => exact Or.inl ⟨e, by simp [bindAllNamed, bindNamed, hn, hb, Bind.bind, Except.bind, Except.map]⟩
      | ok ds =>
        have hstep (u : Value) : bindAllNamed call ((p, some u) :: bs) ((name, x) :: named) =
            bindAllNamed call ((p, some u) :: ds) named := by
          simp [bindAllNamed, bindNamed, hn, hb, Bind.bind, Except.bind, Except.map]
        rw [hstep, hstep]
        exact ih ds

/-- What the first parameter is given does not matter for the others. -/
theorem bind_drop_one {s : Signature} {p : Parameter} {ps : List Parameter} (hs : s.parameters = p :: ps)
    (v w : Value) (positional : List Value) (named : List (String × Value)) :
    (s.bind (v :: positional) named).map (·.drop 1) = (s.bind (w :: positional) named).map (·.drop 1) := by
  have hpositional (u : Value) : bindPositional s.parameters (u :: positional) =
      (p, some u) :: bindPositional ps positional := by rw [hs, bindPositional]
  rw [Signature.bind, Signature.bind, hpositional, hpositional]
  rcases bindAllNamed_cons s.name p v w (bindPositional ps positional) named with ⟨e, hv, hw⟩ | ⟨ds, hv, hw⟩
  · rw [hv, hw]
    rfl
  · have hmissing (u : Value) : ((p, some u) :: ds).filter isMissing = ds.filter isMissing := by simp [isMissing]
    simp only [hv, hw, Bind.bind, Except.bind, List.length_cons, hmissing]
    split
    · rfl
    · split <;> simp [Except.map]

end Signature

/-- A call of an accumulator or a setter, with its arguments behind the configuration. -/
structure Registration where
  target : Accumulator ⊕ Setter
  positional : List Value
  named : List (String × Value)

namespace Registration

def typedCall (x : Registration) : TypedCall := x.target.elim .add .assign

/-- The key that the call is about. -/
def key (x : Registration) : String := x.target.elim Accumulator.key Setter.key

/-- The values of the parameters behind the configuration, if the arguments fit. -/
def arguments? (x : Registration) : Option (List Value) :=
  ((x.typedCall.signature.bind (.null :: x.positional) x.named).map (·.drop 1)).toOption

/-- The entry that the call is to add to the list of the accumulator. -/
def added? (a : Accumulator) (x : Registration) : Option Value :=
  if x.target = .inl a then x.arguments?.bind (fun args => (a.entry args).toOption) else none

/-- The value that the call is to set. -/
def assigned? (s : Setter) (x : Registration) : Option Value :=
  if x.target = .inr s then x.arguments?.map (fun args => s.value (args.headD .null)) else none

/-- The entry or the value of the call. -/
def stored? (x : Registration) : Option Value := x.target.elim (x.added? ·) (x.assigned? ·)

theorem key_of_inl {x : Registration} {a : Accumulator} (h : x.target = .inl a) : x.key = a.key := by simp [key, h]

theorem key_of_inr {x : Registration} {s : Setter} (h : x.target = .inr s) : x.key = s.key := by simp [key, h]

end Registration

theorem Accumulator.key_injective : Function.Injective Accumulator.key := by
  intro a b h
  cases a <;> cases b <;> first | rfl | exact absurd h (by decide)

theorem Setter.key_injective : Function.Injective Setter.key := by
  intro s t h
  cases s <;> cases t <;> first | rfl | exact absurd h (by decide)

theorem Accumulator.key_ne_key (a : Accumulator) (s : Setter) : a.key ≠ s.key := by
  cases a <;> cases s <;> decide

theorem Registry.check_str_eq_ok_iff {r : Registry} {name : String} {v : Value} :
    r.check (.str name) v = .ok () ↔ r.allows (.str name) v = true := by
  rw [← validate_eq_ok_none_iff]
  have hlook : r.lookUp (.str name) = .ok (r.key? (.str name)) := rfl
  simp only [check, inspectUnder, hlook, bind, Except.bind]
  cases r.validate (.str name) v with
  | error e => simp [Except.mapError]
  | ok found => cases found <;> simp [Except.mapError, pure, Except.pure]

namespace ConfigMap

variable {c d : ConfigMap} {x : Registration} {xs : List Registration}

/-- Makes the call on the configuration. -/
def register (c : ConfigMap) (x : Registration) : Appended := c.call x.typedCall x.positional x.named

/-- Makes calls one after the other; one that fails is passed over. -/
def registerAll (c : ConfigMap) (xs : List Registration) : ConfigMap :=
  xs.foldl (fun c x => (c.register x).after) c

/-- Those of the calls, made one after the other, that succeed. -/
def successes (c : ConfigMap) : List Registration → List Registration
  | [] => []
  | x :: xs =>
    match (c.register x).outcome.result with
    | .ok () => x :: successes (c.register x).after xs
    | .error _ => successes (c.register x).after xs

/-- The map with a value under a name, in plain form. -/
def withScalar (c : ConfigMap) (name : String) (v : Value) : ConfigMap :=
  { c with entries := Entries.put (.str name) v.thaw c.entries }

/-- What a call does to an open map, and when. -/
inductive Registers (c : ConfigMap) (x : Registration) : ConfigMap → Prop where
  | refused (e : ConfigError) (h : (c.register x).outcome.result = .error e) : Registers c x c
  | added (a : Accumulator) (entry : Value) (h : (c.register x).outcome.result = .ok ()) (ht : x.target = .inl a)
      (he : x.added? a = some entry)
      (hs : ∀ s, c.registry.element? (.str a.key) = some s → s.accepts entry = true) :
      Registers c x (c.extendedBy a.key [entry])
  | assigned (s : Setter) (v : Value) (h : (c.register x).outcome.result = .ok ()) (ht : x.target = .inr s)
      (hv : x.assigned? s = some v) (ha : c.registry.allows (.str s.key) v = true) :
      Registers c x (c.withScalar s.key v)

theorem register_eq (c : ConfigMap) (x : Registration) :
    (∃ e, c.register x = .refused c e) ∨ ∃ args, x.arguments? = some args ∧ c.register x = c.perform x.typedCall args := by
  obtain ⟨p, ps, hs, -⟩ := parameters_call x.typedCall
  have hbind := Signature.bind_drop_one hs c.asLayer .null x.positional x.named
  rw [register, call]
  cases hb : x.typedCall.signature.bind (c.asLayer :: x.positional) x.named with
  | error e => exact Or.inl ⟨_, rfl⟩
  | ok args =>
    refine Or.inr ⟨args.drop 1, ?_, rfl⟩
    rw [Registration.arguments?, ← hbind, hb]
    rfl

theorem append_str_cases (ho : c.isSealed = false) (name : String) (entry : Value) :
    (∃ e, c.append (.str name) entry = .refused c e) ∨
      ∀ s, c.registry.element? (.str name) = some s → s.accepts entry = true := by
  have hkey : hashable (.str name) = .ok () := rfl
  by_cases h : ∀ s, c.registry.element? (.str name) = some s → s.accepts entry = true
  · exact Or.inr h
  · simp only [not_forall] at h
    obtain ⟨s, hs, hnot⟩ := h
    refine Or.inl ?_
    simp only [append, ho, hkey, entryViolation?, hs, if_neg hnot, Bool.false_eq_true, if_false]
    split <;> exact ⟨_, rfl⟩

theorem setChecked_str_cases (ho : c.isSealed = false) (name : String) (v : Value) :
    (∃ e, c.setChecked (.str name) v = .error e) ∨
      (c.registry.allows (.str name) v = true ∧ c.setChecked (.str name) v = .ok (c.withScalar name v)) := by
  cases hc : c.registry.check (.str name) v with
  | error e => exact Or.inl ⟨e, by simp [setChecked, ho, hc, bind, Except.bind]⟩
  | ok _ =>
    refine Or.inr ⟨Registry.check_str_eq_ok_iff.mp hc, ?_⟩
    simp [setChecked, ho, hc, bind, Except.bind, set_str ho, withScalar]

/-- A call on an open map is refused and changes nothing, or does what it is for. -/
theorem registers_register (ho : c.isSealed = false) (x : Registration) : Registers c x (c.register x).after := by
  have hrefused {e : ConfigError} (h : c.register x = .refused c e) : Registers c x (c.register x).after := by
    have hresult : (c.register x).outcome.result = .error e := by rw [h]; rfl
    have hafter : (c.register x).after = c := by rw [h]; rfl
    rw [hafter]
    exact .refused e hresult
  rcases register_eq c x with ⟨e, h⟩ | ⟨args, hargs, h⟩
  · exact hrefused h
  · cases ht : x.target with
    | inl a =>
      have hperform : c.register x = c.perform (.add a) args := by rw [h, Registration.typedCall, ht]; rfl
      rw [perform] at hperform
      cases he : a.entry args with
      | error e => exact hrefused (hperform.trans (by rw [he]))
      | ok entry =>
        rw [he] at hperform
        rcases append_str_cases ho a.key entry with ⟨e, hr⟩ | hs
        · exact hrefused (hperform.trans hr)
        · obtain ⟨hresult, hafter⟩ := append_of_accepts ho hs
          have hentry : x.added? a = some entry := by
            simp [Registration.added?, ht, hargs, he, Except.toOption]
          rw [hperform, hafter]
          exact .added a entry (by rw [hperform]; exact hresult) ht hentry hs
    | inr s =>
      have hperform : c.register x = c.perform (.assign s) args := by rw [h, Registration.typedCall, ht]; rfl
      rw [perform] at hperform
      rcases setChecked_str_cases ho s.key (s.value (args.headD .null)) with ⟨e, hr⟩ | ⟨ha, hr⟩
      · exact hrefused (hperform.trans (by rw [hr]; rfl))
      · have hvalue : x.assigned? s = some (s.value (args.headD .null)) := by
          simp [Registration.assigned?, ht, hargs]
        rw [hr] at hperform
        rw [hperform]
        exact .assigned s _ (by rw [hperform]; rfl) ht hvalue ha

theorem registerAll_concat (c : ConfigMap) (xs : List Registration) (x : Registration) :
    c.registerAll (xs ++ [x]) = ((c.registerAll xs).register x).after := by
  simp [registerAll]

theorem successes_concat (c : ConfigMap) (xs : List Registration) (x : Registration) :
    c.successes (xs ++ [x]) = c.successes xs ++
      match ((c.registerAll xs).register x).outcome.result with
      | .ok () => [x]
      | .error _ => [] := by
  induction xs generalizing c with
  | nil =>
    simp only [List.nil_append, successes, registerAll, List.foldl_nil]
  | cons y ys ih =>
    rw [List.cons_append, successes, successes, ih]
    simp only [registerAll, List.foldl_cons]
    split <;> simp

/-- The names that the calls bring in, in the order of their first calls. -/
def newNames (c : ConfigMap) (done : List Registration) : List String :=
  (done.map Registration.key).eraseDups.filter fun name => (Entries.get? c.entries (.str name)).isNone

/-- The one map is the other one after some calls that succeeded, and others that did not. -/
structure Accumulates (c d : ConfigMap) (done : List Registration) : Prop where
  isSealed : d.isSealed = c.isSealed
  registry : d.registry = c.registry
  stored : ∀ x ∈ done, x.stored?.isSome = true
  /-- The entries of its calls follow what an accumulator's key held as entries; without calls it holds the same. -/
  lists : ∀ a : Accumulator, Entries.get? d.entries (.str a.key) =
    if done.filterMap (·.added? a) = [] then Entries.get? c.entries (.str a.key)
    else some (.list (asEntries ((Entries.get? c.entries (.str a.key)).getD .null) ++
      (done.filterMap (·.added? a)).map thaw))
  /-- The value of its last call stands under a setter's key. -/
  scalars : ∀ s : Setter, Entries.get? d.entries (.str s.key) =
    (done.filterMap (·.assigned? s)).getLast?.or (Entries.get? c.entries (.str s.key))
  /-- The entries under other keys stay what they are and where they are. -/
  others : ∀ (i : Nat) (e : Value × Value), c.entries[i]? = some e →
    (∀ x : Registration, e.1.same (.str x.key) = false) → d.entries[i]? = some e
  /-- The keys that were there stay in their places; new ones follow in the order of their first calls. -/
  keys : Entries.keys d.entries = Entries.keys c.entries ++ (c.newNames done).map .str

variable {done : List Registration}

theorem accumulates_nil (c : ConfigMap) : Accumulates c c [] where
  isSealed := rfl
  registry := rfl
  stored := by simp
  lists := by simp
  scalars := by simp
  others := fun _ _ he _ => he
  keys := by simp [newNames]

theorem newNames_concat (c : ConfigMap) (done : List Registration) (x : Registration) :
    c.newNames (done ++ [x]) =
      if (Entries.get? c.entries (.str x.key)).isSome = true ∨ x.key ∈ done.map Registration.key then c.newNames done
      else c.newNames done ++ [x.key] := by
  rw [newNames, List.map_append, List.map_singleton, eraseDups_concat]
  by_cases hmem : x.key ∈ done.map Registration.key
  · rw [if_pos (List.mem_eraseDups.mpr hmem), if_pos (Or.inr hmem), newNames]
  · rw [if_neg fun h => hmem (List.mem_eraseDups.mp h), List.filter_append, ← newNames]
    cases hget : Entries.get? c.entries (.str x.key) <;> simp [hget, hmem]

theorem Accumulates.has_key_iff (h : Accumulates c d done) (name : String) :
    (Entries.get? d.entries (.str name)).isSome = true ↔
      (Entries.get? c.entries (.str name)).isSome = true ∨ name ∈ done.map Registration.key := by
  have hnew : name ∈ c.newNames done ↔
      name ∈ done.map Registration.key ∧ (Entries.get? c.entries (.str name)).isNone = true := by
    rw [newNames, List.mem_filter, List.mem_eraseDups]
  rw [Entries.isSome_get?_iff, h.keys]
  constructor
  · rintro ⟨k, hk, hsame⟩
    rcases List.mem_append.mp hk with hk | hk
    · exact Or.inl (Entries.isSome_get?_iff.mpr ⟨k, hk, hsame⟩)
    · obtain ⟨other, hother, rfl⟩ := List.mem_map.mp hk
      rw [same_str_str, beq_iff_eq] at hsame
      exact Or.inr (hnew.mp (hsame ▸ hother)).1
  · intro hname
    by_cases hc : (Entries.get? c.entries (.str name)).isSome = true
    · obtain ⟨k, hk, hsame⟩ := Entries.isSome_get?_iff.mp hc
      exact ⟨k, List.mem_append_left _ hk, hsame⟩
    · have hmem := hnew.mpr ⟨hname.resolve_left hc, by simpa using hc⟩
      exact ⟨.str name, List.mem_append_right _ (List.mem_map_of_mem hmem), by simp [same_str_str]⟩

/-- Whatever a call puts under its key, the other entries and the order of the keys stay. -/
theorem Accumulates.keys_put (h : Accumulates c d done) (x : Registration) (v : Value) :
    Entries.keys (Entries.put (.str x.key) v d.entries) =
      Entries.keys c.entries ++ (c.newNames (done ++ [x])).map .str := by
  rw [Entries.keys_put_str, h.keys, newNames_concat]
  simp only [h.has_key_iff x.key]
  split <;> simp

theorem Accumulates.others_put (h : Accumulates c d done) (x : Registration) (v : Value) (i : Nat) (e : Value × Value)
    (he : c.entries[i]? = some e) (hother : ∀ x : Registration, e.1.same (.str x.key) = false) :
    (Entries.put (.str x.key) v d.entries)[i]? = some e :=
  Entries.getElem?_put_of_not_same v d.entries (h.others i e he hother) (hother x)

theorem Accumulates.added (h : Accumulates c d done) {a : Accumulator} {entry : Value} (ht : x.target = .inl a)
    (he : x.added? a = some entry) : Accumulates c (d.extendedBy a.key [entry]) (done ++ [x]) where
  isSealed := h.isSealed
  registry := h.registry
  stored := by
    intro y hy
    rcases List.mem_append.mp hy with hy | hy
    · exact h.stored y hy
    · cases List.mem_singleton.mp hy
      simp [Registration.stored?, ht, he]
  lists := by
    intro b
    by_cases hb : a = b
    · subst hb
      rw [List.filterMap_append, List.filterMap_cons_some he, List.filterMap_nil, extendedBy, Entries.get?_put_str_self,
        h.lists a]
      split
      · rename_i hnone
        simp [hnone]
      · simp [asEntries, listItems?]
    · have hne : a.key ≠ b.key := fun hkey => hb (Accumulator.key_injective hkey)
      have hnone : x.added? b = none := by simp [Registration.added?, ht, hb]
      rw [List.filterMap_append, List.filterMap_cons_none hnone, List.filterMap_nil, List.append_nil, extendedBy,
        Entries.get?_put_str_of_ne _ _ hne, h.lists b]
  scalars := by
    intro s
    have hnone : x.assigned? s = none := by simp [Registration.assigned?, ht]
    rw [List.filterMap_append, List.filterMap_cons_none hnone, List.filterMap_nil, List.append_nil, extendedBy,
      Entries.get?_put_str_of_ne _ _ (Accumulator.key_ne_key a s), h.scalars s]
  others := by
    intro i e hi hother
    have := h.others_put x (.list (asEntries ((Entries.get? d.entries (.str a.key)).getD .null) ++ [entry].map thaw)) i e
      hi hother
    rwa [Registration.key_of_inl ht] at this
  keys := by
    have := h.keys_put x (.list (asEntries ((Entries.get? d.entries (.str a.key)).getD .null) ++ [entry].map thaw))
    rwa [Registration.key_of_inl ht] at this

theorem Accumulates.assigned (h : Accumulates c d done) {s : Setter} {v : Value} (ht : x.target = .inr s)
    (hv : x.assigned? s = some v) (hplain : v.thaw = v) : Accumulates c (d.withScalar s.key v) (done ++ [x]) where
  isSealed := h.isSealed
  registry := h.registry
  stored := by
    intro y hy
    rcases List.mem_append.mp hy with hy | hy
    · exact h.stored y hy
    · cases List.mem_singleton.mp hy
      simp [Registration.stored?, ht, hv]
  lists := by
    intro a
    have hnone : x.added? a = none := by simp [Registration.added?, ht]
    rw [List.filterMap_append, List.filterMap_cons_none hnone, List.filterMap_nil, List.append_nil, withScalar,
      Entries.get?_put_str_of_ne _ _ (Accumulator.key_ne_key a s).symm, h.lists a]
  scalars := by
    intro t
    by_cases hst : s = t
    · subst hst
      rw [List.filterMap_append, List.filterMap_cons_some hv, List.filterMap_nil, List.getLast?_concat, withScalar,
        Entries.get?_put_str_self, hplain, Option.some_or]
    · have hne : s.key ≠ t.key := fun hkey => hst (Setter.key_injective hkey)
      have hnone : x.assigned? t = none := by simp [Registration.assigned?, ht, hst]
      rw [List.filterMap_append, List.filterMap_cons_none hnone, List.filterMap_nil, List.append_nil, withScalar,
        Entries.get?_put_str_of_ne _ _ hne, h.scalars t]
  others := by
    intro i e hi hother
    have := h.others_put x v.thaw i e hi hother
    rwa [Registration.key_of_inr ht] at this
  keys := by
    have := h.keys_put x v.thaw
    rwa [Registration.key_of_inr ht] at this

end ConfigMap

theorem Registry.exists_shape?_accumulator (a : Accumulator) :
    ∃ element, Registry.standard.shape? (.str a.key) = some (.listOf element) := by
  cases a <;> exact ⟨_, rfl⟩

theorem Registry.exists_shape?_setter (s : Setter) :
    ∃ shape, Registry.standard.shape? (.str s.key) = some shape ∧ shape.isScalar = true := by
  cases s <;> exact ⟨_, rfl, rfl⟩

/-- A value that may be set has no parts, so it is its own plain form. -/
theorem Registry.thaw_of_allows_setter {s : Setter} {v : Value} (h : Registry.standard.allows (.str s.key) v = true) :
    v.thaw = v := by
  obtain ⟨shape, hshape, hscalar⟩ := exists_shape?_setter s
  rcases allows_iff.mp h shape hshape with rfl | h
  · rfl
  · exact thaw_of_isLeaf (Shape.isLeaf_of_accepts hscalar h)

namespace ConfigMap

theorem accumulates_registerAll {c : ConfigMap} (ho : c.isSealed = false) (hr : c.registry = Registry.standard)
    (xs : List Registration) : Accumulates c (c.registerAll xs) (c.successes xs) := by
  -- From the end: the last call acts on what the calls before it made.
  induction xs using List.reverseRecOn with
  | nil => exact accumulates_nil c
  | append_singleton xs x ih =>
    rw [registerAll_concat, successes_concat]
    have hstep := registers_register (ih.isSealed.trans ho) x
    generalize ((c.registerAll xs).register x).after = d at hstep
    cases hstep with
    | refused e h =>
      rw [h, List.append_nil]
      exact ih
    | added a entry h ht he hs =>
      rw [h]
      exact ih.added ht he
    | assigned s v h ht hv ha =>
      rw [h]
      rw [ih.registry, hr] at ha
      exact ih.assigned ht hv (Registry.thaw_of_allows_setter ha)

/-- Calls of accumulators and setters on an open map, in any order and with any arguments: the lists of the
accumulators grow by the entries of their own successful calls, the keys of the setters hold the values of their last
successful ones, and all else stays in its place. -/
theorem registrations_accumulate (es : Entries) (xs : List Registration) :
    Accumulates ⟨Registry.standard, es, false⟩ (registerAll ⟨Registry.standard, es, false⟩ xs)
      (successes ⟨Registry.standard, es, false⟩ xs) :=
  accumulates_registerAll rfl rfl xs

end ConfigMap
end TopologyConfig
