import TopologyConfig.Proofs.ConfigMap.Copying

/-!
Merging is associative. Under every name the merge of two sources combines what they have there, and the
combination does not depend on which two of three sources are combined first, although it has no neutral value: an
empty base turns a bare entry into a list, and a null overlay leaves a bare base bare.
-/
namespace TopologyConfig.ConfigMap

open Value

/-- A mapping that can be merged: its keys are distinct texts, and null bears no label. -/
def IsSource (v : Value) : Prop :=
  ∃ es, v.mapping? = some es ∧ es.HasTextKeys ∧ es.Distinct ∧ ∀ e ∈ es, e.2.thaw = .null → e.2 = .null

/-- What a merge puts under a name from what the base and the overlay have there. -/
def pairedValue (accumulates : Bool) (base overlay : Option Value) : Option Value :=
  match overlay with
  | none => base.map thaw
  | some v => some (combined accumulates (base.map thaw) v)

/-- The entries that a merge makes of two sources with distinct names. -/
def pairedEntries (r : Registry) (ps qs : List (String × Value)) : Entries :=
  Entries.ofNames ((ps ++ qs).map (·.1)).eraseDups
    fun name => (pairedValue (r.isAccumulator (.str name)) (ps.lookup name) (qs.lookup name)).getD .null

/-- The entries that are added under an accumulator key, if there is a value. -/
def optionalContribution (v : Option Value) : List Value := (v.map contribution).getD []

theorem contribution_thaw (v : Value) : contribution v.thaw = contribution v := by
  rw [← asEntries_thaw v.thaw, thaw_thaw, asEntries_thaw]

theorem contribution_list_of_map_thaw {xs : List Value} (h : xs.map thaw = xs) : contribution (.list xs) = xs := by
  simpa [contribution, bare, items?] using h

theorem map_thaw_optionalContribution (v : Option Value) :
    (optionalContribution v).map thaw = optionalContribution v := by
  cases v with
  | none => rfl
  | some v => exact map_thaw_contribution v

theorem combined_null (base : Option Value) : combined true base .null = base.getD .null := rfl

/-- Under an accumulator key a value other than null adds its entries to those of the base. -/
theorem combined_of_ne_null {v : Value} (h : v ≠ .null) (base : Option Value) :
    combined true (base.map thaw) v = .list (optionalContribution base ++ contribution v) := by
  have hbase : (asEntries ((base.map thaw).getD .null)).map thaw = optionalContribution base := by
    cases base with
    | none => rfl
    | some w =>
      have hentries : asEntries ((Option.map thaw (some w)).getD .null) = contribution w := asEntries_thaw w
      rw [hentries]
      exact map_thaw_contribution w
  unfold combined
  rw [if_pos rfl, hbase]
  cases v <;> first | rfl | exact absurd rfl h

theorem thaw_combined (accumulates : Bool) (base : Option Value) (v : Value) :
    (combined accumulates (base.map thaw) v).thaw = combined accumulates (base.map thaw) v := by
  cases accumulates with
  | false => exact thaw_thaw v
  | true =>
    by_cases hv : v = .null
    · subst hv
      cases base with
      | none => rfl
      | some w => exact thaw_thaw w
    · rw [combined_of_ne_null hv, thaw_list, List.map_append, map_thaw_optionalContribution,
        map_thaw_contribution]

theorem map_thaw_pairedValue (accumulates : Bool) (base overlay : Option Value) :
    (pairedValue accumulates base overlay).map thaw = pairedValue accumulates base overlay := by
  cases overlay with
  | some v => simp only [pairedValue, Option.map_some, thaw_combined]
  | none => cases base <;> simp [pairedValue, thaw_thaw]

/-- Taking the plain form of the overlay first makes no difference. -/
theorem combined_thaw (accumulates : Bool) (base : Option Value) {v : Value} (h : v.thaw = .null → v = .null) :
    combined accumulates (base.map thaw) v.thaw = combined accumulates (base.map thaw) v := by
  cases accumulates with
  | false => exact thaw_thaw v
  | true =>
    by_cases hv : v = .null
    · rw [hv]
      rfl
    · rw [combined_of_ne_null (fun hnull => hv (h hnull)), combined_of_ne_null hv, contribution_thaw]

/-- Two values one after the other under one name do the same as their combination. -/
theorem combined_combined (accumulates : Bool) (x : Option Value) {v w : Value} (h : v.thaw = .null → v = .null) :
    combined accumulates (some (combined accumulates (x.map thaw) v)) w =
      combined accumulates (x.map thaw) (combined accumulates (some v.thaw) w) := by
  have hleft : some (combined accumulates (x.map thaw) v) =
      (some (combined accumulates (x.map thaw) v)).map thaw := by
    rw [Option.map_some, thaw_combined]
  cases accumulates with
  | false => exact (thaw_thaw w).symm
  | true =>
    by_cases hw : w = .null
    · subst hw
      exact (combined_thaw true x h).symm
    · have hright : combined true (some v.thaw) w = .list (contribution v ++ contribution w) :=
        combined_of_ne_null hw (some v)
      have hplain : contribution (.list (contribution v ++ contribution w)) = contribution v ++ contribution w :=
        contribution_list_of_map_thaw (by simp [map_thaw_contribution])
      have hfirst : contribution (combined true (x.map thaw) v) = optionalContribution x ++ contribution v := by
        by_cases hv : v = .null
        · subst hv
          have hnone : contribution .null = [] := rfl
          cases x with
          | none => rfl
          | some x => simpa [optionalContribution, combined_null, hnone] using contribution_thaw x
        · rw [combined_of_ne_null hv]
          exact contribution_list_of_map_thaw (by simp [map_thaw_optionalContribution, map_thaw_contribution])
      calc
        combined true (some (combined true (x.map thaw) v)) w =
            .list (contribution (combined true (x.map thaw) v) ++ contribution w) := by
          rw [hleft]
          exact combined_of_ne_null hw _
        _ = .list (optionalContribution x ++ (contribution v ++ contribution w)) := by
          rw [hfirst, List.append_assoc]
        _ = combined true (x.map thaw) (combined true (some v.thaw) w) := by
          rw [hright, combined_of_ne_null (by simp), hplain]

/-- The combination of what three sources have under a name. -/
theorem pairedValue_assoc (accumulates : Bool) (x y z : Option Value)
    (h : ∀ v, y = some v → v.thaw = .null → v = .null) :
    pairedValue accumulates (pairedValue accumulates x y) z =
      pairedValue accumulates x (pairedValue accumulates y z) := by
  cases z with
  | none =>
    have hleft : pairedValue accumulates (pairedValue accumulates x y) none = pairedValue accumulates x y :=
      map_thaw_pairedValue accumulates x y
    rw [hleft]
    cases y with
    | none => rfl
    | some v => exact congrArg some (combined_thaw accumulates x (h v rfl)).symm
  | some w =>
    have hleft : pairedValue accumulates (pairedValue accumulates x y) (some w) =
        some (combined accumulates (pairedValue accumulates x y) w) := by
      rw [pairedValue, map_thaw_pairedValue]
    rw [hleft]
    cases y with
    | some v => exact congrArg some (combined_combined accumulates x (h v rfl))
    | none =>
      -- Without a base of its own a bare entry of the third source is a list before it meets the first one.
      refine congrArg some ?_
      cases accumulates with
      | false => exact (thaw_thaw w).symm
      | true =>
        by_cases hw : w = .null
        · rw [hw]
          rfl
        · have hone : combined true ((none : Option Value).map thaw) w = .list (contribution w) :=
            combined_of_ne_null hw none
          have hplain : contribution (.list (contribution w)) = contribution w :=
            contribution_list_of_map_thaw (map_thaw_contribution w)
          calc
            combined true (x.map thaw) w = .list (optionalContribution x ++ contribution w) :=
              combined_of_ne_null hw x
            _ = combined true (x.map thaw) (.list (contribution w)) := by
              rw [combined_of_ne_null (by simp), hplain]
            _ = combined true (x.map thaw) (combined true ((none : Option Value).map thaw) w) := by rw [hone]

theorem eraseDups_of_nodup {xs : List String} (h : xs.Nodup) : xs.eraseDups = xs := by
  induction xs using List.reverseRecOn with
  | nil => rfl
  | append_singleton xs x ih =>
    obtain ⟨hxs, -, hx⟩ := List.nodup_append.mp h
    have hnot : x ∉ xs := fun hin => hx x hin x List.mem_cons_self rfl
    rw [eraseDups_concat, ih hxs, if_neg hnot]

theorem eraseDups_append_eraseDups (xs ys : List String) :
    (xs ++ ys.eraseDups).eraseDups = (xs ++ ys).eraseDups := by
  induction ys using List.reverseRecOn with
  | nil => rfl
  | append_singleton ys y ih =>
    rw [eraseDups_concat, ← List.append_assoc, eraseDups_concat (xs ++ ys)]
    by_cases hy : y ∈ ys.eraseDups
    · have hin : y ∈ (xs ++ ys).eraseDups := by
        rw [List.mem_eraseDups] at hy ⊢
        exact List.mem_append_right xs hy
      rw [if_pos hy, if_pos hin, ih]
    · rw [if_neg hy, ← List.append_assoc, eraseDups_concat, ih]

theorem eraseDups_eraseDups_append (xs ys : List String) :
    (xs.eraseDups ++ ys).eraseDups = (xs ++ ys).eraseDups := by
  induction ys using List.reverseRecOn with
  | nil => simpa using eraseDups_append_eraseDups [] xs
  | append_singleton ys y ih => rw [← List.append_assoc, eraseDups_concat, ih, ← List.append_assoc, eraseDups_concat]

theorem lookup_eq_none_iff_not_mem {ps : List (String × Value)} {name : String} :
    ps.lookup name = none ↔ name ∉ ps.map (·.1) := by
  simp only [List.lookup_eq_none_iff, List.mem_map, bne_iff_ne, not_exists, not_and]
  exact ⟨fun h p hp he => h p hp he.symm, fun h p hp he => h p hp he.symm⟩

theorem mem_of_lookup {ps : List (String × Value)} {name : String} {v : Value} (h : ps.lookup name = some v) :
    (name, v) ∈ ps := by
  obtain ⟨before, after, rfl, -⟩ := List.lookup_eq_some_iff.mp h
  simp

theorem mem_names_of_lookup {ps : List (String × Value)} {name : String} {v : Value}
    (h : ps.lookup name = some v) : name ∈ ps.map (·.1) := List.mem_map_of_mem (mem_of_lookup h)

theorem lookup_concat_self {qs : List (String × Value)} {name : String} (h : name ∉ qs.map (·.1)) (v : Value) :
    (qs ++ [(name, v)]).lookup name = some v := by
  rw [List.lookup_append, lookup_eq_none_iff_not_mem.mpr h]
  simp

theorem lookup_concat_of_ne {name other : String} (h : name ≠ other) (qs : List (String × Value)) (v : Value) :
    (qs ++ [(other, v)]).lookup name = qs.lookup name := by
  have hne : (name == other) = false := beq_eq_false_iff_ne.mpr h
  simp [List.lookup_append, List.lookup_cons, hne]

/-- One more entry of the overlay. -/
theorem pairedEntries_concat (r : Registry) (ps qs : List (String × Value)) {name : String}
    (h : name ∉ qs.map (·.1)) (v : Value) :
    Entries.put (.str name)
        (combined (r.isAccumulator (.str name)) (Entries.get? (pairedEntries r ps qs) (.str name)) v)
        (pairedEntries r ps qs) =
      pairedEntries r ps (qs ++ [(name, v)]) := by
  have hnone : qs.lookup name = none := lookup_eq_none_iff_not_mem.mpr h
  have hmem : name ∈ ((ps ++ qs).map (·.1)).eraseDups ↔ name ∈ ps.map (·.1) := by
    simp only [List.mem_eraseDups, List.map_append, List.mem_append]
    exact ⟨fun hin => hin.resolve_right h, Or.inl⟩
  have hheld : Entries.get? (pairedEntries r ps qs) (.str name) = (ps.lookup name).map thaw := by
    rw [pairedEntries, Entries.get?_ofNames, hnone]
    cases hp : ps.lookup name with
    | none => rw [if_neg (mt hmem.mp (lookup_eq_none_iff_not_mem.mp hp)), Option.map_none]
    | some w =>
      rw [if_pos (hmem.mpr (mem_names_of_lookup hp))]
      rfl
  have hvalues : Function.update
      (fun n => (pairedValue (r.isAccumulator (.str n)) (ps.lookup n) (qs.lookup n)).getD .null) name
      (combined (r.isAccumulator (.str name)) ((ps.lookup name).map thaw) v) =
      fun n => (pairedValue (r.isAccumulator (.str n)) (ps.lookup n) ((qs ++ [(name, v)]).lookup n)).getD .null := by
    funext n
    by_cases hn : n = name
    · subst hn
      rw [Function.update_self, lookup_concat_self h]
      rfl
    · rw [Function.update_of_ne hn, lookup_concat_of_ne hn]
  have hnames : ((ps ++ (qs ++ [(name, v)])).map (·.1)).eraseDups =
      if name ∈ ((ps ++ qs).map (·.1)).eraseDups then ((ps ++ qs).map (·.1)).eraseDups
      else ((ps ++ qs).map (·.1)).eraseDups ++ [name] := by
    rw [← eraseDups_concat, List.map_append, List.map_append, List.map_append, List.append_assoc]
    rfl
  rw [hheld]
  unfold pairedEntries
  rw [hnames]
  split
  · next hm => rw [Entries.put_ofNames_of_mem (nodup_eraseDups _) hm, hvalues]
  · next hm => rw [Entries.put_ofNames_of_not_mem hm, hvalues]

theorem mergeEntries_paired {r : Registry} (ps qs rs : List (String × Value)) (h : ((qs ++ rs).map (·.1)).Nodup) :
    mergeEntries ⟨r, pairedEntries r ps qs, false⟩ (rs.map (fun p => (.str p.1, p.2))) =
      .ok ⟨r, pairedEntries r ps (qs ++ rs), false⟩ := by
  induction rs generalizing qs with
  | nil => simp [mergeEntries]
  | cons p rs ih =>
    obtain ⟨name, v⟩ := p
    have hnew : name ∉ qs.map (·.1) := by
      rw [List.map_append, List.map_cons] at h
      exact fun hin => (List.nodup_append.mp h).2.2 name hin name List.mem_cons_self rfl
    have hsplit : qs ++ (name, v) :: rs = (qs ++ [(name, v)]) ++ rs := by simp
    have hrest := ih (qs ++ [(name, v)]) (hsplit ▸ h)
    rw [List.map_cons, mergeEntries, mergeEntry_str rfl]
    dsimp only [bind, Except.bind]
    rw [pairedEntries_concat r ps qs hnew v, hrest, hsplit]

/-- A source, by name. -/
theorem IsSource.exists_named {v : Value} (h : IsSource v) :
    v.mapping? = some ((namedEntries v).map (fun p => (.str p.1, p.2))) ∧ ((namedEntries v).map (·.1)).Nodup ∧
      ∀ p ∈ namedEntries v, p.2.thaw = .null → p.2 = .null := by
  obtain ⟨es, hm, hkeys, hd, hnull⟩ := h
  have hes := namedEntries_of_mapping? hm hkeys
  rw [hes] at hm hd hnull
  refine ⟨hm, ?_, fun p hp => hnull (.str p.1, p.2) (List.mem_map_of_mem hp)⟩
  rw [Entries.Distinct, List.pairwise_map] at hd
  rw [List.Nodup, List.pairwise_map]
  refine hd.imp fun hsame he => ?_
  simp [same_str_str, he] at hsame

theorem lookup_of_mem_of_nodup {ps : List (String × Value)} (hn : (ps.map (·.1)).Nodup) {p : String × Value}
    (hp : p ∈ ps) : ps.lookup p.1 = some p.2 := by
  induction ps with
  | nil => exact absurd hp List.not_mem_nil
  | cons q ps ih =>
    rw [List.map_cons, List.nodup_cons] at hn
    rcases List.mem_cons.mp hp with rfl | hp
    · exact List.lookup_cons_self
    · have hne : (p.1 == q.1) = false := beq_eq_false_iff_ne.mpr fun he => hn.1 (he ▸ List.mem_map_of_mem hp)
      rw [List.lookup_cons, hne]
      exact ih hn.2 hp

/-- The plain entries of a base, before anything is merged onto them. -/
theorem ofEntries_paired (r : Registry) {ps : List (String × Value)} (hn : (ps.map (·.1)).Nodup) :
    ofEntries r (ps.map (fun p => (.str p.1, p.2))) = .ok ⟨r, pairedEntries r ps [], false⟩ := by
  have hkeys : ∀ e ∈ ps.map (fun p => ((.str p.1, p.2) : Value × Value)), e.1.isString = true := by
    intro e he
    obtain ⟨_, -, rfl⟩ := List.mem_map.mp he
    rfl
  have hnames : ((ps ++ []).map (fun p : String × Value => p.1)).eraseDups = ps.map (·.1) := by
    rw [List.append_nil, eraseDups_of_nodup hn]
  have hvalues : mapValues thaw (ps.map (fun p : String × Value => (.str p.1, p.2))) =
      Entries.ofNames (ps.map (·.1)) (fun n => (pairedValue (r.isAccumulator (.str n)) (ps.lookup n) none).getD
        .null) := by
    rw [mapValues, Entries.ofNames, List.map_map, List.map_map]
    refine List.map_congr_left fun p hp => ?_
    simp [pairedValue, lookup_of_mem_of_nodup hn hp]
  rw [ofEntries_of_isString r hkeys, hvalues, Entries.putAll_ofNames hn, pairedEntries, hnames]
  rfl

theorem merge_result (r : Registry) {base overlay : Value} (hb : IsSource base) (ho : IsSource overlay) :
    (merge r base overlay).result =
      .ok ⟨r, pairedEntries r (namedEntries base) (namedEntries overlay), false⟩ := by
  obtain ⟨hbm, hbn, -⟩ := hb.exists_named
  obtain ⟨hom, hon, -⟩ := ho.exists_named
  have hbase : ofValue r base = .ok ⟨r, pairedEntries r (namedEntries base) [], false⟩ := by
    rw [← ofEntries_paired r hbn]
    exact ofValue_of_mapping? hbm
  have hover := mergeEntries_paired (r := r) (namedEntries base) [] (namedEntries overlay) hon
  rw [merge, hbase]
  simp only [hom, hover, hbm, List.nil_append]

section

variable {names : List String} {f : String → Value}

theorem namedEntries_ofNames (r : Registry) (names : List String) (f : String → Value) (s : Bool) :
    namedEntries (asLayer ⟨r, Entries.ofNames names f, s⟩) = names.map (fun n => (n, f n)) := by
  induction names with
  | nil => rfl
  | cons name names ih => exact congrArg ((name, f name) :: ·) ih

theorem lookup_map_names (names : List String) (f : String → Value) (name : String) :
    (names.map (fun n => (n, f n))).lookup name = if name ∈ names then some (f name) else none := by
  induction names with
  | nil => rfl
  | cons n names ih =>
    by_cases hn : name = n
    · subst hn
      simp
    · have hne : (name == n) = false := beq_eq_false_iff_ne.mpr hn
      rw [List.map_cons, List.lookup_cons, hne]
      simpa [hn] using ih

theorem distinct_ofNames (hn : names.Nodup) : (Entries.ofNames names f).Distinct := by
  rw [Entries.Distinct, Entries.ofNames, List.pairwise_map]
  refine hn.imp fun hne => ?_
  simpa [same_str_str] using hne

/-- A map of plain values under distinct names is a source. -/
theorem isSource_asLayer (r : Registry) (hn : names.Nodup) (hf : ∀ n, (f n).thaw = f n) (s : Bool) :
    IsSource (asLayer ⟨r, Entries.ofNames names f, s⟩) := by
  refine ⟨_, rfl, ?_, distinct_ofNames hn, ?_⟩
  · simp [Entries.HasTextKeys, Entries.ofNames, isString]
  · intro e he hnull
    obtain ⟨n, -, rfl⟩ := List.mem_map.mp he
    rw [← hf n]
    exact hnull

end

theorem thaw_getD_pairedValue (accumulates : Bool) (base overlay : Option Value) :
    ((pairedValue accumulates base overlay).getD .null).thaw = (pairedValue accumulates base overlay).getD .null := by
  have h := map_thaw_pairedValue accumulates base overlay
  cases hp : pairedValue accumulates base overlay with
  | none => rfl
  | some v =>
    rw [hp] at h
    exact Option.some.inj h

/-- What a merged map has under a name. -/
theorem lookup_pairedEntries (r : Registry) (ps qs : List (String × Value)) (s : Bool) (name : String) :
    (namedEntries (asLayer ⟨r, pairedEntries r ps qs, s⟩)).lookup name =
      pairedValue (r.isAccumulator (.str name)) (ps.lookup name) (qs.lookup name) := by
  rw [pairedEntries, namedEntries_ofNames, lookup_map_names]
  have hmem : name ∈ ((ps ++ qs).map (·.1)).eraseDups ↔ name ∈ ps.map (·.1) ∨ name ∈ qs.map (·.1) := by
    rw [List.mem_eraseDups, List.map_append, List.mem_append]
  cases hq : qs.lookup name with
  | some v =>
    rw [if_pos (hmem.mpr (Or.inr (mem_names_of_lookup hq)))]
    rfl
  | none =>
    cases hp : ps.lookup name with
    | some v =>
      rw [if_pos (hmem.mpr (Or.inl (mem_names_of_lookup hp)))]
      rfl
    | none =>
      have hnot := not_or.mpr ⟨lookup_eq_none_iff_not_mem.mp hp, lookup_eq_none_iff_not_mem.mp hq⟩
      rw [if_neg (mt hmem.mp hnot)]
      rfl

theorem names_pairedEntries (r : Registry) (ps qs : List (String × Value)) (s : Bool) :
    (namedEntries (asLayer ⟨r, pairedEntries r ps qs, s⟩)).map (·.1) = ((ps ++ qs).map (·.1)).eraseDups := by
  rw [pairedEntries, namedEntries_ofNames, List.map_map]
  exact List.map_id _

/-- The entries of three sources, with either two of them merged first. -/
theorem pairedEntries_assoc (r : Registry) {ps qs rs : List (String × Value)}
    (h : ∀ q ∈ qs, q.2.thaw = .null → q.2 = .null) :
    pairedEntries r (namedEntries (asLayer ⟨r, pairedEntries r ps qs, false⟩)) rs =
      pairedEntries r ps (namedEntries (asLayer ⟨r, pairedEntries r qs rs, false⟩)) := by
  have hnames : ((namedEntries (asLayer ⟨r, pairedEntries r ps qs, false⟩) ++ rs).map (·.1)).eraseDups =
      ((ps ++ namedEntries (asLayer ⟨r, pairedEntries r qs rs, false⟩)).map (·.1)).eraseDups := by
    simp only [List.map_append, names_pairedEntries, eraseDups_eraseDups_append, eraseDups_append_eraseDups,
      List.append_assoc]
  unfold pairedEntries at hnames ⊢
  rw [hnames]
  refine Entries.ofNames_congr fun name _ => ?_
  have hleft := lookup_pairedEntries r ps qs false name
  have hright := lookup_pairedEntries r qs rs false name
  unfold pairedEntries at hleft hright
  rw [hleft, hright, pairedValue_assoc]
  exact fun v hv => h (name, v) (mem_of_lookup hv)

/-- Layers that were merged beforehand add under an accumulator key what they would add one by one. -/
theorem layeredValue_append_layeredValue (accumulates : Bool) (us vs ws : List Value) (h : vs ≠ []) :
    layeredValue accumulates (us ++ [layeredValue accumulates vs] ++ ws) =
      layeredValue accumulates (us ++ vs ++ ws) := by
  cases accumulates with
  | false =>
    obtain ⟨before, last, rfl⟩ := (List.eq_nil_or_concat vs).resolve_left h
    rcases List.eq_nil_or_concat ws with rfl | ⟨ws, w, rfl⟩
    · simp [layeredValue, thaw_thaw]
    · simp only [layeredValue, List.concat_eq_append, ← List.append_assoc, List.getLast?_concat,
        Bool.false_eq_true, if_false]
  | true =>
    have hnull : isNull (layeredValue true vs) = vs.all isNull := by
      unfold layeredValue
      cases hall : vs.all isNull <;> rfl
    have hadds : contribution (layeredValue true vs) = vs.flatMap contribution := by
      rw [← asEntries_thaw, thaw_layeredValue, asEntries_layeredValue]
    have hall : (us ++ [layeredValue true vs] ++ ws).all isNull = (us ++ vs ++ ws).all isNull := by
      simp [hnull]
    have hentries : (us ++ [layeredValue true vs] ++ ws).flatMap contribution =
        (us ++ vs ++ ws).flatMap contribution := by
      simp [hadds]
    rw [layeredValue, if_pos rfl, hall, hentries]
    rfl

theorem valuesUnder_map_names {names : List String} (hn : names.Nodup) (f : String → Value) (name : String) :
    valuesUnder name (names.map (fun n => (n, f n))) = if name ∈ names then [f name] else [] := by
  have hfilter : (names.map (fun n => (n, f n))).filter (·.1 == name) =
      (names.filter (· == name)).map (fun n => (n, f n)) := List.filter_map
  rw [valuesUnder, hfilter, List.filter_beq, hn.count]
  split <;> rfl

/-- What the merged layers of a block have under a name. -/
theorem valuesUnder_layered (r : Registry) (name : String) (ps : List (String × Value)) :
    valuesUnder name (namedEntries (asLayer ⟨r, layeredEntries r ps, false⟩)) =
      if valuesUnder name ps = [] then []
      else [layeredValue (r.isAccumulator (.str name)) (valuesUnder name ps)] := by
  rw [layeredEntries, namedEntries_ofNames, valuesUnder_map_names (nodup_eraseDups _)]
  simp only [valuesUnder_eq_nil_iff, ite_not]

theorem valuesUnder_append (name : String) (ps qs : List (String × Value)) :
    valuesUnder name (ps ++ qs) = valuesUnder name ps ++ valuesUnder name qs := by
  simp [valuesUnder]

theorem layeredEntries_block (r : Registry) (ps qs rs : List (String × Value)) :
    layeredEntries r (ps ++ namedEntries (asLayer ⟨r, layeredEntries r qs, false⟩) ++ rs) =
      layeredEntries r (ps ++ qs ++ rs) := by
  have hblock : (namedEntries (asLayer ⟨r, layeredEntries r qs, false⟩)).map (·.1) = (qs.map (·.1)).eraseDups := by
    rw [layeredEntries, namedEntries_ofNames, List.map_map]
    exact List.map_id _
  have hnames : ((ps ++ namedEntries (asLayer ⟨r, layeredEntries r qs, false⟩) ++ rs).map (·.1)).eraseDups =
      ((ps ++ qs ++ rs).map (·.1)).eraseDups := by
    rw [List.map_append, List.map_append, hblock, ← eraseDups_eraseDups_append, eraseDups_append_eraseDups,
      eraseDups_eraseDups_append, ← List.map_append, ← List.map_append]
  rw [layeredEntries, hnames]
  conv_rhs => rw [layeredEntries]
  refine Entries.ofNames_congr fun name _ => ?_
  simp only [valuesUnder_append, valuesUnder_layered]
  by_cases hq : valuesUnder name qs = []
  · simp [hq]
  · rw [if_neg hq, layeredValue_append_layeredValue _ _ _ _ hq]

/-- A block of layers does the same as the map that it makes. -/
theorem mergeLayers_block (r : Registry) {below block above : List Value}
    (h : ∀ layer ∈ below ++ block ++ above, IsLayer layer) :
    (mergeLayers r (below ++ [(layered r block).asLayer] ++ above)).result =
      .ok (layered r (below ++ block ++ above)) := by
  have hblock : IsLayer (layered r block).asLayer := by
    obtain ⟨es, hm, hkeys, -⟩ := isSource_asLayer r (nodup_eraseDups _) (fun _ => thaw_layeredValue _ _) false
    exact Or.inr ⟨es, hm, hkeys⟩
  have hlayers : ∀ layer ∈ below ++ [(layered r block).asLayer] ++ above, IsLayer layer := by
    intro layer hlayer
    simp only [List.mem_append, List.mem_singleton] at h hlayer
    rcases hlayer with (hin | rfl) | hin
    · exact h layer (Or.inl (Or.inl hin))
    · exact hblock
    · exact h layer (Or.inr hin)
  have hentries := layeredEntries_block r (below.flatMap namedEntries) (block.flatMap namedEntries)
    (above.flatMap namedEntries)
  rw [mergeLayers_result r hlayers]
  simp only [layered, List.flatMap_append, List.flatMap_singleton]
  rw [hentries]

/-- Of three sources any two neighbours may be merged first, and any block of layers beforehand: the entries and the
order of the keys are the same. -/
theorem merging_is_associative :
    (∀ (r : Registry) (a b c : Value), IsSource a → IsSource b → IsSource c →
      ∃ ab bc d, (merge r a b).result = .ok ab ∧ (merge r b c).result = .ok bc ∧
        (merge r ab.asLayer c).result = .ok d ∧ (merge r a bc.asLayer).result = .ok d) ∧
    ∀ (r : Registry) (below block above : List Value), (∀ layer ∈ below ++ block ++ above, IsLayer layer) →
      ∃ m d, (mergeLayers r block).result = .ok m ∧ (mergeLayers r (below ++ block ++ above)).result = .ok d ∧
        (mergeLayers r (below ++ [m.asLayer] ++ above)).result = .ok d := by
  constructor
  · intro r a b c ha hb hc
    have hsource (x y : Value) : IsSource (asLayer ⟨r, pairedEntries r (namedEntries x) (namedEntries y), false⟩) :=
      isSource_asLayer r (nodup_eraseDups _) (fun _ => thaw_getD_pairedValue _ _ _) false
    obtain ⟨-, -, hnull⟩ := hb.exists_named
    refine ⟨_, _, _, merge_result r ha hb, merge_result r hb hc, merge_result r (hsource a b) hc, ?_⟩
    rw [merge_result r ha (hsource b c), pairedEntries_assoc r hnull]
  · intro r below block above h
    have hblock : ∀ layer ∈ block, IsLayer layer := fun layer hin =>
      h layer (List.mem_append_left _ (List.mem_append_right _ hin))
    exact ⟨_, _, mergeLayers_result r hblock, mergeLayers_result r h, mergeLayers_block r h⟩

/-- A bare base, a null overlay that brings a new key, and a tuple; then the two last ones as a block of layers. -/
theorem bare_null_and_tuple_merge :
    let r : Registry := ⟨[⟨"k", some Shape.strings, "", true⟩], 1⟩
    let a := Value.map [(.str "k", .str "a")]
    let b := Value.config none true [(.str "x", .int 1), (.str "k", .null)]
    let c := Value.view [(.str "k", .tuple [.str "b"]), (.str "x", .null)]
    (∃ ab bc d, (merge r a b).result = .ok ab ∧ (merge r b c).result = .ok bc ∧
      (merge r ab.asLayer c).result = .ok d ∧ (merge r a bc.asLayer).result = .ok d) ∧
    (∃ m d, (mergeLayers r [b, c]).result = .ok m ∧ (mergeLayers r ([a] ++ [b, c] ++ [])).result = .ok d ∧
      (mergeLayers r ([a] ++ [m.asLayer] ++ [])).result = .ok d) := by
  intro r a b c
  have ha : IsSource a := ⟨_, rfl, by simp [Entries.HasTextKeys, isString], by simp [Entries.Distinct], by simp⟩
  have hb : IsSource b := by
    refine ⟨_, rfl, by simp [Entries.HasTextKeys, isString], ?_, by simp [thaw]⟩
    simp [Entries.Distinct, same_str_str]
  have hc : IsSource c := by
    refine ⟨_, rfl, by simp [Entries.HasTextKeys, isString], ?_, by simp⟩
    simp [Entries.Distinct, same_str_str]
  have hlayers : ∀ layer ∈ [a] ++ [b, c] ++ [], IsLayer layer := by
    have hlayer {v : Value} (h : IsSource v) : IsLayer v := Or.inr (h.imp fun _ hes => ⟨hes.1, hes.2.1⟩)
    simp [hlayer ha, hlayer hb, hlayer hc]
  exact ⟨merging_is_associative.1 r a b c ha hb hc, merging_is_associative.2 r [a] [b, c] [] hlayers⟩

end TopologyConfig.ConfigMap
