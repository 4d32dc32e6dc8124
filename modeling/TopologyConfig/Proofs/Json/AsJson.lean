import TopologyConfig.Proofs.Json.RoundTrip
import TopologyConfig.Proofs.Value.Same

/-!
Plain values as JSON gives them back. A value has a JSON text if its scalars and its keys have one; then every key comes
back as a text, so that keys can fall together, and every float that is no number as the one of the reader. What comes
back is equal to the value only if it is the value itself.
-/
namespace TopologyConfig

namespace Value

/-- JSON has a text for the value as a key. -/
def isJsonKey : Value → Bool
  | null | bool _ | float _ | str _ => true
  | int n => Numeral.isWritable n
  | _ => false

/-- A plain value that has a JSON text. -/
inductive HasJson : Value → Prop where
  | null : HasJson .null
  | bool (b : Bool) : HasJson (.bool b)
  | int (n : Int) (h : Numeral.isWritable n = true) : HasJson (.int n)
  | float (x : Binary64) : HasJson (.float x)
  | str (s : String) : HasJson (.str s)
  | list (xs : List Value) (h : ∀ x ∈ xs, HasJson x) : HasJson (.list xs)
  | map (es : Entries) (hkeys : ∀ e ∈ es, e.1.isJsonKey = true) (h : ∀ e ∈ es, HasJson e.2) : HasJson (.map es)

/-- The key that comes back for a key. -/
def keyAsJson : Value → Value
  | null => str "null"
  | bool b => str (if b then "true" else "false")
  | int n => str (toString n)
  | float x => str (x.textWith Json.specialNames)
  | k => k

mutual

/-- The value that comes back for a plain value. -/
def asJson : Value → Value
  | float x => float (if x.isNaN then Binary64.nan 1 else x)
  | list xs => list (itemsAsJson xs)
  | map es => map (Entries.ofPairs (entriesAsJson es))
  | v => v

def itemsAsJson : List Value → List Value
  | [] => []
  | v :: vs => asJson v :: itemsAsJson vs

def entriesAsJson : List (Value × Value) → List (Value × Value)
  | [] => []
  | (k, v) :: es => (keyAsJson k, asJson v) :: entriesAsJson es

end

@[simp] theorem asJson_list (xs : List Value) : (list xs).asJson = list (xs.map asJson) := by
  have hitems : itemsAsJson xs = xs.map asJson := by
    induction xs with
    | nil => rfl
    | cons x xs ih => rw [itemsAsJson, ih, List.map_cons]
  rw [asJson, hitems]

@[simp] theorem asJson_map (es : Entries) :
    (map es).asJson = map (Entries.ofPairs (es.map fun e => (e.1.keyAsJson, e.2.asJson))) := by
  have hentries : entriesAsJson es = es.map fun e => (e.1.keyAsJson, e.2.asJson) := by
    induction es with
    | nil => rfl
    | cons e es ih => rw [entriesAsJson, ih, List.map_cons]
  rw [asJson, hentries]

theorem asJson_float (x : Binary64) : (float x).asJson = (float x).withNaN (Binary64.nan 1) := by
  rw [asJson, withNaN]
  split <;> rfl

variable {k v : Value}

theorem isString_keyAsJson (h : k.isJsonKey = true) : k.keyAsJson.isString = true := by
  cases k with
  | null | bool | int | float | str => rfl
  | _ => cases h

theorem keyAsJson_of_isString (h : k.isString = true) : k.keyAsJson = k := by
  obtain ⟨s, rfl⟩ := exists_str_of_isString h
  rfl

theorem isJsonKey_of_isString (h : k.isString = true) : k.isJsonKey = true := by
  obtain ⟨s, rfl⟩ := exists_str_of_isString h
  rfl

theorem bare_of_isJsonKey (h : k.isJsonKey = true) : k.bare = k := by
  cases k with
  | null | bool | int | float | str => rfl
  | _ => cases h

theorem IsDocument.hasJson (h : v.IsDocument) : v.HasJson := by
  induction h with
  | null => exact .null
  | bool b => exact .bool b
  | int n h => exact .int n h
  | float x => exact .float x
  | str s => exact .str s
  | list xs h ih => exact .list xs ih
  | map es hkeys hdistinct h ih => exact .map es (fun e he => isJsonKey_of_isString (hkeys e he)) ih

/-- Of a document only the floats that are no numbers may change. -/
theorem IsDocument.asJson_eq (h : v.IsDocument) : v.asJson = v.withNaN (Binary64.nan 1) := by
  induction h with
  | float x => exact asJson_float x
  | list xs h ih =>
    rw [asJson_list, withNaN_list]
    exact congrArg Value.list (List.map_congr_left ih)
  | map es hkeys hdistinct h ih =>
    have hentries : (es.map fun e => (e.1.keyAsJson, e.2.asJson)) = mapValues (withNaN (Binary64.nan 1)) es :=
      List.map_congr_left fun e he => by rw [keyAsJson_of_isString (hkeys e he), ih e he]
    rw [asJson_map, withNaN_map, hentries]
    exact congrArg Value.map (Entries.putAll_of_distinct (Entries.distinct_mapValues hdistinct))
  | _ => rfl

/-- What comes back is a document. -/
theorem HasJson.isDocument_asJson (h : v.HasJson) : v.asJson.IsDocument := by
  induction h with
  | null => exact .null
  | bool b => exact .bool b
  | int n h => exact .int n h
  | float x => exact .float _
  | str s => exact .str s
  | list xs h ih =>
    rw [asJson_list]
    exact .list _ (List.forall_mem_map.mpr ih)
  | map es hkeys h ih =>
    have hholds : Entries.Holds (fun k => k.isString = true) IsDocument
        (Entries.ofPairs (es.map fun e => (e.1.keyAsJson, e.2.asJson))) :=
      Entries.holds_ofPairs (List.forall_mem_map.mpr fun e he => isString_keyAsJson (hkeys e he))
        (List.forall_mem_map.mpr ih)
    rw [asJson_map]
    exact .map _ hholds.keys hholds.distinct hholds.values

theorem HasJson.asJson_eq_of_same (h : v.HasJson) (hsame : v.asJson.same v = true) : v.asJson = v := by
  induction h with
  | float x =>
    rw [asJson] at hsame ⊢
    by_cases hnan : x.isNaN = true
    · rw [if_pos hnan] at hsame ⊢
      simpa [same, number?, Number.same, bare, Binary64.compare?, hnan] using hsame
    · rw [if_neg hnan]
  | list xs h ih =>
    rw [asJson_list] at hsame ⊢
    rw [same] at hsame
    have hitems : xs.map asJson = xs.map id :=
      List.map_congr_left fun x hx => ih x hx (same_of_sameItems_map hsame x hx)
    rw [hitems, List.map_id]
  | map es hkeys h ih =>
    have hback := (HasJson.map es hkeys h).isDocument_asJson
    rw [asJson_map] at hsame hback ⊢
    generalize hfs : Entries.ofPairs (es.map fun e => (e.1.keyAsJson, e.2.asJson)) = fs at hsame hback ⊢
    obtain ⟨hlength, hamong⟩ : fs.length = es.length ∧ allEntriesAmong fs es = true := by
      simpa [same_of_mapping?, mapping?, bare, sameMapping] using hsame
    have hfound := allEntriesAmong_iff.mp hamong
    cases hback with
    | map _ htexts hd hvalues =>
      have hperm : (Entries.keys fs).Perm (Entries.keys es) :=
        Entries.keys_perm htexts hd hlength.ge (fun e he => bare_of_isJsonKey (hkeys e he)) fun f hf => by
          obtain ⟨e, he, -⟩ := hfound f hf
          exact ⟨e, he⟩
      have htexts' := Entries.hasTextKeys_of_perm htexts hperm
      have hd' := Entries.distinct_of_perm htexts hd hperm
      -- Under distinct texts nothing falls together, so every value stands beside the one that came back for it.
      have hentries : (es.map fun e => (e.1.keyAsJson, e.2.asJson)) = mapValues asJson es :=
        List.map_congr_left fun e he => by rw [keyAsJson_of_isString (htexts' e he)]
      have hput : mapValues asJson es = fs := by
        rw [← hfs, hentries]
        exact (Entries.putAll_of_distinct (Entries.distinct_mapValues hd')).symm
      have hsame_values : mapValues asJson es = mapValues id es := by
        refine mapValues_congr fun e he => ih e he ?_
        obtain ⟨d, hfind, hvalue⟩ := hfound (e.1, e.2.asJson) (hput ▸ mem_mapValues.mpr ⟨e, he, rfl⟩)
        rw [Entries.find?_of_mem hd' (Entries.isKey_of_hasTextKeys htexts') he] at hfind
        obtain rfl := Option.some.inj hfind
        exact hvalue
      rw [← hput, hsame_values]
      simp [mapValues]
  | _ => rfl

/-- What comes back is equal to the value exactly if this is a document without floats that are no number, but for the
one that comes back for them. -/
theorem HasJson.same_asJson_iff (h : v.HasJson) : v.asJson.same v = true ↔
    v.IsDocument ∧ ∀ x ∈ v.floats, x.isNaN = true → x = Binary64.nan 1 := by
  rw [← withNaN_eq_self_iff]
  constructor
  · intro hsame
    have hself := h.asJson_eq_of_same hsame
    have hdocument : v.IsDocument := hself ▸ h.isDocument_asJson
    exact ⟨hdocument, hdocument.asJson_eq ▸ hself⟩
  · rintro ⟨hdocument, hself⟩
    rw [hdocument.asJson_eq, hself]
    have hproper : Proper 0 v := hdocument.proper
    exact hproper.same_self

end Value

namespace Json

open Value

/-! The text of a value, and what is read for it. -/

section

variable {c : Char} {cs : List Char} {k v : Value}

theorem escapeChar_of_isDigit (h : c.isDigit = true) : escapeChar c = [c] := by
  have hne : ∀ d : Char, d.isDigit = false → c ≠ d := fun d hd => Numeral.ne_of_isDigit h hd
  have hlarge : ¬ c.toNat < 32 := by
    have := (Numeral.toNat_of_isDigit h).1
    omega
  rw [escapeChar, if_neg hlarge]
  all_goals exact fun heq => absurd heq (hne _ rfl)

/-- Every character stands for itself in a string. -/
def IsUnescaped (cs : List Char) : Prop := ∀ c ∈ cs, escapeChar c = [c]

theorem isUnescaped_of_all (h : cs.all (fun c => escapeChar c == [c]) = true) : IsUnescaped cs :=
  fun c hc => by simpa using List.all_eq_true.mp h c hc

theorem isUnescaped_of_areDigits (h : Numeral.AreDigits cs) : IsUnescaped cs :=
  fun c hc => escapeChar_of_isDigit (h c hc)

theorem isUnescaped_chars (negative : Bool) (t : Binary64.DecimalText) :
    IsUnescaped ((if negative then ['-'] else []) ++ t.chars) := by
  have hpoint : IsUnescaped t.pointChars := by
    unfold Binary64.DecimalText.pointChars
    split
    · exact fun c hc => absurd hc List.not_mem_nil
    · exact List.forall_mem_cons.mpr ⟨rfl, isUnescaped_of_areDigits t.digits_decimals⟩
  have hexponent : IsUnescaped t.exponentChars := by
    unfold Binary64.DecimalText.exponentChars
    split
    · exact fun c hc => absurd hc List.not_mem_nil
    · next negative ds he =>
      refine List.forall_mem_cons.mpr ⟨rfl, List.forall_mem_cons.mpr ⟨?_, ?_⟩⟩
      · cases negative <;> rfl
      · exact isUnescaped_of_areDigits (t.digits_exponent _ he).1
  refine List.forall_mem_append.mpr ⟨?_, List.forall_mem_append.mpr ⟨List.forall_mem_append.mpr ⟨?_, hpoint⟩, hexponent⟩⟩
  · cases negative <;> simp [escapeChar]
  · exact isUnescaped_of_areDigits t.digits_whole

theorem isUnescaped_floatText (x : Binary64) : IsUnescaped (floatText x) := by
  by_cases hspecial : x.isNaN = true ∨ x.isInfinite = true
  · have hnames : floatText x ∈ ["NaN".toList, "Infinity".toList, "-Infinity".toList] := by
      simp only [floatText, Binary64.textWith, specialNames]
      split
      · simp
      · rw [if_pos (hspecial.resolve_left (by assumption))]
        split <;> simp
    have hall : ∀ cs ∈ ["NaN".toList, "Infinity".toList, "-Infinity".toList], IsUnescaped cs := by
      simp only [List.forall_mem_cons]
      exact ⟨isUnescaped_of_all rfl, isUnescaped_of_all rfl, isUnescaped_of_all rfl, List.forall_mem_nil _⟩
    exact hall _ hnames
  · obtain ⟨hnan, hinf⟩ := not_or.mp hspecial
    obtain ⟨t, htext, -⟩ := floatText_of_isFinite (Binary64.isFinite_of_not_special hnan hinf)
    rw [htext]
    exact isUnescaped_chars _ t

theorem stringText_of_isUnescaped {s : String} (h : IsUnescaped s.toList) : stringText s = '"' :: s.toList ++ ['"'] := by
  have hflat {cs : List Char} (h : IsUnescaped cs) : cs.flatMap escapeChar = cs := by
    induction cs with
    | nil => rfl
    | cons c cs ih =>
      obtain ⟨hc, hcs⟩ := List.forall_mem_cons.mp h
      rw [List.flatMap_cons, hc, ih hcs, List.singleton_append]
  rw [stringText, hflat h]

/-- A key is written as the text of the key that comes back. -/
theorem exists_keyText (h : k.isJsonKey = true) : ∃ s, keyText k = .ok (stringText s) ∧ k.keyAsJson = .str s := by
  cases k with
  | null => exact ⟨"null", rfl, rfl⟩
  | bool b => exact ⟨if b then "true" else "false", by cases b <;> rfl, rfl⟩
  | int n =>
    have hplain : IsUnescaped (toString n).toList := toList_toString n ▸ isUnescaped_chars _ _
    refine ⟨toString n, ?_, rfl⟩
    rw [keyText, intText_of_isWritable h, stringText_of_isUnescaped hplain]
    rfl
  | float x =>
    refine ⟨x.textWith specialNames, ?_, rfl⟩
    rw [keyText, stringText_of_isUnescaped (isUnescaped_floatText x), floatText]
  | str s => exact ⟨s, rfl, rfl⟩
  | _ => cases h

theorem isWritable_of_intText {n : Int} (h : intText n = .ok cs) : Numeral.isWritable n = true := by
  by_contra hn
  have hwrite : Numeral.write n = .error .tooLongToWrite := if_neg hn
  unfold intText at h
  rw [hwrite] at h
  cases h

theorem isJsonKey_of_keyText (h : keyText k = .ok cs) : k.isJsonKey = true := by
  cases k with
  | null | bool | float | str => rfl
  | int n =>
    rw [keyText] at h
    obtain ⟨ds, hds, -⟩ := map_eq_ok.mp h
    exact isWritable_of_intText hds
  | _ => cases h

theorem exists_isText_asJson (h : v.HasJson) : ∃ cs, valueText v = .ok cs ∧ IsText v.asJson cs := by
  induction h with
  | null => exact ⟨_, rfl, isText_null⟩
  | bool b => exact ⟨_, rfl, isText_bool b⟩
  | int n hn => exact ⟨_, intText_of_isWritable hn, isText_int hn⟩
  | float x => exact ⟨_, rfl, asJson_float x ▸ isText_float x⟩
  | str s => exact ⟨_, rfl, isText_str s⟩
  | list xs h ih =>
    rw [asJson_list, valueText]
    exact exists_isText_list ih
  | map es hkeys h ih =>
    rw [asJson_map, valueText]
    exact exists_isText_map (fun e he => exists_keyText (hkeys e he)) ih

section

variable {vs : List Value} {es : Entries}

theorem exists_of_moreItems (h : moreItems vs = .ok cs) : ∀ v ∈ vs, ∃ ds, valueText v = .ok ds := by
  induction vs generalizing cs with
  | nil => exact fun v hv => absurd hv List.not_mem_nil
  | cons v vs ih =>
    obtain ⟨first, hfirst, h⟩ := bind_eq_ok.mp h
    obtain ⟨rest, hrest, -⟩ := bind_eq_ok.mp h
    exact List.forall_mem_cons.mpr ⟨⟨first, hfirst⟩, ih hrest⟩

theorem exists_of_itemsIn (h : itemsIn vs = .ok cs) : ∀ v ∈ vs, ∃ ds, valueText v = .ok ds := by
  cases vs with
  | nil => exact fun v hv => absurd hv List.not_mem_nil
  | cons v vs =>
    obtain ⟨first, hfirst, h⟩ := bind_eq_ok.mp h
    obtain ⟨rest, hrest, -⟩ := bind_eq_ok.mp h
    exact List.forall_mem_cons.mpr ⟨⟨first, hfirst⟩, exists_of_moreItems hrest⟩

theorem exists_of_moreMembers (h : moreMembers es = .ok cs) :
    ∀ e ∈ es, e.1.isJsonKey = true ∧ ∃ ds, valueText e.2 = .ok ds := by
  induction es generalizing cs with
  | nil => exact fun e he => absurd he List.not_mem_nil
  | cons e es ih =>
    obtain ⟨key, hkey, h⟩ := bind_eq_ok.mp h
    obtain ⟨first, hfirst, h⟩ := bind_eq_ok.mp h
    obtain ⟨rest, hrest, -⟩ := bind_eq_ok.mp h
    exact List.forall_mem_cons.mpr ⟨⟨isJsonKey_of_keyText hkey, first, hfirst⟩, ih hrest⟩

theorem exists_of_membersIn (h : membersIn es = .ok cs) :
    ∀ e ∈ es, e.1.isJsonKey = true ∧ ∃ ds, valueText e.2 = .ok ds := by
  cases es with
  | nil => exact fun e he => absurd he List.not_mem_nil
  | cons e es =>
    obtain ⟨key, hkey, h⟩ := bind_eq_ok.mp h
    obtain ⟨first, hfirst, h⟩ := bind_eq_ok.mp h
    obtain ⟨rest, hrest, -⟩ := bind_eq_ok.mp h
    exact List.forall_mem_cons.mpr ⟨⟨isJsonKey_of_keyText hkey, first, hfirst⟩, exists_of_moreMembers hrest⟩

theorem hasJson_thaw_items (ih : ∀ v ∈ vs, ∀ {cs}, valueText v = .ok cs → v.thaw.HasJson) (h : itemsIn vs = .ok cs) :
    (list (vs.map thaw)).HasJson := by
  refine .list _ (List.forall_mem_map.mpr fun v hv => ?_)
  obtain ⟨ds, hds⟩ := exists_of_itemsIn h v hv
  exact ih v hv hds

theorem hasJson_thaw_members (ih : ∀ e ∈ es, ∀ {cs}, valueText e.2 = .ok cs → e.2.thaw.HasJson)
    (h : membersIn es = .ok cs) : (map (mapValues thaw es)).HasJson := by
  refine .map _ (List.forall_mem_map.mpr fun e he => (exists_of_membersIn h e he).1)
    (List.forall_mem_map.mpr fun e he => ?_)
  obtain ⟨ds, hds⟩ := (exists_of_membersIn h e he).2
  exact ih e he hds

/-- What is written is the text of a value that has one in its plain form. -/
theorem hasJson_thaw (h : valueText v = .ok cs) : v.thaw.HasJson := by
  induction v using Value.induction generalizing cs with
  | leaf v hleaf =>
    rw [thaw_of_isLeaf hleaf]
    cases v with
    | null => exact .null
    | bool b => exact .bool b
    | int n => exact .int n (isWritable_of_intText h)
    | float x => exact .float x
    | str s => exact .str s
    | list | frozenList | tuple | set | map | frozenMap | view | config | labelled => cases hleaf
    | _ => cases h
  | list xs ih => exact thaw_list xs ▸ hasJson_thaw_items ih h
  | frozenList xs ih => exact thaw_frozenList xs ▸ hasJson_thaw_items ih h
  | tuple xs ih => exact thaw_tuple xs ▸ hasJson_thaw_items ih h
  | map es ih => exact thaw_map es ▸ hasJson_thaw_members ih h
  | frozenMap es ih => exact thaw_frozenMap es ▸ hasJson_thaw_members ih h
  | labelled l v ih => exact thaw_labelled l v ▸ ih h
  | _ => cases h

end

end

end Json

end TopologyConfig
