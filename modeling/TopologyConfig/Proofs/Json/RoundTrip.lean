import TopologyConfig.Document
import TopologyConfig.Proofs.Json.Text

/-!
Values in a JSON text. What is written for a plain value of a document is read back as this value, and the reader
stops where the text of the value ends.
-/
namespace TopologyConfig

namespace Json

/-- The reader takes the characters to be the text of the value, whatever follows. -/
structure IsText (v : Value) (cs : List Char) : Prop where
  begins : ∃ c ds, cs = c :: ds ∧ Cursor.isSpace c = false ∧ c ≠ ']'
  reads : ∀ fuel rest offset, 2 * cs.length ≤ fuel → Ends rest →
    readValue fuel ⟨cs ++ rest, offset⟩ = .ok (v, ⟨rest, offset + cs.length⟩)

section

variable {v : Value} {cs : List Char} {c : Char}

theorem skipSpace_of_not_isSpace (h : Cursor.isSpace c = false) (offset : Nat) :
    Cursor.skipSpace ⟨c :: cs, offset⟩ = ⟨c :: cs, offset⟩ := by
  simp [Cursor.skipSpace, Cursor.drop, h]

theorem skipSpace_blank (h : Cursor.isSpace c = false) (offset : Nat) :
    Cursor.skipSpace ⟨' ' :: c :: cs, offset⟩ = ⟨c :: cs, offset + 1⟩ := by
  have hblank : Cursor.isSpace ' ' = true := rfl
  simp [Cursor.skipSpace, Cursor.drop, h, hblank]

theorem IsText.skipSpace_append (h : IsText v cs) (rest : List Char) (offset : Nat) :
    Cursor.skipSpace ⟨cs ++ rest, offset⟩ = ⟨cs ++ rest, offset⟩ ∧
      Cursor.skipSpace ⟨' ' :: (cs ++ rest), offset⟩ = ⟨cs ++ rest, offset + 1⟩ := by
  obtain ⟨c, ds, rfl, hspace, -⟩ := h.begins
  exact ⟨skipSpace_of_not_isSpace hspace offset, skipSpace_blank hspace offset⟩

/-- A text that begins with no quote and no bracket is the one of a scalar. -/
theorem isText_of_readScalar (hbegins : ∃ c ds, cs = c :: ds ∧ Cursor.isSpace c = false ∧ c ≠ ']' ∧ c ≠ '"' ∧
      c ≠ '\x7b' ∧ c ≠ '[')
    (hreads : ∀ rest offset, Ends rest → readScalar ⟨cs ++ rest, offset⟩ = .ok (v, ⟨rest, offset + cs.length⟩)) :
    IsText v cs := by
  obtain ⟨c, ds, rfl, hspace, hclose, hquote, hbrace, hbracket⟩ := hbegins
  refine ⟨⟨c, ds, rfl, hspace, hclose⟩, fun fuel rest offset hfuel hends => ?_⟩
  obtain ⟨f, rfl⟩ := Nat.exists_eq_add_one_of_ne_zero (n := fuel) (by rw [List.length_cons] at hfuel; omega)
  rw [← hreads rest offset hends, List.cons_append, readValue]
  dsimp only
  split
  · next h => exact absurd (List.cons.inj h).1 hquote
  · next h => exact absurd (List.cons.inj h).1 hbrace
  · next h => exact absurd (List.cons.inj h).1 hbracket
  · rfl

theorem isText_null : IsText .null "null".toList :=
  isText_of_readScalar ⟨'n', _, rfl, by decide⟩ fun rest offset _ => readScalar_word rest rfl offset

theorem isText_bool (b : Bool) : IsText (.bool b) (if b then "true".toList else "false".toList) := by
  cases b with
  | true => exact isText_of_readScalar ⟨'t', _, rfl, by decide⟩ fun rest offset _ => readScalar_word rest rfl offset
  | false => exact isText_of_readScalar ⟨'f', _, rfl, by decide⟩ fun rest offset _ => readScalar_word rest rfl offset

theorem begins_of_isDigit (h : c.isDigit = true) : Cursor.isSpace c = false ∧ c ≠ ']' ∧ c ≠ '"' ∧ c ≠ '\x7b' ∧ c ≠ '[' := by
  have hne : ∀ d : Char, d.isDigit = false → c ≠ d := fun d hd => Numeral.ne_of_isDigit h hd
  have hspace : Cursor.isSpace c = false := by
    simp [Cursor.isSpace, hne ' ' rfl, hne '\t' rfl, hne '\n' rfl, hne '\r' rfl]
  exact ⟨hspace, hne _ rfl, hne _ rfl, hne _ rfl, hne _ rfl⟩

theorem begins_chars (negative : Bool) (t : Binary64.DecimalText) :
    ∃ c ds, (if negative then ['-'] else []) ++ t.chars = c :: ds ∧ Cursor.isSpace c = false ∧ c ≠ ']' ∧ c ≠ '"' ∧
      c ≠ '\x7b' ∧ c ≠ '[' := by
  obtain ⟨c, ds, hwhole⟩ := List.exists_cons_of_ne_nil t.whole_ne_nil
  have hdigit : c.isDigit = true := t.digits_whole c (by rw [hwhole]; exact List.mem_cons_self)
  cases negative with
  | true => exact ⟨'-', t.chars, rfl, by decide⟩
  | false =>
    exact ⟨c, ds ++ t.pointChars ++ t.exponentChars, by simp [Binary64.DecimalText.chars, hwhole],
      begins_of_isDigit hdigit⟩

theorem intText_of_isWritable {n : Int} (hn : Numeral.isWritable n = true) : intText n = .ok (toString n).toList := by
  have hwrite : Numeral.write n = .ok (toString n) := if_pos hn
  unfold intText
  rw [hwrite]

theorem isText_int {n : Int} (hn : Numeral.isWritable n = true) : IsText (.int n) (toString n).toList :=
  isText_of_readScalar (toList_toString n ▸ begins_chars _ _) fun _ offset hends => readScalar_int hn hends offset

theorem isText_float (x : Binary64) : IsText ((Value.float x).withNaN (Binary64.nan 1)) (floatText x) := by
  refine isText_of_readScalar ?_ fun _ offset hends => readScalar_float x hends offset
  by_cases hnan : x.isNaN = true
  · have htext : floatText x = "NaN".toList := by simp [floatText, Binary64.textWith, hnan, specialNames]
    exact ⟨'N', _, htext, by decide⟩
  · by_cases hinf : x.isInfinite = true
    · cases hsign : x.isNegative with
      | true =>
        have htext : floatText x = "-Infinity".toList := by
          simp [floatText, Binary64.textWith, hnan, hinf, hsign, specialNames]
        exact ⟨'-', _, htext, by decide⟩
      | false =>
        have htext : floatText x = "Infinity".toList := by
          simp [floatText, Binary64.textWith, hnan, hinf, hsign, specialNames]
        exact ⟨'I', _, htext, by decide⟩
    · obtain ⟨t, htext, -⟩ := floatText_of_isFinite (Binary64.isFinite_of_not_special hnan hinf)
      rw [htext]
      exact begins_chars _ t

theorem isText_str (s : String) : IsText (.str s) (stringText s) := by
  refine ⟨⟨'"', _, rfl, by decide⟩, fun fuel rest offset hfuel _ => ?_⟩
  obtain ⟨f, rfl⟩ := Nat.exists_eq_add_one_of_ne_zero (n := fuel) (by simp [stringText] at hfuel; omega)
  have hread := readString_stringText s rest offset
  have hquote : stringText s ++ rest = '"' :: (s.toList.flatMap escapeChar ++ ['"'] ++ rest) := rfl
  rw [hquote] at hread ⊢
  simp only [readValue, hread]
  rfl

end

/-! Lists and maps, given what is read for their keys and for their parts. -/

section

variable {key g : Value → Value}

/-- What follows the first item of a list. -/
theorem moreItems_isText {vs : List Value} (h : ∀ v ∈ vs, ∃ cs, valueText v = .ok cs ∧ IsText (g v) cs) :
    ∃ more, moreItems vs = .ok more ∧ (∀ rest, Ends (more ++ rest)) ∧
      ∀ v first, IsText v first → ∀ fuel rest offset, 2 * (first.length + more.length) ≤ fuel →
        readItems fuel ⟨first ++ (more ++ rest), offset⟩ =
          .ok (v :: vs.map g, ⟨rest, offset + first.length + more.length⟩) := by
  induction vs with
  | nil =>
    have hends : ∀ rest, Ends ([']'] ++ rest) := fun rest c hc => .inr (.inl (Option.some.inj hc).symm)
    refine ⟨[']'], rfl, hends, fun v first hfirst fuel rest offset hfuel => ?_⟩
    obtain ⟨f, rfl⟩ := Nat.exists_eq_add_one_of_ne_zero (n := fuel) (by simp at hfuel; omega)
    have hread := hfirst.reads f ([']'] ++ rest) offset (by simp at hfuel; omega) (hends rest)
    simp only [List.singleton_append] at hread ⊢
    simp only [readItems, hread, bind, Except.bind, skipSpace_of_not_isSpace (c := ']') rfl]
    rfl
  | cons w vs ih =>
    obtain ⟨hw, hvs⟩ := List.forall_mem_cons.mp h
    obtain ⟨next, htext, hnext⟩ := hw
    obtain ⟨more, hmore, hends, hreads⟩ := ih hvs
    have hends' : ∀ rest, Ends (',' :: ' ' :: (next ++ more) ++ rest) := fun rest c hc => .inl (Option.some.inj hc).symm
    refine ⟨',' :: ' ' :: (next ++ more), by simp [moreItems, htext, hmore, bind, Except.bind, pure, Except.pure],
      hends', fun v first hfirst fuel rest offset hfuel => ?_⟩
    obtain ⟨f, rfl⟩ := Nat.exists_eq_add_one_of_ne_zero (n := fuel) (by simp at hfuel; omega)
    simp only [List.length_cons, List.length_append] at hfuel
    have hread := hfirst.reads f (',' :: ' ' :: (next ++ more) ++ rest) offset (by omega) (hends' rest)
    have hrest := hreads (g w) next hnext f rest (offset + first.length + 1 + 1) (by omega)
    have hskip := (hnext.skipSpace_append (more ++ rest) (offset + first.length + 1)).2
    simp only [List.cons_append, List.append_assoc] at hread ⊢
    simp only [readItems, hread, bind, Except.bind, skipSpace_of_not_isSpace (c := ',') rfl, Cursor.drop,
      List.drop_succ_cons, List.drop_zero, hskip, hrest, pure, Except.pure]
    simp only [List.map_cons, List.length_cons, List.length_append, Except.ok.injEq, Prod.mk.injEq, Cursor.mk.injEq,
      true_and]
    omega

theorem exists_isText_list {vs : List Value} (h : ∀ v ∈ vs, ∃ cs, valueText v = .ok cs ∧ IsText (g v) cs) :
    ∃ cs, itemsIn vs = .ok cs ∧ IsText (.list (vs.map g)) cs := by
  cases vs with
  | nil =>
    refine ⟨_, rfl, ⟨_, _, rfl, by decide⟩, fun fuel rest offset hfuel _ => ?_⟩
    obtain ⟨f, rfl⟩ := Nat.exists_eq_add_one_of_ne_zero (n := fuel) (by simp at hfuel; omega)
    rfl
  | cons v vs =>
    obtain ⟨hv, hvs⟩ := List.forall_mem_cons.mp h
    obtain ⟨first, htext, hfirst⟩ := hv
    obtain ⟨more, hmore, -, hreads⟩ := moreItems_isText hvs
    refine ⟨'[' :: first ++ more, by simp [itemsIn, htext, hmore, bind, Except.bind, pure, Except.pure],
      ⟨'[', first ++ more, rfl, by decide⟩, fun fuel rest offset hfuel _ => ?_⟩
    obtain ⟨f, rfl⟩ := Nat.exists_eq_add_one_of_ne_zero (n := fuel) (by simp at hfuel; omega)
    simp only [List.cons_append, List.length_cons, List.length_append] at hfuel
    have hread := hreads _ first hfirst f rest (offset + 1) (by omega)
    have hskip := (hfirst.skipSpace_append (more ++ rest) (offset + 1)).1
    have hopen : ∀ ds, first ++ (more ++ rest) ≠ ']' :: ds := by
      obtain ⟨c, ds, rfl, -, hclose⟩ := hfirst.begins
      exact fun _ he => hclose (List.cons.inj he).1
    simp only [List.cons_append, List.append_assoc, readValue, Cursor.drop, List.drop_succ_cons, List.drop_zero, hskip,
      hread]
    simp only [Except.map, List.map_cons, List.length_cons, List.length_append, Except.ok.injEq, Prod.mk.injEq,
      Cursor.mk.injEq, true_and]
    omega

/-- Once a member is read, what follows it decides. -/
theorem readMembers_member {name : String} {v : Value} {first tail : List Char} (hfirst : IsText v first)
    (htail : Ends tail) {fuel : Nat} (hfuel : 2 * first.length ≤ fuel) (before : Entries) (offset : Nat) :
    readMembers (fuel + 1) before ⟨stringText name ++ ':' :: ' ' :: (first ++ tail), offset⟩ =
      let es := Entries.put (.str name) v before
      let next := Cursor.skipSpace ⟨tail, offset + (stringText name).length + 2 + first.length⟩
      match next.rest with
      | '\x7d' :: _ => .ok (es, next.drop 1)
      | ',' :: _ => readMembers fuel es (next.drop 1).skipSpace
      | _ => next.fail .comma := by
  have hname := readString_stringText name (':' :: ' ' :: (first ++ tail)) offset
  have hskip := (hfirst.skipSpace_append tail (offset + (stringText name).length + 1)).2
  have hread := hfirst.reads fuel tail (offset + (stringText name).length + 1 + 1) hfuel htail
  have hquote : stringText name = '"' :: (name.toList.flatMap escapeChar ++ ['"']) := rfl
  have hstep := readMembers.eq_2 before ⟨stringText name ++ ':' :: ' ' :: (first ++ tail), offset⟩ fuel
  rw [hquote, List.cons_append] at hname hstep
  simp only [hname, bind, Except.bind, skipSpace_of_not_isSpace (c := ':') rfl, Cursor.drop, List.drop_succ_cons,
    List.drop_zero, ← hquote, hskip, hread] at hstep
  exact hstep

/-- What follows the first member of a map. -/
theorem moreMembers_isText {es : Entries}
    (hkeys : ∀ e ∈ es, ∃ name, keyText e.1 = .ok (stringText name) ∧ key e.1 = .str name)
    (h : ∀ e ∈ es, ∃ cs, valueText e.2 = .ok cs ∧ IsText (g e.2) cs) :
    ∃ more, moreMembers es = .ok more ∧ (∀ rest, Ends (more ++ rest)) ∧
      ∀ name v first, IsText v first → ∀ fuel before rest offset,
        2 * ((stringText name).length + 2 + first.length + more.length) ≤ fuel →
        readMembers fuel before ⟨stringText name ++ ':' :: ' ' :: (first ++ (more ++ rest)), offset⟩ =
          .ok (Entries.putAll (Entries.put (.str name) v before) (es.map fun e => (key e.1, g e.2)),
            ⟨rest, offset + (stringText name).length + 2 + first.length + more.length⟩) := by
  induction es with
  | nil =>
    have hends : ∀ rest, Ends (['\x7d'] ++ rest) := fun rest c hc => .inr (.inr (Option.some.inj hc).symm)
    refine ⟨['\x7d'], rfl, hends, fun name v first hfirst fuel before rest offset hfuel => ?_⟩
    obtain ⟨f, rfl⟩ := Nat.exists_eq_add_one_of_ne_zero (n := fuel) (by omega)
    rw [readMembers_member hfirst (hends rest) (by omega), List.singleton_append]
    simp only [skipSpace_of_not_isSpace (c := '\x7d') rfl]
    rfl
  | cons e es ih =>
    obtain ⟨k, w⟩ := e
    obtain ⟨⟨other, hother, hkey⟩, hks⟩ := List.forall_mem_cons.mp hkeys
    obtain ⟨hw, hvs⟩ := List.forall_mem_cons.mp h
    obtain ⟨next, htext, hnext⟩ := hw
    obtain ⟨more, hmore, hends, hreads⟩ := ih hks hvs
    have hends' : ∀ rest, Ends (',' :: ' ' :: (stringText other ++ ':' :: ' ' :: (next ++ more)) ++ rest) :=
      fun rest c hc => .inl (Option.some.inj hc).symm
    refine ⟨',' :: ' ' :: (stringText other ++ ':' :: ' ' :: (next ++ more)),
      by simp [moreMembers, hother, htext, hmore, bind, Except.bind, pure, Except.pure], hends',
      fun name v first hfirst fuel before rest offset hfuel => ?_⟩
    obtain ⟨f, rfl⟩ := Nat.exists_eq_add_one_of_ne_zero (n := fuel) (by omega)
    simp only [List.length_cons, List.length_append] at hfuel
    have hrest := hreads other (g w) next hnext f (Entries.put (.str name) v before) rest
      (offset + (stringText name).length + 2 + first.length + 1 + 1) (by omega)
    have hskip := ((isText_str other).skipSpace_append (':' :: ' ' :: (next ++ (more ++ rest)))
      (offset + (stringText name).length + 2 + first.length + 1)).2
    rw [readMembers_member hfirst (hends' rest) (by omega)]
    simp only [List.cons_append, List.append_assoc, skipSpace_of_not_isSpace (c := ',') rfl, Cursor.drop,
      List.drop_succ_cons, List.drop_zero, hskip, hrest]
    simp only [hkey, List.map_cons, Entries.putAll, List.foldl_cons, List.length_cons, List.length_append,
      Except.ok.injEq, Prod.mk.injEq, Cursor.mk.injEq, true_and]
    omega

theorem exists_isText_map {es : Entries}
    (hkeys : ∀ e ∈ es, ∃ name, keyText e.1 = .ok (stringText name) ∧ key e.1 = .str name)
    (h : ∀ e ∈ es, ∃ cs, valueText e.2 = .ok cs ∧ IsText (g e.2) cs) :
    ∃ cs, membersIn es = .ok cs ∧ IsText (.map (Entries.ofPairs (es.map fun e => (key e.1, g e.2)))) cs := by
  cases es with
  | nil =>
    refine ⟨_, rfl, ⟨_, _, rfl, by decide⟩, fun fuel rest offset hfuel _ => ?_⟩
    obtain ⟨f, rfl⟩ := Nat.exists_eq_add_one_of_ne_zero (n := fuel) (by simp at hfuel; omega)
    rfl
  | cons e es =>
    obtain ⟨k, w⟩ := e
    obtain ⟨⟨name, hname, hkey⟩, hks⟩ := List.forall_mem_cons.mp hkeys
    obtain ⟨hv, hvs⟩ := List.forall_mem_cons.mp h
    obtain ⟨first, htext, hfirst⟩ := hv
    obtain ⟨more, hmore, -, hreads⟩ := moreMembers_isText hks hvs
    refine ⟨'\x7b' :: stringText name ++ ':' :: ' ' :: first ++ more,
      by simp [membersIn, hname, htext, hmore, bind, Except.bind, pure, Except.pure],
      ⟨'\x7b', _, rfl, by decide⟩, fun fuel rest offset hfuel _ => ?_⟩
    obtain ⟨f, rfl⟩ := Nat.exists_eq_add_one_of_ne_zero (n := fuel) (by simp at hfuel; omega)
    simp only [List.cons_append, List.length_cons, List.length_append] at hfuel
    have hread := hreads name _ first hfirst f [] rest (offset + 1) (by omega)
    have hskip := ((isText_str name).skipSpace_append (':' :: ' ' :: (first ++ (more ++ rest))) (offset + 1)).1
    have hopen : ∀ ds, stringText name ++ ':' :: ' ' :: (first ++ (more ++ rest)) ≠ '\x7d' :: ds :=
      fun _ he => absurd (List.cons.inj he).1 (by decide)
    simp only [List.cons_append, List.append_assoc, readValue, Cursor.drop, List.drop_succ_cons, List.drop_zero, hskip,
      hread]
    simp only [Except.map, hkey, List.map_cons, Entries.ofPairs, Entries.putAll, List.foldl_cons, List.length_cons,
      List.length_append, Except.ok.injEq, Prod.mk.injEq, Cursor.mk.injEq, true_and]
    omega

end

/-- The text of a plain value of a document is read as the value. -/
theorem exists_isText {v : Value} (h : v.IsDocument) :
    ∃ cs, valueText v = .ok cs ∧ IsText (v.withNaN (Binary64.nan 1)) cs := by
  induction h with
  | null => exact ⟨_, rfl, isText_null⟩
  | bool b => exact ⟨_, rfl, isText_bool b⟩
  | int n hn => exact ⟨_, intText_of_isWritable hn, isText_int hn⟩
  | float x => exact ⟨_, rfl, isText_float x⟩
  | str s => exact ⟨_, rfl, isText_str s⟩
  | list vs h ih =>
    rw [Value.withNaN_list, valueText]
    exact exists_isText_list ih
  | map es hkeys hdistinct h ih =>
    have hnames : ∀ e ∈ es, ∃ name, keyText e.1 = .ok (stringText name) ∧ id e.1 = .str name := by
      intro e he
      obtain ⟨name, hname⟩ := Value.exists_str_of_isString (hkeys e he)
      exact ⟨name, by rw [hname, keyText], hname⟩
    have hput : Entries.ofPairs (es.map fun e => (id e.1, e.2.withNaN (Binary64.nan 1))) =
        Value.mapValues (Value.withNaN (Binary64.nan 1)) es :=
      Entries.putAll_of_distinct (Entries.distinct_mapValues hdistinct)
    rw [Value.withNaN_map, valueText, ← hput]
    exact exists_isText_map hnames ih

section

variable {es : Entries} {cs : List Char}

theorem head?_membersIn (h : membersIn es = .ok cs) : cs.head? = some '\x7b' := by
  cases es with
  | nil =>
    cases h
    rfl
  | cons e es =>
    obtain ⟨k, v⟩ := e
    obtain ⟨key, -, h⟩ := bind_eq_ok.mp h
    obtain ⟨first, -, h⟩ := bind_eq_ok.mp h
    obtain ⟨more, -, h⟩ := bind_eq_ok.mp h
    cases h
    rfl

/-- A text that is the one of a value from its first character to its last one is read as the value. -/
theorem read_of_isText {v : Value} (h : IsText v cs) (hhead : cs.head? = some '\x7b') :
    read (String.ofList cs) = .ok v := by
  have hread := h.reads (2 * cs.length + 2) [] 0 (by omega) (fun c hc => nomatch hc)
  have hskip := (h.skipSpace_append [] 0).1
  have hmark : (cs.head? == some (Char.ofNat 0xFEFF)) = false := by
    rw [hhead]
    decide
  rw [List.append_nil] at hread hskip
  have hall : readAll cs = .ok v := by
    simp only [readAll, hmark, Bool.false_eq_true, if_false, hskip, hread, bind, Except.bind]
    rfl
  rw [read, String.toList_ofList, hall]

end

end Json

namespace Document

theorem badKeys_eq_nil {es : Entries} (h : es.HasTextKeys) : badKeys es = [] := by
  refine List.filter_eq_nil_iff.mpr fun k hk => ?_
  obtain ⟨e, he, rfl⟩ := List.mem_map.mp hk
  simp [h e he]

theorem rootEntries_map {es : Entries} (h : es.HasTextKeys) (source : String) :
    rootEntries source (.map es) = .ok es := by
  simp only [rootEntries, badKeys_eq_nil h]

/-- The text of a map is read as a document, since it starts with ink. -/
theorem readValue_of_isText {v : Value} {cs : List Char} (h : Json.IsText v cs) (hhead : cs.head? = some '\x7b')
    (source : String) : readValue .json source (String.ofList cs) = .ok v := by
  have hink : Text.hasInk (String.ofList cs) = true := by
    obtain ⟨ds, rfl⟩ := List.head?_eq_some_iff.mp hhead
    simp [Text.hasInk, Text.isBlank]
  simp only [readValue, readJson, hink, if_true, Json.read_of_isText h hhead]

/-- A map that is read as a plain value of a document is taken over as it is. -/
theorem load_of_readValue {format : DocumentFormat} {source text : String} {es : Entries}
    (hread : readValue format source text = .ok (.map es)) (h : (Value.map es).IsDocument) (r : Registry) :
    load r format source text = .ok ⟨r, es, false⟩ := by
  have hplain : Value.mapValues Value.thaw es = es := by
    have := h.thaw_eq
    rw [Value.thaw_map] at this
    exact Value.map.inj this
  cases h with
  | map _ hkeys hdistinct _ =>
    have hentries : read format source text = .ok es := by
      rw [read, hread]
      exact rootEntries_map hkeys source
    rw [load, hentries]
    refine (ConfigMap.ofEntries_of_isString r hkeys).trans ?_
    rw [hplain, Entries.putAll_of_distinct hdistinct]

end Document

namespace ConfigMap

/-- JSON gives back every map whose plain form is a document, open or sealed, with the floats that are no numbers as
the reader has them. -/
theorem load_write_json (c : ConfigMap) (h : c.toValue.IsDocument) (r : Registry) (source : String) :
    ∃ text d, c.write .json = .ok text ∧ Document.load r .json source text = .ok d ∧ d.isSealed = false ∧
      d.toValue = c.toValue.withNaN (Binary64.nan 1) := by
  obtain ⟨cs, htext, hcs⟩ := Json.exists_isText h
  have hhead : cs.head? = some '\x7b' := Json.head?_membersIn htext
  have hwrite : c.write .json = .ok (String.ofList cs) := by
    simp [write, Document.writeValue, Json.write, htext, Except.map, Except.mapError]
  have hink : Text.hasInk (String.ofList cs) = true := by
    obtain ⟨ds, rfl⟩ := List.head?_eq_some_iff.mp hhead
    simp [Text.hasInk, Text.isBlank]
  have hdocument := Value.isDocument_withNaN (Binary64.nan 1) h
  rw [toValue, Value.withNaN_map] at hcs hdocument
  have hread : Document.readValue .json source (String.ofList cs) =
      .ok (.map (Value.mapValues (Value.withNaN (Binary64.nan 1)) c.plainEntries)) := by
    simp only [Document.readValue, Document.readJson, hink, if_true, Json.read_of_isText hcs hhead]
  refine ⟨_, _, hwrite, Document.load_of_readValue hread hdocument r, rfl, ?_⟩
  rw [toValue, toValue, Value.withNaN_map]
  exact hdocument.thaw_eq

/-- A sealed map with a number below a frozen list, and a control character in a key. -/
theorem sealed_map_read_back_from_json :
    let c : ConfigMap := ⟨⟨[], 0⟩, [(.str "a\x01", .frozenList [.tuple [.float (Binary64.nan 7)], .int (-3)]),
      (.str "", .frozenMap [(.str "é\"", .null)])], true⟩
    c.toValue.IsDocument ∧ ∃ text d, c.write .json = .ok text ∧
      Document.load c.registry .json Document.unnamed text = .ok d ∧ d.isSealed = false ∧
      d.toValue = c.toValue.withNaN (Binary64.nan 1) := by
  intro c
  have hint : Numeral.isWritable (-3) = true := by decide +kernel
  have hlist : (Value.list [.list [.float (Binary64.nan 7)], .int (-3)]).IsDocument :=
    .list _ (by simpa using ⟨.list _ (by simpa using .float _), .int _ hint⟩)
  have hinner : (Value.map [(.str "é\"", .null)]).IsDocument :=
    .map _ (by simp [Entries.HasTextKeys, Value.isString]) (by simp [Entries.Distinct]) (by simpa using .null)
  have hplain : c.toValue = .map [(.str "a\x01", .list [.list [.float (Binary64.nan 7)], .int (-3)]),
      (.str "", .map [(.str "é\"", .null)])] := rfl
  have h : c.toValue.IsDocument := by
    rw [hplain]
    refine .map _ (by simp [Entries.HasTextKeys, Value.isString]) ?_ (by simpa using ⟨hlist, hinner⟩)
    simp [Entries.Distinct, Value.same_str_str]
  exact ⟨h, load_write_json c h c.registry Document.unnamed⟩

end ConfigMap

end TopologyConfig
