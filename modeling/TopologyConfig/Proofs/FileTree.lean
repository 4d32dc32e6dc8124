import TopologyConfig.FileTree
import TopologyConfig.Proofs.ConfigMap.Basic
import TopologyConfig.Proofs.Path

/-!
Files that are written. Making directories changes nothing that is there, and writing a file changes nothing but what
stands at its place. So every path leads where it led before, the written path leads to the new content, and a file
that has changed for another path has the name of the written one.
-/
namespace TopologyConfig.FileTree

section

variable {t u v : FileTree} {p q : Path} {place next : Place} {part : String} {parts : List String}
  {o : Option FileNode} {n : FileNode} {content : FileContent}

theorem node?_ne_nil (h : parts ≠ []) : t.node? parts = t.nodes.lookup parts := by
  cases parts with
  | nil => exact absurd rfl h
  | cons part parts => rfl

theorem lookup_filter_of_ne {nodes : List (List String × FileNode)} {other : List String} (h : other ≠ parts) :
    (nodes.filter (fun e => e.1 != parts)).lookup other = nodes.lookup other := by
  induction nodes with
  | nil => rfl
  | cons e nodes ih =>
    obtain ⟨place, node⟩ := e
    by_cases hplace : place = parts
    · have hother : (other == place) = false := beq_eq_false_iff_ne.mpr (hplace ▸ h)
      have hdropped : (place != parts) = false := by simp [hplace]
      rw [List.filter_cons, hdropped, List.lookup_cons, hother]
      exact ih
    · have hkept : (place != parts) = true := by simp [hplace]
      rw [List.filter_cons, hkept, if_pos rfl, List.lookup_cons, List.lookup_cons, ih]

theorem node?_put_self (h : parts ≠ []) : (t.put parts n).node? parts = some n := by
  rw [node?_ne_nil h, put, List.lookup_cons, beq_self_eq_true]

theorem node?_put_of_ne {other : List String} (h : other ≠ parts) : (t.put parts n).node? other = t.node? other := by
  cases other with
  | nil => rfl
  | cons first rest =>
    have hne : (first :: rest == parts) = false := beq_eq_false_iff_ne.mpr h
    simp only [node?, put, List.lookup_cons, hne, lookup_filter_of_ne h]

theorem isDirectory_inside_iff : t.isDirectory (.inside parts) = true ↔ t.node? parts = some .directory := by
  unfold isDirectory
  dsimp only
  split
  · next h => exact ⟨fun _ => h, fun _ => rfl⟩
  · next h => exact ⟨nofun, fun hd => absurd hd h⟩

/-- Where a part leads from a place: on outside, back up, or down to what stands there. -/
inductive Leads (t : FileTree) : Place → String → Place → Prop where
  | outside : Leads t .outside ".." .outside
  | up (parts : List String) (h : t.node? parts = some .directory) :
    Leads t (.inside parts) ".." (if parts.isEmpty then .outside else .inside parts.dropLast)
  | down (parts : List String) (part : String) (h : t.node? parts = some .directory) (hpart : part ≠ "..")
    (hnode : (t.node? (parts ++ [part])).isSome = true) : Leads t (.inside parts) part (.inside (parts ++ [part]))

theorem Leads.isDirectory (h : t.Leads place part next) : t.isDirectory place = true := by
  cases h with
  | outside => rfl
  | up parts hd => exact isDirectory_inside_iff.mpr hd
  | down parts _ hd => exact isDirectory_inside_iff.mpr hd

theorem enter_eq_ok_iff : t.enter place part = .ok next ↔ part.utf8ByteSize ≤ maxName ∧ t.Leads place part next := by
  constructor
  · intro h
    unfold enter at h
    split at h
    · cases h
    · next hdirectory =>
      split at h
      · cases h
      · next hsize =>
        refine ⟨Nat.le_of_not_lt hsize, ?_⟩
        cases place with
        | outside =>
          dsimp only at h
          split at h
          · next hup =>
            cases h
            exact eq_of_beq hup ▸ .outside
          · cases h
        | inside parts =>
          have hnode := isDirectory_inside_iff.mp (by simpa using hdirectory)
          dsimp only at h
          split at h
          · next hup =>
            cases h
            exact eq_of_beq hup ▸ .up parts hnode
          · next hup =>
            split at h
            · next hsome =>
              cases h
              exact .down parts part hnode (by simpa using hup) hsome
            · cases h
  · rintro ⟨hsize, hleads⟩
    have hnot : ¬ maxName < part.utf8ByteSize := Nat.not_lt.mpr hsize
    cases hleads with
    | outside => rfl
    | up parts hnode =>
      have hdirectory := isDirectory_inside_iff.mpr hnode
      simp only [enter, hdirectory, Bool.not_true, Bool.false_eq_true, if_false, gt_iff_lt, hnot, beq_self_eq_true,
        if_true]
    | down parts _ hnode hpart hsome =>
      have hdirectory := isDirectory_inside_iff.mpr hnode
      have hup : (part == "..") = false := beq_eq_false_iff_ne.mpr hpart
      simp only [enter, hdirectory, Bool.not_true, Bool.false_eq_true, if_false, gt_iff_lt, hnot, hup, hsome, if_true]

/-- Where nothing is found below a directory, something can be made. -/
theorem of_enter_eq_notFound (h : t.enter (.inside parts) part = .error .notFound) :
    t.node? parts = some .directory ∧ part.utf8ByteSize ≤ maxName ∧ part ≠ ".." ∧ t.node? (parts ++ [part]) = none := by
  unfold enter at h
  split at h
  · cases h
  · next hdirectory =>
    split at h
    · cases h
    · next hsize =>
      dsimp only at h
      split at h
      · cases h
      · next hup =>
        split at h
        · cases h
        · next hnone =>
          exact ⟨isDirectory_inside_iff.mp (by simpa using hdirectory), Nat.le_of_not_lt hsize, by simpa using hup,
            by simpa using hnone⟩

theorem follow_eq_ok_iff : t.follow p = .ok place ↔
    p.text.utf8ByteSize ≤ maxPath ∧ p.parts.foldlM t.enter (start p) = .ok place := by
  unfold follow
  split
  · next h => exact ⟨nofun, fun hp => absurd hp.1 (Nat.not_le.mpr h)⟩
  · next h => exact ⟨fun hp => ⟨Nat.le_of_not_lt h, hp⟩, And.right⟩

/-- What stands in the first tree stands in the second one too, a directory as one. -/
def Reaches (t u : FileTree) : Prop :=
  ∀ parts n, t.node? parts = some n → ∃ m, u.node? parts = some m ∧ (n = .directory → m = .directory)

/-- What stands in the first tree stands in the second one. -/
def Extends (t u : FileTree) : Prop := ∀ parts n, t.node? parts = some n → u.node? parts = some n

theorem Extends.reaches (h : Extends t u) : Reaches t u := fun parts n hn => ⟨n, h parts n hn, id⟩

theorem Extends.trans (h : Extends t u) (hu : Extends u v) : Extends t v := fun parts n hn => hu parts n (h parts n hn)

theorem Reaches.directory (h : Reaches t u) (hd : t.node? parts = some .directory) :
    u.node? parts = some .directory := by
  obtain ⟨m, hm, hkind⟩ := h parts _ hd
  rw [hm, hkind rfl]

theorem Reaches.enter (h : Reaches t u) (he : t.enter place part = .ok next) : u.enter place part = .ok next := by
  rw [enter_eq_ok_iff] at he ⊢
  refine ⟨he.1, ?_⟩
  cases he.2 with
  | outside => exact .outside
  | up parts hd => exact .up parts (h.directory hd)
  | down parts _ hd hpart hsome =>
    obtain ⟨n, hn⟩ := Option.isSome_iff_exists.mp hsome
    obtain ⟨m, hm, -⟩ := h _ n hn
    exact .down parts part (h.directory hd) hpart (Option.isSome_iff_exists.mpr ⟨m, hm⟩)

theorem Reaches.foldlM (h : Reaches t u) (he : parts.foldlM t.enter place = .ok next) :
    parts.foldlM u.enter place = .ok next := by
  induction parts generalizing place with
  | nil => exact he
  | cons part parts ih =>
    rw [List.foldlM_cons] at he ⊢
    cases hfirst : t.enter place part with
    | error f =>
      rw [hfirst] at he
      cases he
    | ok mid =>
      rw [hfirst] at he
      rw [h.enter hfirst]
      exact ih he

/-- Every path leads where it led before. -/
theorem Reaches.follow (h : Reaches t u) (hp : t.follow p = .ok place) : u.follow p = .ok place := by
  rw [follow_eq_ok_iff] at hp ⊢
  exact ⟨hp.1, h.foldlM hp.2⟩

/-- Everything above the place is a directory. -/
def Chained (t : FileTree) : Place → Prop
  | .outside => True
  | .inside parts => ∀ above, above <+: parts → above ≠ parts → t.node? above = some .directory

theorem Chained.enter (h : t.Chained place) (he : t.enter place part = .ok next) : t.Chained next := by
  cases (enter_eq_ok_iff.mp he).2 with
  | outside => trivial
  | up parts hd =>
    split
    · trivial
    · intro above habove hne
      refine h above (habove.trans (List.dropLast_prefix parts)) fun heq => hne ?_
      exact habove.eq_of_length (Nat.le_antisymm habove.length_le (by rw [heq, List.length_dropLast]; omega))
  | down parts _ hd hpart hsome =>
    intro above habove hne
    rcases List.prefix_concat_iff.mp habove with heq | hprefix
    · exact absurd heq hne
    · by_cases heq : above = parts
      · rw [heq, hd]
      · exact h above hprefix heq

theorem Chained.foldlM (h : t.Chained place) (he : parts.foldlM t.enter place = .ok next) : t.Chained next := by
  induction parts generalizing place with
  | nil =>
    cases he
    exact h
  | cons part parts ih =>
    rw [List.foldlM_cons] at he
    cases hfirst : t.enter place part with
    | error f =>
      rw [hfirst] at he
      cases he
    | ok mid =>
      rw [hfirst] at he
      exact ih (h.enter hfirst) he

theorem chained_start (t : FileTree) (p : Path) : t.Chained (start p) := by
  unfold start
  split
  · intro above habove hne
    exact absurd (List.prefix_nil.mp habove) hne
  · trivial

theorem chained_of_follow (h : t.follow p = .ok place) : t.Chained place :=
  (chained_start t p).foldlM (follow_eq_ok_iff.mp h).2

/-- A part that leads to something other than a directory is the name of that. -/
theorem Chained.name_of_enter (h : t.Chained place) (he : t.enter place part = .ok (.inside parts))
    (hfile : t.node? parts ≠ some .directory) : ∃ above, place = .inside above ∧ parts = above ++ [part] := by
  generalize hnext : Place.inside parts = next at he
  cases (enter_eq_ok_iff.mp he).2 with
  | outside => cases hnext
  | up below hd =>
    by_cases hempty : below = []
    · simp [hempty] at hnext
    · have hup : parts = below.dropLast := by simpa [hempty] using hnext
      refine absurd (h parts (hup ▸ List.dropLast_prefix below) fun heq => ?_) hfile
      have hlength := congrArg List.length (hup.symm.trans heq)
      have hpos := List.length_pos_iff.mpr hempty
      rw [List.length_dropLast] at hlength
      omega
  | down below _ hd hpart hsome =>
    cases hnext
    exact ⟨below, rfl, rfl⟩

theorem utf8ByteSize_text_parent_le (h : p.text.utf8ByteSize ≤ maxPath) : p.parent.text.utf8ByteSize ≤ maxPath := by
  rcases p.text_parent with hdot | ⟨rest, hrest⟩
  · rw [hdot]
    decide
  · rw [hrest, String.utf8ByteSize_append] at h
    omega

theorem foldlM_concat_eq_ok {α β ε : Type} {f : α → β → Except ε α} {xs : List β} {x : β} {a b : α} :
    (xs ++ [x]).foldlM f a = .ok b ↔ ∃ c, xs.foldlM f a = .ok c ∧ f c x = .ok b := by
  rw [List.foldlM_append, bind_eq_ok]
  simp

/-- The way to a path leads through its parent. -/
theorem follow_eq_ok_iff_parent (hparts : p.parts ≠ []) : t.follow p = .ok next ↔
    p.text.utf8ByteSize ≤ maxPath ∧ ∃ place, t.follow p.parent = .ok place ∧ t.enter place p.name = .ok next := by
  have hstart : start p.parent = start p := rfl
  simp only [follow_eq_ok_iff, Path.parts_eq_concat hparts, foldlM_concat_eq_ok, hstart]
  constructor
  · rintro ⟨hsize, place, hplace, henter⟩
    exact ⟨hsize, place, ⟨utf8ByteSize_text_parent_le hsize, hplace⟩, henter⟩
  · rintro ⟨hsize, place, ⟨-, hplace⟩, henter⟩
    exact ⟨hsize, place, hplace, henter⟩

/-- A place where a path's last part is, or could be made. -/
theorem target_eq_ok (h : t.target p = .ok (parts, o)) : p.parts ≠ [] ∧ p.text.utf8ByteSize ≤ maxPath ∧
    o = t.node? parts ∧ ∃ place, t.follow p.parent = .ok place ∧
      (t.enter place p.name = .ok (.inside parts) ∨
        ∃ above, place = .inside above ∧ t.enter place p.name = .error .notFound ∧ parts = above ++ [p.name]) := by
  unfold target at h
  split at h
  · cases h
  · next hempty =>
    split at h
    · cases h
    · next hsize =>
      obtain ⟨place, hplace, h⟩ := bind_eq_ok.mp h
      refine ⟨by simpa using hempty, Nat.le_of_not_lt hsize, ?_⟩
      split at h
      · next henter =>
        cases h
        exact ⟨rfl, _, hplace, .inl henter⟩
      · cases h
      · next above hnone =>
        cases h
        exact ⟨(of_enter_eq_notFound hnone).2.2.2.symm, _, hplace, .inr ⟨above, rfl, hnone, rfl⟩⟩
      · cases h

section

variable (hparts : p.parts ≠ [])

include hparts

theorem target_of_follow (h : t.follow p = .ok (.inside parts)) : t.target p = .ok (parts, t.node? parts) := by
  obtain ⟨hsize, above, habove, henter⟩ := (follow_eq_ok_iff_parent hparts).mp h
  have hempty : p.parts.isEmpty = false := by simpa using hparts
  have hshort : ¬ maxPath < p.text.utf8ByteSize := Nat.not_lt.mpr hsize
  simp only [target, hempty, Bool.false_eq_true, if_false, gt_iff_lt, hshort, habove, bind, Except.bind, henter]

theorem target_of_follow_outside (h : t.follow p = .ok .outside) : t.target p = .error .exists := by
  obtain ⟨hsize, above, habove, henter⟩ := (follow_eq_ok_iff_parent hparts).mp h
  have hempty : p.parts.isEmpty = false := by simpa using hparts
  have hshort : ¬ maxPath < p.text.utf8ByteSize := Nat.not_lt.mpr hsize
  simp only [target, hempty, Bool.false_eq_true, if_false, gt_iff_lt, hshort, habove, bind, Except.bind, henter]

end

theorem put_extends (h : t.node? parts = none) : Extends t (t.put parts n) := by
  intro other m hm
  rwa [node?_put_of_ne]
  rintro rfl
  exact absurd (h.symm.trans hm) nofun

theorem makeDirectory_extends (h : t.makeDirectory p = .ok u) : Extends t u := by
  obtain ⟨⟨parts, o⟩, htarget, h⟩ := bind_eq_ok.mp h
  cases o with
  | none =>
    cases h
    exact put_extends (target_eq_ok htarget).2.2.1.symm
  | some n => cases h

theorem settleDirectory_extends (h : t.settleDirectory p = .ok u) : Extends t u := by
  unfold settleDirectory at h
  split at h
  · next hmade =>
    cases h
    exact makeDirectory_extends hmade
  · split at h
    · cases h
      exact fun _ _ hn => hn
    · cases h

theorem ensureParts_extends {root : String} (h : t.ensureParts root parts = .ok u) : Extends t u := by
  induction parts generalizing u with
  | nil =>
    cases h
    exact fun _ _ hn => hn
  | cons part above ih =>
    rw [ensureParts] at h
    split at h
    · obtain ⟨v, hv, h⟩ := bind_eq_ok.mp h
      exact (ih hv).trans (settleDirectory_extends h)
    · exact settleDirectory_extends h

theorem ensureDirectory_extends (h : t.ensureDirectory p = .ok u) : Extends t u := ensureParts_extends h

/-- What an attempt leaves where it succeeds is what it makes. -/
theorem attemptParts_of_ensureParts {root : String} (h : t.ensureParts root parts = .ok u) :
    t.attemptParts root parts = u := by
  cases parts with
  | nil => exact Except.ok.inj h
  | cons part above =>
    rw [ensureParts] at h
    rw [attemptParts]
    split at h
    · next hmade =>
      obtain ⟨v, hv, h⟩ := bind_eq_ok.mp h
      simp only [hmade, hv, h, Except.toOption, Option.getD_some]
    · next hmade =>
      unfold settleDirectory at h
      split
      · next hu =>
        rw [hu] at h
        exact Except.ok.inj h
      · next hmissing => exact absurd hmissing hmade
      · next f hf =>
        rw [hf] at h
        dsimp only at h
        split at h
        · exact Except.ok.inj h
        · cases h

/-- An attempt takes nothing away, even where it fails. -/
theorem attemptParts_extends (t : FileTree) (root : String) (parts : List String) :
    Extends t (t.attemptParts root parts) := by
  induction parts with
  | nil => exact fun _ _ hn => hn
  | cons part above ih =>
    rw [attemptParts]
    split
    · next hmade => exact makeDirectory_extends hmade
    · split
      · next v hv =>
        cases hsettled : v.settleDirectory ⟨root, (part :: above).reverse⟩ with
        | ok w => exact (ensureParts_extends hv).trans (settleDirectory_extends hsettled)
        | error e => exact ensureParts_extends hv
      · exact ih
    · exact fun _ _ hn => hn

theorem makeDirectory_of_follow (hparts : p.parts ≠ []) (h : t.follow p = .ok place) (hd : t.isDirectory place = true) :
    t.makeDirectory p = .error .exists := by
  cases place with
  | outside =>
    rw [makeDirectory, target_of_follow_outside hparts h]
    rfl
  | inside parts =>
    rw [makeDirectory, target_of_follow hparts h, isDirectory_inside_iff.mp hd]
    rfl

/-- A directory that is there is left alone. -/
theorem ensureDirectory_of_follow (h : t.follow p = .ok place) (hd : t.isDirectory place = true) :
    t.ensureDirectory p = .ok t := by
  unfold ensureDirectory
  cases hreverse : p.parts.reverse with
  | nil => rfl
  | cons name above =>
    have hparts : p.parts ≠ [] := fun hnil => by simp [hnil] at hreverse
    have hself : Path.mk p.root (name :: above).reverse = p := by rw [← hreverse, List.reverse_reverse]
    have hmade := makeDirectory_of_follow hparts h hd
    have hsettled : t.settleDirectory p = .ok t := by simp [settleDirectory, hmade, leadsToDirectory, h, hd]
    rw [ensureParts, hself]
    simp only [hmade, hsettled]

theorem parts_ne_nil_of_follow (h : t.follow p = .ok (.inside parts)) (hfile : t.node? parts ≠ some .directory) :
    p.parts ≠ [] := by
  intro hnil
  obtain ⟨-, hfold⟩ := follow_eq_ok_iff.mp h
  rw [hnil, List.foldlM_nil] at hfold
  unfold start at hfold
  split at hfold
  · cases hfold
    exact hfile rfl
  · cases hfold

/-- What is no directory stands at a place with the name of each path to it. -/
theorem exists_above_of_follow (h : t.follow p = .ok (.inside parts)) (hfile : t.node? parts ≠ some .directory) :
    ∃ above, parts = above ++ [p.name] := by
  obtain ⟨-, place, hplace, henter⟩ := (follow_eq_ok_iff_parent (parts_ne_nil_of_follow h hfile)).mp h
  obtain ⟨above, -, habove⟩ := (chained_of_follow hplace).name_of_enter henter hfile
  exact ⟨above, habove⟩

theorem put_file_reaches (h : t.node? parts ≠ some .directory) : Reaches t (t.put parts (.file content)) := by
  have hparts : parts ≠ [] := by
    rintro rfl
    exact h rfl
  intro other m hm
  by_cases hother : other = parts
  · subst hother
    exact ⟨_, node?_put_self hparts, fun hd => absurd (hd ▸ hm) h⟩
  · exact ⟨m, by rw [node?_put_of_ne hother, hm], id⟩

/-- What writing does: the new content stands at a place with the path's name, where no directory stood, and nothing
else has changed. -/
theorem write_eq_ok (h : t.write p content = .ok u) : Reaches t u ∧ ∃ above,
    u.follow p = .ok (.inside (above ++ [p.name])) ∧ u.node? (above ++ [p.name]) = some (.file content) ∧
    ∀ parts, parts ≠ above ++ [p.name] → u.node? parts = t.node? parts := by
  obtain ⟨⟨parts, o⟩, htarget, h⟩ := bind_eq_ok.mp h
  obtain ⟨hparts, hsize, ho, place, hparent, hplace⟩ := target_eq_ok htarget
  obtain ⟨hfile, rfl⟩ : o ≠ some .directory ∧ t.put parts (.file content) = u := by
    match o, h with
    | none, h => exact ⟨nofun, Except.ok.inj h⟩
    | some (.file _), h => exact ⟨nofun, Except.ok.inj h⟩
  subst ho
  have hreaches : Reaches t (t.put parts (.file content)) := put_file_reaches hfile
  obtain ⟨above, rfl, rfl⟩ : ∃ above, place = .inside above ∧ parts = above ++ [p.name] := by
    rcases hplace with henter | ⟨above, hinside, -, habove⟩
    · exact (chained_of_follow hparent).name_of_enter henter hfile
    · exact ⟨above, hinside, habove⟩
  have hself : (t.put (above ++ [p.name]) (.file content)).node? (above ++ [p.name]) = some (.file content) :=
    node?_put_self (by simp)
  refine ⟨hreaches, above, (follow_eq_ok_iff_parent hparts).mpr ⟨hsize, _, hreaches.follow hparent, ?_⟩, hself,
    fun other hother => node?_put_of_ne hother⟩
  rcases hplace with henter | ⟨_, heq, hnone, -⟩
  · exact hreaches.enter henter
  · obtain ⟨hd, hname, hup, -⟩ := of_enter_eq_notFound hnone
    refine enter_eq_ok_iff.mpr ⟨hname, .down above _ (hreaches.directory hd) hup ?_⟩
    rw [hself]
    rfl

theorem read_eq_ok_iff : t.read p = .ok content ↔
    ∃ parts, t.follow p = .ok (.inside parts) ∧ t.node? parts = some (.file content) := by
  constructor
  · intro h
    obtain ⟨place, hplace, h⟩ := bind_eq_ok.mp h
    cases place with
    | outside => cases h
    | inside parts =>
      dsimp only at h
      split at h
      · next hnode =>
        cases h
        exact ⟨parts, hplace, hnode⟩
      · cases h
  · rintro ⟨parts, hplace, hnode⟩
    simp only [read, hplace, bind, Except.bind, hnode]

theorem exists?_of_follow (hnull : p.text.toList.contains '\x00' = false) (h : t.follow p = .ok place) :
    t.exists? p = .ok true := by
  unfold exists?
  rw [hnull, if_neg Bool.false_ne_true, h]

theorem Extends.read (h : Extends t u) (hread : t.read p = .ok content) : u.read p = .ok content := by
  obtain ⟨parts, hplace, hnode⟩ := read_eq_ok_iff.mp hread
  exact read_eq_ok_iff.mpr ⟨parts, h.reaches.follow hplace, h parts _ hnode⟩

/-- What was written is read. -/
theorem read_write_self (h : t.write p content = .ok u) : u.read p = .ok content := by
  obtain ⟨-, above, hplace, hnode, -⟩ := write_eq_ok h
  exact read_eq_ok_iff.mpr ⟨_, hplace, hnode⟩

/-- Another path reads what it read before, unless it leads to what was written, and so has its name. -/
theorem read_write_other {old : FileContent} (h : t.write p content = .ok u) (hread : t.read q = .ok old) :
    u.read q = .ok old ∨ (u.read q = .ok content ∧ q.name = p.name) := by
  obtain ⟨parts, hplace, hnode⟩ := read_eq_ok_iff.mp hread
  obtain ⟨hreaches, above, -, hwritten, hothers⟩ := write_eq_ok h
  have hfollow := hreaches.follow hplace
  by_cases hparts : parts = above ++ [p.name]
  · refine .inr ⟨read_eq_ok_iff.mpr ⟨parts, hfollow, by rw [hparts, hwritten]⟩, ?_⟩
    obtain ⟨other, hother⟩ := exists_above_of_follow hplace (by rw [hnode]; nofun)
    exact List.singleton_inj.mp (List.append_inj_right' (hother.symm.trans hparts) rfl)
  · exact .inl (read_eq_ok_iff.mpr ⟨parts, hfollow, by rw [hothers parts hparts, hnode]⟩)

/-- Whether a file can be written does not depend on what is written. -/
theorem write_any (h : t.write p content = .ok u) (other : FileContent) : ∃ v, t.write p other = .ok v := by
  obtain ⟨⟨parts, o⟩, htarget, h⟩ := bind_eq_ok.mp h
  refine ⟨t.put parts (.file other), bind_eq_ok.mpr ⟨_, htarget, ?_⟩⟩
  match o, h with
  | none, _ => rfl
  | some (.file _), _ => rfl

/-- A file that can be read can be written, and its directory is there. -/
theorem write_of_read (h : t.read p = .ok content) (other : FileContent) :
    t.ensureDirectory p.parent = .ok t ∧ ∃ u, t.write p other = .ok u := by
  obtain ⟨parts, hplace, hnode⟩ := read_eq_ok_iff.mp h
  have hfile : t.node? parts ≠ some .directory := by
    rw [hnode]
    nofun
  have hparts := parts_ne_nil_of_follow hplace hfile
  obtain ⟨-, place, hparent, henter⟩ := (follow_eq_ok_iff_parent hparts).mp hplace
  refine ⟨ensureDirectory_of_follow hparent ?_, t.put parts (.file other), bind_eq_ok.mpr
    ⟨_, target_of_follow hparts hplace, by rw [hnode]⟩⟩
  exact (enter_eq_ok_iff.mp henter).2.isDirectory

end
end TopologyConfig.FileTree
