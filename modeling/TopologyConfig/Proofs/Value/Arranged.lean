import Mathlib.Data.List.Forall2
import TopologyConfig.Json.Printer
import TopologyConfig.Proofs.Schema.Frozen

/-!
The order of sets. A set is listed in an order that belongs to the place where it is stored, and its copy may be listed
in another one. Values that differ in nothing else have the same plain form up to such orders and the same JSON text,
and registries allow the one if they allow the other.
-/
namespace TopologyConfig

namespace Value

/-- The values differ at most in the order in which their sets are listed. -/
inductive Arranged : Value → Value → Prop where
  | leaf (v : Value) (h : v.isLeaf = true) : Arranged v v
  | list (xs ys : List Value) (h : List.Forall₂ Arranged xs ys) : Arranged (.list xs) (.list ys)
  | frozenList (xs ys : List Value) (h : List.Forall₂ Arranged xs ys) : Arranged (.frozenList xs) (.frozenList ys)
  | tuple (xs ys : List Value) (h : List.Forall₂ Arranged xs ys) : Arranged (.tuple xs) (.tuple ys)
  | set (xs ys : List Value) (h : xs.Perm ys) : Arranged (.set xs) (.set ys)
  | map (es fs : Entries) (hk : es.keys = fs.keys) (h : List.Forall₂ Arranged (es.map (·.2)) (fs.map (·.2))) :
      Arranged (.map es) (.map fs)
  | frozenMap (es fs : Entries) (hk : es.keys = fs.keys)
      (h : List.Forall₂ Arranged (es.map (·.2)) (fs.map (·.2))) : Arranged (.frozenMap es) (.frozenMap fs)
  | view (es fs : Entries) (hk : es.keys = fs.keys) (h : List.Forall₂ Arranged (es.map (·.2)) (fs.map (·.2))) :
      Arranged (.view es) (.view fs)
  | config (number : Option Nat) (isSealed : Bool) (es fs : Entries) (hk : es.keys = fs.keys)
      (h : List.Forall₂ Arranged (es.map (·.2)) (fs.map (·.2))) :
      Arranged (.config number isSealed es) (.config number isSealed fs)
  | labelled (label : Nat) (v w : Value) (h : Arranged v w) : Arranged (.labelled label v) (.labelled label w)

/-- No set has two elements. -/
inductive HasSmallSets : Value → Prop where
  | leaf (v : Value) (h : v.isLeaf = true) : HasSmallSets v
  | list (xs : List Value) (h : ∀ x ∈ xs, HasSmallSets x) : HasSmallSets (.list xs)
  | frozenList (xs : List Value) (h : ∀ x ∈ xs, HasSmallSets x) : HasSmallSets (.frozenList xs)
  | tuple (xs : List Value) (h : ∀ x ∈ xs, HasSmallSets x) : HasSmallSets (.tuple xs)
  | set (xs : List Value) (h : xs.length ≤ 1) : HasSmallSets (.set xs)
  | map (es : Entries) (h : ∀ e ∈ es, HasSmallSets e.2) : HasSmallSets (.map es)
  | frozenMap (es : Entries) (h : ∀ e ∈ es, HasSmallSets e.2) : HasSmallSets (.frozenMap es)
  | view (es : Entries) (h : ∀ e ∈ es, HasSmallSets e.2) : HasSmallSets (.view es)
  | config (number : Option Nat) (isSealed : Bool) (es : Entries) (h : ∀ e ∈ es, HasSmallSets e.2) :
      HasSmallSets (.config number isSealed es)
  | labelled (label : Nat) (v : Value) (h : HasSmallSets v) : HasSmallSets (.labelled label v)

end Value

theorem forall₂_of_mem {α β : Type} {R S : α → β → Prop} {xs : List α} {ys : List β} (h : List.Forall₂ R xs ys)
    (hS : ∀ x ∈ xs, ∀ y, R x y → S x y) : List.Forall₂ S xs ys := by
  induction h with
  | nil => exact .nil
  | cons hxy _ ih =>
    obtain ⟨hfirst, hrest⟩ := List.forall_mem_cons.mp hS
    exact .cons (hfirst _ hxy) (ih hrest)

theorem forall₂_trans {α : Type} {R S T : α → α → Prop} {xs ys zs : List α}
    (hRS : ∀ x y z, R x y → S y z → T x z) (h : List.Forall₂ R xs ys) (h' : List.Forall₂ S ys zs) :
    List.Forall₂ T xs zs := by
  induction h generalizing zs with
  | nil =>
    cases h'
    exact .nil
  | cons hxy _ ih =>
    cases h' with
    | cons hyz hrest => exact .cons (hRS _ _ _ hxy hyz) (ih hrest)

namespace Entries

variable {R : Value → Value → Prop} {es fs : Entries}

theorem pointwise_iff : es.Pointwise R fs ↔ es.keys = fs.keys ∧ List.Forall₂ R (es.map (·.2)) (fs.map (·.2)) := by
  constructor
  · intro h
    have hvalues : List.Forall₂ (fun e f => R e.2 f.2) es fs := List.Forall₂.imp (fun _ _ => And.right) h
    exact ⟨h.keys_eq.symm, List.forall₂_map_left_iff.mpr (List.forall₂_map_right_iff.mpr hvalues)⟩
  · rintro ⟨hk, hv⟩
    induction es generalizing fs with
    | nil =>
      cases fs with
      | nil => exact .nil
      | cons f fs => cases hk
    | cons e es ih =>
      cases fs with
      | nil => cases hk
      | cons f fs =>
        obtain ⟨hkey, hkeys⟩ := List.cons.inj hk
        cases hv with
        | cons hvalue hvalues => exact .cons ⟨hkey, hvalue⟩ (ih hkeys hvalues)

end Entries

namespace Value

variable {v w u : Value}

theorem Arranged.eq_of_isLeaf (h : Arranged v w) (hl : v.isLeaf = true) : w = v := by
  cases h with
  | leaf _ _ => rfl
  | _ => cases hl

/-- What a value with parts has to be if it differs from another one in the order of sets only. -/
def Arrangement : Value → Value → Prop
  | list xs, w => ∃ ys, w = list ys ∧ List.Forall₂ Arranged xs ys
  | frozenList xs, w => ∃ ys, w = frozenList ys ∧ List.Forall₂ Arranged xs ys
  | tuple xs, w => ∃ ys, w = tuple ys ∧ List.Forall₂ Arranged xs ys
  | set xs, w => ∃ ys, w = set ys ∧ xs.Perm ys
  | map es, w => ∃ fs, w = map fs ∧ Entries.Pointwise Arranged es fs
  | frozenMap es, w => ∃ fs, w = frozenMap fs ∧ Entries.Pointwise Arranged es fs
  | view es, w => ∃ fs, w = view fs ∧ Entries.Pointwise Arranged es fs
  | config n b es, w => ∃ fs, w = config n b fs ∧ Entries.Pointwise Arranged es fs
  | labelled l v, w => ∃ u, w = labelled l u ∧ Arranged v u
  | _, _ => True

theorem Arranged.arrangement (h : Arranged v w) : Arrangement v w := by
  cases h with
  | leaf _ hl => cases v <;> trivial
  | list _ ys hys | frozenList _ ys hys | tuple _ ys hys | set _ ys hys => exact ⟨ys, rfl, hys⟩
  | map _ fs hk hv | frozenMap _ fs hk hv | view _ fs hk hv | config _ _ _ fs hk hv =>
    exact ⟨fs, rfl, Entries.pointwise_iff.mpr ⟨hk, hv⟩⟩
  | labelled _ _ u hu => exact ⟨u, rfl, hu⟩

/-- Induction over the parts of two values that differ in the order of sets. -/
theorem arranged_induction {P : Value → Value → Prop}
    (leaf : ∀ v : Value, v.isLeaf = true → P v v)
    (list : ∀ xs ys, List.Forall₂ P xs ys → P (list xs) (list ys))
    (frozenList : ∀ xs ys, List.Forall₂ P xs ys → P (frozenList xs) (frozenList ys))
    (tuple : ∀ xs ys, List.Forall₂ P xs ys → P (tuple xs) (tuple ys))
    (set : ∀ xs ys : List Value, xs.Perm ys → P (set xs) (set ys))
    (map : ∀ es fs : Entries, es.Pointwise P fs → P (map es) (map fs))
    (frozenMap : ∀ es fs : Entries, es.Pointwise P fs → P (frozenMap es) (frozenMap fs))
    (view : ∀ es fs : Entries, es.Pointwise P fs → P (view es) (view fs))
    (config : ∀ n b (es fs : Entries), es.Pointwise P fs → P (config n b es) (config n b fs))
    (labelled : ∀ l v w, P v w → P (labelled l v) (labelled l w)) : ∀ {v w}, Arranged v w → P v w := by
  intro v w h
  have hitems {xs ys : List Value} (ih : ∀ x ∈ xs, ∀ {w}, Arranged x w → P x w) (h : List.Forall₂ Arranged xs ys) :
      List.Forall₂ P xs ys := forall₂_of_mem h fun x hx _ => ih x hx
  have hentries {es fs : Entries} (ih : ∀ e ∈ es, ∀ {w}, Arranged e.2 w → P e.2 w) (h : es.Pointwise Arranged fs) :
      es.Pointwise P fs := forall₂_of_mem h fun e he _ hf => ⟨hf.1, ih e he hf.2⟩
  induction v using Value.induction generalizing w with
  | leaf v hl => exact h.eq_of_isLeaf hl ▸ leaf v hl
  | list xs ih =>
    obtain ⟨ys, rfl, hys⟩ := h.arrangement
    exact list xs ys (hitems ih hys)
  | frozenList xs ih =>
    obtain ⟨ys, rfl, hys⟩ := h.arrangement
    exact frozenList xs ys (hitems ih hys)
  | tuple xs ih =>
    obtain ⟨ys, rfl, hys⟩ := h.arrangement
    exact tuple xs ys (hitems ih hys)
  | set xs _ =>
    obtain ⟨ys, rfl, hys⟩ := h.arrangement
    exact set xs ys hys
  | map es ih =>
    obtain ⟨fs, rfl, hfs⟩ := h.arrangement
    exact map es fs (hentries ih hfs)
  | frozenMap es ih =>
    obtain ⟨fs, rfl, hfs⟩ := h.arrangement
    exact frozenMap es fs (hentries ih hfs)
  | view es ih =>
    obtain ⟨fs, rfl, hfs⟩ := h.arrangement
    exact view es fs (hentries ih hfs)
  | config n b es ih =>
    obtain ⟨fs, rfl, hfs⟩ := h.arrangement
    exact config n b es fs (hentries ih hfs)
  | labelled l v ih =>
    obtain ⟨w, rfl, hw⟩ := h.arrangement
    exact labelled l v w (ih hw)

theorem arranged_map_iff {es fs : Entries} : Arranged (map es) (map fs) ↔ es.Pointwise Arranged fs := by
  constructor
  · intro h
    obtain ⟨_, hsame, hfs⟩ := h.arrangement
    cases hsame
    exact hfs
  · intro h
    obtain ⟨hk, hv⟩ := Entries.pointwise_iff.mp h
    exact .map es fs hk hv

theorem Arranged.refl (v : Value) : Arranged v v := by
  have hentries {es : Entries} (ih : ∀ e ∈ es, Arranged e.2 e.2) :
      List.Forall₂ Arranged (es.map (·.2)) (es.map (·.2)) := List.forall₂_same.mpr (List.forall_mem_map.mpr ih)
  induction v using Value.induction with
  | leaf v hl => exact .leaf v hl
  | list xs ih => exact .list xs xs (List.forall₂_same.mpr ih)
  | frozenList xs ih => exact .frozenList xs xs (List.forall₂_same.mpr ih)
  | tuple xs ih => exact .tuple xs xs (List.forall₂_same.mpr ih)
  | set xs _ => exact .set xs xs (List.Perm.refl xs)
  | map es ih => exact .map es es rfl (hentries ih)
  | frozenMap es ih => exact .frozenMap es es rfl (hentries ih)
  | view es ih => exact .view es es rfl (hentries ih)
  | config n b es ih => exact .config n b es es rfl (hentries ih)
  | labelled l v ih => exact .labelled l v v ih

theorem Arranged.trans (h : Arranged v w) (h' : Arranged w u) : Arranged v u := by
  have hitems {xs ys zs : List Value} (h : List.Forall₂ (fun x y => ∀ z, Arranged y z → Arranged x z) xs ys)
      (h' : List.Forall₂ Arranged ys zs) : List.Forall₂ Arranged xs zs :=
    forall₂_trans (fun _ _ z hxy hyz => hxy z hyz) h h'
  have hentries {es fs gs : Entries} (h : es.Pointwise (fun x y => ∀ z, Arranged y z → Arranged x z) fs)
      (h' : fs.Pointwise Arranged gs) : es.keys = gs.keys ∧ List.Forall₂ Arranged (es.map (·.2)) (gs.map (·.2)) :=
    Entries.pointwise_iff.mp (forall₂_trans (fun _ _ _ hef hfg => ⟨hef.1.trans hfg.1, hef.2 _ hfg.2⟩) h h')
  refine arranged_induction (P := fun v w => ∀ u, Arranged w u → Arranged v u) ?leaf ?list ?frozenList ?tuple ?set
    ?map ?frozenMap ?view ?config ?labelled h u h'
  case leaf => exact fun v _ u hu => hu
  case list =>
    intro xs ys ih u hu
    obtain ⟨zs, rfl, hzs⟩ := hu.arrangement
    exact .list xs zs (hitems ih hzs)
  case frozenList =>
    intro xs ys ih u hu
    obtain ⟨zs, rfl, hzs⟩ := hu.arrangement
    exact .frozenList xs zs (hitems ih hzs)
  case tuple =>
    intro xs ys ih u hu
    obtain ⟨zs, rfl, hzs⟩ := hu.arrangement
    exact .tuple xs zs (hitems ih hzs)
  case set =>
    intro xs ys hys u hu
    obtain ⟨zs, rfl, hzs⟩ := hu.arrangement
    exact .set xs zs (hys.trans hzs)
  case map =>
    intro es fs ih u hu
    obtain ⟨gs, rfl, hgs⟩ := hu.arrangement
    obtain ⟨hk, hv⟩ := hentries ih hgs
    exact .map es gs hk hv
  case frozenMap =>
    intro es fs ih u hu
    obtain ⟨gs, rfl, hgs⟩ := hu.arrangement
    obtain ⟨hk, hv⟩ := hentries ih hgs
    exact .frozenMap es gs hk hv
  case view =>
    intro es fs ih u hu
    obtain ⟨gs, rfl, hgs⟩ := hu.arrangement
    obtain ⟨hk, hv⟩ := hentries ih hgs
    exact .view es gs hk hv
  case config =>
    intro n b es fs ih u hu
    obtain ⟨gs, rfl, hgs⟩ := hu.arrangement
    obtain ⟨hk, hv⟩ := hentries ih hgs
    exact .config n b es gs hk hv
  case labelled =>
    intro l v w ih u hu
    obtain ⟨z, rfl, hz⟩ := hu.arrangement
    exact .labelled l v z (ih z hz)

/-- Thawing takes sets as they are listed. -/
theorem Arranged.thaw (h : Arranged v w) : Arranged v.thaw w.thaw := by
  have hlist {xs ys : List Value} (h : List.Forall₂ (fun x y => Arranged x.thaw y.thaw) xs ys) :
      Arranged (.list (xs.map Value.thaw)) (.list (ys.map Value.thaw)) :=
    .list _ _ (List.forall₂_map_left_iff.mpr (List.forall₂_map_right_iff.mpr h))
  have hmap {es fs : Entries} (h : es.Pointwise (fun x y => Arranged x.thaw y.thaw) fs) :
      Arranged (.map (mapValues Value.thaw es)) (.map (mapValues Value.thaw fs)) :=
    arranged_map_iff.mpr (List.forall₂_map_left_iff.mpr (List.forall₂_map_right_iff.mpr h))
  refine arranged_induction (P := fun v w => Arranged v.thaw w.thaw) ?leaf ?list ?frozenList ?tuple ?set
    ?map ?frozenMap ?view ?config ?labelled h
  case leaf => exact fun v _ => .refl v.thaw
  case list => exact fun xs ys ih => by simpa only [thaw_list] using hlist ih
  case frozenList => exact fun xs ys ih => by simpa only [thaw_frozenList] using hlist ih
  case tuple => exact fun xs ys ih => by simpa only [thaw_tuple] using hlist ih
  case set => exact fun xs ys hys => .set xs ys hys
  case map => exact fun es fs ih => by simpa only [thaw_map] using hmap ih
  case frozenMap => exact fun es fs ih => by simpa only [thaw_frozenMap] using hmap ih
  case view => exact fun es fs ih => by simpa only [thaw_view] using hmap ih
  case config => exact fun n b es fs ih => by simpa only [thaw_config] using hmap ih
  case labelled => exact fun l v w ih => by simpa only [thaw_labelled] using ih

/-- A set of one element at most has one order. -/
theorem Arranged.eq_of_hasSmallSets (h : Arranged v w) (hv : v.HasSmallSets) : w = v := by
  have hitems {xs ys : List Value} (ih : ∀ x ∈ xs, ∀ {w}, Arranged x w → w = x) (hys : List.Forall₂ Arranged xs ys) :
      ys = xs := by
    induction hys with
    | nil => rfl
    | cons hxy _ ih' =>
      obtain ⟨hfirst, hrest⟩ := List.forall_mem_cons.mp ih
      rw [hfirst hxy, ih' hrest]
  have hentries {es fs : Entries} (ih : ∀ e ∈ es, ∀ {w}, Arranged e.2 w → w = e.2) (h : es.Pointwise Arranged fs) :
      fs = es := h.eq_of_forall fun e he _ hw => ih e he hw
  induction hv generalizing w with
  | leaf v hl => exact h.eq_of_isLeaf hl
  | list xs _ ih | frozenList xs _ ih | tuple xs _ ih =>
    obtain ⟨ys, rfl, hys⟩ := h.arrangement
    rw [hitems ih hys]
  | set xs hsmall =>
    obtain ⟨ys, rfl, hys⟩ := h.arrangement
    match xs, hsmall with
    | [], _ => rw [hys.nil_eq]
    | [x], _ => rw [List.perm_singleton.mp hys.symm]
  | map es _ ih | frozenMap es _ ih | view es _ ih | config n b es _ ih =>
    obtain ⟨fs, rfl, hfs⟩ := h.arrangement
    rw [hentries ih hfs]
  | labelled l v _ ih =>
    obtain ⟨u, rfl, hu⟩ := h.arrangement
    rw [ih hu]

theorem HasSmallSets.thaw (h : v.HasSmallSets) : v.thaw.HasSmallSets := by
  have hlist {xs : List Value} (ih : ∀ x ∈ xs, x.thaw.HasSmallSets) : (Value.list (xs.map Value.thaw)).HasSmallSets :=
    .list _ (List.forall_mem_map.mpr ih)
  have hmap {es : Entries} (ih : ∀ e ∈ es, e.2.thaw.HasSmallSets) :
      (Value.map (mapValues Value.thaw es)).HasSmallSets := .map _ (List.forall_mem_map.mpr ih)
  induction h with
  | leaf v hl =>
    rw [thaw_of_isLeaf hl]
    exact .leaf v hl
  | list xs _ ih => exact thaw_list xs ▸ hlist ih
  | frozenList xs _ ih => exact thaw_frozenList xs ▸ hlist ih
  | tuple xs _ ih => exact thaw_tuple xs ▸ hlist ih
  | set xs hsmall => exact .set xs hsmall
  | map es _ ih => exact thaw_map es ▸ hmap ih
  | frozenMap es _ ih => exact thaw_frozenMap es ▸ hmap ih
  | view es _ ih => exact thaw_view es ▸ hmap ih
  | config n b es _ ih => exact thaw_config n b es ▸ hmap ih
  | labelled l v _ ih => exact (thaw_labelled l v).symm ▸ ih

/-- The entries of a mapping are those of the other one in other forms. -/
theorem Arranged.exists_mapping? {es : Entries} (h : Arranged v w) (hes : v.mapping? = some es) :
    ∃ fs, w.mapping? = some fs ∧ es.Pointwise Arranged fs := by
  induction v using Value.induction generalizing w with
  | leaf v hl => cases v <;> first | exact absurd hl Bool.false_ne_true | cases hes
  | list | frozenList | tuple | set => cases hes
  | map es' | frozenMap es' | view es' | config n b es' =>
    obtain ⟨fs, rfl, hfs⟩ := h.arrangement
    cases hes
    exact ⟨fs, rfl, hfs⟩
  | labelled l v ih =>
    obtain ⟨u, rfl, hu⟩ := h.arrangement
    obtain ⟨fs, hfs, hsame⟩ := ih hu hes
    exact ⟨fs, hfs, hsame⟩

theorem keepsFrozen_arranged : KeepsFrozen Arranged where
  leaf _ _ hl h := h.eq_of_isLeaf hl
  frozenList _ _ h := h.arrangement
  frozenMap _ _ h := h.arrangement

end Value

namespace Json

open Value

section

variable {xs ys : List Value} {es fs : Entries}

theorem moreItems_congr (h : List.Forall₂ (fun x y => valueText x = valueText y) xs ys) : moreItems xs = moreItems ys := by
  induction h with
  | nil => rfl
  | cons hxy _ ih => rw [moreItems, moreItems, hxy, ih]

theorem itemsIn_congr (h : List.Forall₂ (fun x y => valueText x = valueText y) xs ys) : itemsIn xs = itemsIn ys := by
  cases h with
  | nil => rfl
  | cons hxy hrest => rw [itemsIn, itemsIn, hxy, moreItems_congr hrest]

theorem moreMembers_congr (h : es.Pointwise (fun x y => valueText x = valueText y) fs) :
    moreMembers es = moreMembers fs := by
  induction h with
  | nil => rfl
  | cons hef _ ih => rw [moreMembers, moreMembers, hef.1, hef.2, ih]

theorem membersIn_congr (h : es.Pointwise (fun x y => valueText x = valueText y) fs) : membersIn es = membersIn fs := by
  cases h with
  | nil => rfl
  | cons hef hrest => rw [membersIn, membersIn, hef.1, hef.2, moreMembers_congr hrest]

end

/-- In JSON no set has a text, and the error does not show its elements. -/
theorem valueText_of_arranged {v w : Value} (h : Arranged v w) : valueText v = valueText w := by
  refine arranged_induction (P := fun v w => valueText v = valueText w) ?leaf ?list ?frozenList ?tuple ?set
    ?map ?frozenMap ?view ?config ?labelled h
  case leaf => exact fun _ _ => rfl
  case list => exact fun xs ys ih => itemsIn_congr ih
  case frozenList => exact fun xs ys ih => itemsIn_congr ih
  case tuple => exact fun xs ys ih => itemsIn_congr ih
  case set => exact fun xs ys _ => rfl
  case map => exact fun es fs ih => membersIn_congr ih
  case frozenMap => exact fun es fs ih => membersIn_congr ih
  case view => exact fun es fs _ => rfl
  case config => exact fun n b es fs _ => rfl
  case labelled => exact fun l v w ih => ih

end Json
end TopologyConfig
