import TopologyConfig.Yaml.Scalar

/-!
Places in a text. Where a cursor goes when it skips characters of one line, a line feed with the indentation after it,
or blanks before what comes next.
-/
namespace TopologyConfig.Yaml

/-- The character stands on a line and takes a column of it. -/
def TakesColumn (x : Char) : Prop := isBreak x = false ∧ x ≠ byteOrderMark

theorem takesColumn_space : TakesColumn ' ' := ⟨rfl, by decide⟩

/-- A new line with its indentation. -/
def newLine (n : Nat) : List Char := '\n' :: List.replicate n ' '

@[simp] theorem length_newLine (n : Nat) : (newLine n).length = n + 1 := by simp [newLine]

theorem newLine_append (n : Nat) (rest : List Char) :
    newLine n ++ rest = '\n' :: (List.replicate n ' ' ++ rest) := rfl

namespace Cursor

variable {c : Cursor} {x : Char} {cs rest : List Char}

theorem rest_next (c : Cursor) : c.next.rest = c.rest.tail := by
  unfold next
  split
  · next h => simp [h]
  · next h =>
    rw [h]
    split
    · rfl
    · split <;> rfl

theorem rest_skip (n : Nat) (c : Cursor) : (c.skip n).rest = c.rest.drop n := by
  induction n generalizing c with
  | zero => rfl
  | succ n ih => rw [skip, ih, rest_next, List.drop_tail]

theorem skip_add (m n : Nat) (c : Cursor) : c.skip (m + n) = (c.skip m).skip n := by
  induction m generalizing c with
  | zero => rw [Nat.zero_add, skip]
  | succ m ih => rw [Nat.add_right_comm, skip, ih, skip]

theorem rest_skip_append {n : Nat} (h : c.rest = cs ++ rest) (hn : cs.length = n) : (c.skip n).rest = rest := by
  rw [rest_skip, h, List.drop_left' hn]

theorem length_rest_skip_lt {n : Nat} (h : c.rest = x :: rest) (hn : 0 < n) :
    (c.skip n).rest.length < c.rest.length := by
  rw [rest_skip, List.length_drop, h, List.length_cons]
  omega

theorem line_le_next (c : Cursor) : c.line ≤ c.next.line := by
  unfold next
  split
  · exact Nat.le_refl _
  · split
    · exact Nat.le_succ _
    · split <;> exact Nat.le_refl _

theorem line_le_skip (n : Nat) (c : Cursor) : c.line ≤ (c.skip n).line := by
  induction n generalizing c with
  | zero => exact Nat.le_refl _
  | succ n ih => exact Nat.le_trans (line_le_next c) (ih c.next)

theorem next_of_takesColumn (h : c.rest = x :: rest) (hx : TakesColumn x) :
    c.next = ⟨rest, c.index + 1, c.line, c.column + 1⟩ := by
  have hmark : (x == byteOrderMark) = false := beq_eq_false_iff_ne.mpr hx.2
  rw [next, h]
  simp [hx.1, hmark]

theorem skip_of_takesColumn (h : c.rest = cs ++ rest) (hcs : ∀ x ∈ cs, TakesColumn x) :
    c.skip cs.length = ⟨rest, c.index + cs.length, c.line, c.column + cs.length⟩ := by
  induction cs generalizing c with
  | nil =>
    have hrest : c.rest = rest := h
    rw [← hrest]
    rfl
  | cons x cs ih =>
    obtain ⟨hx, hcs⟩ := List.forall_mem_cons.mp hcs
    have hnext := next_of_takesColumn h hx
    rw [List.length_cons, skip, hnext, ih rfl hcs]
    simp [Nat.add_assoc, Nat.add_comm 1]

theorem skip_spaces {n : Nat} (h : c.rest = List.replicate n ' ' ++ rest) :
    c.skip n = ⟨rest, c.index + n, c.line, c.column + n⟩ := by
  have hspaces : ∀ x ∈ List.replicate n ' ', TakesColumn x := by
    intro x hx
    rw [List.eq_of_mem_replicate hx]
    exact takesColumn_space
  have := skip_of_takesColumn h hspaces
  rwa [List.length_replicate] at this

theorem next_of_isBreak (h : c.rest = x :: rest) (hx : isBreak x = true) (hreturn : x ≠ '\r') :
    c.next = ⟨rest, c.index + 1, c.line + 1, 0⟩ := by
  rw [next, h]
  simp [hx, hreturn]

/-- Beyond a line feed and the indentation after it. -/
theorem skip_newLine {n : Nat} (h : c.rest = newLine n ++ rest) :
    c.skip (n + 1) = ⟨rest, c.index + (n + 1), c.line + 1, n⟩ := by
  rw [skip, next_of_isBreak h rfl (by decide), skip_spaces rfl]
  simp [Nat.add_comm 1, Nat.add_assoc]

/-- A break other than a return, in its plain form. -/
theorem lineBreak?_of_isBreak (h : c.rest = x :: rest) (hx : isBreak x = true) (hreturn : x ≠ '\r') :
    c.lineBreak? = some (if x = '\x85' then '\n' else x, c.next) := by
  simp only [isBreak, Bool.or_eq_true, beq_iff_eq] at hx
  rcases hx with (((rfl | rfl) | rfl) | rfl) | rfl
  · simp only [lineBreak?, h]
    rfl
  · exact absurd rfl hreturn
  · simp only [lineBreak?, h]
    rfl
  · simp only [lineBreak?, h]
    rfl
  · simp only [lineBreak?, h]
    rfl

theorem lineBreak?_eq_none (h : ∀ y ∈ c.rest.head?, isBreak y = false) : c.lineBreak? = none := by
  unfold lineBreak?
  split
  all_goals first
    | rfl
    | next hrest =>
      rw [hrest] at h
      exact absurd (h _ rfl) (by decide)

end Cursor
end TopologyConfig.Yaml
