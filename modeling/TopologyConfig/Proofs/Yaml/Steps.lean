import Mathlib.Logic.Relation
import TopologyConfig.Proofs.Yaml.ScalarLines
import TopologyConfig.Proofs.Yaml.Tokens

/-!
The steps of the lexer. Between two tokens it goes through blanks, gives up keys that cannot be any more and closes
collections; where it stands then decides about its next step, and a text is read in as many steps as it has tokens.
-/
namespace TopologyConfig.Yaml

/-- Where the next token may begin: in front of ink, but of no mark of a document. -/
structure Begins (cs : List Char) : Prop where
  ink : ∀ x ∈ cs.head?, x ≠ ' ' ∧ x ≠ '#' ∧ TakesColumn x
  noMark : ∀ mark ∈ ['-', '.'], cs.take 3 ≠ [mark, mark, mark]

namespace Lexer

/-- A lexer of the block context that has no key to wait for. -/
def stand (c : Cursor) (before : List Token) (m : Int) (outer : List Int) (allowed : Bool) : Lexer :=
  ⟨c, before.toArray, 0, m, outer, allowed, [], false⟩

/-- Behind the blanks in front of the next token. -/
def Arrives (l s : Lexer) : Prop := ∃ l', l.toNextToken.dropStaleKeys = .ok l' ∧ l'.unwind l'.column = s

/-- Appends the token that the lexer stands at. -/
def act (l : Lexer) : Except Fault Lexer :=
  match l.cursor.peek with
  | none => l.fetchStreamEnd
  | some x => l.fetchAt x

/-- From one token to the next one. -/
def Step (s s' : Lexer) : Prop :=
  ∃ l, s.act = .ok l ∧ l.finished = false ∧ l.cursor.rest.length < s.cursor.rest.length ∧ Arrives l s'

/-- Through any number of tokens. -/
abbrev Steps : Lexer → Lexer → Prop := Relation.ReflTransGen Step

/-- The lexer comes to stand in front of a later token. -/
def Leads (l s : Lexer) : Prop := ∃ s₀, Arrives l s₀ ∧ Steps s₀ s

variable {l s s' : Lexer}

theorem fetch_of_arrives (h : Arrives l s) : l.fetch = s.act := by
  obtain ⟨l', hdrop, rfl⟩ := h
  rw [fetch, hdrop]
  rfl

theorem Arrives.length_le (h : Arrives l s) : s.cursor.rest.length ≤ l.cursor.rest.length := by
  obtain ⟨l', hdrop, rfl⟩ := h
  have hkeys := scans_dropStaleKeys l.toNextToken
  rw [hdrop] at hkeys
  rw [cursor_unwind]
  exact ((reaches_toNextToken l).trans hkeys).length_le

theorem Leads.trans (h : Leads l s) (h' : Steps s s') : Leads l s' := by
  obtain ⟨s₀, harrives, hsteps⟩ := h
  exact ⟨s₀, harrives, hsteps.trans h'⟩

theorem Step.of_leads {l' : Lexer} (hact : s.act = .ok l') (hfinished : l'.finished = false)
    (hless : l'.cursor.rest.length < s.cursor.rest.length) (h : Leads l' s') : Steps s s' := by
  obtain ⟨s₀, harrives, hsteps⟩ := h
  exact .head ⟨l', hact, hfinished, hless, harrives⟩ hsteps

/-- The token that the lexer stands at is read, and then there is a fault before the text has ended. -/
def Stuck (s : Lexer) : Prop :=
  ∃ l f, s.act = .ok l ∧ l.finished = false ∧ l.cursor.rest.length < s.cursor.rest.length ∧ .streamEnd ∉ l.tokens ∧
    l.fetch = .error f

/-- Whatever the lexer comes to stand at is read next, and there is fuel enough for it. -/
theorem Leads.readFrom (h : Leads l s) (hfinished : l.finished = false) {fuel : Nat}
    (hfuel : l.cursor.rest.length + 2 ≤ fuel) :
    ∃ l' fuel', Arrives l' s ∧ l'.finished = false ∧ l'.cursor.rest.length + 2 ≤ fuel' ∧
      TokenStream.readFrom fuel l = TokenStream.readFrom fuel' l' := by
  obtain ⟨s₀, harrives, hsteps⟩ := h
  induction hsteps using Relation.ReflTransGen.head_induction_on generalizing l fuel with
  | refl => exact ⟨l, fuel, harrives, hfinished, hfuel, rfl⟩
  | head hstep _ ih =>
    obtain ⟨l₁, hact, hfinished₁, hless, harrives₁⟩ := hstep
    obtain ⟨f, rfl⟩ := Nat.exists_eq_add_one_of_ne_zero (n := fuel) (by omega)
    have hlength := harrives.length_le
    have hfuel₁ : l₁.cursor.rest.length + 2 ≤ f := by omega
    obtain ⟨l', fuel', harrives', hfinished', hfuel', hread⟩ := ih hfinished₁ hfuel₁ harrives₁
    refine ⟨l', fuel', harrives', hfinished', hfuel', ?_⟩
    have hone : TokenStream.readFrom (f + 1) l = TokenStream.readFrom f l₁ := by
      rw [TokenStream.readFrom, hfinished, fetch_of_arrives harrives, hact]
      rfl
    rw [hone, hread]

/-- Where the lexer gets stuck, the tokens have no end. -/
theorem Leads.streamEnd_not_mem (h : Leads l s) (hs : Stuck s) (hfinished : l.finished = false) {fuel : Nat}
    (hfuel : l.cursor.rest.length + 2 ≤ fuel) : .streamEnd ∉ (TokenStream.readFrom fuel l).tokens := by
  obtain ⟨l', fuel', harrives, hfinished', hfuel', hread⟩ := h.readFrom hfinished hfuel
  obtain ⟨l₁, f, hact, hfinished₁, -, hopen, hfetch⟩ := hs
  obtain ⟨n, rfl⟩ : ∃ n, fuel' = n + 2 := ⟨fuel' - 2, by omega⟩
  have hlast : TokenStream.readFrom (n + 2) l' = ⟨l₁.tokens.toList.take l₁.settled, some f⟩ := by
    rw [TokenStream.readFrom, hfinished', fetch_of_arrives harrives, hact]
    dsimp only
    rw [TokenStream.readFrom, hfinished₁, hfetch]
    rfl
  rw [hread, hlast]
  exact fun hmem => hopen (Array.mem_toList_iff.mp (List.mem_of_mem_take hmem))

/-! Blanks. -/

section

variable {rest : List Char} {k : Nat}

theorem skipBlank_eq (fuel : Nat) (hl : l.cursor.rest = List.replicate k ' ' ++ rest) (h : Begins rest) :
    skipBlank (fuel + 1) l = { l with cursor := l.cursor.skip k } := by
  have hspaces : l.cursor.skipSpaces = l.cursor.skip k := by
    rw [Cursor.skipSpaces, Cursor.skipWhile, hl, PlainText.takeWhile_spaces k fun x hx => (h.ink x hx).1,
      List.length_replicate]
  have hskip := Cursor.skip_spaces hl
  have hcomment : (l.cursor.skip k).skipComment = l.cursor.skip k := by
    rw [Cursor.skipComment, if_neg]
    rw [hskip, beq_iff_eq]
    exact fun he => (h.ink _ he).2.1 rfl
  have hbreak : (l.cursor.skip k).lineBreak? = none := by
    rw [hskip]
    exact Cursor.lineBreak?_eq_none fun x hx => (h.ink x hx).2.2.1
  rw [skipBlank]
  simp only [hspaces, hcomment, hbreak]

theorem toNextToken_spaces (hl : l.cursor.rest = List.replicate k ' ' ++ rest) (h : Begins rest) :
    l.toNextToken = { l with cursor := l.cursor.skip k } := by
  have hmark : ¬ (l.cursor.index == 0 && l.cursor.peek == some byteOrderMark) = true := by
    have hpeek : l.cursor.peek ≠ some byteOrderMark := by
      rw [Cursor.peek, hl]
      cases k with
      | zero => exact fun he => (h.ink _ he).2.2.2 rfl
      | succ k => exact fun he => absurd (Option.some.inj he) (by decide)
    simp [hpeek]
  rw [toNextToken]
  simp only [if_neg hmark]
  exact skipBlank_eq _ hl h

theorem toNextToken_newLine (hl : l.cursor.rest = newLine k ++ rest) (h : Begins rest) (hflow : l.flowLevel = 0) :
    l.toNextToken = { l with cursor := l.cursor.skip (k + 1), keyAllowed := true } := by
  rw [newLine_append] at hl
  have hmark : ¬ (l.cursor.index == 0 && l.cursor.peek == some byteOrderMark) = true := by
    have hpeek : l.cursor.peek = some '\n' := by rw [Cursor.peek, hl, List.head?_cons]
    simp [hpeek, byteOrderMark]
  have hspaces : l.cursor.skipSpaces = l.cursor := by
    rw [Cursor.skipSpaces, Cursor.skipWhile, hl]
    rfl
  have hcomment : l.cursor.skipComment = l.cursor := by
    rw [Cursor.skipComment, if_neg]
    simp [Cursor.peek, hl]
  have hbreak : l.cursor.lineBreak? = some ('\n', l.cursor.next) := Cursor.lineBreak?_of_isBreak hl rfl (by decide)
  have hnext : l.cursor.next.rest = List.replicate k ' ' ++ rest := by rw [Cursor.rest_next, hl, List.tail_cons]
  have hallowed : (l.keyAllowed || !l.inFlow) = true := by simp [inFlow, hflow]
  have hlen : l.cursor.rest.length = (List.replicate k ' ' ++ rest).length + 1 := by rw [hl, List.length_cons]
  rw [toNextToken]
  simp only [if_neg hmark]
  rw [hlen, skipBlank]
  simp only [hspaces, hcomment, hbreak, hallowed]
  exact skipBlank_eq _ hnext h

end

/-! The keys that may still come. -/

theorem dropStaleKeys_stale (h : ∀ k ∈ l.possibleKeys, k.required = false ∧ k.line ≠ l.cursor.line) :
    l.dropStaleKeys = .ok { l with possibleKeys := [] } := by
  have hrequired : ¬ l.possibleKeys.any (fun k => k.isStale l.cursor && k.required) = true := by
    simpa using fun k hk _ => (h k hk).1
  have hstale : l.possibleKeys.filter (!·.isStale l.cursor) = [] := by
    simpa [PossibleKey.isStale] using fun k hk hline => absurd hline (h k hk).2
  rw [dropStaleKeys, if_neg hrequired, hstale]

theorem dropStaleKeys_fresh (h : ∀ k ∈ l.possibleKeys, k.line = l.cursor.line ∧ l.cursor.index ≤ k.index + 1024) :
    l.dropStaleKeys = .ok l := by
  have hstale : ∀ k ∈ l.possibleKeys, k.isStale l.cursor = false := by
    intro k hk
    simp [PossibleKey.isStale, (h k hk).1, (h k hk).2]
  have hrequired : ¬ l.possibleKeys.any (fun k => k.isStale l.cursor && k.required) = true := by
    simpa using fun k hk hs => absurd hs (by simp [hstale k hk])
  have hkeep : l.possibleKeys.filter (!·.isStale l.cursor) = l.possibleKeys := by
    rw [List.filter_eq_self]
    intro k hk
    rw [hstale k hk]
    rfl
  rw [dropStaleKeys, if_neg hrequired, hkeep]

/-! Collections that end. -/

theorem unwind_of_le {column : Int} (h : l.indent ≤ column) : l.unwind column = l := by
  have hstay : ¬ l.indent > column := by omega
  rw [unwind]
  split
  · rfl
  · cases l.outerIndents with
    | nil => rfl
    | cons outer rest => rw [unwindFrom, if_neg hstay]

theorem unwind_stand_of_le {c : Cursor} {before : List Token} {m column : Int} {outer : List Int} {allowed : Bool}
    (h : m ≤ column) : (stand c before m outer allowed).unwind column = stand c before m outer allowed :=
  unwind_of_le h

theorem unwind_stand_of_lt {c : Cursor} {before : List Token} {m d column : Int} {outer : List Int} {allowed : Bool}
    (h : column < m) : (stand c before m (d :: outer) allowed).unwind column =
      (stand c (before ++ [.blockEnd]) d outer allowed).unwind column := by
  have hpush : (stand c before m (d :: outer) allowed).push .blockEnd =
      stand c (before ++ [.blockEnd]) m (d :: outer) allowed := by
    simp [push, stand]
  have hbeyond : (stand c before m (d :: outer) allowed).indent > column := h
  change unwindFrom column (d :: outer) _ = unwindFrom column outer _
  rw [unwindFrom, if_pos hbeyond, hpush]
  rfl

/-! Arrivals in front of the next token. -/

section

variable {c : Cursor} {before : List Token} {m : Int} {outer : List Int} {allowed : Bool} {rest : List Char} {k : Nat}

theorem arrives_spaces (hc : c.rest = List.replicate k ' ' ++ rest) (h : Begins rest) (hm : m ≤ c.column + k) :
    Arrives (stand c before m outer allowed) (stand (c.skip k) before m outer allowed) := by
  have hnext := toNextToken_spaces (l := stand c before m outer allowed) hc h
  have hcolumn : (c.skip k).column = c.column + k := by rw [Cursor.skip_spaces hc]
  refine ⟨stand (c.skip k) before m outer allowed, ?_, unwind_of_le ?_⟩
  · rw [hnext]
    exact dropStaleKeys_stale (by simp [stand])
  · simp only [column, stand, hcolumn]
    exact hm

/-- On a new line no key is left, and collections may end. -/
theorem arrives_newLine {keys : List PossibleKey} (hc : c.rest = newLine k ++ rest) (h : Begins rest)
    (hkeys : ∀ key ∈ keys, key.required = false ∧ key.line ≤ c.line) :
    Arrives { stand c before m outer allowed with possibleKeys := keys }
      ((stand (c.skip (k + 1)) before m outer true).unwind k) := by
  have hnext := toNextToken_newLine (l := { stand c before m outer allowed with possibleKeys := keys }) hc h rfl
  have hskip := Cursor.skip_newLine hc
  refine ⟨stand (c.skip (k + 1)) before m outer true, ?_, ?_⟩
  · rw [hnext]
    refine dropStaleKeys_stale fun key hkey => ⟨(hkeys key hkey).1, ?_⟩
    have hline := (hkeys key hkey).2
    simp only [stand, hskip]
    omega
  · simp only [column, stand, hskip]
    rfl

theorem arrives_nextLine (hc : c.rest = newLine k ++ rest) (h : Begins rest) :
    Arrives (stand c before m outer allowed) ((stand (c.skip (k + 1)) before m outer true).unwind k) := by
  have harrives : Arrives { stand c before m outer allowed with possibleKeys := [] } _ :=
    arrives_newLine hc h (by simp)
  exact harrives

/-- Where the blanks are gone through already. -/
theorem arrives_here {keys : List PossibleKey} (h : Begins c.rest) (hk : c.column = k)
    (hkeys : ∀ key ∈ keys, key.required = false ∧ key.line ≠ c.line) :
    Arrives { stand c before m outer allowed with possibleKeys := keys }
      ((stand c before m outer allowed).unwind k) := by
  subst hk
  have hnext := toNextToken_spaces (l := { stand c before m outer allowed with possibleKeys := keys }) (k := 0) rfl h
  refine ⟨stand c before m outer allowed, ?_, rfl⟩
  rw [hnext]
  exact dropStaleKeys_stale hkeys

/-- In front of the colon a key is not given up. -/
theorem arrives_colon {key : PossibleKey} (hc : c.rest = ':' :: rest) (hm : m ≤ c.column) (hline : key.line = c.line)
    (hindex : c.index ≤ key.index + 1024) :
    Arrives { stand c before m outer allowed with possibleKeys := [key] }
      { stand c before m outer allowed with possibleKeys := [key] } := by
  have hbegins : Begins c.rest := by
    rw [hc]
    refine ⟨?_, ?_⟩
    · intro x hx
      cases hx
      exact ⟨by decide, by decide, rfl, by decide⟩
    · intro mark hmark he
      rw [List.take_succ_cons, List.cons.injEq] at he
      simp [← he.1] at hmark
  have hnext := toNextToken_spaces (l := { stand c before m outer allowed with possibleKeys := [key] }) (k := 0) rfl
    hbegins
  refine ⟨{ stand c before m outer allowed with possibleKeys := [key] }, ?_, unwind_of_le hm⟩
  rw [hnext]
  exact dropStaleKeys_fresh (by simpa [Cursor.skip, stand] using ⟨hline, hindex⟩)

end

end Lexer

end TopologyConfig.Yaml
