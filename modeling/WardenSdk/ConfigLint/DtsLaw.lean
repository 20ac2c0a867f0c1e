import WardenSdk.ConfigLint.DtsSteps

/-!
# What the scanner takes from a devicetree source

The scanner takes every range from a node inside a `reserved-memory` node as long as
the raw text does not mislead it: the word stands only where such a node is about to
open, the braces inside the node are those of its children, and what looks like a
`reg` property inside it is one of a child.  A source where the word stands in a
comment makes an ordinary node pass for reserved memory.

The proof follows the scanner.  Up to the first occurrence of the word no reserved
node can open.  From the brace on, the raw depth of the scanner is the depth of the
reader's stack (`braceBlock_inside`), so that the block is the node.  Inside it, a
`reg` token followed by an equals sign is the name of a property (`atReg_of_token`),
and its two numbers are the first two cells (`firstPair_of_readPair`).
-/

namespace WardenSdk
namespace ConfigLint

open Lib

/-! ## A `reg` token is a property name -/

/-- White space in code only ends the current word. -/
theorem run_spaces {σ : Reader} (hmode : σ.mode = .code) {sp : Text}
    (hsp : ∀ c ∈ sp, isRegSpace c = true) :
    ∃ g, run Reader.step σ sp = { σ with gap := g } := by
  induction sp generalizing σ with
  | nil => exact ⟨σ.gap, rfl⟩
  | cons c sp ih =>
    have hstep : σ.step c = { σ with gap := true } := by
      have hc := hsp c List.mem_cons_self
      simp only [isRegSpace, Bool.or_eq_true, beq_iff_eq] at hc
      obtain ⟨mode, stack, words, gap, inValue⟩ := σ
      cases hmode
      rcases hc with ((rfl | rfl) | rfl) | rfl <;> rfl
    rw [run_cons, hstep]
    obtain ⟨g, hg⟩ := ih (σ := { σ with gap := true }) hmode
      fun d hd => hsp d (List.mem_cons_of_mem _ hd)
    exact ⟨g, hg⟩

/-- A property name is the only word of its statement. -/
theorem words_of_equals {σ : Reader} (h : σ.equals.mode ≠ .bad)
    (hvalue : σ.inValue = false) : ∃ w, σ.words = [w] ∧ w.all isNameChar = true := by
  unfold Reader.equals at h
  rw [hvalue] at h
  split at h
  · rename_i heq; cases heq
  · rename_i w _ hwords
    split_ifs at h with hname
    · exact ⟨w, hwords, hname⟩
    · exact absurd rfl h
  · exact absurd rfl h

/-- Reading `reg` in code, after a gap. -/
theorem run_reg {σ : Reader} (hmode : σ.mode = .code) (hgap : σ.gap = true) :
    run Reader.step σ "reg".toList = { σ with words := "reg".toList :: σ.words, gap := false } := by
  obtain ⟨mode, stack, words, gap, inValue⟩ := σ
  cases hmode
  cases hgap
  rfl

/-- Reading `reg` after a slash or an ampersand makes both one word. -/
theorem run_reg_held {σ : Reader} (hmode : σ.mode = .slash ∨ σ.mode = .amp) :
    ∃ w ws, run Reader.step σ "reg".toList = ⟨.code, σ.stack, w :: ws, false, σ.inValue⟩ ∧
      w.all isNameChar = false := by
  obtain ⟨mode, stack, words, gap, inValue⟩ := σ
  rcases hmode with hm | hm <;> cases hm <;> cases gap <;> cases words with
  | nil => exact ⟨_, _, rfl, by decide⟩
  | cons w ws => exact ⟨_, _, rfl, by simp [isNameChar]⟩

/-- The last character read is a name character. -/
def endsInName (pre : Text) : Bool := pre.getLast?.any isNameChar

/-- **A `reg` token followed by an equals sign is the name of a property**, when it
is read in code, outside a value, and no longer name ends in it. -/
theorem atReg_of_token {pre sp s : Text}
    (hwf : WellFormed (pre ++ "reg".toList ++ sp ++ '=' :: s))
    (hsp : ∀ c ∈ sp, isRegSpace c = true)
    (hmode : (read pre).mode = .code ∨ (read pre).mode = .slash ∨ (read pre).mode = .amp)
    (hvalue : (read pre).inValue = false) (hlast : endsInName pre = false) :
    (read (pre ++ "reg".toList ++ sp)).AtReg ∧
      (read (pre ++ "reg".toList ++ sp)).stack = (read pre).stack := by
  have hequals : (read (pre ++ "reg".toList ++ sp)).mode = .code →
      (read (pre ++ "reg".toList ++ sp)).equals.mode ≠ .bad := by
    intro hcode
    have hnext : WellFormed ((pre ++ "reg".toList ++ sp ++ ['=']) ++ s) := by
      rw [List.append_assoc _ ['='] s]
      exact hwf
    have hbad := hnext.mode_ne_bad
    rw [read_append, run_cons, run_nil, Reader.step, hcode] at hbad
    exact hbad
  rcases hmode with hcode | hheld
  · have hstart : (Reader.resting []).inReserved = false := rfl
    have hgap : (read pre).gap = true := by
      rw [← Bool.not_eq_false]
      intro hgap
      obtain ⟨c, hc, hname⟩ := (follows_run hstart pre).last hcode hgap
      rw [endsInName, hc, Option.any_some, hname] at hlast
      cases hlast
    obtain ⟨g, hspaces⟩ := run_spaces (σ := { read pre with
      words := "reg".toList :: (read pre).words, gap := false }) hcode hsp
    have hread : read (pre ++ "reg".toList ++ sp) = { read pre with
        words := "reg".toList :: (read pre).words, gap := g } := by
      rw [read_append, read_append, run_reg hcode hgap, hspaces]
    rw [hread] at hequals ⊢
    obtain ⟨w, hwords, -⟩ := words_of_equals (hequals hcode) hvalue
    obtain ⟨-, hnil⟩ := List.cons.inj hwords
    exact ⟨⟨hcode, hvalue, congrArg (List.cons _) hnil⟩, rfl⟩
  · obtain ⟨w, ws, hreg, hname⟩ := run_reg_held hheld
    obtain ⟨g, hspaces⟩ := run_spaces (σ := ⟨.code, (read pre).stack, w :: ws, false,
      (read pre).inValue⟩) rfl hsp
    have hread : read (pre ++ "reg".toList ++ sp) =
        ⟨.code, (read pre).stack, w :: ws, g, (read pre).inValue⟩ := by
      rw [read_append, read_append, hreg, hspaces]
    rw [hread] at hequals
    obtain ⟨w', hwords, hname'⟩ := words_of_equals (hequals rfl) hvalue
    obtain ⟨rfl, -⟩ := List.cons.inj hwords
    rw [hname] at hname'
    cases hname'

/-! ## The two numbers are the first two cells -/

/-- The first opening bracket of the text is the one that opens the value. -/
def opensValue (s : Text) : Bool := skip isHeadChar .none s == s.dropWhile (· != '<')

/-- The first two words between the next pair of angle brackets. -/
def pairWords (s : Text) : List Text :=
  ((splitOnce '<' s).bind fun p => splitOnce '>' p.2).elim [] fun p => (splitWhitespace p.1).take 2

/-- The word is a number in the source too, and the same one. -/
def plainNumber (w : Text) : Bool := literal w == (parseAddr w).map UInt64.toNat

theorem skip_cons {accept : Char → Bool} {c : Char} (hc : c ≠ '/') (s : Text) :
    skip accept .none (c :: s) = if accept c then skip accept .none s else c :: s := by
  rw [skip] <;> simp [hc]

theorem skip_spaces {sp t : Text} (hsp : ∀ c ∈ sp, isWhitespace c = true)
    (ht : ∀ c ∈ t.head?, c.isAlphanum = true) (hne : t ≠ []) :
    skip isWhitespace .none (sp ++ t) = t := by
  induction sp with
  | nil =>
    cases t with
    | nil => exact absurd rfl hne
    | cons c t =>
      have hc := ht c rfl
      rw [List.nil_append, skip_cons (by rintro rfl; exact absurd hc (by decide)),
        if_neg (by rw [isWhitespace_of_isAlphanum hc]; decide)]
  | cons c sp ih =>
    have hc := hsp c List.mem_cons_self
    rw [List.cons_append, skip_cons (by rintro rfl; exact absurd hc (by decide)), if_pos hc,
      ih fun d hd => hsp d (List.mem_cons_of_mem _ hd)]

theorem isAlphanum_of_literal {w : Text} {n : ℕ} (h : literal w = some n) :
    w ≠ [] ∧ ∀ c ∈ w, c.isAlphanum = true := by
  have hcons {c : Char} {t : Text} (hc : c.isAlphanum = true)
      (ht : t ≠ [] ∧ ∀ d ∈ t, d.isAlphanum = true) :
      c :: t ≠ [] ∧ ∀ d ∈ c :: t, d.isAlphanum = true := by
    refine ⟨List.cons_ne_nil _ _, fun d hd => ?_⟩
    rcases List.mem_cons.mp hd with rfl | hd
    · exact hc
    · exact ht.2 d hd
  unfold literal at h
  split at h
  · exact hcons (by decide) (hcons (by decide) (isAlphanum_of_fromDigits h))
  · exact hcons (by decide) (hcons (by decide) (isAlphanum_of_fromDigits h))
  · exact hcons (by decide) (isAlphanum_of_fromDigits h)
  · exact isAlphanum_of_fromDigits h

/-- A literal, read off the text it stands in front of. -/
theorem cell_of_literal {w t : Text} {n : ℕ} (h : literal w = some n)
    (ht : ∀ c ∈ t.head?, c.isAlphanum = false) : cell (w ++ t) = some (n, t) := by
  obtain ⟨-, hw⟩ := isAlphanum_of_literal h
  have htake : t.takeWhile Char.isAlphanum = [] := by
    cases t with
    | nil => rfl
    | cons c t => exact List.takeWhile_cons_of_neg (by rw [ht c rfl]; decide)
  have hdrop : t.dropWhile Char.isAlphanum = t := by
    cases t with
    | nil => rfl
    | cons c t => exact List.dropWhile_cons_of_neg (by rw [ht c rfl]; decide)
  rw [cell, List.takeWhile_append_of_pos hw, List.dropWhile_append_of_pos hw, htake, hdrop,
    List.append_nil, h]
  rfl

/-- The next literal after some white space, and the text behind it. -/
theorem cell_skip {sp w t : Text} {n : ℕ} (hw : literal w = some n)
    (hsp : ∀ c ∈ sp, isWhitespace c = true) (ht : ∀ c ∈ t.head?, c.isAlphanum = false) :
    cell (skip isWhitespace .none (sp ++ (w ++ t))) = some (n, t) := by
  obtain ⟨hne, hall⟩ := isAlphanum_of_literal hw
  have hhead : ∀ c ∈ (w ++ t).head?, c.isAlphanum = true := by
    intro c hc
    cases w with
    | nil => exact absurd rfl hne
    | cons d w => exact hall c (Option.mem_some.mp hc ▸ List.mem_cons_self)
  rw [skip_spaces hsp hhead (by simp [hne]), cell_of_literal hw ht]

/-- A word between brackets ends at white space or at the closing bracket. -/
theorem head_not_isAlphanum {t v : Text} (ht : ∀ c ∈ t.head?, isWhitespace c = true) :
    ∀ c ∈ (t ++ '>' :: v).head?, c.isAlphanum = false := by
  intro c hc
  rw [← Bool.not_eq_true]
  intro halnum
  cases t with
  | nil =>
    cases hc
    exact absurd halnum (by decide)
  | cons d t =>
    have hspace := ht c hc
    rw [isWhitespace_of_isAlphanum halnum] at hspace
    cases hspace

theorem literal_of_plainNumber {w : Text} {n : UInt64} (h : plainNumber w = true)
    (hn : parseAddr w = some n) : literal w = some n.toNat := by
  rw [plainNumber, beq_iff_eq, hn] at h
  exact h

theorem firstPair_of_skip {s t : Text} (h : skip isHeadChar .none s = '<' :: t) :
    firstPair s = do
      let (addr, t) ← cell (skip isWhitespace .none t)
      let (size, _) ← cell (skip isWhitespace .none t)
      return (addr, size) := by
  rw [firstPair, h]
  rfl

/-- **The pair that the scanner reads is the pair of cells.** -/
theorem firstPair_of_readPair {s : Text} {r : Range} (h : readPair s = some r)
    (hopens : opensValue s = true) (hplain : ∀ w ∈ pairWords s, plainNumber w = true) :
    firstPair s = some (r.start.toNat, r.size.toNat) := by
  obtain ⟨u, inner, v, addr, size, more, rfl, hlt, hgt, hwords, haddr, hsize⟩ :=
    readPair_eq_some_iff.mp h
  have hu : ∀ c ∈ u, (c != '<') = true := fun c hc => by
    rw [bne_iff_ne]
    rintro rfl
    exact hlt hc
  have hpair : pairWords (u ++ '<' :: (inner ++ '>' :: v)) = [addr, size] := by
    rw [pairWords, splitOnce_eq_some_iff.mpr ⟨rfl, hlt⟩, Option.bind_some,
      splitOnce_eq_some_iff.mpr ⟨rfl, hgt⟩]
    show (splitWhitespace inner).take 2 = _
    rw [hwords]
    rfl
  rw [opensValue, beq_iff_eq, List.dropWhile_append_of_pos hu,
    List.dropWhile_cons_of_neg (by decide)] at hopens
  rw [hpair] at hplain
  have haddr' := literal_of_plainNumber (hplain addr List.mem_cons_self) haddr
  have hsize' := literal_of_plainNumber (hplain size (by simp)) hsize
  -- the first word, and the second one after it
  obtain ⟨sp, t, rfl, hsp, -, ht, hmore⟩ := splitWhitespace_eq_cons hwords
  obtain ⟨sp', t', rfl, hsp', -, ht', -⟩ := splitWhitespace_eq_cons hmore
  have hfirst := cell_skip haddr' hsp (head_not_isAlphanum (v := v) ht)
  have hsecond := cell_skip hsize' hsp' (head_not_isAlphanum (v := v) ht')
  simp only [List.append_assoc] at hfirst hopens ⊢
  rw [firstPair_of_skip hopens, hfirst]
  simp only [Option.bind_eq_bind, Option.bind_some]
  rw [hsecond]
  rfl

/-- The equals sign of a `reg` property inside reserved memory gives its pair. -/
theorem mem_genuineFrom {σ : Reader} {pre s : Text} {p : ℕ × ℕ}
    (hreg : (run Reader.step σ pre).AtReg) (hin : (run Reader.step σ pre).inReservedChild = true)
    (hpair : firstPair s = some p) : p ∈ genuineFrom σ (pre ++ '=' :: s) := by
  induction pre generalizing σ with
  | nil =>
    rw [List.nil_append, genuineFrom, if_pos ⟨rfl, hreg, hin⟩, hpair]
    exact List.mem_append_left _ List.mem_cons_self
  | cons c pre ih =>
    rw [List.cons_append, genuineFrom]
    exact List.mem_append_right _ (ih hreg hin)

/-! ## The block is the node -/

/-- The text reads on without getting lost and closes every node, and the braces
that are met inside reserved memory are read in code. -/
structure PlainBraces (σ : Reader) (s : Text) : Prop where
  ok : ∀ u v, s = u ++ v → (run Reader.step σ u).mode ≠ .bad
  closed : (run Reader.step σ s).stack = []
  inCode : ∀ u c v, s = u ++ c :: v → (c = '{' ∨ c = '}') →
    (run Reader.step σ u).inReserved = true → (run Reader.step σ u).mode.quiet = false

theorem PlainBraces.tail {σ : Reader} {c : Char} {s : Text} (h : PlainBraces σ (c :: s)) :
    PlainBraces (σ.step c) s where
  ok := fun u v hs => h.ok (c :: u) v (by rw [hs]; rfl)
  closed := h.closed
  inCode := fun u d v hs => h.inCode (c :: u) d v (by rw [hs]; rfl)

/-- The brace of a path reference, which the scanner counts as well. -/
def Mode.pathDepth : Mode → ℕ
  | .path => 1
  | _ => 0

/-- The scanner is `depth` braces inside the node `name` that opened over `base`. -/
structure Within (name : Text) (base : List Text) (depth : ℕ) (σ : Reader) : Prop where
  node : name :: base <:+ σ.stack
  depth : σ.stack.length + σ.mode.pathDepth = base.length + depth

section Within

variable {name : Text} {base : List Text} {depth : ℕ} {σ τ : Reader} {c : Char}

theorem Within.inReserved (h : Within name base depth σ) (hname : isReservedName name = true) :
    σ.inReserved = true :=
  List.any_eq_true.mpr ⟨name, h.node.subset List.mem_cons_self, hname⟩

theorem Within.depth_pos (h : Within name base depth σ) : 1 ≤ depth := by
  have hlen := h.node.length_le
  have hdepth := h.depth
  have hpath : σ.mode.pathDepth ≤ 1 := by cases σ.mode <;> decide
  rw [List.length_cons] at hlen
  omega

theorem CodeSteps.stack_eq (h : CodeSteps σ c τ) (h₁ : c ≠ '{') (h₂ : c ≠ '}') :
    τ.stack = σ.stack ∧ τ.mode.pathDepth = 0 := by
  cases h with
  | opens hc => exact absurd hc h₁
  | closes hc => exact absurd hc h₂
  | slash hc => exact ⟨rfl, rfl⟩
  | amp hc => exact ⟨rfl, rfl⟩
  | names hc => exact ⟨rfl, rfl⟩
  | parts hc hτ =>
    refine ⟨hτ.stack, ?_⟩
    obtain ⟨hpath, -⟩ := hτ.mode
    cases hmode : τ.mode <;> first | rfl | contradiction

/-- A character that is no brace moves nothing. -/
theorem Within.other (h : Within name base depth σ) (h₁ : c ≠ '{') (h₂ : c ≠ '}') :
    Within name base depth (σ.step c) := by
  have keep {τ : Reader} (hstack : τ.stack = σ.stack)
      (hpath : τ.mode.pathDepth = σ.mode.pathDepth) : Within name base depth τ :=
    ⟨hstack ▸ h.node, by rw [hstack, hpath]; exact h.depth⟩
  have hstep := σ.step_steps c
  generalize σ.step c = σ' at hstep ⊢
  cases hstep with
  | code hmode hstep =>
    obtain ⟨hstack, hpath⟩ := hstep.stack_eq h₁ h₂
    exact keep hstack (by rw [hpath, hmode]; rfl)
  | slash hmode hstep =>
    obtain ⟨hstack, hpath⟩ := hstep.stack_eq h₁ h₂
    exact keep hstack (by rw [hpath, hmode]; rfl)
  | amp hmode hc hstep =>
    obtain ⟨hstack, hpath⟩ := hstep.stack_eq h₁ h₂
    exact keep hstack (by rw [hpath, hmode]; rfl)
  | enter hmode hc => exact absurd hc h₁
  | inside hmode => exact keep rfl rfl
  | leave hmode hc => exact absurd hc h₂
  | lost hmode hc => exact absurd hc h₁
  | comment hmode hc hτ =>
    refine keep hτ.stack ?_
    obtain ⟨hpath, -⟩ := hτ.mode
    rw [hmode]
    cases hm : σ'.mode <;> first | rfl | contradiction
  | turn hq hτ =>
    refine keep hτ.stack ?_
    obtain ⟨hpath, -⟩ := hτ.mode
    cases hm : σ.mode <;> cases hm' : σ'.mode <;>
      first | rfl | contradiction | (rw [hm] at hq; cases hq)
  | stay hq => exact keep rfl rfl

/-- An opening brace opens a node, or is where the reader gives up. -/
theorem CodeSteps.open_cases (h : CodeSteps σ '{' τ) :
    (∃ w, τ = .resting (w :: σ.stack)) ∨ (τ.mode = .bad ∧ τ.stack = σ.stack) := by
  cases h with
  | @opens w hc hw => exact .inl ⟨w, rfl⟩
  | closes hc => exact absurd hc (by decide)
  | slash hc => exact absurd hc (by decide)
  | amp hc => exact absurd hc (by decide)
  | names hc => exact absurd hc (by decide)
  | parts hc hτ => exact .inr ⟨hc (.inl rfl), hτ.stack⟩

theorem CodeSteps.opens_eq (h : CodeSteps σ '{' τ) (hbad : τ.mode ≠ .bad) :
    ∃ w, τ = .resting (w :: σ.stack) :=
  h.open_cases.resolve_right fun hgiven => hbad hgiven.1

theorem CodeSteps.closes_eq (h : CodeSteps σ '}' τ) (hbad : τ.mode ≠ .bad) :
    σ.words = [] ∧ ∃ w stack, σ.stack = w :: stack ∧ τ = .resting stack := by
  cases h with
  | opens hc => exact absurd hc (by decide)
  | @closes w stack hc hwords hstack => exact ⟨hwords, w, stack, hstack, rfl⟩
  | slash hc => exact absurd hc (by decide)
  | amp hc => exact absurd hc (by decide)
  | names hc => exact absurd hc (by decide)
  | parts hc hτ => exact absurd (hc (.inr rfl)) hbad

/-- An opening brace read in code opens a child or a path reference. -/
theorem Within.openBrace (h : Within name base depth σ) (hquiet : σ.mode.quiet = false)
    (hbad : (σ.step '{').mode ≠ .bad) : Within name base (depth + 1) (σ.step '{') := by
  have child {w : Text} (hpath : σ.mode.pathDepth = 0) :
      Within name base (depth + 1) (.resting (w :: σ.stack)) := by
    refine ⟨h.node.trans (List.suffix_cons _ _), ?_⟩
    have hdepth := h.depth
    show σ.stack.length + 1 + 0 = _
    omega
  have hstep := σ.step_steps '{'
  generalize σ.step '{' = σ' at hstep hbad ⊢
  cases hstep with
  | code hmode hstep =>
    obtain ⟨w, rfl⟩ := hstep.opens_eq hbad
    exact child (by rw [hmode]; rfl)
  | slash hmode hstep =>
    obtain ⟨w, rfl⟩ := hstep.opens_eq hbad
    exact child (by rw [hmode]; rfl)
  | amp hmode hc => exact absurd rfl hc
  | enter hmode =>
    refine ⟨h.node, ?_⟩
    have hdepth := h.depth
    rw [hmode] at hdepth
    show σ.stack.length + 1 = base.length + (depth + 1)
    change σ.stack.length + 0 = base.length + depth at hdepth
    omega
  | inside hmode hc => exact absurd rfl hc
  | leave hmode hc => exact absurd hc (by decide)
  | lost => exact absurd rfl hbad
  | comment hmode hc => exact absurd hc (by decide)
  | turn hq => rw [hquiet] at hq; cases hq
  | stay hq => rw [hquiet] at hq; cases hq

/-- A closing brace read in code closes the node, a child or a path reference. -/
theorem Within.closeBrace (h : Within name base depth σ) (hquiet : σ.mode.quiet = false)
    (hbad : (σ.step '}').mode ≠ .bad) :
    (depth = 1 ∧ σ.step '}' = .resting base) ∨
      (depth ≠ 1 ∧ Within name base (depth - 1) (σ.step '}')) := by
  have hdepth := h.depth
  have hstep := σ.step_steps '}'
  generalize σ.step '}' = σ' at hstep hbad ⊢
  cases hstep with
  | code hmode hstep =>
    obtain ⟨-, w, stack, hstack, rfl⟩ := hstep.closes_eq hbad
    rw [hmode, hstack] at hdepth
    change stack.length + 1 + 0 = _ at hdepth
    have hnode := h.node
    rw [hstack] at hnode
    rcases List.suffix_cons_iff.mp hnode with heq | hsuffix
    · obtain ⟨-, rfl⟩ := List.cons.inj heq
      exact .inl ⟨by omega, rfl⟩
    · have hlen := hsuffix.length_le
      rw [List.length_cons] at hlen
      refine .inr ⟨by omega, hsuffix, ?_⟩
      show stack.length + 0 = _
      omega
  | slash hmode hstep => exact absurd (hstep.closes_eq hbad).1 (σ.words_push_ne_nil '/')
  | amp hmode hc hstep => exact absurd (hstep.closes_eq hbad).1 (σ.words_push_ne_nil '&')
  | enter hmode hc => exact absurd hc (by decide)
  | inside hmode h₁ h₂ => exact absurd rfl h₂
  | leave hmode =>
    rw [hmode] at hdepth
    change σ.stack.length + 1 = _ at hdepth
    have hlen := h.node.length_le
    rw [List.length_cons] at hlen
    refine .inr ⟨by omega, h.node, ?_⟩
    show σ.stack.length + 0 = _
    omega
  | lost hmode hc => exact absurd hc (by decide)
  | comment hmode hc => exact absurd hc (by decide)
  | turn hq => rw [hquiet] at hq; cases hq
  | stay hq => rw [hquiet] at hq; cases hq

/-- **The raw depth is the depth of the reader.**  The block that the scanner cuts
off lies inside the node, and ends where the node ends. -/
theorem braceBlock_inside (hname : isReservedName name = true) {s : Text}
    (h : Within name base depth σ) (hplain : PlainBraces σ s) :
    (∀ u d v, (braceBlock depth s).1 = u ++ d :: v →
      (run Reader.step σ u).inReserved = true) ∧
      run Reader.step σ (braceBlock depth s).1 = .resting base := by
  induction s generalizing σ depth with
  | nil =>
    have hnode := h.node
    rw [show σ.stack = [] from hplain.closed, List.suffix_nil] at hnode
    cases hnode
  | cons c s ih =>
    have hbad : (σ.step c).mode ≠ .bad := hplain.ok [c] s rfl
    -- what the step shows of the block, once the rest is known
    have extend {depth' : ℕ} {block rest : Text} (hblock : braceBlock depth' s = (block, rest))
        (hw : Within name base depth' (σ.step c)) :
        (∀ u d v, c :: block = u ++ d :: v → (run Reader.step σ u).inReserved = true) ∧
          run Reader.step σ (c :: block) = .resting base := by
      obtain ⟨hin, hend⟩ := ih hw hplain.tail
      rw [hblock] at hin hend
      refine ⟨fun u d v hu => ?_, hend⟩
      cases u with
      | nil => exact h.inReserved hname
      | cons e u =>
        obtain ⟨rfl, hblock'⟩ := List.cons.inj hu
        exact hin u d v hblock'
    have hcode (hc : c = '{' ∨ c = '}') : σ.mode.quiet = false :=
      hplain.inCode [] c s rfl hc (h.inReserved hname)
    unfold braceBlock
    split_ifs with hopen hclose hzero
    · subst hopen
      exact extend rfl (h.openBrace (hcode (.inl rfl)) hbad)
    · subst hclose
      have hpos := h.depth_pos
      rcases h.closeBrace (hcode (.inr rfl)) hbad with ⟨-, hend⟩ | ⟨hne, -⟩
      · refine ⟨fun u d v hu => ?_, hend⟩
        cases u with
        | nil => exact h.inReserved hname
        | cons e u => exact absurd (List.cons.inj hu).2 (by simp)
      · omega
    · subst hclose
      rcases h.closeBrace (hcode (.inr rfl)) hbad with ⟨hone, -⟩ | ⟨-, hw⟩
      · omega
      · exact extend rfl hw
    · exact extend rfl (h.other hopen hclose)

end Within

/-- The brace that takes the reader into reserved memory opens a reserved node. -/
theorem opens_of_inReserved {σ : Reader} (hout : σ.inReserved = false)
    (hin : (σ.step '{').inReserved = true) :
    ∃ w, σ.step '{' = .resting (w :: σ.stack) ∧ isReservedName w = true := by
  have same {τ : Reader} (hτ : τ.inReserved = true) : τ.stack ≠ σ.stack := by
    intro hstack
    rw [Reader.inReserved, hstack] at hτ
    rw [Reader.inReserved, hτ] at hout
    cases hout
  have code {τ υ : Reader} (hstep : CodeSteps υ '{' τ) (hstack : υ.stack = σ.stack)
      (hτ : τ.inReserved = true) : ∃ w, τ = .resting (w :: σ.stack) ∧ isReservedName w = true := by
    rcases hstep.open_cases with ⟨w, rfl⟩ | ⟨-, hparts⟩
    · refine ⟨w, by rw [hstack], ?_⟩
      rw [Reader.inReserved, Reader.resting, List.any_cons, hstack] at hτ
      rcases Bool.or_eq_true_iff.mp hτ with hname | hbase
      · exact hname
      · rw [Reader.inReserved, hbase] at hout
        cases hout
    · exact absurd (hparts.trans hstack) (same hτ)
  have hstep := σ.step_steps '{'
  generalize σ.step '{' = σ' at hstep hin ⊢
  cases hstep with
  | code hmode hstep => exact code hstep rfl hin
  | slash hmode hstep => exact code hstep rfl hin
  | amp hmode hc hstep => exact code hstep rfl hin
  | enter => exact absurd rfl (same hin)
  | inside => exact absurd rfl (same hin)
  | leave => exact absurd rfl (same hin)
  | lost => exact absurd rfl (same hin)
  | comment hmode hc hτ => exact absurd hτ.stack (same hin)
  | turn hq hτ => exact absurd hτ.stack (same hin)
  | stay => exact absurd rfl (same hin)

theorem CodeSteps.inReserved_eq_false {σ τ : Reader} {c : Char} (h : CodeSteps σ c τ)
    (hout : σ.inReserved = false) (hc : c ≠ '{') : τ.inReserved = false := by
  cases h with
  | opens hopen => exact absurd hopen hc
  | @closes w stack hclose hwords hstack =>
    rw [Reader.inReserved, hstack, List.any_cons, Bool.or_eq_false_iff] at hout
    exact hout.2
  | slash => exact hout
  | amp => exact hout
  | names => exact hout
  | parts _ hτ =>
    rw [Reader.inReserved, hτ.stack]
    exact hout

/-- No character but an opening brace takes the reader into reserved memory. -/
theorem Reader.inReserved_step {σ : Reader} {c : Char} (hout : σ.inReserved = false)
    (hc : c ≠ '{') : (σ.step c).inReserved = false := by
  have hstep := σ.step_steps c
  generalize σ.step c = σ' at hstep ⊢
  cases hstep with
  | code hmode hstep => exact hstep.inReserved_eq_false hout hc
  | slash hmode hstep => exact hstep.inReserved_eq_false hout hc
  | amp hmode _ hstep => exact hstep.inReserved_eq_false hout hc
  | enter hmode hopen => exact absurd hopen hc
  | inside => exact hout
  | leave => exact hout
  | lost hmode hopen => exact absurd hopen hc
  | comment hmode _ hτ =>
    rw [Reader.inReserved, hτ.stack]
    exact hout
  | turn hq hτ =>
    rw [Reader.inReserved, hτ.stack]
    exact hout
  | stay => exact hout

theorem Reader.inReserved_run {σ : Reader} (hout : σ.inReserved = false) {s : Text}
    (hs : '{' ∉ s) : (run Reader.step σ s).inReserved = false := by
  induction s generalizing σ with
  | nil => exact hout
  | cons c s ih =>
    rw [List.mem_cons, not_or] at hs
    rw [run_cons]
    exact ih (Reader.inReserved_step hout (Ne.symm hs.1)) hs.2

/-! ## Plain sources -/

/-- The word outside reserved memory stands where such a node is about to open: the
next brace opens one. -/
def WordOpensNode (dt : Text) : Prop :=
  ∀ i ≤ dt.length, reservedMemory <+: dt.drop i → (read (dt.take i)).inReserved = false →
    ∀ p ∈ splitOnce '{' (dt.drop i), (read (dt.take i ++ p.1 ++ ['{'])).inReserved = true

/-- Inside reserved memory no comment and no literal holds a brace. -/
def BracesInCode (dt : Text) : Prop :=
  ∀ i ≤ dt.length, ((dt.drop i).head? = some '{' ∨ (dt.drop i).head? = some '}') →
    (read (dt.take i)).inReserved = true → (read (dt.take i)).mode.quiet = false

/-- The token between the two texts is read in code outside a value and in a child of
the reserved node, no longer name ends in it, its value opens with the next bracket,
and its numbers are plain. -/
def RegIsProperty (pre post : Text) : Prop :=
  ((read pre).mode = .code ∨ (read pre).mode = .slash ∨ (read pre).mode = .amp) ∧
    (read pre).inValue = false ∧ (read pre).inReservedChild = true ∧ endsInName pre = false ∧
    opensValue (post.dropWhile isRegSpace).tail = true ∧
    ∀ w ∈ pairWords (post.dropWhile isRegSpace).tail, plainNumber w = true

/-- Inside reserved memory every `reg` token that can be read is a property. -/
def RegsAreProperties (dt : Text) : Prop :=
  ∀ i ≤ dt.length, "reg".toList <+: dt.drop i → (read (dt.take i)).inReserved = true →
    (regRange (dt.take i).getLast? (dt.drop (i + 3))).isSome = true →
    RegIsProperty (dt.take i) (dt.drop (i + 3))

/-- **A source that does not mislead the scanner.** -/
def PlainSource (dt : Text) : Prop :=
  WordOpensNode dt ∧ BracesInCode dt ∧ RegsAreProperties dt

instance (pre post : Text) : Decidable (RegIsProperty pre post) :=
  inferInstanceAs (Decidable (_ ∧ _ ∧ _ ∧ _ ∧ _ ∧ _))

instance (dt : Text) : Decidable (PlainSource dt) :=
  haveI : Decidable (WordOpensNode dt) := inferInstanceAs (Decidable (∀ i ≤ dt.length, _))
  haveI : Decidable (BracesInCode dt) := inferInstanceAs (Decidable (∀ i ≤ dt.length, _))
  haveI : Decidable (RegsAreProperties dt) := inferInstanceAs (Decidable (∀ i ≤ dt.length, _))
  inferInstanceAs (Decidable (_ ∧ _ ∧ _))

/-- A property of all positions, at a given one. -/
theorem forall_splits {dt pre post : Text} {P : Text → Text → Prop}
    (h : ∀ i ≤ dt.length, P (dt.take i) (dt.drop i)) (hdt : dt = pre ++ post) : P pre post := by
  subst hdt
  have hsplit := h pre.length (by simp)
  rwa [List.take_left, List.drop_left] at hsplit

theorem PlainSource.wordOpensNode {dt pre v s : Text} (h : PlainSource dt)
    (hdt : dt = pre ++ (reservedMemory ++ v ++ '{' :: s)) (hv : '{' ∉ v)
    (hout : (read pre).inReserved = false) :
    (read (pre ++ (reservedMemory ++ v) ++ ['{'])).inReserved = true := by
  have hnext : splitOnce '{' (reservedMemory ++ v ++ '{' :: s) = some (reservedMemory ++ v, s) := by
    rw [splitOnce_eq_some_iff]
    refine ⟨rfl, fun hmem => ?_⟩
    rcases List.mem_append.mp hmem with hword | hmem
    · exact absurd hword (by decide)
    · exact hv hmem
  have hword := forall_splits (P := fun pre post => reservedMemory <+: post →
    (read pre).inReserved = false →
      ∀ p ∈ splitOnce '{' post, (read (pre ++ p.1 ++ ['{'])).inReserved = true) h.1 hdt
  rw [hnext] at hword
  exact hword (by rw [List.append_assoc]; exact List.prefix_append _ _) hout _ rfl

theorem PlainSource.plainBraces {pre s : Text} (hwf : WellFormed (pre ++ s))
    (h : PlainSource (pre ++ s)) : PlainBraces (read pre) s where
  ok := fun u v hs => by
    have hsplit : WellFormed (pre ++ u ++ v) := by
      rw [List.append_assoc, ← hs]
      exact hwf
    rw [← read_append]
    exact hsplit.mode_ne_bad
  closed := by
    rw [← read_append]
    exact hwf.2.1
  inCode := fun u c v hs hc hin => by
    rw [← read_append] at hin ⊢
    have hdt : pre ++ s = pre ++ u ++ c :: v := by rw [hs, ← List.append_assoc]
    have hbrace := forall_splits (P := fun pre post => (post.head? = some '{' ∨
      post.head? = some '}') → (read pre).inReserved = true → (read pre).mode.quiet = false) h.2.1 hdt
    exact hbrace (hc.imp (congrArg some) (congrArg some)) hin

theorem PlainSource.regIsProperty {dt pre post : Text} {r : Range} (h : PlainSource dt)
    (hdt : dt = pre ++ ("reg".toList ++ post)) (hin : (read pre).inReserved = true)
    (hrange : regRange pre.getLast? post = some r) : RegIsProperty pre post := by
  subst hdt
  have hreg := h.2.2 pre.length (by simp)
  have hdrop : (pre ++ ("reg".toList ++ post)).drop (pre.length + 3) = post := by
    rw [← List.drop_drop, List.drop_left]
    rfl
  rw [hdrop, List.take_left, List.drop_left] at hreg
  exact hreg (List.prefix_append _ _) hin (by rw [hrange]; rfl)

/-- A `reg` token inside reserved memory gives a genuine pair. -/
theorem genuine_of_token {pre post : Text} {r : Range}
    (hwf : WellFormed (pre ++ "reg".toList ++ post))
    (hrange : regRange pre.getLast? post = some r) (hreg : RegIsProperty pre post) :
    (r.start.toNat, r.size.toNat) ∈ genuinePairs (pre ++ "reg".toList ++ post) := by
  obtain ⟨hmode, hvalue, hin, hlast, hopens, hplain⟩ := hreg
  obtain ⟨-, sp, s, rfl, hsp, hread⟩ := regRange_eq_some_iff.mp hrange
  have htail : ((sp ++ '=' :: s).dropWhile isRegSpace).tail = s := by
    rw [List.dropWhile_append_of_pos hsp, List.dropWhile_cons_of_neg (by decide)]
    rfl
  rw [htail] at hopens hplain
  rw [← List.append_assoc] at hwf ⊢
  obtain ⟨hreg, hstack⟩ := atReg_of_token hwf hsp hmode hvalue hlast
  refine mem_genuineFrom hreg ?_ (firstPair_of_readPair hread hopens hplain)
  show (read (pre ++ "reg".toList ++ sp)).inReservedChild = true
  rw [Reader.inReservedChild, hstack]
  exact hin

/-! ## The scanner follows the reader -/

/-- **The next block of a plain source is a reserved node**, and the reader rests
outside reserved memory after it. -/
theorem nextBlock_inside {pre suf block rest : Text} {stack : List Text}
    (hwf : WellFormed (pre ++ suf)) (hplain : PlainSource (pre ++ suf))
    (hpre : read pre = .resting stack) (hout : (Reader.resting stack).inReserved = false)
    (h : nextBlock suf = some (block, rest)) :
    ∃ gap b base, suf = gap ++ ('{' :: b) ++ rest ∧ block = '{' :: b ∧
      (∀ u d v, b = u ++ d :: v → (read (pre ++ gap ++ '{' :: u)).inReserved = true) ∧
      read (pre ++ gap ++ '{' :: b) = .resting base ∧
      (Reader.resting base).inReserved = false := by
  obtain ⟨u, v, s, rfl, hu, hv, hblock⟩ := nextBlock_eq_some h
  have hmem : '{' ∉ reservedMemory ++ v := by
    rw [List.mem_append, not_or]
    exact ⟨by decide, hv⟩
  rw [List.append_assoc u] at hwf hplain ⊢
  generalize hgap : u ++ (reservedMemory ++ v) = gap at hwf hplain ⊢
  -- up to the brace the reader stays outside
  have hword : (read (pre ++ u)).inReserved = false := by
    rw [read_append, hpre]
    exact not_inReserved_of_not_infix hout hu
  have hbefore : (read (pre ++ gap)).inReserved = false := by
    rw [← hgap, ← List.append_assoc, read_append]
    exact Reader.inReserved_run hword hmem
  -- and the brace opens the node
  have hopen : (read (pre ++ gap ++ ['{'])).inReserved = true := by
    rw [← hgap, ← List.append_assoc pre]
    have hdt : pre ++ (gap ++ '{' :: s) = pre ++ u ++ (reservedMemory ++ v ++ '{' :: s) := by
      simp only [← hgap, List.append_assoc]
    exact hplain.wordOpensNode hdt hv hword
  have hstep : read (pre ++ gap ++ ['{']) = (read (pre ++ gap)).step '{' := by
    rw [read_append, run_cons, run_nil]
  rw [hstep] at hopen
  obtain ⟨w, hnode, hname⟩ := opens_of_inReserved hbefore hopen
  rw [← hstep] at hnode
  have hbraces : PlainBraces (read (pre ++ gap ++ ['{'])) s := by
    refine PlainSource.plainBraces ?_ ?_ <;> simpa only [List.append_assoc, List.singleton_append]
  have hwithin : Within w (read (pre ++ gap)).stack 1 (read (pre ++ gap ++ ['{'])) := by
    rw [hnode]
    exact ⟨List.suffix_rfl, rfl⟩
  obtain ⟨hin, hend⟩ := braceBlock_inside hname hwithin hbraces
  rw [braceBlock, if_pos rfl] at hblock
  obtain ⟨rfl, rfl⟩ := Prod.mk.inj hblock
  have hcons (x : Text) : pre ++ gap ++ '{' :: x = pre ++ gap ++ ['{'] ++ x := by simp
  refine ⟨gap, (braceBlock 1 s).1, (read (pre ++ gap)).stack, ?_, rfl, fun x d y hx => ?_, ?_, hbefore⟩
  · rw [List.append_assoc, List.cons_append]
    exact congrArg (fun t => gap ++ '{' :: t) (append_braceBlock 1 s).symm
  · rw [hcons, read_append]
    exact hin x d y hx
  · rw [hcons, read_append]
    exact hend

/-- What the scanner takes from a block that lies inside reserved memory. -/
theorem genuine_of_mem_scanRegs {pre b rest : Text} {r : Range}
    (hwf : WellFormed (pre ++ ('{' :: b) ++ rest)) (hplain : PlainSource (pre ++ ('{' :: b) ++ rest))
    (hin : ∀ u d v, b = u ++ d :: v → (read (pre ++ '{' :: u)).inReserved = true)
    (h : r ∈ scanRegs none ('{' :: b)) :
    (r.start.toNat, r.size.toNat) ∈ genuinePairs (pre ++ ('{' :: b) ++ rest) := by
  obtain ⟨b₁, b₂, hb, hrange⟩ := mem_scanRegs h
  cases b₁ with
  | nil => exact absurd (List.cons.inj hb).1 (by decide)
  | cons c b₁ =>
    obtain ⟨rfl, rfl⟩ := List.cons.inj hb
    have hdt : pre ++ ('{' :: (b₁ ++ "reg".toList ++ b₂)) ++ rest =
        (pre ++ '{' :: b₁) ++ "reg".toList ++ (b₂ ++ rest) := by simp
    have hinside : (read (pre ++ '{' :: b₁)).inReserved = true :=
      hin b₁ 'r' ("eg".toList ++ b₂) (by simp)
    have hrange' : regRange (pre ++ '{' :: b₁).getLast? (b₂ ++ rest) = some r := by
      refine regRange_append ?_ rest
      rw [List.getLast?_append_of_ne_nil _ (List.cons_ne_nil _ _)]
      rwa [Option.or_none] at hrange
    change WellFormed (pre ++ ('{' :: (b₁ ++ "reg".toList ++ b₂)) ++ rest) at hwf
    change PlainSource (pre ++ ('{' :: (b₁ ++ "reg".toList ++ b₂)) ++ rest) at hplain
    change _ ∈ genuinePairs (pre ++ ('{' :: (b₁ ++ "reg".toList ++ b₂)) ++ rest)
    rw [hdt] at hwf hplain ⊢
    refine genuine_of_token hwf hrange' (hplain.regIsProperty ?_ hinside hrange')
    rw [List.append_assoc]

/-- The scanner takes only genuine ranges from where the reader rests outside
reserved memory. -/
theorem genuine_of_resting (pre : Text) {suf : Text} {stack : List Text} {r : Range}
    (hwf : WellFormed (pre ++ suf)) (hplain : PlainSource (pre ++ suf))
    (hpre : read pre = .resting stack) (hout : (Reader.resting stack).inReserved = false)
    (h : r ∈ parseReservedRanges suf) :
    (r.start.toNat, r.size.toNat) ∈ genuinePairs (pre ++ suf) := by
  induction suf using parseReservedRanges.induct generalizing pre stack with
  | case1 suf hnone =>
    rw [parseReservedRanges_of_none hnone] at h
    cases h
  | case2 suf block rest hsome ih =>
    rw [parseReservedRanges_of_some hsome] at h
    obtain ⟨gap, b, base, rfl, rfl, hin, hend, hout'⟩ := nextBlock_inside hwf hplain hpre hout hsome
    have hdt : pre ++ (gap ++ '{' :: b ++ rest) = pre ++ gap ++ '{' :: b ++ rest := by simp
    rw [hdt] at hwf hplain ⊢
    rcases List.mem_append.mp h with hblock | hrest
    · exact genuine_of_mem_scanRegs hwf hplain hin hblock
    · exact ih _ hwf hplain hend hout' hrest

/-- **From a plain source the scanner takes no range that is not reserved.** -/
theorem neverInvents_of_plain {dt : Text} (hwf : WellFormed dt) (hplain : PlainSource dt) :
    NeverInvents dt := by
  intro r hr
  exact genuine_of_resting [] hwf hplain rfl rfl hr

/-- A source of the shape that the gate's own tests use. -/
def rtosSource : Text :=
  "/ \x7b\n\treserved-memory \x7b\n\t\trtos@40000 \x7b reg = <0x40000 0x3c000>; \x7d;\n\t\x7d;\n\x7d;\n".toList

theorem rtosSource_neverInvents :
    WellFormed rtosSource ∧ PlainSource rtosSource ∧ NeverInvents rtosSource := by
  have hwf : WellFormed rtosSource := by decide +kernel
  have hplain : PlainSource rtosSource := by decide +kernel
  exact ⟨hwf, hplain, neverInvents_of_plain hwf hplain⟩

/-- The only reserved memory is in a comment. -/
def commentSource : Text :=
  "/ \x7b\n\t/* no reserved-memory */\n\tserial@0 \x7b reg = <0x40000 0x100>; \x7d;\n\x7d;\n".toList

/-- The word in the comment makes the scanner take the next node for reserved
memory. -/
theorem comment_invents_range : WellFormed commentSource ∧ ¬ NeverInvents commentSource := by
  have hblock : nextBlock commentSource =
      some ("\x7b reg = <0x40000 0x100>; \x7d".toList, ";\n\x7d;\n".toList) := by decide +kernel
  have hscan : scanRegs none "\x7b reg = <0x40000 0x100>; \x7d".toList = [⟨0x40000, 0x100⟩] := by
    decide +kernel
  have htaken : (⟨0x40000, 0x100⟩ : Range) ∈ parseReservedRanges commentSource := by
    rw [parseReservedRanges_of_some hblock, hscan]
    exact List.mem_cons_self
  have hgenuine : genuinePairs commentSource = [] := by decide +kernel
  refine ⟨by decide +kernel, fun h => ?_⟩
  have hpair := h _ htaken
  rw [hgenuine] at hpair
  cases hpair

end ConfigLint
end WardenSdk
