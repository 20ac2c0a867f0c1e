import WardenSdk.ConfigLint.Dts

/-!
# How the devicetree reader moves

What one character can do to the reader is said once, by inversion (`step_steps`).
Two things are read off it.  A well-formed text is never lost on the way
(`WellFormed.mode_ne_bad`).  And the words of the reader are spelled out in the text
it has read (`Spells`), so that without the word `reserved-memory` in the text no
reserved node can be open (`not_inReserved_of_not_infix`).
-/

namespace WardenSdk
namespace ConfigLint

open Lib

/-! ## One character -/

/-- The text goes on after a gap: nothing opens or closes, and no word is added. -/
structure Parts (σ τ : Reader) : Prop where
  stack : τ.stack = σ.stack
  words : ∀ w ∈ τ.words, w ∈ σ.words
  gap : τ.gap = true
  mode : τ.mode ≠ .path ∧ τ.mode ≠ .slash ∧ τ.mode ≠ .amp

/-- What one character can do in code. -/
inductive CodeSteps (σ : Reader) (c : Char) : Reader → Prop
  | opens {w : Text} (hc : c = '{') (hw : w ∈ σ.words) : CodeSteps σ c (.resting (w :: σ.stack))
  | closes {w : Text} {stack : List Text} (hc : c = '}') (hwords : σ.words = [])
      (hstack : σ.stack = w :: stack) : CodeSteps σ c (.resting stack)
  | slash (hc : c = '/') : CodeSteps σ c { σ with mode := .slash }
  | amp (hc : c = '&') : CodeSteps σ c { σ with mode := .amp }
  | names (hc : isNameChar c = true) : CodeSteps σ c { σ.push c with mode := .code }
  | parts {τ : Reader} (hc : (c = '{' ∨ c = '}') → τ.mode = .bad) (h : Parts σ τ) :
      CodeSteps σ c τ

/-- Inside comments and literals, and once the text is lost. -/
def Mode.quiet : Mode → Bool
  | .code | .slash | .amp | .path => false
  | _ => true

/-- **What one character can do.** -/
inductive Steps (σ : Reader) (c : Char) : Reader → Prop
  | code {τ : Reader} (h : σ.mode = .code) (hstep : CodeSteps σ c τ) : Steps σ c τ
  | slash {τ : Reader} (h : σ.mode = .slash) (hstep : CodeSteps (σ.push '/') c τ) : Steps σ c τ
  | amp {τ : Reader} (h : σ.mode = .amp) (hc : c ≠ '{') (hstep : CodeSteps (σ.push '&') c τ) :
      Steps σ c τ
  | enter (h : σ.mode = .amp) (hc : c = '{') :
      Steps σ c { (σ.push '&').push c with mode := .path }
  | inside (h : σ.mode = .path) (h₁ : c ≠ '{') (h₂ : c ≠ '}') : Steps σ c (σ.push c)
  | leave (h : σ.mode = .path) (hc : c = '}') : Steps σ c ((σ.push c).toMode .code)
  | lost (h : σ.mode = .path) (hc : c = '{') : Steps σ c (σ.toMode .bad)
  | comment (h : σ.mode = .slash) (hc : c = '*' ∨ c = '/') {τ : Reader} (hτ : Parts σ τ) :
      Steps σ c τ
  | turn (h : σ.mode.quiet = true) {τ : Reader} (hτ : Parts σ τ) : Steps σ c τ
  | stay (h : σ.mode.quiet = true) : Steps σ c σ

theorem code_ne_held : Mode.code ≠ .path ∧ Mode.code ≠ .slash ∧ Mode.code ≠ .amp := by decide

theorem parts_toMode (σ : Reader) {m : Mode} (h : m ≠ .path ∧ m ≠ .slash ∧ m ≠ .amp) :
    Parts σ (σ.toMode m) :=
  ⟨rfl, fun _ hw => hw, rfl, h⟩

theorem parts_resting (σ : Reader) : Parts σ (.resting σ.stack) :=
  ⟨rfl, fun _ hw => absurd hw List.not_mem_nil, rfl, code_ne_held⟩

theorem parts_label (σ : Reader) : Parts σ σ.label := by
  unfold Reader.label
  split
  · exact parts_toMode σ (by decide)
  · rename_i hwords
    exact ⟨rfl, fun w hw => hwords ▸ List.mem_cons_of_mem _ hw, rfl, code_ne_held⟩
  · exact parts_toMode σ (by decide)

theorem parts_equals (σ : Reader) : Parts σ σ.equals := by
  unfold Reader.equals
  split
  · exact parts_toMode σ (by decide)
  · split_ifs
    · exact ⟨rfl, fun _ hw => hw, rfl, code_ne_held⟩
    · exact parts_toMode σ (by decide)
  · exact parts_toMode σ (by decide)

theorem parts_quote (σ : Reader) : Parts σ σ.quote := by
  unfold Reader.quote
  split
  · rename_i hwords
    have hstring := parts_toMode σ (show Mode.string ≠ .path ∧ _ ∧ _ by decide)
    split_ifs
    · exact { hstring with words := fun w hw => hwords ▸ List.mem_cons_of_mem _ hw }
    · exact hstring
  · exact parts_toMode σ (by decide)

theorem codeSteps_openNode (σ : Reader) : CodeSteps σ '{' σ.openNode := by
  unfold Reader.openNode
  split
  · rename_i hwords
    exact .opens rfl (hwords ▸ List.mem_cons_self)
  · exact .parts (fun _ => rfl) (parts_toMode σ (by decide))

theorem codeSteps_closeNode (σ : Reader) : CodeSteps σ '}' σ.closeNode := by
  unfold Reader.closeNode
  split
  · rename_i hwords hstack
    exact .closes rfl hwords hstack
  · exact .parts (fun _ => rfl) (parts_toMode σ (by decide))

theorem Reader.codeStep_steps (σ : Reader) (c : Char) : CodeSteps σ c (σ.codeStep c) := by
  unfold Reader.codeStep
  by_cases hopen : c = '{'
  · subst hopen
    exact codeSteps_openNode σ
  rw [if_neg hopen]
  by_cases hclose : c = '}'
  · subst hclose
    exact codeSteps_closeNode σ
  rw [if_neg hclose]
  have goesOn {τ : Reader} (hτ : Parts σ τ) : CodeSteps σ c τ :=
    .parts (fun h => absurd h (not_or.mpr ⟨hopen, hclose⟩)) hτ
  split
  · exact goesOn (parts_resting σ)
  split
  · exact goesOn (parts_label σ)
  split
  · exact goesOn (parts_equals σ)
  split
  · rename_i hslash
    exact .slash hslash
  split
  · rename_i hamp
    exact .amp hamp
  split
  · exact goesOn (parts_quote σ)
  split
  · exact goesOn (parts_toMode σ (by decide))
  split
  · rename_i hname
    exact .names hname
  · exact goesOn (parts_toMode σ (by decide))

theorem Reader.step_steps (σ : Reader) (c : Char) : Steps σ c (σ.step c) := by
  unfold Reader.step
  split <;> rename_i hmode
  · exact .code hmode (σ.codeStep_steps c)
  · split_ifs with h₁ h₂
    · exact .comment hmode (.inl h₁) (parts_toMode σ (by decide))
    · exact .comment hmode (.inr h₂) (parts_toMode σ (by decide))
    · exact .slash hmode ((σ.push '/').codeStep_steps c)
  · split_ifs with hc
    · exact .enter hmode hc
    · exact .amp hmode hc ((σ.push '&').codeStep_steps c)
  · split_ifs with h₁ h₂
    · exact .lost hmode h₁
    · exact .leave hmode h₂
    · exact .inside hmode h₁ h₂
  all_goals
    try split_ifs
    all_goals first
      | exact .turn (by rw [hmode]; rfl) (parts_toMode σ (by decide))
      | exact .stay (by rw [hmode]; rfl)

theorem Reader.words_push_ne_nil (σ : Reader) (c : Char) : (σ.push c).words ≠ [] := by
  unfold Reader.push
  dsimp only
  split <;> exact List.cons_ne_nil _ _

/-! ## Prefixes of a well-formed text -/

theorem read_append (s t : Text) : read (s ++ t) = run Reader.step (read s) t :=
  run_append _ _ s t

theorem run_of_bad {σ : Reader} (h : σ.mode = .bad) (s : Text) :
    (run Reader.step σ s).mode = .bad := by
  refine run_invariant (I := fun τ : Reader => τ.mode = .bad) (fun τ c hτ => ?_) h s
  rw [Reader.step, hτ]
  exact hτ

/-- A well-formed text is never lost on the way. -/
theorem WellFormed.mode_ne_bad {pre post : Text} (h : WellFormed (pre ++ post)) :
    (read pre).mode ≠ .bad := by
  intro hbad
  have hend : (read (pre ++ post)).mode = .bad := by rw [read_append]; exact run_of_bad hbad post
  rcases h.1 with hcode | hcomment
  · rw [hcode] at hend; cases hend
  · rw [hcomment] at hend; cases hend

/-! ## Words are spelled out in the text -/

/-- The character that a mode holds back. -/
def Mode.pending : Mode → Text
  | .slash => ['/']
  | .amp => ['&']
  | _ => []

/-- The words stand in the text read so far, and the current one at its end, but for
the characters held back. -/
structure Spells (consumed held : Text) (σ : Reader) : Prop where
  words : ∀ w ∈ σ.words, w <:+: consumed
  current : σ.gap = false → ∃ w ws, σ.words = w :: ws ∧ w ++ held <:+ consumed
  held : held <:+ consumed

section Spells

variable {consumed : Text} {σ : Reader} {c : Char}

theorem Spells.resting (consumed : Text) (stack : List Text) :
    Spells consumed [] (.resting stack) :=
  ⟨fun _ h => absurd h List.not_mem_nil, fun h => Bool.noConfusion h, List.nil_suffix⟩

theorem Spells.parts {held : Text} {τ : Reader} (h : Spells consumed held σ) (hτ : Parts σ τ) :
    Spells (consumed ++ [c]) [] τ where
  words := fun w hw => (h.words w (hτ.words w hw)).trans (List.prefix_append _ _).isInfix
  current := fun h' => by rw [hτ.gap] at h'; cases h'
  held := List.nil_suffix

theorem Spells.push (h : Spells consumed [] σ) (c : Char) :
    Spells (consumed ++ [c]) [] (σ.push c) := by
  have hmono {w : Text} (hw : w <:+: consumed) : w <:+: consumed ++ [c] :=
    hw.trans (List.prefix_append _ _).isInfix
  have hnew : [c] <:+ consumed ++ [c] := List.suffix_append _ _
  unfold Reader.push
  cases hgap : σ.gap with
  | true =>
    refine ⟨fun w hw => ?_, fun _ => ⟨[c], σ.words, rfl, ?_⟩, List.nil_suffix⟩
    · rcases List.mem_cons.mp hw with rfl | hw
      · exact hnew.isInfix
      · exact hmono (h.words w hw)
    · exact hnew
  | false =>
    obtain ⟨w, ws, hwords, hsuffix⟩ := h.current hgap
    rw [List.append_nil] at hsuffix
    have hgrown : w ++ [c] <:+ consumed ++ [c] := by
      obtain ⟨t, rfl⟩ := hsuffix
      exact ⟨t, by rw [List.append_assoc]⟩
    refine ⟨fun v hv => ?_, fun _ => ⟨w ++ [c], ws, by simp only [hwords], ?_⟩, List.nil_suffix⟩
    · simp only [hwords] at hv
      rcases List.mem_cons.mp hv with rfl | hv
      · exact hgrown.isInfix
      · exact hmono (h.words v (by rw [hwords]; exact List.mem_cons_of_mem _ hv))
    · rw [List.append_nil]
      exact hgrown

/-- The character held back joins the current word. -/
theorem Spells.release {p : Char} (h : Spells consumed [p] σ) : Spells consumed [] (σ.push p) := by
  unfold Reader.push
  cases hgap : σ.gap with
  | true =>
    refine ⟨fun w hw => ?_, fun _ => ⟨[p], σ.words, rfl, h.held⟩, List.nil_suffix⟩
    rcases List.mem_cons.mp hw with rfl | hw
    · exact h.held.isInfix
    · exact h.words w hw
  | false =>
    obtain ⟨w, ws, hwords, hsuffix⟩ := h.current hgap
    refine ⟨fun v hv => ?_, fun _ => ⟨w ++ [p], ws, by simp only [hwords], ?_⟩, List.nil_suffix⟩
    · simp only [hwords] at hv
      rcases List.mem_cons.mp hv with rfl | hv
      · exact hsuffix.isInfix
      · exact h.words v (by rw [hwords]; exact List.mem_cons_of_mem _ hv)
    · rw [List.append_nil]
      exact hsuffix

/-- A character that is held back. -/
theorem Spells.hold (h : Spells consumed [] σ) (c : Char) (m : Mode) :
    Spells (consumed ++ [c]) [c] { σ with mode := m } where
  words := fun w hw => (h.words w hw).trans (List.prefix_append _ _).isInfix
  current := fun hgap => by
    obtain ⟨w, ws, hwords, t, rfl⟩ := h.current hgap
    exact ⟨w, ws, hwords, t, by simp⟩
  held := List.suffix_append _ _

end Spells

/-- The name of a reserved node contains the word. -/
theorem infix_of_isReservedName {w : Text} (h : isReservedName w = true) :
    reservedMemory <:+: w := by
  rw [isReservedName, Bool.or_eq_true, beq_iff_eq, List.isSuffixOf_iff_suffix] at h
  rcases h with rfl | h
  · exact List.infix_rfl
  · have hpath : reservedMemory <:+: "/reserved-memory\x7d".toList := ⟨['/'], ['}'], rfl⟩
    exact hpath.trans h.isInfix

/-- What the reader knows about the text since it last rested outside reserved
memory. -/
structure Follows (consumed : Text) (σ : Reader) : Prop where
  spells : Spells consumed σ.mode.pending σ
  quiet : σ.mode.quiet = true → σ.gap = true
  outside : ¬ reservedMemory <:+: consumed → σ.inReserved = false
  last : σ.mode = .code → σ.gap = false → ∃ c, consumed.getLast? = some c ∧ isNameChar c = true

section Follows

variable {consumed : Text} {σ τ : Reader} {c : Char}

theorem outside_concat (h : ¬ reservedMemory <:+: consumed → σ.inReserved = false)
    (hnot : ¬ reservedMemory <:+: consumed ++ [c]) : σ.inReserved = false :=
  h fun hin => hnot (hin.trans (List.prefix_append _ _).isInfix)

theorem Follows.parts {held : Text} (h : Spells consumed held σ)
    (hout : ¬ reservedMemory <:+: consumed → σ.inReserved = false) (hτ : Parts σ τ) :
    Follows (consumed ++ [c]) τ where
  spells := by
    have hpending : τ.mode.pending = [] := by
      obtain ⟨-, hslash, hamp⟩ := hτ.mode
      cases hmode : τ.mode <;> first | rfl | contradiction
    rw [hpending]
    exact h.parts hτ
  quiet := fun _ => hτ.gap
  outside := fun hnot => by
    rw [Reader.inReserved, hτ.stack]
    exact outside_concat hout hnot
  last := fun _ hgap => by rw [hτ.gap] at hgap; cases hgap

theorem Follows.resting {stack : List Text}
    (hout : ¬ reservedMemory <:+: consumed → (Reader.resting stack).inReserved = false) :
    Follows consumed (.resting stack) where
  spells := .resting consumed stack
  quiet := fun _ => rfl
  outside := hout
  last := fun _ hgap => Bool.noConfusion hgap

theorem Follows.codeSteps (h : Spells consumed [] σ)
    (hout : ¬ reservedMemory <:+: consumed → σ.inReserved = false) (hstep : CodeSteps σ c τ) :
    Follows (consumed ++ [c]) τ := by
  cases hstep with
  | @opens w hc hw =>
    refine .resting fun hnot => ?_
    have hname : isReservedName w = false := by
      rw [Bool.eq_false_iff]
      intro hname
      refine hnot ((infix_of_isReservedName hname).trans ((h.words w hw).trans ?_))
      exact (List.prefix_append _ _).isInfix
    rw [Reader.inReserved, Reader.resting, List.any_cons, hname, Bool.false_or]
    exact outside_concat hout hnot
  | @closes w stack hc hwords hstack =>
    refine .resting fun hnot => ?_
    have hall := outside_concat hout hnot
    rw [Reader.inReserved, hstack, List.any_cons, Bool.or_eq_false_iff] at hall
    exact hall.2
  | slash hc =>
    subst hc
    exact ⟨h.hold '/' .slash, fun hq => Bool.noConfusion hq, outside_concat hout, nofun⟩
  | amp hc =>
    subst hc
    exact ⟨h.hold '&' .amp, fun hq => Bool.noConfusion hq, outside_concat hout, nofun⟩
  | names hc =>
    refine ⟨?_, fun hq => Bool.noConfusion hq, outside_concat hout, fun _ _ => ?_⟩
    · exact ⟨(h.push c).words, (h.push c).current, List.nil_suffix⟩
    · exact ⟨c, List.getLast?_concat, hc⟩
  | parts hc hτ => exact .parts h hout hτ

/-- **One more character is followed.** -/
theorem Follows.step (h : Follows consumed σ) (c : Char) : Follows (consumed ++ [c]) (σ.step c) := by
  have hspells := h.spells
  have hstep := σ.step_steps c
  generalize σ.step c = σ' at hstep ⊢
  cases hstep with
  | code hmode hstep =>
    rw [hmode] at hspells
    exact .codeSteps hspells h.outside hstep
  | slash hmode hstep =>
    rw [hmode] at hspells
    exact .codeSteps hspells.release h.outside hstep
  | amp hmode hc hstep =>
    rw [hmode] at hspells
    exact .codeSteps hspells.release h.outside hstep
  | enter hmode hc =>
    rw [hmode] at hspells
    have hpush := hspells.release.push c
    exact ⟨⟨hpush.words, hpush.current, List.nil_suffix⟩, fun hq => Bool.noConfusion hq,
      outside_concat h.outside, nofun⟩
  | inside hmode h₁ h₂ =>
    rw [hmode] at hspells
    have hpush := hspells.push c
    have hmode' : (σ.push c).mode = .path := hmode
    refine ⟨by rw [hmode']; exact hpush, fun hq => ?_, outside_concat h.outside, fun hcode => ?_⟩
    · rw [hmode'] at hq; cases hq
    · rw [hmode'] at hcode; cases hcode
  | leave hmode hc =>
    rw [hmode] at hspells
    have hpush := hspells.push c
    refine ⟨⟨hpush.words, fun hgap => Bool.noConfusion hgap, List.nil_suffix⟩,
      fun hq => Bool.noConfusion hq, outside_concat h.outside, fun _ hgap => Bool.noConfusion hgap⟩
  | lost hmode hc => exact .parts hspells h.outside (parts_toMode σ (by decide))
  | comment hmode hc hτ => exact .parts hspells h.outside hτ
  | turn hq hτ => exact .parts hspells h.outside hτ
  | stay hq =>
    have hgap := h.quiet hq
    have hpending : σ.mode.pending = [] := by
      cases hmode : σ.mode <;> first | rfl | (rw [hmode] at hq; cases hq)
    refine ⟨?_, h.quiet, outside_concat h.outside, fun _ hgap' => ?_⟩
    · rw [hpending]
      refine ⟨fun w hw => ?_, fun hgap' => ?_, List.nil_suffix⟩
      · exact (h.spells.words w hw).trans (List.prefix_append _ _).isInfix
      · rw [hgap] at hgap'
        cases hgap'
    · rw [hgap] at hgap'
      cases hgap'

end Follows

/-- **The reader follows the text** from where it rests outside reserved memory. -/
theorem follows_run {stack : List Text} (h : (Reader.resting stack).inReserved = false) (s : Text) :
    Follows s (run Reader.step (.resting stack) s) := by
  have hinit : Follows [] (.resting stack) := .resting fun _ => h
  refine run_history (I := fun past τ => Follows past τ) hinit ?_ s
  intro past τ c hτ
  exact hτ.step c

/-- Without the word no reserved node opens. -/
theorem not_inReserved_of_not_infix {stack : List Text}
    (h : (Reader.resting stack).inReserved = false) {s : Text} (hs : ¬ reservedMemory <:+: s) :
    (run Reader.step (.resting stack) s).inReserved = false :=
  (follows_run h s).outside hs

end ConfigLint
end WardenSdk
