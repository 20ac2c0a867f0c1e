import WardenSdk.Lib.Pool
import WardenSdk.Lib.Run

/-!
# Programs side by side

A program asks for something, goes on with the answer, and so on until it is done.  What
it asks goes to a state that it shares with other programs: between two of its requests
any of them may have asked something.

`Prog.Safe` is what is proved of one program alone.  A party relies on what the others do
between its requests and guarantees something of each step of its own; a program is safe
with a postcondition in a state when, whatever the others do within the rely, each of its
steps keeps the guarantee and its result meets the postcondition at the end, for as long
as nothing but the others moves.  `Meets` is the triple, with a rule for a value, a
request and a sequence, and `Asks.meets` is its frame rule.  `MeetsWhile` is a triple that
lapses once a condition has failed.  `run_sound` puts programs together: parties whose
guarantees are within each other's relies stay safe in every interleaving.
-/

namespace WardenSdk
namespace Lib

/-- A program that asks a `Q` at a time and goes on with an `A`. -/
inductive Prog (Q A α : Type) where
  | done (a : α)
  | call (q : Q) (next : A → Prog Q A α)

namespace Prog

variable {Q A α β : Type}

def bind : Prog Q A α → (α → Prog Q A β) → Prog Q A β
  | .done a, f => f a
  | .call q next, f => .call q fun a => (next a).bind f

instance : Monad (Prog Q A) where
  pure := .done
  bind := bind

def ask (q : Q) : Prog Q A A := .call q .done

def isDone : Prog Q A α → Bool
  | .done _ => true
  | .call _ _ => false

theorem eq_done_of_isDone {p : Prog Q A Unit} (h : p.isDone = true) : p = .done () := by
  cases p with
  | done a => rfl
  | call q next => exact absurd h Bool.false_ne_true

/-- One program after the other. -/
def each (f : β → Prog Q A Unit) : List β → Prog Q A Unit
  | [] => pure ()
  | b :: bs => do
    f b
    each f bs

end Prog

/-- What the others may do between two steps of a party, and what a step of its own does. -/
structure Party (S : Type) where
  rely : S → S → Prop
  guarantee : S → S → Prop
  refl : ∀ s, rely s s
  trans : ∀ {s t u}, rely s t → rely t u → rely s u

/-- What the others do leaves the property alone. -/
def Party.Stable {S : Type} (party : Party S) (P : S → Prop) : Prop :=
  ∀ {s t}, party.rely s t → P s → P t

/-- The party, as long as the condition holds. -/
def Party.upTo {S : Type} (party : Party S) (ok : S → Prop) : Party S where
  rely s t := ok t → ok s ∧ party.rely s t
  guarantee s t := ok t → ok s ∧ party.guarantee s t
  refl s := fun hs => ⟨hs, party.refl s⟩
  trans hst htu := fun hu =>
    have ⟨ht, htu⟩ := htu hu
    have ⟨hs, hst⟩ := hst ht
    ⟨hs, party.trans hst htu⟩

namespace Prog

variable {S Q A I α β : Type} (answer : S → Q → I → S × A) (party : Party S)

def Safe (R : α → S → Prop) : Prog Q A α → S → Prop
  | .done a, s => ∀ t, party.rely s t → R a t
  | .call q next, s => ∀ t, party.rely s t → ∀ i,
      party.guarantee t (answer t q i).1 ∧ (next (answer t q i).2).Safe R (answer t q i).1

/-- Where `P` holds the program is safe with `R`. -/
def Meets (P : S → Prop) (p : Prog Q A α) (R : α → S → Prop) : Prop :=
  ∀ s, P s → p.Safe answer party R s

variable {answer party} {P P' : S → Prop} {R R' : α → S → Prop} {p : Prog Q A α}

/-- Safety is stable. -/
theorem Safe.rely {s t : S} (h : p.Safe answer party R s) (hst : party.rely s t) :
    p.Safe answer party R t := by
  cases p with
  | done a => exact fun u hu => h u (party.trans hst hu)
  | call q next => exact fun u hu => h u (party.trans hst hu)

theorem Safe.mono {s : S} (h : p.Safe answer party R s) (hpost : ∀ a s, R a s → R' a s) :
    p.Safe answer party R' s := by
  induction p generalizing s with
  | done a => exact fun t ht => hpost a t (h t ht)
  | call q next ih =>
    intro t ht i
    obtain ⟨hg, hnext⟩ := h t ht i
    exact ⟨hg, ih _ hnext⟩

theorem Safe.bind {f : α → Prog Q A β} {R : β → S → Prop} {s : S}
    (h : p.Safe answer party (fun a t => (f a).Safe answer party R t) s) :
    (p >>= f).Safe answer party R s := by
  induction p generalizing s with
  | done a => exact h s (party.refl s)
  | call q next ih =>
    intro t ht i
    obtain ⟨hg, hnext⟩ := h t ht i
    exact ⟨hg, ih _ hnext⟩

/-! ## The rules for triples -/

/-- The rule of consequence. -/
theorem Meets.mono (h : p.Meets answer party P R) (hpre : ∀ s, P' s → P s)
    (hpost : ∀ a s, R a s → R' a s) : p.Meets answer party P' R' :=
  fun s hs => (h s (hpre s hs)).mono hpost

theorem meets_pure {a : α} (stable : party.Stable (R a)) :
    (pure a : Prog Q A α).Meets answer party (R a) R :=
  fun _ hs _ ht => stable ht hs

/-- A request: its precondition and its postconditions are stable, and its step keeps the
guarantee. -/
theorem meets_ask {q : Q} {R : A → S → Prop} (stable : party.Stable P)
    (stable' : ∀ a, party.Stable (R a))
    (step : ∀ s i, P s →
      party.guarantee s (answer s q i).1 ∧ R (answer s q i).2 (answer s q i).1) :
    (ask q).Meets answer party P R := by
  intro s hs t ht i
  obtain ⟨hg, hpost⟩ := step t i (stable ht hs)
  exact ⟨hg, fun u hu => stable' _ hu hpost⟩

theorem Meets.bind {mid : α → S → Prop} {f : α → Prog Q A β} {R : β → S → Prop}
    (h : p.Meets answer party P mid) (hf : ∀ a, (f a).Meets answer party (mid a) R) :
    (p >>= f).Meets answer party P R :=
  fun s hs => ((h s hs).mono fun a t ht => hf a t ht).bind

theorem Meets.ite {c : Prop} [Decidable c] {q : Prog Q A α}
    (hp : c → p.Meets answer party P R) (hq : ¬c → q.Meets answer party P R) :
    (if c then p else q).Meets answer party P R := by
  split_ifs with h
  · exact hp h
  · exact hq h

/-- Programs that each keep an assertion keep it one after the other. -/
theorem meets_each {f : β → Prog Q A Unit} {bs : List β} (stable : party.Stable P)
    (h : ∀ b ∈ bs, (f b).Meets answer party P fun _ => P) :
    (each f bs).Meets answer party P fun _ => P := by
  induction bs with
  | nil => exact meets_pure (R := fun _ => P) stable
  | cons b bs ih =>
    refine (h b List.mem_cons_self).bind fun _ => ih fun c hc => ?_
    exact h c (List.mem_cons_of_mem b hc)

/-! ## What a program may ask -/

/-- Every request of the program, whatever the answers, is one of these. -/
def Asks (allowed : Q → Prop) : Prog Q A α → Prop
  | .done _ => True
  | .call q next => allowed q ∧ ∀ a, (next a).Asks allowed

variable {allowed : Q → Prop}

theorem asks_pure (a : α) : (pure a : Prog Q A α).Asks allowed := trivial

theorem asks_of_forall (h : ∀ q, allowed q) (p : Prog Q A α) : p.Asks allowed := by
  induction p with
  | done a => trivial
  | call q next ih => exact ⟨h q, ih⟩

theorem asks_ask {q : Q} (h : allowed q) : (ask q : Prog Q A A).Asks allowed :=
  ⟨h, fun _ => trivial⟩

theorem Asks.bind {f : α → Prog Q A β} (h : p.Asks allowed) (hf : ∀ a, (f a).Asks allowed) :
    (p >>= f).Asks allowed := by
  induction p with
  | done a => exact hf a
  | call q next ih => exact ⟨h.1, fun a => ih a (h.2 a)⟩

theorem Asks.mono {allowed' : Q → Prop} (h : p.Asks allowed) (hq : ∀ q, allowed q → allowed' q) :
    p.Asks allowed' := by
  induction p with
  | done a => trivial
  | call q next ih => exact ⟨hq q h.1, fun a => ih a (h.2 a)⟩

theorem Asks.ite {c : Prop} [Decidable c] {p q : Prog Q A α} (hp : p.Asks allowed)
    (hq : q.Asks allowed) : (if c then p else q).Asks allowed := by
  split_ifs
  · exact hp
  · exact hq

theorem asks_each {f : β → Prog Q A Unit} (h : ∀ b, (f b).Asks allowed) :
    ∀ bs : List β, (each f bs).Asks allowed
  | [] => trivial
  | b :: bs => (h b).bind fun _ => asks_each h bs

/-- **The frame rule**: a program keeps what each of its requests keeps. -/
theorem Asks.meets (h : p.Asks allowed) (stable : party.Stable P)
    (step : ∀ q, allowed q → ∀ s i, P s →
      party.guarantee s (answer s q i).1 ∧ P (answer s q i).1) :
    p.Meets answer party P fun _ => P := by
  intro s hs
  induction p generalizing s with
  | done a => exact fun t ht => stable ht hs
  | call q next ih =>
    intro t ht i
    obtain ⟨hg, hpre⟩ := step q h.1 t i (stable ht hs)
    exact ⟨hg, ih _ (h.2 _) _ hpre⟩

/-! ## Triples that lapse

A condition that, once it has failed, stays failed: what a party owes and what it may rely
on is due only as long as the condition holds. -/

/-- A triple about runs in which the condition has not failed. -/
def MeetsWhile (answer : S → Q → I → S × A) (party : Party S) (ok P : S → Prop)
    (p : Prog Q A α) (R : α → S → Prop) : Prop :=
  p.Meets answer (party.upTo ok) (fun s => ok s → P s) fun a s => ok s → R a s

section While

variable {ok : S → Prop}

theorem MeetsWhile.mono (h : p.MeetsWhile answer party ok P R) (hpre : ∀ s, P' s → P s)
    (hpost : ∀ a s, R a s → R' a s) : p.MeetsWhile answer party ok P' R' :=
  Meets.mono h (fun s hs hok => hpre s (hs hok)) fun a s hs hok => hpost a s (hs hok)

theorem MeetsWhile.pre (h : p.MeetsWhile answer party ok P R) (hpre : ∀ s, P' s → P s) :
    p.MeetsWhile answer party ok P' R := h.mono hpre fun _ _ => id

theorem meetsWhile_pure {a : α} (stable : party.Stable (R a)) :
    (pure a : Prog Q A α).MeetsWhile answer party ok (R a) R :=
  meets_pure (R := fun a s => ok s → R a s) fun ht hs hok =>
    have ⟨hok, ht⟩ := ht hok
    stable ht (hs hok)

theorem MeetsWhile.bind {mid : α → S → Prop} {f : α → Prog Q A β} {R : β → S → Prop}
    (h : p.MeetsWhile answer party ok P mid)
    (hf : ∀ a, (f a).MeetsWhile answer party ok (mid a) R) :
    (p >>= f).MeetsWhile answer party ok P R := Meets.bind h hf

theorem MeetsWhile.ite {c : Prop} [Decidable c] {q : Prog Q A α}
    (hp : c → p.MeetsWhile answer party ok P R) (hq : ¬c → q.MeetsWhile answer party ok P R) :
    (if c then p else q).MeetsWhile answer party ok P R := Meets.ite hp hq

/-- The programs carry an assertion through the list. -/
theorem meetsWhile_each {f : β → Prog Q A Unit} {P : ℕ → S → Prop}
    (stable : ∀ k, party.Stable (P k)) {bs : List β} {k : ℕ}
    (step : ∀ i b, bs[i]? = some b →
      (f b).MeetsWhile answer party ok (P (k + i)) fun _ => P (k + i + 1)) :
    (each f bs).MeetsWhile answer party ok (P k) fun _ => P (k + bs.length) := by
  induction bs generalizing k with
  | nil => exact meetsWhile_pure (R := fun _ => P k) (stable k)
  | cons b bs ih =>
    refine (step 0 b rfl).bind fun _ => ?_
    rw [List.length_cons, Nat.add_comm bs.length 1, ← Nat.add_assoc]
    refine ih fun i c hc => ?_
    rw [Nat.add_assoc k 1 i, Nat.add_comm 1 i]
    exact step (i + 1) c hc

variable (latch : ∀ s q i, ok (answer s q i).1 → ok s)

include latch

/-- Nothing is due of a program once the condition has failed. -/
theorem safe_of_not_ok (p : Prog Q A α) {s : S} (hs : ¬ok s) :
    p.Safe answer (party.upTo ok) (fun a t => ok t → R a t) s := by
  have hasks : p.Asks fun _ => True := asks_of_forall (fun _ => trivial) p
  have hmeets : p.Meets answer (party.upTo ok) (fun t => ¬ok t) fun _ t => ¬ok t := by
    refine hasks.meets (fun ht hs hok => hs (ht hok).1) fun q _ t i ht => ?_
    exact ⟨fun hok => (ht (latch t q i hok)).elim, fun hok => ht (latch t q i hok)⟩
  exact (hmeets s hs).mono fun a t ht hok => (ht hok).elim

/-- The precondition may be looked into. -/
theorem meetsWhile_of_safe
    (hp : ∀ s, ok s → P s → p.Safe answer (party.upTo ok) (fun a t => ok t → R a t) s) :
    p.MeetsWhile answer party ok P R := by
  intro s hs
  by_cases hok : ok s
  · exact hp s hok (hs hok)
  · exact safe_of_not_ok latch p hok

theorem MeetsWhile.exists {ι : Type} {P : ι → S → Prop}
    (hp : ∀ i, p.MeetsWhile answer party ok (P i) R) :
    p.MeetsWhile answer party ok (fun s => ∃ i, P i s) R :=
  meetsWhile_of_safe latch fun s _ ⟨i, hi⟩ => hp i s fun _ => hi

theorem MeetsWhile.of_imp {φ : Prop} (hpre : ∀ s, P s → φ)
    (hp : φ → p.MeetsWhile answer party ok P R) : p.MeetsWhile answer party ok P R :=
  meetsWhile_of_safe latch fun s _ hs => hp (hpre s hs) s fun _ => hs

theorem meetsWhile_ask {q : Q} {R : A → S → Prop} (stable : party.Stable P)
    (stable' : ∀ a, party.Stable (R a))
    (step : ∀ s i, P s → ok (answer s q i).1 →
      party.guarantee s (answer s q i).1 ∧ R (answer s q i).2 (answer s q i).1) :
    (ask q).MeetsWhile answer party ok P R := by
  have stableWhile {P : S → Prop} (h : party.Stable P) :
      (party.upTo ok).Stable fun s => ok s → P s := fun ht hs hok =>
    have ⟨hok, ht⟩ := ht hok
    h ht (hs hok)
  refine meets_ask (R := fun a s => ok s → R a s) (stableWhile stable)
    (fun a => stableWhile (stable' a)) fun s i hs => ?_
  exact ⟨fun hok => ⟨latch s q i hok, (step s i (hs (latch s q i hok)) hok).1⟩,
    fun hok => (step s i (hs (latch s q i hok)) hok).2⟩

/-- The frame rule. -/
theorem Asks.meetsWhile (h : p.Asks allowed) (stable : party.Stable P)
    (step : ∀ q, allowed q → ∀ s i, P s → ok (answer s q i).1 →
      party.guarantee s (answer s q i).1 ∧ P (answer s q i).1) :
    p.MeetsWhile answer party ok P fun _ => P := by
  refine h.meets (fun ht hs hok => ?_) fun q hq s i hs => ?_
  · obtain ⟨hok, ht⟩ := ht hok
    exact stable ht (hs hok)
  · exact ⟨fun hok => ⟨latch s q i hok, (step q hq s i (hs (latch s q i hok)) hok).1⟩,
      fun hok => (step q hq s i (hs (latch s q i hok)) hok).2⟩

/-- A request whose answer is looked at through a function. -/
theorem meetsWhile_ask_bind {q : Q} {f : A → α} (stable : party.Stable P)
    (stable' : ∀ a, party.Stable (R a))
    (step : ∀ s i, P s → ok (answer s q i).1 →
      party.guarantee s (answer s q i).1 ∧ R (f (answer s q i).2) (answer s q i).1) :
    (ask q >>= fun a => pure (f a)).MeetsWhile answer party ok P R :=
  (meetsWhile_ask latch (R := fun a => R (f a)) stable (fun a => stable' (f a)) step).bind
    fun a => meetsWhile_pure (stable' (f a))

end While

end Prog

/-! ## Programs in a pool -/

/-- A program and who runs it. -/
structure Task (κ Q A : Type) where
  who : κ
  prog : Prog Q A Unit

variable {κ S Q A I : Type} (answer : κ → S → Q → I → S × A)

/-- A task asks its next request; one that is done stays. -/
def Task.step (s : S) (t : Task κ Q A) (i : I) : S × List (Task κ Q A) :=
  match t.prog with
  | .done _ => (s, [t])
  | .call q next => ((answer t.who s q i).1, [⟨t.who, next (answer t.who s q i).2⟩])

variable (party : κ → Party S) (R : κ → S → Prop)

/-- The task is safe as its party, with the postcondition of its party. -/
def Task.Safe (s : S) (t : Task κ Q A) : Prop :=
  t.prog.Safe (answer t.who) (party t.who) (fun _ => R t.who) s

/-- Each of the two parties may rely on the other's guarantee. -/
def Party.Agree {S : Type} (p q : Party S) : Prop :=
  (∀ s t, p.guarantee s t → q.rely s t) ∧ ∀ s t, q.guarantee s t → p.rely s t

theorem Party.Agree.upTo {S : Type} {p q : Party S} (h : p.Agree q) (ok : S → Prop) :
    (p.upTo ok).Agree (q.upTo ok) :=
  ⟨fun s t hst ht => ⟨(hst ht).1, h.1 s t (hst ht).2⟩,
    fun s t hst ht => ⟨(hst ht).1, h.2 s t (hst ht).2⟩⟩

/-- Two tasks of parties that agree. -/
def Task.Agree (t u : Task κ Q A) : Prop := (party t.who).Agree (party u.who)

instance : Std.Symm (Task.Agree (Q := Q) (A := A) party) where
  symm _ _ h := ⟨h.2, h.1⟩

variable {answer party R} {D : S → Prop}

theorem Task.Safe.step {s : S} {t : Task κ Q A} (h : t.Safe answer party R s) (i : I) :
    ((t.step answer s i).1 = s ∨ (party t.who).guarantee s (t.step answer s i).1) ∧
      ∃ v, (t.step answer s i).2 = [v] ∧ v.who = t.who ∧
        v.Safe answer party R (t.step answer s i).1 := by
  obtain ⟨who, prog⟩ := t
  cases prog with
  | done a => exact ⟨.inl rfl, ⟨who, .done a⟩, rfl, rfl, h⟩
  | call q next =>
    obtain ⟨hg, hnext⟩ := h s ((party who).refl s) i
    exact ⟨.inr hg, ⟨who, next (answer who s q i).2⟩, rfl, rfl, hnext⟩

/-- **Parties that agree stay safe in every interleaving**, and what every step of a
party keeps holds throughout. -/
theorem run_sound (keep : ∀ k s t, D s → (party k).guarantee s t → D t)
    {p : Pool S (Task κ Q A)}
    (h : p.Sound D (Task.Safe answer party R) (Task.Agree party)) (schedule : List (ℕ × I)) :
    (run (fun p e => p.run (Task.step answer) e.1 e.2) p schedule).Sound D
      (Task.Safe answer party R) (Task.Agree party) := by
  refine run_invariant
    (I := Pool.Sound D (Task.Safe answer party R) (Task.Agree party))
    (fun p e hp => hp.run (fun t _ hD ht => ?_) fun t u _ _ ht hu htu => ?_) h schedule
  · obtain ⟨hstep, v, hv, -, hsafe⟩ := ht.step e.2
    rw [hv]
    refine ⟨?_, List.forall_mem_singleton.mpr hsafe, List.pairwise_singleton _ v⟩
    rcases hstep with hsame | hg
    · rwa [hsame]
    · exact keep _ _ _ hD hg
  · obtain ⟨hstep, v, hv, hwho, -⟩ := ht.step e.2
    rw [hv]
    refine ⟨?_, List.forall_mem_singleton.mpr ?_⟩
    · rcases hstep with hsame | hg
      · rwa [hsame]
      · exact Prog.Safe.rely hu (htu.1 _ _ hg)
    · unfold Task.Agree at htu ⊢
      rwa [hwho]

/-- What a finished task has reached. -/
theorem Task.Safe.of_done {s : S} {t : Task κ Q A} (h : t.Safe answer party R s)
    (hdone : t.prog = .done ()) : R t.who s := by
  unfold Task.Safe at h
  rw [hdone] at h
  exact h s ((party t.who).refl s)

end Lib
end WardenSdk
