import WardenSdk.Relays.Driver

/-!
# What the driver's calls reach

The paths of the two relays are fixed texts, so each of them can be decoded once
and for all; after that every call of the seam is a statement about one pin.

* `exists_node`, `write_export`, `readLine_direction`, `readInt_value`,
  `write_direction` and `write_value` are the six calls the driver makes.
* `Reaches` says that one world is reached from another by calls about one pin
  only, with every level of that pin on the way in a given set.  It composes
  call by call.
* `readyAt` counts the calls until a pin has been found, and `ensureExported_spec`
  and `ensureReady_reaches` say what the driver has done by then, for any pattern
  of failing calls.
-/

namespace WardenSdk
namespace Relays

open Lib

/-! ## The paths of the relays -/

section

variable {g : ℕ} (hg : g ∈ sGpio)

include hg

theorem decode_nodePath : decode (nodePath sysfsRoot g) = some (.gpio g) := by
  have h : ∀ g ∈ sGpio, decode (nodePath sysfsRoot g) = some (.gpio g) := by decide
  exact h g hg

theorem decode_directionPath : decode (directionPath sysfsRoot g) = some (.direction g) := by
  have h : ∀ g ∈ sGpio, decode (directionPath sysfsRoot g) = some (.direction g) := by decide
  exact h g hg

theorem decode_valuePath : decode (valuePath sysfsRoot g) = some (.value g) := by
  have h : ∀ g ∈ sGpio, decode (valuePath sysfsRoot g) = some (.value g) := by decide
  exact h g hg

theorem readDecimal_gpio : readDecimal (snprintf 16 (Nat.toDigits 10 g)) = some g := by
  have h : ∀ g ∈ sGpio, readDecimal (snprintf 16 (Nat.toDigits 10 g)) = some g := by decide
  exact h g hg

end

theorem decode_exportPath : decode (exportPath sysfsRoot) = some .export := by decide

/-! ## The six calls -/

section

variable {g : ℕ} (hg : g ∈ sGpio) (h : Host)

theorem reach_of_decode {p : CString} {node : Node} (hp : decode p = some node) :
    h.reach p = if h.next && present h.pins node then some node else none := by
  unfold Host.reach
  cases h.next with
  | false => rfl
  | true => simp [hp, Option.filter]

include hg

theorem reach_nodePath :
    h.reach (nodePath sysfsRoot g) =
      if h.next && (h.pins g).exported then some (.gpio g) else none :=
  reach_of_decode h (decode_nodePath hg)

theorem reach_directionPath :
    h.reach (directionPath sysfsRoot g) =
      if h.next && (h.pins g).exported then some (.direction g) else none :=
  reach_of_decode h (decode_directionPath hg)

theorem reach_valuePath :
    h.reach (valuePath sysfsRoot g) =
      if h.next && (h.pins g).exported then some (.value g) else none :=
  reach_of_decode h (decode_valuePath hg)

theorem exists_node :
    h.exists (nodePath sysfsRoot g) =
      (h.next && (h.pins g).exported, h.visit (.exists (nodePath sysfsRoot g)) h.pins) := by
  rw [Host.exists, reach_nodePath hg]
  cases h.next && (h.pins g).exported with
  | false => rfl
  | true => rfl

/-- The pins after an attempt to export. -/
theorem write_export :
    h.write (exportPath sysfsRoot) (snprintf 16 (Nat.toDigits 10 g)) =
      h.visit (.write (exportPath sysfsRoot) (snprintf 16 (Nat.toDigits 10 g)))
        (if h.next then Function.update h.pins g { h.pins g with exported := true } else h.pins) := by
  rw [Host.write, reach_of_decode h decode_exportPath]
  cases h.next with
  | false => rfl
  | true => simp [present, written, readDecimal_gpio hg]

theorem readLine_direction :
    h.readLine (directionPath sysfsRoot g) 16 =
      (if h.next && (h.pins g).exported then
          some (if (h.pins g).output then "out\n".toList else "in\n".toList)
        else none,
        h.visit (.readLine (directionPath sysfsRoot g) 16) h.pins) := by
  rw [Host.readLine, reach_directionPath hg]
  cases h.next && (h.pins g).exported with
  | false => rfl
  | true =>
    cases ho : (h.pins g).output with
    | false => simp [line, ho]
    | true => simp [line, ho]

theorem readInt_value :
    h.readInt (valuePath sysfsRoot g) =
      (if h.next && (h.pins g).exported then some (if (h.pins g).level then 1 else 0) else none,
        h.visit (.readInt (valuePath sysfsRoot g)) h.pins) := by
  rw [Host.readInt, reach_valuePath hg]
  cases h.next && (h.pins g).exported with
  | false => rfl
  | true => rfl

/-- The pins after an attempt to switch to an output at a level. -/
theorem write_direction (b : Bool) :
    h.write (directionPath sysfsRoot g) (if b then "high".toList else "low".toList) =
      h.visit (.write (directionPath sysfsRoot g) (if b then "high".toList else "low".toList))
        (if h.next && (h.pins g).exported then
          Function.update h.pins g { h.pins g with output := true, level := b }
        else h.pins) := by
  rw [Host.write, reach_directionPath hg]
  cases h.next && (h.pins g).exported with
  | false => rfl
  | true =>
    cases b with
    | false => simp [written]
    | true => simp [written]

/-- The pins after an attempt to set the level of an output. -/
theorem write_value (b : Bool) :
    h.write (valuePath sysfsRoot g) (if b then "1".toList else "0".toList) =
      h.visit (.write (valuePath sysfsRoot g) (if b then "1".toList else "0".toList))
        (if h.next && (h.pins g).exported && (h.pins g).output then
          Function.update h.pins g { h.pins g with level := b }
        else h.pins) := by
  rw [Host.write, reach_valuePath hg]
  cases h.next && (h.pins g).exported with
  | false => rfl
  | true =>
    cases ho : (h.pins g).output with
    | false => simp [written, ho]
    | true =>
      cases b with
      | false => simp [written, ho]
      | true => simp [written, ho]

end

/-! ## Calls about one pin -/

/-- A visit about pin `g` that leaves every other pin as in `pins` and the level
of `g` in the set `L`. -/
structure About (g : ℕ) (pins : Pins) (L : Bool → Prop) (v : Visit) : Prop where
  pin : v.call.pin = some g
  frame : ∀ g' ≠ g, v.pins g' = pins g'
  level : L (v.pins g).level

/-- `h'` is reached from `h` by calls about pin `g` only, through levels in `L`. -/
structure Reaches (g : ℕ) (L : Bool → Prop) (h h' : Host) : Prop where
  ok : h'.ok = h.ok
  log : ∃ new, h'.log = new ++ h.log ∧ ∀ v ∈ new, About g h.pins L v
  frame : ∀ g' ≠ g, h'.pins g' = h.pins g'
  level : L (h'.pins g).level

namespace Reaches

variable {g : ℕ} {L : Bool → Prop} {h h' : Host}

theorem refl (hL : L (h.pins g).level) : Reaches g L h h :=
  ⟨rfl, ⟨[], rfl, fun _ hv => (List.not_mem_nil hv).elim⟩, fun _ _ => rfl, hL⟩

/-- One more call about the pin. -/
theorem visit (hr : Reaches g L h h') {call : IoCall} {pins : Pins} (hpin : call.pin = some g)
    (hframe : ∀ g' ≠ g, pins g' = h'.pins g') (hL : L (pins g).level) :
    Reaches g L h (h'.visit call pins) := by
  obtain ⟨new, hlog, hnew⟩ := hr.log
  have hframe' : ∀ g' ≠ g, pins g' = h.pins g' := fun g' hg' =>
    (hframe g' hg').trans (hr.frame g' hg')
  refine ⟨hr.ok, ⟨⟨call, pins⟩ :: new, ?_, fun v hv => ?_⟩, hframe', hL⟩
  · show _ :: h'.log = _
    rw [hlog]
    rfl
  · rcases List.mem_cons.1 hv with rfl | hv
    · exact ⟨hpin, hframe', hL⟩
    · exact hnew v hv

/-- One more call that changes nothing. -/
theorem look (hr : Reaches g L h h') {call : IoCall} (hpin : call.pin = some g) :
    Reaches g L h (h'.visit call h'.pins) :=
  hr.visit hpin (fun _ _ => rfl) hr.level

/-- One more call, that changes the pin if it succeeds. -/
theorem update (hr : Reaches g L h h') {call : IoCall} (hpin : call.pin = some g) (p : Pin)
    (c : Bool) (hL : c = true → L p.level) :
    Reaches g L h (h'.visit call (if c then Function.update h'.pins g p else h'.pins)) := by
  cases c with
  | false => exact hr.look hpin
  | true =>
    rw [if_pos rfl]
    refine hr.visit hpin (fun g' hg' => Function.update_of_ne hg' p h'.pins) ?_
    rw [Function.update_self]
    exact hL rfl

theorem mono {L' : Bool → Prop} (hr : Reaches g L h h') (hL : ∀ b, L b → L' b) :
    Reaches g L' h h' := by
  obtain ⟨new, hlog, hnew⟩ := hr.log
  exact ⟨hr.ok, ⟨new, hlog, fun v hv => ⟨(hnew v hv).pin, (hnew v hv).frame, hL _ (hnew v hv).level⟩⟩,
    hr.frame, hL _ hr.level⟩

end Reaches

section

variable {g : ℕ} (hg : g ∈ sGpio)

include hg

theorem pin_exists : (IoCall.exists (nodePath sysfsRoot g)).pin = some g := by
  rw [IoCall.pin, decode_nodePath hg]
  rfl

theorem pin_export :
    (IoCall.write (exportPath sysfsRoot) (snprintf 16 (Nat.toDigits 10 g))).pin = some g := by
  rw [IoCall.pin, decode_exportPath]
  exact readDecimal_gpio hg

theorem pin_readLine (n : ℕ) : (IoCall.readLine (directionPath sysfsRoot g) n).pin = some g := by
  rw [IoCall.pin, decode_directionPath hg]
  rfl

theorem pin_readInt : (IoCall.readInt (valuePath sysfsRoot g)).pin = some g := by
  rw [IoCall.pin, decode_valuePath hg]
  rfl

theorem pin_write_direction (v : CString) :
    (IoCall.write (directionPath sysfsRoot g) v).pin = some g := by
  rw [IoCall.pin, decode_directionPath hg]
  rfl

theorem pin_write_value (v : CString) : (IoCall.write (valuePath sysfsRoot g) v).pin = some g := by
  rw [IoCall.pin, decode_valuePath hg]
  rfl

end

/-! ## Finding the pin -/

/-- The number of calls after which `ensure_ready` has found the node, when the
calls from number `n` on succeed as `ok` says: one if it is there and seen, three
if it has to be exported first or is seen only the second time. -/
def readyAt (isExported : Bool) (ok : ℕ → Bool) (n : ℕ) : Option ℕ :=
  if isExported && ok n then some (n + 1)
  else if (isExported || ok (n + 1)) && ok (n + 2) then some (n + 3)
  else none

section

variable {g : ℕ} (hg : g ∈ sGpio) (h : Host)

include hg

/-- The two ways through the first half of `ensure_ready`. -/
theorem ensureExported_eq :
    ensureExported sysfsRoot h g =
      if h.next && (h.pins g).exported then
        (true, h.visit (.exists (nodePath sysfsRoot g)) h.pins)
      else
        let h₁ := h.visit (.exists (nodePath sysfsRoot g)) h.pins
        let h₂ := h₁.visit (.write (exportPath sysfsRoot) (snprintf 16 (Nat.toDigits 10 g)))
          (if h₁.next then Function.update h.pins g { h.pins g with exported := true } else h.pins)
        (h₂.next && (h₂.pins g).exported, h₂.visit (.exists (nodePath sysfsRoot g)) h₂.pins) := by
  rw [ensureExported, exported, exists_node hg]
  dsimp only
  cases h.next && (h.pins g).exported with
  | true => rfl
  | false =>
    rw [write_export hg, exported, exists_node hg]
    rfl

/-- **The first half of `ensure_ready`**: when the node is found, and what that
leaves of the pin. -/
theorem ensureExported_spec :
    (ensureExported sysfsRoot h g).1 = (readyAt (h.pins g).exported h.ok h.log.length).isSome ∧
    (∀ r, readyAt (h.pins g).exported h.ok h.log.length = some r →
      (ensureExported sysfsRoot h g).2.log.length = r ∧
        ((ensureExported sysfsRoot h g).2.pins g).exported = true) ∧
    ((ensureExported sysfsRoot h g).2.pins g).output = (h.pins g).output ∧
    ((ensureExported sysfsRoot h g).2.pins g).level = (h.pins g).level := by
  rw [ensureExported_eq hg]
  simp only [Host.next, Host.visit, readyAt, List.length_cons, Nat.add_assoc, Nat.reduceAdd]
  have hsome : (if h.ok (h.log.length + 2) = true then some (h.log.length + 3)
      else none).isSome = h.ok (h.log.length + 2) := by
    cases h.ok (h.log.length + 2) with
    | false => rfl
    | true => rfl
  rcases Bool.eq_false_or_eq_true (h.pins g).exported with he | he
  · rcases Bool.eq_false_or_eq_true (h.ok h.log.length) with h₀ | h₀
    · simp [he, h₀]
    · rcases Bool.eq_false_or_eq_true (h.ok (h.log.length + 1)) with h₁ | h₁
      · simp [he, h₀, h₁, hsome]
      · simp [he, h₀, h₁, hsome]
  · rcases Bool.eq_false_or_eq_true (h.ok (h.log.length + 1)) with h₁ | h₁
    · simp [he, h₁, hsome]
    · simp [he, h₁]

theorem ensureExported_reaches {L : Bool → Prop} (hL : L (h.pins g).level) :
    Reaches g L h (ensureExported sysfsRoot h g).2 := by
  have h₁ : Reaches g L h (h.visit (.exists (nodePath sysfsRoot g)) h.pins) :=
    (Reaches.refl hL).look (pin_exists hg)
  rw [ensureExported_eq hg]
  cases h.next && (h.pins g).exported with
  | true => exact h₁
  | false =>
    refine Reaches.look ?_ (pin_exists hg)
    exact h₁.update (pin_export hg) { h.pins g with exported := true } _ fun _ => hL

end

/-! ## Making the pin an output -/

/-- The level a switch to an output writes: the one it reads, or low. -/
def switchLevel (h : Host) (g : ℕ) : Bool := h.next && (h.pins g).exported && (h.pins g).level

/-- The level is lost: the pin is an input, high, and it is found and its
direction read; then the value cannot be read and the direction can be written. -/
def LosesLevel (p : Pin) (ok : ℕ → Bool) (n : ℕ) : Prop :=
  p.output = false ∧ p.level = true ∧
    ∃ r, readyAt p.exported ok n = some r ∧ ok r = true ∧ ok (r + 1) = false ∧ ok (r + 2) = true

section

variable {g : ℕ} (hg : g ∈ sGpio) (h : Host)

include hg

theorem switchToOutput_eq :
    switchToOutput sysfsRoot h g =
      let h₁ := h.visit (.readInt (valuePath sysfsRoot g)) h.pins
      h₁.visit (.write (directionPath sysfsRoot g)
          (if switchLevel h g then "high".toList else "low".toList))
        (if h₁.next && (h.pins g).exported then
          Function.update h.pins g { h.pins g with output := true, level := switchLevel h g }
        else h.pins) := by
  have hcur : (if (h.readInt (valuePath sysfsRoot g)).1.getD 0 ≠ 0 then "high".toList
      else "low".toList) = if switchLevel h g then "high".toList else "low".toList := by
    rw [readInt_value hg, switchLevel]
    cases h.next && (h.pins g).exported with
    | false => rfl
    | true =>
      cases (h.pins g).level with
      | false => rfl
      | true => rfl
  rw [switchToOutput]
  dsimp only
  rw [hcur, write_direction hg, readInt_value hg]
  rfl

theorem ensureReady_eq :
    ensureReady sysfsRoot h g =
      let e := ensureExported sysfsRoot h g
      let d := e.2.visit (.readLine (directionPath sysfsRoot g) 16) e.2.pins
      if e.1 = false then (false, e.2)
      else if (e.2.next && (e.2.pins g).exported) = false then (false, d)
      else if (e.2.pins g).output then (true, d)
      else (true, switchToOutput sysfsRoot d g) := by
  rw [ensureReady]
  dsimp only
  rw [readLine_direction hg]
  cases (ensureExported sysfsRoot h g).1 with
  | false => rfl
  | true =>
    cases (ensureExported sysfsRoot h g).2.next &&
        ((ensureExported sysfsRoot h g).2.pins g).exported with
    | false => rfl
    | true =>
      cases ((ensureExported sysfsRoot h g).2.pins g).output with
      | false => rfl
      | true => rfl

/-- **`ensure_ready` under any pattern of failures** goes through the level of
the pin before it, and through low only where the level is lost. -/
theorem ensureReady_reaches {L : Bool → Prop} (hL : L (h.pins g).level)
    (hlost : LosesLevel (h.pins g) h.ok h.log.length → L false) :
    Reaches g L h (ensureReady sysfsRoot h g).2 := by
  obtain ⟨hfound, hready, houtput, hlevel⟩ := ensureExported_spec hg h
  have he := ensureExported_reaches hg h hL
  have hd := he.look (pin_readLine hg 16)
  rw [ensureReady_eq hg]
  generalize ensureExported sysfsRoot h g = e at *
  dsimp only
  split
  · exact he
  split
  · exact hd
  split
  · exact hd
  next hfind hread hout =>
    rw [switchToOutput_eq hg]
    refine (hd.look (pin_readInt hg)).update (pin_write_direction hg _) _ _ fun hc => ?_
    -- a read that fails writes low, which was the level unless it is lost
    show L (switchLevel _ g)
    rw [Bool.not_eq_false, hfound, Option.isSome_iff_exists] at hfind
    obtain ⟨r, hr⟩ := hfind
    obtain ⟨hlen, hexp⟩ := hready r hr
    rw [Bool.not_eq_false, Bool.and_eq_true] at hread
    have hok : ∀ k, e.2.ok k = h.ok k := fun k => congrFun he.ok k
    have hdirection : h.ok r = true := by
      rw [← hlen, ← hok]
      exact hread.1
    have hwrite : h.ok (r + 2) = true := by
      rw [← hlen, ← hok]
      exact (Bool.and_eq_true _ _ ▸ hc).1
    have hvalue : (e.2.visit (.readLine (directionPath sysfsRoot g) 16) e.2.pins).next =
        h.ok (r + 1) := by
      rw [← hlen, ← hok]
      rfl
    have hpins : (e.2.visit (.readLine (directionPath sysfsRoot g) 16) e.2.pins).pins g =
        e.2.pins g := rfl
    rw [switchLevel, hvalue, hpins, hexp, hlevel, Bool.and_true]
    cases hv : h.ok (r + 1) with
    | true => exact hL
    | false =>
      cases hlv : (h.pins g).level with
      | false => rwa [hlv] at hL
      | true =>
        rw [Bool.and_true]
        refine hlost ⟨?_, hlv, r, hr, hdirection, hv, hwrite⟩
        rw [← houtput]
        exact Bool.eq_false_of_not_eq_true hout

/-- Where the level is lost, `ensure_ready` succeeds and has driven the pin low. -/
theorem ensureReady_loses (hlost : LosesLevel (h.pins g) h.ok h.log.length) :
    (ensureReady sysfsRoot h g).1 = true ∧
      ∃ v ∈ (ensureReady sysfsRoot h g).2.log, (v.pins g).level = false := by
  obtain ⟨hout, -, r, hr, hdirection, hvalue, hwrite⟩ := hlost
  obtain ⟨hfound, hready, houtput, -⟩ := ensureExported_spec hg h
  obtain ⟨hlen, hexp⟩ := hready r hr
  have hok : (ensureExported sysfsRoot h g).2.ok = h.ok :=
    (ensureExported_reaches (L := fun _ => True) hg h trivial).ok
  rw [hr, Option.isSome_some] at hfound
  have hread : (ensureExported sysfsRoot h g).2.next = true := by
    rw [Host.next, hok, hlen]
    exact hdirection
  rw [ensureReady_eq hg]
  simp only [hfound, hread, hexp, houtput, hout, Bool.and_self, Bool.true_eq_false,
    Bool.false_eq_true, if_false, true_and]
  rw [switchToOutput_eq hg]
  generalize ensureExported sysfsRoot h g = e at *
  have hnext : (e.2.visit (.readLine (directionPath sysfsRoot g) 16) e.2.pins).next = false := by
    show e.2.ok (e.2.log.length + 1) = false
    rw [hok, hlen]
    exact hvalue
  have hlast : ((e.2.visit (.readLine (directionPath sysfsRoot g) 16) e.2.pins).visit
      (.readInt (valuePath sysfsRoot g)) e.2.pins).next = true := by
    show e.2.ok (e.2.log.length + 2) = true
    rw [hok, hlen]
    exact hwrite
  refine ⟨_, List.mem_cons_self, ?_⟩
  have hpins : (e.2.visit (.readLine (directionPath sysfsRoot g) 16) e.2.pins).pins = e.2.pins := rfl
  simp only [hpins, hlast, hexp, Bool.and_self, if_true, Function.update_self, switchLevel, hnext,
    Bool.false_and]

/-- Without a failure `ensure_ready` makes the pin an output at the level it had. -/
theorem ensureReady_of_ok (hok : ∀ k, h.ok k = true) :
    (ensureReady sysfsRoot h g).1 = true ∧
      (ensureReady sysfsRoot h g).2.pins g = ⟨true, true, (h.pins g).level⟩ := by
  obtain ⟨hfound, hready, houtput, hlevel⟩ := ensureExported_spec hg h
  obtain ⟨r, hr⟩ : ∃ r, readyAt (h.pins g).exported h.ok h.log.length = some r := by
    unfold readyAt
    cases (h.pins g).exported with
    | false => exact ⟨h.log.length + 3, by simp [hok]⟩
    | true => exact ⟨h.log.length + 1, by simp [hok]⟩
  have hexp := (hready r hr).2
  have hok' : ∀ k, (ensureExported sysfsRoot h g).2.ok k = true := fun k => by
    rw [(ensureExported_reaches (L := fun _ => True) hg h trivial).ok]
    exact hok k
  rw [hr, Option.isSome_some] at hfound
  rw [ensureReady_eq hg]
  generalize ensureExported sysfsRoot h g = e at *
  have hread : e.2.next = true := hok' _
  simp only [hfound, hread, hexp, Bool.and_self, Bool.true_eq_false, if_false]
  cases hout : (e.2.pins g).output with
  | true =>
    exact ⟨rfl, Pin.ext hexp hout hlevel⟩
  | false =>
    have hvalue : (e.2.visit (.readLine (directionPath sysfsRoot g) 16) e.2.pins).next = true :=
      hok' _
    have hlast : ((e.2.visit (.readLine (directionPath sysfsRoot g) 16) e.2.pins).visit
        (.readInt (valuePath sysfsRoot g)) e.2.pins).next = true := hok' _
    refine ⟨rfl, ?_⟩
    show (switchToOutput sysfsRoot _ g).pins g = _
    rw [switchToOutput_eq hg]
    have hpins : (e.2.visit (.readLine (directionPath sysfsRoot g) 16) e.2.pins).pins = e.2.pins :=
      rfl
    simp only [Host.visit] at hlast hvalue hpins ⊢
    simp [Host.next, hok', switchLevel, hexp, hlevel]

end

end Relays
end WardenSdk
