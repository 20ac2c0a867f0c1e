import WardenSdk.Lib.Checked
import WardenSdk.Lib.Text

/-!
# Texts as bytes

A text in memory is its UTF-8 encoding, and a position in it is a number of bytes.  A
slice of a text has to begin and end between two characters; a byte is read at any
position below the length.

* `splitAtByte`: the text before and the text after a position, if that is a boundary.
* `strFrom`, `strRange`, `strFind`: `&s[i..]`, `&s[i..j]` and `s.find(pat)`.
* `skipWhile`: the loop that moves a position over bytes of a kind.

A byte below 128 is a character of its own, and the bytes of any other character are
128 or more.  So a kind of bytes that says the same of all the bytes of a character
(`Agrees`) moves a position from one boundary to another (`skipWhile_utf8`).
-/

namespace WardenSdk
namespace Lib

def utf8 (s : Text) : List UInt8 := s.flatMap String.utf8EncodeChar

def utf8Len (s : Text) : ℕ := (utf8 s).length

@[simp] theorem utf8_append (s t : Text) : utf8 (s ++ t) = utf8 s ++ utf8 t := List.flatMap_append

theorem utf8_cons (c : Char) (s : Text) : utf8 (c :: s) = String.utf8EncodeChar c ++ utf8 s :=
  List.flatMap_cons

theorem length_utf8 (s : Text) : (utf8 s).length = utf8Len s := rfl

@[simp] theorem utf8Len_nil : utf8Len [] = 0 := rfl

@[simp] theorem utf8Len_append (s t : Text) : utf8Len (s ++ t) = utf8Len s + utf8Len t := by
  rw [utf8Len, utf8_append, List.length_append, utf8Len, utf8Len]

theorem utf8Len_cons (c : Char) (s : Text) : utf8Len (c :: s) = c.utf8Size + utf8Len s := by
  rw [utf8Len, utf8_cons, List.length_append, String.length_utf8EncodeChar, utf8Len]

/-! ## Slices -/

/-- The text before and the text after a boundary. -/
def splitAtByte : Text → ℕ → Option (Text × Text)
  | s, 0 => some ([], s)
  | [], _ + 1 => none
  | c :: s, i + 1 =>
    if c.utf8Size ≤ i + 1 then
      (splitAtByte s (i + 1 - c.utf8Size)).map fun p => (c :: p.1, p.2)
    else none

theorem splitAtByte_zero (s : Text) : splitAtByte s 0 = some ([], s) := by
  unfold splitAtByte
  rfl

theorem splitAtByte_append (u v : Text) : splitAtByte (u ++ v) (utf8Len u) = some (u, v) := by
  induction u with
  | nil => exact splitAtByte_zero v
  | cons c u ih =>
    have hpos := c.utf8Size_pos
    rw [utf8Len_cons]
    obtain ⟨i, hi⟩ : ∃ i, c.utf8Size + utf8Len u = i + 1 := ⟨_, (Nat.succ_pred (by omega)).symm⟩
    have hrest : i + 1 - c.utf8Size = utf8Len u := by omega
    rw [hi, List.cons_append, splitAtByte, if_pos (by omega), hrest, ih]
    rfl

theorem splitAtByte_eq_some {s u v : Text} {i : ℕ} (h : splitAtByte s i = some (u, v)) :
    s = u ++ v ∧ utf8Len u = i := by
  induction s generalizing i u with
  | nil =>
    cases i with
    | zero =>
      rw [splitAtByte_zero] at h
      cases h
      exact ⟨rfl, rfl⟩
    | succ i => cases h
  | cons c s ih =>
    cases i with
    | zero =>
      rw [splitAtByte_zero] at h
      cases h
      exact ⟨rfl, rfl⟩
    | succ i =>
      rw [splitAtByte] at h
      split_ifs at h with hle
      obtain ⟨⟨u', v'⟩, hsplit, heq⟩ := Option.map_eq_some_iff.mp h
      obtain ⟨rfl, rfl⟩ := Prod.mk.inj heq
      obtain ⟨rfl, hlen⟩ := ih hsplit
      refine ⟨rfl, ?_⟩
      rw [utf8Len_cons, hlen]
      exact Nat.add_sub_cancel' hle

/-- `&s[i..]`. -/
def strFrom (s : Text) (i : ℕ) : Checked Text :=
  match splitAtByte s i with
  | some (_, v) => .ok v
  | none => .error .slice

/-- `&s[i..j]`. -/
def strRange (s : Text) (i j : ℕ) : Checked Text := do
  let v ← strFrom s i
  if j < i then .error .slice
  else
    match splitAtByte v (j - i) with
    | some (w, _) => .ok w
    | none => .error .slice

theorem strFrom_append (u v : Text) : strFrom (u ++ v) (utf8Len u) = .ok v := by
  rw [strFrom, splitAtByte_append]

theorem strFrom_eq_ok {s v : Text} {i : ℕ} (h : strFrom s i = .ok v) :
    ∃ u, s = u ++ v ∧ utf8Len u = i := by
  unfold strFrom at h
  split at h
  · rename_i u v' hsplit
    cases h
    exact ⟨u, splitAtByte_eq_some hsplit⟩
  · cases h

theorem strRange_append (u w v : Text) :
    strRange (u ++ (w ++ v)) (utf8Len u) (utf8Len u + utf8Len w) = .ok w := by
  rw [strRange, strFrom_append, ok_bind, if_neg (by omega), Nat.add_sub_cancel_left,
    splitAtByte_append]

/-- `s.find(pat)`: where the first occurrence begins. -/
def strFind (pat : Text) : Text → Option ℕ
  | [] => if pat.isEmpty then some 0 else none
  | c :: s => if pat.isPrefixOf (c :: s) then some 0 else (strFind pat s).map (c.utf8Size + ·)

/-- The occurrence lies inside the text. -/
theorem strFind_le {pat s : Text} {pos : ℕ} (h : strFind pat s = some pos) :
    pos + utf8Len pat ≤ utf8Len s := by
  induction s generalizing pos with
  | nil =>
    unfold strFind at h
    split_ifs at h with hempty
    cases h
    rw [List.isEmpty_iff.mp hempty]
    exact Nat.le_refl _
  | cons c s ih =>
    unfold strFind at h
    split_ifs at h with hhere
    · cases h
      obtain ⟨t, ht⟩ := List.isPrefixOf_iff_prefix.mp hhere
      rw [← ht, utf8Len_append]
      omega
    · obtain ⟨pos', hpos', rfl⟩ := Option.map_eq_some_iff.mp h
      have := ih hpos'
      rw [utf8Len_cons]
      omega

theorem strFind_singleton {c : Char} {s u v : Text} (h : splitOnce c s = some (u, v)) :
    strFind [c] s = some (utf8Len u) := by
  obtain ⟨rfl, hc⟩ := splitOnce_eq_some_iff.mp h
  clear h
  induction u with
  | nil => rw [List.nil_append, strFind, if_pos (by simp)]; rfl
  | cons d u ih =>
    obtain ⟨hne, hu⟩ := not_or.mp (mt List.mem_cons.mpr hc)
    rw [List.cons_append, strFind, if_neg (by simpa using hne), ih hu, utf8Len_cons]
    rfl

theorem strFind_singleton_none {c : Char} {s : Text} (h : c ∉ s) : strFind [c] s = none := by
  induction s with
  | nil => rfl
  | cons d s ih =>
    obtain ⟨hne, hs⟩ := not_or.mp (mt List.mem_cons.mpr h)
    rw [strFind, if_neg (by simpa using hne), ih hs]
    rfl

/-! ## Bytes -/

/-- A character is a byte of its own, or all its bytes are 128 or more. -/
theorem utf8EncodeChar_cases (c : Char) :
    (c.toNat < 128 ∧ String.utf8EncodeChar c = [UInt8.ofNat c.toNat]) ∨
      (128 ≤ c.toNat ∧ ∀ b ∈ String.utf8EncodeChar c, 128 ≤ b.toNat) := by
  have hval : c.val.toNat = c.toNat := rfl
  by_cases h : c.toNat < 128
  · refine .inl ⟨h, ?_⟩
    rw [String.utf8EncodeChar, hval, if_pos (by omega)]
  · refine .inr ⟨by omega, ?_⟩
    have hbyte (n : ℕ) {m k : ℕ} (hm : 0 < m) (hk : 128 ≤ k) (hmk : m + k ≤ 256) :
        128 ≤ (UInt8.ofNat (n % m + k)).toNat := by
      have hlt := Nat.mod_lt n hm
      rw [UInt8.toNat_ofNat', Nat.mod_eq_of_lt (by omega)]
      omega
    rw [String.utf8EncodeChar, hval, if_neg (by omega)]
    have htail (n : ℕ) : 128 ≤ (UInt8.ofNat (n % 0x40 + 0x80)).toNat :=
      hbyte n (by omega) (by omega) (by omega)
    split_ifs <;> simp only [List.forall_mem_cons]
    · exact ⟨hbyte _ (by omega) (by omega) (by omega), htail _, List.forall_mem_nil _⟩
    · exact ⟨hbyte _ (by omega) (by omega) (by omega), htail _, htail _, List.forall_mem_nil _⟩
    · exact ⟨hbyte _ (by omega) (by omega) (by omega), htail _, htail _, htail _,
        List.forall_mem_nil _⟩

/-- A kind of bytes that says the same of all the bytes of a character. -/
def Agrees (P : UInt8 → Bool) (p : Char → Bool) : Prop :=
  ∀ c, ∀ b ∈ String.utf8EncodeChar c, P b = p c

/-- It is enough to look at the characters below 128, when all the others are alike. -/
theorem agrees_of_ascii {P : UInt8 → Bool} {p : Char → Bool} {d : Bool}
    (hascii : ∀ n < 128, P (UInt8.ofNat n) = p (Char.ofNat n))
    (hbyte : ∀ n < 128, P (UInt8.ofNat (128 + n)) = d)
    (hchar : ∀ c, 128 ≤ c.toNat → p c = d) : Agrees P p := by
  intro c b hb
  rcases utf8EncodeChar_cases c with ⟨hlt, henc⟩ | ⟨hle, hall⟩
  · rw [henc, List.mem_singleton] at hb
    have h := hascii c.toNat hlt
    rwa [Char.ofNat_toNat, ← hb] at h
  · have hle' := hall b hb
    have hlt := b.toNat_lt
    have h := hbyte (b.toNat - 128) (by omega)
    rw [Nat.add_sub_cancel' hle', UInt8.ofNat_toNat] at h
    rw [h, hchar c hle]

theorem Agrees.forall_utf8 {P : UInt8 → Bool} {p : Char → Bool} (h : Agrees P p) {s : Text}
    {d : Bool} (hs : ∀ c ∈ s, p c = d) : ∀ b ∈ utf8 s, P b = d := by
  intro b hb
  obtain ⟨c, hc, hb⟩ := List.mem_flatMap.mp hb
  rw [h c b hb, hs c hc]

/-- The first byte of a text, if it has one. -/
theorem Agrees.head_utf8 {P : UInt8 → Bool} {p : Char → Bool} (h : Agrees P p) {s : Text}
    {d : Bool} (hs : ∀ c ∈ s.head?, p c = d) : ∀ b ∈ (utf8 s).head?, P b = d := by
  intro b hb
  cases s with
  | nil => cases hb
  | cons c s =>
    rw [utf8_cons, List.head?_append_of_ne_nil _ String.utf8EncodeChar_ne_nil] at hb
    rw [h c b (List.mem_of_mem_head? hb), hs c rfl]

/-- The last byte of a text, if it has one. -/
theorem Agrees.getLast_utf8 {P : UInt8 → Bool} {p : Char → Bool} (h : Agrees P p) {s : Text}
    {c : Char} (hs : s.getLast? = some c) : ∃ b, (utf8 s).getLast? = some b ∧ P b = p c := by
  obtain ⟨t, rfl⟩ := List.getLast?_eq_some_iff.mp hs
  have hne : String.utf8EncodeChar c ≠ [] := String.utf8EncodeChar_ne_nil
  refine ⟨(String.utf8EncodeChar c).getLast hne, ?_, h c _ (List.getLast_mem hne)⟩
  rw [utf8_append, utf8_cons, List.getLast?_append]
  simp [utf8, List.getLast?_eq_some_getLast hne]

/-! ## Moving over bytes -/

/-- `while j < bytes.len() && P(bytes[j]) { j += 1; }`. -/
def skipWhile (P : UInt8 → Bool) (bytes : List UInt8) (j : ℕ) : Checked ℕ :=
  if j < bytes.length then do
    let b ← index bytes j
    if P b then skipWhile P bytes (j + 1) else .ok j
  else .ok j
termination_by bytes.length - j

theorem index_append (pre : List UInt8) (b : UInt8) (post : List UInt8) :
    index (pre ++ b :: post) pre.length = .ok b := by
  rw [index, List.getElem?_append_right (Nat.le_refl _), Nat.sub_self]
  rfl

theorem skipWhile_append {P : UInt8 → Bool} {mid : List UInt8} (hmid : ∀ b ∈ mid, P b = true)
    (pre : List UInt8) {post : List UInt8} (hpost : ∀ b ∈ post.head?, P b = false) :
    skipWhile P (pre ++ (mid ++ post)) pre.length = .ok (pre.length + mid.length) := by
  induction mid generalizing pre with
  | nil =>
    rw [skipWhile]
    cases post with
    | nil => rw [if_neg (by simp)]; rfl
    | cons b post =>
      rw [if_pos (by simp), List.nil_append, index_append, ok_bind, hpost b rfl]
      rfl
  | cons b mid ih =>
    have hnext := ih (fun d hd => hmid d (List.mem_cons_of_mem _ hd)) (pre ++ [b])
    have hshape : pre ++ (b :: mid ++ post) = pre ++ [b] ++ (mid ++ post) := by simp
    rw [skipWhile, if_pos (by simp), List.cons_append, index_append, ok_bind,
      if_pos (hmid b List.mem_cons_self), ← List.cons_append, hshape]
    rw [List.length_append, List.length_singleton] at hnext
    rw [hnext, List.length_cons]
    congr 1
    omega

theorem le_of_skipWhile {P : UInt8 → Bool} {bytes : List UInt8} {j j' : ℕ}
    (h : skipWhile P bytes j = .ok j') : j ≤ j' := by
  induction hn : bytes.length - j generalizing j with
  | zero =>
    rw [skipWhile, if_neg (by omega)] at h
    cases h
    exact Nat.le_refl _
  | succ n ih =>
    rw [skipWhile, if_pos (by omega)] at h
    obtain ⟨b, -, h⟩ := bind_eq_ok h
    split_ifs at h
    · exact Nat.le_of_succ_le (ih h (by omega))
    · cases h
      exact Nat.le_refl _

/-- **From one boundary to another.**  The loop moves over the characters of the kind. -/
theorem skipWhile_utf8 {P : UInt8 → Bool} {p : Char → Bool} (h : Agrees P p) (u v : Text) :
    skipWhile P (utf8 (u ++ v)) (utf8Len u) = .ok (utf8Len u + utf8Len (v.takeWhile p)) := by
  have hsplit := List.takeWhile_append_dropWhile (p := p) (l := v)
  have hmid : ∀ b ∈ utf8 (v.takeWhile p), P b = true :=
    h.forall_utf8 fun c hc => List.mem_takeWhile_imp hc
  have hpost : ∀ b ∈ (utf8 (v.dropWhile p)).head?, P b = false := by
    refine h.head_utf8 fun c hc => ?_
    have hnot := List.head?_dropWhile_not p v
    rw [hc] at hnot
    simpa using hnot
  have hrun := skipWhile_append hmid (utf8 u) hpost
  rw [← utf8_append, hsplit, ← utf8_append] at hrun
  exact hrun

end Lib
end WardenSdk
