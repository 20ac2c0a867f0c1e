import WardenSdk.ConfigLint.Gate

/-!
# The loader `.ini`

`parse_ini_mcu_loads` reads the loads off an rkbin loader `.ini` in one pass: it
remembers the section it is in, gathers the `LOADERn=<name>` pairs and the
`LOAD_ADDR` values on the way, and joins the two at the end.

Beside it stands the plain reading of such a file: `entries` lists its `key=value`
lines, each with the section it stands in.  The law of the gate is stated over the
entries (`FailsClosed`), and the last section says for which files the code keeps
it.  A load can get lost on the way in two places: the loader-option section is
recognised by its exact spelling only, while every other name is compared without
regard to case; and a `LOAD_ADDR` whose value cannot be read is passed over.
-/

namespace WardenSdk
namespace ConfigLint

open Lib

/-! ## The parser -/

/-- Loaders of the normal boot chain. -/
def safeLoaders : List Text :=
  ["flashdata", "flashboot", "nandboot", "nandboot1", "nandboot2", "sdboot", "emmcboot",
    "spinorboot", "ddr", "usbplug", "spl", "uboot", "loader", "miniloader", "trust", "tee", "atf",
    "bl31", "fsbl", "idblock"].map String.toList

/-- The name without its separators, in lower case. -/
def normalisedName (name : Text) : Text :=
  toAsciiLowercase (name.filter fun c => c.isAlphanum)

def isKnownSafeLoader (name : Text) : Bool := normalisedName name ∈ safeLoaders

/-- What a line says, without its comment and the white space around it. -/
inductive IniLine where
  | skip
  | header (name : Text)
  | pair (key value : Text)
  deriving DecidableEq

def readLine (raw : Text) : IniLine :=
  let line := trim (raw.takeWhile fun c => c != '#' && c != ';')
  if line.isEmpty then .skip
  else
    match (stripPrefix "[".toList line).bind (stripSuffix "]".toList) with
    | some name => .header (trim name)
    | none =>
      match splitOnce '=' line with
      | none => .skip
      | some (k, v) => .pair (trim k) (trim v)

structure IniState where
  sectionName : Text
  /-- Loader index and firmware name. -/
  loaders : List (Text × Text)
  /-- Section name and `LOAD_ADDR`, the last insertion first. -/
  loadAddrs : List (Text × UInt64)
  deriving DecidableEq

def loaderOption : Text := "LOADER_OPTION".toList

def IniState.step (st : IniState) (raw : Text) : IniState :=
  match readLine raw with
  | .skip => st
  | .header name => { st with sectionName := name }
  | .pair k v =>
    if st.sectionName = loaderOption ∧ "LOADER".toList <+: toAsciiUppercase k then
      { st with loaders := st.loaders ++ [(toAsciiUppercase k, v)] }
    else if eqIgnoreAsciiCase k "LOAD_ADDR".toList then
      match parseAddr v with
      | some a => { st with loadAddrs := (toAsciiUppercase st.sectionName, a) :: st.loadAddrs }
      | none => st
    else st

/-- `load_addrs.get`: the last insertion under the key. -/
def getAddr (loadAddrs : List (Text × UInt64)) (key : Text) : Option UInt64 :=
  (loadAddrs.find? fun p => p.1 = key).map Prod.snd

def IniState.loads (st : IniState) : List McuLoad :=
  st.loaders.filterMap fun (loader, name) =>
    if isKnownSafeLoader name then none
    else (getAddr st.loadAddrs (loader ++ "_PARAM".toList)).map fun addr => ⟨loader, name, addr⟩

def parseIniMcuLoads (ini : Text) : List McuLoad :=
  ((lines ini).foldl IniState.step ⟨[], [], []⟩).loads

/-! ## The entries of a file -/

/-- A `key=value` line and the section it stands in. -/
structure Entry where
  sectionName : Text
  key : Text
  value : Text
  deriving DecidableEq

def entriesFrom (sectionName : Text) : List Text → List Entry
  | [] => []
  | raw :: rest =>
    match readLine raw with
    | .skip => entriesFrom sectionName rest
    | .header name => entriesFrom name rest
    | .pair k v => ⟨sectionName, k, v⟩ :: entriesFrom sectionName rest

def entries (ini : Text) : List Entry := entriesFrom [] (lines ini)

/-- An entry `LOADERn=<name>` of the loader-option section, in any letter case. -/
def Entry.IsLoader (e : Entry) : Prop :=
  eqIgnoreAsciiCase e.sectionName loaderOption = true ∧ "LOADER".toList <+: toAsciiUppercase e.key

/-- A `LOAD_ADDR` line of the section that belongs to the loader of `e`, in any
letter case. -/
def Entry.AddressOf (p e : Entry) : Prop :=
  toAsciiUppercase p.sectionName = toAsciiUppercase e.key ++ "_PARAM".toList ∧
    eqIgnoreAsciiCase p.key "LOAD_ADDR".toList = true

/-- The entry is among the loads, and is a finding when nothing is reserved. -/
def Represented (ini : Text) (e : Entry) : Prop :=
  ∃ load ∈ parseIniMcuLoads ini, load.loader = toAsciiUppercase e.key ∧ load.name = e.value ∧
    findingFor load ∈ check (parseIniMcuLoads ini) []

/-- Every coprocessor load that the file declares an address for is represented. -/
def FailsClosed (ini : Text) : Prop :=
  ∀ e ∈ entries ini, e.IsLoader → isKnownSafeLoader e.value = false →
    (∃ p ∈ entries ini, p.AddressOf e) → Represented ini e

/-! ## What the parser gathers -/

/-- What the parser takes for a loader. -/
def Entry.loader? (e : Entry) : Option (Text × Text) :=
  if e.sectionName = loaderOption ∧ "LOADER".toList <+: toAsciiUppercase e.key then
    some (toAsciiUppercase e.key, e.value)
  else none

/-- What the parser takes for an address. -/
def Entry.loadAddr? (e : Entry) : Option (Text × UInt64) :=
  if e.sectionName = loaderOption ∧ "LOADER".toList <+: toAsciiUppercase e.key then none
  else if eqIgnoreAsciiCase e.key "LOAD_ADDR".toList then
    (parseAddr e.value).map fun a => (toAsciiUppercase e.sectionName, a)
  else none

theorem IniState.step_skip {st : IniState} {raw : Text} (h : readLine raw = .skip) :
    st.step raw = st := by
  rw [IniState.step, h]

theorem IniState.step_header {st : IniState} {raw name : Text} (h : readLine raw = .header name) :
    st.step raw = { st with sectionName := name } := by
  rw [IniState.step, h]

theorem IniState.step_pair {st : IniState} {raw k v : Text} (h : readLine raw = .pair k v) :
    st.step raw =
      { sectionName := st.sectionName
        loaders := st.loaders ++ (Entry.loader? ⟨st.sectionName, k, v⟩).toList
        loadAddrs := (Entry.loadAddr? ⟨st.sectionName, k, v⟩).toList ++ st.loadAddrs } := by
  rw [IniState.step, h]
  simp only [Entry.loader?, Entry.loadAddr?]
  split_ifs with hloader haddr
  · rfl
  · cases parseAddr v <;> simp
  · simp

/-- **One pass gathers what the entries say.** -/
theorem foldl_step (st : IniState) (ls : List Text) :
    (ls.foldl IniState.step st).loaders =
        st.loaders ++ (entriesFrom st.sectionName ls).filterMap Entry.loader? ∧
      (ls.foldl IniState.step st).loadAddrs =
        ((entriesFrom st.sectionName ls).filterMap Entry.loadAddr?).reverse ++ st.loadAddrs := by
  induction ls generalizing st with
  | nil => simp [entriesFrom]
  | cons raw ls ih =>
    rw [List.foldl_cons, entriesFrom]
    cases h : readLine raw with
    | skip => rw [IniState.step_skip h]; exact ih st
    | header name => rw [IniState.step_header h]; exact ih _
    | pair k v =>
      rw [IniState.step_pair h]
      obtain ⟨ih₁, ih₂⟩ := ih { sectionName := st.sectionName
                                loaders := st.loaders ++ (Entry.loader? ⟨st.sectionName, k, v⟩).toList
                                loadAddrs := (Entry.loadAddr? ⟨st.sectionName, k, v⟩).toList ++
                                  st.loadAddrs }
      rw [ih₁, ih₂]
      constructor
      · cases h₁ : Entry.loader? ⟨st.sectionName, k, v⟩ <;> simp [h₁]
      · cases h₂ : Entry.loadAddr? ⟨st.sectionName, k, v⟩ <;> simp [h₂]

/-- The two tables, joined. -/
theorem parseIniMcuLoads_eq (ini : Text) :
    parseIniMcuLoads ini = ((entries ini).filterMap Entry.loader?).filterMap fun (loader, name) =>
      if isKnownSafeLoader name then none
      else (getAddr ((entries ini).filterMap Entry.loadAddr?).reverse
        (loader ++ "_PARAM".toList)).map fun addr => ⟨loader, name, addr⟩ := by
  obtain ⟨hloaders, haddrs⟩ := foldl_step ⟨[], [], []⟩ (lines ini)
  rw [List.nil_append] at hloaders
  rw [List.append_nil] at haddrs
  rw [parseIniMcuLoads, IniState.loads, hloaders, haddrs]
  rfl

theorem getAddr_isSome_iff (l : List (Text × UInt64)) (key : Text) :
    (getAddr l key).isSome = true ↔ ∃ a, (key, a) ∈ l := by
  rw [getAddr, Option.isSome_map, List.find?_isSome]
  constructor
  · rintro ⟨⟨k, a⟩, hmem, hk⟩
    exact ⟨a, of_decide_eq_true hk ▸ hmem⟩
  · rintro ⟨a, hmem⟩
    exact ⟨_, hmem, decide_eq_true rfl⟩

/-- A load comes from a loader that is not on the safe list and has an address. -/
theorem mem_parseIniMcuLoads {ini : Text} {loader name : Text} :
    (∃ load ∈ parseIniMcuLoads ini, load.loader = loader ∧ load.name = name) ↔
      isKnownSafeLoader name = false ∧
        (∃ e ∈ entries ini, e.loader? = some (loader, name)) ∧
        ∃ p ∈ entries ini, ∃ a, p.loadAddr? = some (loader ++ "_PARAM".toList, a) := by
  have haddr : (∃ p ∈ entries ini, ∃ a, p.loadAddr? = some (loader ++ "_PARAM".toList, a)) ↔
      (getAddr ((entries ini).filterMap Entry.loadAddr?).reverse
        (loader ++ "_PARAM".toList)).isSome = true := by
    rw [getAddr_isSome_iff]
    simp only [List.mem_reverse, List.mem_filterMap]
    constructor
    · rintro ⟨p, hp, a, ha⟩
      exact ⟨a, p, hp, ha⟩
    · rintro ⟨a, p, hp, ha⟩
      exact ⟨p, hp, a, ha⟩
  rw [haddr, parseIniMcuLoads_eq]
  simp only [List.mem_filterMap]
  constructor
  · rintro ⟨load, ⟨⟨l, n⟩, ⟨e, he, hload⟩, hsome⟩, rfl, rfl⟩
    dsimp only at hsome
    split_ifs at hsome with hsafe
    obtain ⟨a, ha, rfl⟩ := Option.map_eq_some_iff.mp hsome
    exact ⟨Bool.eq_false_iff.mpr hsafe, ⟨e, he, hload⟩, by rw [ha]; rfl⟩
  · rintro ⟨hsafe, ⟨e, he, hload⟩, hsome⟩
    obtain ⟨a, ha⟩ := Option.isSome_iff_exists.mp hsome
    refine ⟨⟨loader, name, a⟩, ⟨(loader, name), ⟨e, he, hload⟩, ?_⟩, rfl, rfl⟩
    dsimp only
    rw [hsafe, ha]
    rfl

/-! ## When the gate fails closed -/

/-- The key of an address line is not the key of a loader. -/
theorem not_loader_of_loadAddr {k : Text} (h : eqIgnoreAsciiCase k "LOAD_ADDR".toList = true) :
    ¬ "LOADER".toList <+: toAsciiUppercase k := by
  rw [toAsciiUppercase_of_eqIgnoreAsciiCase h]
  decide

theorem loader?_eq_some_iff {e : Entry} {loader name : Text} :
    e.loader? = some (loader, name) ↔ e.sectionName = loaderOption ∧
      "LOADER".toList <+: toAsciiUppercase e.key ∧ toAsciiUppercase e.key = loader ∧
      e.value = name := by
  unfold Entry.loader?
  split_ifs with h
  · rw [Option.some_inj, Prod.mk.injEq]
    exact ⟨fun h' => ⟨h.1, h.2, h'⟩, fun h' => h'.2.2⟩
  · exact ⟨fun h' => absurd h' (by simp), fun h' => absurd ⟨h'.1, h'.2.1⟩ h⟩

theorem exists_loadAddr?_iff {p : Entry} {key : Text} :
    (∃ a, p.loadAddr? = some (key, a)) ↔ toAsciiUppercase p.sectionName = key ∧
      eqIgnoreAsciiCase p.key "LOAD_ADDR".toList = true ∧ (parseAddr p.value).isSome = true := by
  unfold Entry.loadAddr?
  split_ifs with hloader haddr
  · constructor
    · rintro ⟨a, h⟩
      cases h
    · rintro ⟨-, hkey, -⟩
      exact absurd hloader.2 (not_loader_of_loadAddr hkey)
  · cases h : parseAddr p.value with
    | none => simp
    | some a =>
      constructor
      · rintro ⟨b, hb⟩
        cases hb
        exact ⟨rfl, haddr, rfl⟩
      · rintro ⟨rfl, -⟩
        exact ⟨a, rfl⟩
  · constructor
    · rintro ⟨a, h⟩
      cases h
    · rintro ⟨-, hkey, -⟩
      exact absurd hkey haddr

/-- What it takes for an entry to be represented. -/
theorem represented_iff {ini : Text} {e : Entry} (hloader : e.IsLoader)
    (hchecked : isKnownSafeLoader e.value = false) :
    Represented ini e ↔
      (∃ e' ∈ entries ini, e'.sectionName = loaderOption ∧
        toAsciiUppercase e'.key = toAsciiUppercase e.key ∧ e'.value = e.value) ∧
      ∃ p ∈ entries ini, p.AddressOf e ∧ (parseAddr p.value).isSome = true := by
  have hrep : Represented ini e ↔
      ∃ load ∈ parseIniMcuLoads ini, load.loader = toAsciiUppercase e.key ∧ load.name = e.value := by
    constructor
    · rintro ⟨load, hmem, hl, hn, -⟩
      exact ⟨load, hmem, hl, hn⟩
    · rintro ⟨load, hmem, hl, hn⟩
      refine ⟨load, hmem, hl, hn, ?_⟩
      rw [check_nil]
      exact List.mem_map_of_mem hmem
  rw [hrep, mem_parseIniMcuLoads]
  simp only [loader?_eq_some_iff, exists_loadAddr?_iff]
  constructor
  · rintro ⟨-, ⟨e', he', hsec, -, hkey, hval⟩, p, hp, hparam, hkey', hsome⟩
    exact ⟨⟨e', he', hsec, hkey, hval⟩, p, hp, ⟨hparam, hkey'⟩, hsome⟩
  · rintro ⟨⟨e', he', hsec, hkey, hval⟩, p, hp, ⟨hparam, hkey'⟩, hsome⟩
    exact ⟨hchecked, ⟨e', he', hsec, hkey ▸ hloader.2, hkey, hval⟩, p, hp, hparam, hkey', hsome⟩

/-- **The gate fails closed on exactly these files.**  For each coprocessor load
with an address line, the same loader stands in a section spelled `LOADER_OPTION`,
and some address line of it has a value that can be read. -/
theorem failsClosed_iff (ini : Text) :
    FailsClosed ini ↔
      ∀ e ∈ entries ini, e.IsLoader → isKnownSafeLoader e.value = false →
        (∃ p ∈ entries ini, p.AddressOf e) →
        (∃ e' ∈ entries ini, e'.sectionName = loaderOption ∧
          toAsciiUppercase e'.key = toAsciiUppercase e.key ∧ e'.value = e.value) ∧
        ∃ p ∈ entries ini, p.AddressOf e ∧ (parseAddr p.value).isSome = true := by
  constructor
  · intro h e he hloader hchecked hparam
    exact (represented_iff hloader hchecked).mp (h e he hloader hchecked hparam)
  · intro h e he hloader hchecked hparam
    exact (represented_iff hloader hchecked).mpr (h e he hloader hchecked hparam)

example : (parseIniMcuLoads
    "[LOADER_OPTION]\nloader2=Rtos ; unknown\n[loader2_param]\nload_addr = 0x40000".toList) =
    [⟨"LOADER2".toList, "Rtos".toList, 0x40000⟩] := by decide

/-- An address with a stray suffix hides its loader from the gate. -/
theorem unreadable_address_not_failsClosed :
    ¬ FailsClosed "[LOADER_OPTION]\nLOADER2=Rtos\n[LOADER2_PARAM]\nLOAD_ADDR=0x40000u\n".toList := by
  intro h
  obtain ⟨load, hmem, -⟩ := h ⟨loaderOption, "LOADER2".toList, "Rtos".toList⟩ (by decide)
    ⟨by decide, by decide⟩ (by decide)
    ⟨⟨"LOADER2_PARAM".toList, "LOAD_ADDR".toList, "0x40000u".toList⟩, by decide, by decide,
      by decide⟩
  have hnone : parseIniMcuLoads
      "[LOADER_OPTION]\nLOADER2=Rtos\n[LOADER2_PARAM]\nLOAD_ADDR=0x40000u\n".toList = [] := by
    decide
  rw [hnone] at hmem
  cases hmem

end ConfigLint
end WardenSdk
