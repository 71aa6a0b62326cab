import StorageEngine.Lib.LastWrite
import StorageEngine.Common.Config
import Mathlib.Data.List.TakeWhile

/-!
# Which files are loaded faithfully

A numeric setting should have the decimal number of its last line, and a file with another
value for one should change nothing.  `std::stoul` takes more than decimal numbers, and a
throw leaves what the lines before it have set.

* `loadLines_accepted` and `loadLines_rejected`: what the loop does, as a fold of
  assignments up to the first line that throws.
* `load_faithful_iff`: the files that are loaded faithfully.
-/

namespace StorageEngine

open Lib.LastWrite

/-! ## Settings -/

inductive Setting where
  | number (setting : Numeric)
  | text (setting : Text)
  | loadBalance
  | writeAck
  | useRocksdb
  deriving DecidableEq, Repr

inductive SettingValue where
  | number (value : UInt32)
  | text (value : Str)
  | loadBalance (value : LoadBalanceStrategy)
  | writeAck (value : WriteAckPolicy)
  | useRocksdb (value : Bool)
  deriving DecidableEq, Repr

def Assignment.setting : Assignment → Setting
  | .number setting _ => .number setting
  | .text setting _ => .text setting
  | .loadBalance _ => .loadBalance
  | .writeAck _ => .writeAck
  | .useRocksdb _ => .useRocksdb

def Assignment.value : Assignment → SettingValue
  | .number _ n => .number n
  | .text _ s => .text s
  | .loadBalance strategy => .loadBalance strategy
  | .writeAck policy => .writeAck policy
  | .useRocksdb b => .useRocksdb b

namespace Config

def number (cfg : Config) : Numeric → UInt32
  | .replicationFactor => cfg.cluster.replicationFactor
  | .chunkSizeMb => cfg.cluster.chunkSizeMb
  | .heartbeatIntervalSec => cfg.cluster.heartbeatIntervalSec
  | .heartbeatTimeoutSec => cfg.cluster.heartbeatTimeoutSec

def text (cfg : Config) : Text → Str
  | .metadataAddress => cfg.cluster.metadataAddress
  | .coordinatorAddress => cfg.cluster.coordinatorAddress
  | .nodeId => cfg.nodeId
  | .storagePath => cfg.storagePath
  | .listenAddress => cfg.listenAddress
  | .advertiseAddress => cfg.advertiseAddress
  | .metadataPersistPath => cfg.metadataPersistPath

def value (cfg : Config) : Setting → SettingValue
  | .number setting => .number (cfg.number setting)
  | .text setting => .text (cfg.text setting)
  | .loadBalance => .loadBalance cfg.cluster.loadBalance
  | .writeAck => .writeAck cfg.cluster.writeAck
  | .useRocksdb => .useRocksdb cfg.useRocksdb

/-- A configuration is its settings, and an assignment changes one of them. -/
theorem assign_writes : Writes value assign Assignment.setting Assignment.value where
  get_self cfg a := by
    cases a with
    | number setting n => cases setting <;> rfl
    | text setting s => cases setting <;> rfl
    | loadBalance | writeAck | useRocksdb => rfl
  get_other cfg a k hk := by
    cases k with
    | number setting =>
      cases a with
      | number setting' n => cases setting <;> cases setting' <;> first | rfl | exact absurd rfl hk
      | text setting' s => cases setting' <;> rfl
      | loadBalance | writeAck | useRocksdb => rfl
    | text setting =>
      cases a with
      | number setting' n => cases setting' <;> rfl
      | text setting' s => cases setting <;> cases setting' <;> first | rfl | exact absurd rfl hk
      | loadBalance | writeAck | useRocksdb => rfl
    | loadBalance | writeAck | useRocksdb =>
      cases a with
      | number setting n => cases setting <;> rfl
      | text setting s => cases setting <;> rfl
      | loadBalance | writeAck | useRocksdb => first | rfl | exact absurd rfl hk
  ext cfg cfg' h := by
    have hnumber : ∀ setting, cfg.number setting = cfg'.number setting :=
      fun setting => SettingValue.number.inj (h (.number setting))
    have htext : ∀ setting, cfg.text setting = cfg'.text setting :=
      fun setting => SettingValue.text.inj (h (.text setting))
    have hcluster : cfg.cluster = cfg'.cluster := by
      rw [ClusterConfig.mk.injEq]
      exact ⟨hnumber .replicationFactor, hnumber .chunkSizeMb, hnumber .heartbeatIntervalSec,
        hnumber .heartbeatTimeoutSec, SettingValue.loadBalance.inj (h .loadBalance),
        SettingValue.writeAck.inj (h .writeAck), htext .metadataAddress,
        htext .coordinatorAddress⟩
    rw [Config.mk.injEq]
    exact ⟨hcluster, htext .nodeId, htext .storagePath, htext .listenAddress,
      htext .advertiseAddress, htext .metadataPersistPath,
      SettingValue.useRocksdb.inj (h .useRocksdb)⟩

end Config

/-! ## The loop as a fold -/

/-- The line throws. -/
def Rejected (line : Str) : Prop :=
  ∃ e, lineAssignment line = .error e

/-- What the lines that do not throw assign. -/
def assignments (lines : List Str) : List Assignment :=
  lines.filterMap fun line => (lineAssignment line).toOption.join

/-- Lines of which none throws are all applied. -/
theorem loadLines_append {before : List Str} (h : ∀ line ∈ before, ¬Rejected line)
    (rest : List Str) (cfg : Config) :
    loadLines (before ++ rest) cfg =
      loadLines rest ((assignments before).foldl Config.assign cfg) := by
  induction before generalizing cfg with
  | nil => rfl
  | cons line before ih =>
    rw [List.forall_mem_cons] at h
    rw [List.cons_append, loadLines, assignments, List.filterMap_cons]
    cases hline : lineAssignment line with
    | error e => exact absurd ⟨e, hline⟩ h.1
    | ok assignment =>
      cases assignment with
      | none => exact ih h.2 cfg
      | some a => exact ih h.2 (cfg.assign a)

/-- A file without a line that throws is loaded. -/
theorem loadLines_accepted {lines : List Str} (h : ∀ line ∈ lines, ¬Rejected line)
    (cfg : Config) :
    loadLines lines cfg = (none, (assignments lines).foldl Config.assign cfg) := by
  have hload := loadLines_append h [] cfg
  rwa [List.append_nil] at hload

/-- The first line that throws ends the loop, and the lines before it have been applied. -/
theorem loadLines_rejected {before after : List Str} {line : Str} {e : StoulError}
    (h : ∀ line ∈ before, ¬Rejected line) (hline : lineAssignment line = .error e)
    (cfg : Config) :
    loadLines (before ++ line :: after) cfg =
      (some e, (assignments before).foldl Config.assign cfg) := by
  rw [loadLines_append h, loadLines, hline]

/-- The first line that throws. -/
theorem exists_first_rejected {lines : List Str} (h : ∃ line ∈ lines, Rejected line) :
    ∃ before line after, lines = before ++ line :: after ∧ Rejected line ∧
      ∀ line ∈ before, ¬Rejected line := by
  induction lines with
  | nil => simp at h
  | cons line lines ih =>
    by_cases hline : Rejected line
    · exact ⟨[], line, lines, rfl, hline, by simp⟩
    · have hrest : ∃ line ∈ lines, Rejected line := by
        obtain ⟨other, hother, hrejected⟩ := h
        rcases List.mem_cons.mp hother with rfl | hother
        · exact absurd hrejected hline
        · exact ⟨other, hother, hrejected⟩
      obtain ⟨before, first, after, rfl, hfirst, hbefore⟩ := ih hrest
      exact ⟨line :: before, first, after, rfl, hfirst,
        List.forall_mem_cons.mpr ⟨hline, hbefore⟩⟩

/-! ## Decimal numbers -/

/-- The value is a decimal number. -/
def Decimal (value : Str) : Prop :=
  value ≠ [] ∧ ∀ c ∈ value, isDigit c = true

/-- The value is a decimal number that fits in 32 bits. -/
def Good (value : Str) : Prop :=
  Decimal value ∧ decimal value < 2 ^ 32

/-- `std::stoul` returns the number of a value with digits only. -/
theorem stoul_decimal {value : Str} (h : Decimal value) (hlt : decimal value < 2 ^ 64) :
    stoul value = .ok (UInt64.ofNat (decimal value)) := by
  obtain ⟨hne, hdigits⟩ := h
  obtain ⟨c, rest, rfl⟩ := List.exists_cons_of_ne_nil hne
  have hc : isDigit c = true := hdigits c List.mem_cons_self
  have hrange : 48 ≤ c.toNat ∧ c.toNat ≤ 57 := by
    simpa [isDigit, UInt8.le_iff_toNat_le] using hc
  have hnot : ∀ d : UInt8, (d.toNat < 48 ∨ 57 < d.toNat) → c ≠ d := by
    intro d hd hsame
    subst hsame
    omega
  have hspace : isSpace c = false := by
    have h32 := hnot 32 (by decide)
    simp [isSpace, h32, UInt8.le_iff_toNat_le]
    omega
  have hminus : c ≠ 45 := hnot 45 (by decide)
  have hplus : c ≠ 43 := hnot 43 (by decide)
  have htake : (c :: rest).takeWhile isDigit = c :: rest :=
    List.takeWhile_eq_self_iff.mpr hdigits
  unfold stoul
  rw [List.dropWhile_cons_of_neg (by simp [hspace])]
  simp only [List.head?_cons, Option.some_beq_some, beq_eq_false_iff_ne.mpr hminus,
    beq_eq_false_iff_ne.mpr hplus, Bool.or_self, Bool.false_eq_true, if_false, htake, reduceCtorEq]
  rw [if_neg (by omega)]

/-- A good value is assigned as it is written. -/
theorem numberAssignment_good {value : Str} (h : Good value) (setting : Numeric) :
    numberAssignment setting value =
      .ok (some (.number setting (UInt32.ofNat (decimal value)))) := by
  have hlt : decimal value < 2 ^ 64 := lt_trans h.2 (by decide)
  have hnarrow : (UInt64.ofNat (decimal value)).toUInt32 = UInt32.ofNat (decimal value) := by
    rw [← UInt32.toNat_inj, UInt64.toNat_toUInt32, UInt64.toNat_ofNat_of_lt' hlt,
      UInt32.toNat_ofNat']
  rw [numberAssignment, stoul_decimal h.1 hlt]
  exact congrArg (fun n => Except.ok (some (Assignment.number setting n))) hnarrow

/-! ## The lines of a numeric setting -/

/-- The values of the lines of a setting, in order. -/
def numericValues (setting : Numeric) (lines : List Str) : List Str :=
  lines.filterMap fun line => (keyValue line).bind fun kv =>
    if kv.1 = setting.key then some kv.2 else none

theorem mem_numericValues {setting : Numeric} {lines : List Str} {value : Str} :
    value ∈ numericValues setting lines ↔
      ∃ line ∈ lines, keyValue line = some (setting.key, value) := by
  simp only [numericValues, List.mem_filterMap, Option.bind_eq_some_iff, Prod.exists]
  constructor
  · intro h
    obtain ⟨line, hline, key, value', hkv, hvalue⟩ := h
    split at hvalue
    · rename_i hkey
      cases hvalue
      exact ⟨line, hline, hkey ▸ hkv⟩
    · cases hvalue
  · intro h
    obtain ⟨line, hline, hkv⟩ := h
    exact ⟨line, hline, _, _, hkv, if_pos rfl⟩

theorem key_inj : Function.Injective Numeric.key := by
  intro a b h
  cases a <;> cases b <;> first | rfl | exact absurd h (by decide)

/-- The key of a numeric setting leads to its assignment. -/
theorem assignmentOf_key (setting : Numeric) (value : Str) :
    assignmentOf setting.key value = numberAssignment setting value := by
  cases setting <;> simp [assignmentOf, Numeric.key, str]

/-- No exception, and no assignment of a number. -/
def SparesNumbers (assignment : Except StoulError (Option Assignment)) : Prop :=
  ∃ a?, assignment = .ok a? ∧ ∀ a ∈ a?, ∀ setting, a.setting ≠ .number setting

theorem SparesNumbers.ite {c : Prop} [Decidable c]
    {first second : Except StoulError (Option Assignment)} (h : SparesNumbers first)
    (h' : SparesNumbers second) : SparesNumbers (if c then first else second) := by
  split
  · exact h
  · exact h'

theorem sparesNumbers_some {a : Assignment} (h : ∀ setting, a.setting ≠ .number setting) :
    SparesNumbers (.ok (some a)) :=
  ⟨some a, rfl, fun b hb => by rwa [← Option.some.inj hb]⟩

theorem sparesNumbers_none : SparesNumbers (.ok none) :=
  ⟨none, rfl, fun a ha => by cases ha⟩

/-- Any other key does not lead to a number, nor to an exception. -/
theorem assignmentOf_other {key : Str} (hkey : ∀ setting : Numeric, key ≠ setting.key)
    (value : Str) : SparesNumbers (assignmentOf key value) := by
  have h₁ : key ≠ str "replication_factor" := hkey .replicationFactor
  have h₂ : key ≠ str "chunk_size_mb" := hkey .chunkSizeMb
  have h₃ : key ≠ str "heartbeat_interval_sec" := hkey .heartbeatIntervalSec
  have h₄ : key ≠ str "heartbeat_timeout_sec" := hkey .heartbeatTimeoutSec
  unfold assignmentOf
  rw [if_neg h₁, if_neg h₂, if_neg h₃, if_neg h₄]
  repeat' apply SparesNumbers.ite
  all_goals first
    | exact sparesNumbers_none
    | exact sparesNumbers_some fun setting h => by cases h

/-- The lines that throw are those of numeric settings with values that `std::stoul`
refuses. -/
theorem rejected_iff {line : Str} : Rejected line ↔ ∃ setting value e,
    keyValue line = some (Numeric.key setting, value) ∧ stoul value = .error e := by
  unfold Rejected lineAssignment
  constructor
  · intro h
    obtain ⟨e, he⟩ := h
    cases hkv : keyValue line with
    | none =>
      rw [hkv] at he
      cases he
    | some kv =>
      obtain ⟨key, value⟩ := kv
      rw [hkv] at he
      dsimp only at he
      by_cases hkey : ∃ setting : Numeric, key = setting.key
      · obtain ⟨setting, rfl⟩ := hkey
        rw [assignmentOf_key, numberAssignment] at he
        cases hstoul : stoul value with
        | error e => exact ⟨setting, value, e, rfl, hstoul⟩
        | ok n =>
          rw [hstoul] at he
          cases he
      · obtain ⟨assignment, hassignment, -⟩ := assignmentOf_other (not_exists.mp hkey) value
        rw [hassignment] at he
        cases he
  · intro h
    obtain ⟨setting, value, e, hkv, hstoul⟩ := h
    refine ⟨e, ?_⟩
    rw [hkv]
    dsimp only
    rw [assignmentOf_key, numberAssignment, hstoul]
    rfl

/-- The assignments of a setting whose values are all good. -/
theorem assignments_number {setting : Numeric} {lines : List Str}
    (h : ∀ value ∈ numericValues setting lines, Good value) :
    ((assignments lines).filter fun a => a.setting = .number setting) =
      (numericValues setting lines).map fun value =>
        .number setting (UInt32.ofNat (decimal value)) := by
  induction lines with
  | nil => rfl
  | cons line lines ih =>
    have hrest := ih fun value hvalue => h value <| by
      obtain ⟨other, hother, hkv⟩ := mem_numericValues.mp hvalue
      exact mem_numericValues.mpr ⟨other, List.mem_cons_of_mem _ hother, hkv⟩
    unfold assignments numericValues at hrest ⊢
    rw [List.filterMap_cons, List.filterMap_cons, lineAssignment]
    cases hkv : keyValue line with
    | none => exact hrest
    | some kv =>
      obtain ⟨key, value⟩ := kv
      dsimp only [Option.bind_some]
      by_cases hkey : ∃ setting : Numeric, key = setting.key
      · obtain ⟨other, rfl⟩ := hkey
        rw [assignmentOf_key]
        by_cases hsame : other = setting
        · subst hsame
          have hgood := h value (mem_numericValues.mpr ⟨line, List.mem_cons_self, hkv⟩)
          rw [numberAssignment_good hgood, if_pos rfl]
          simp only [Except.toOption, Option.join_some, List.map_cons, ← hrest]
          exact List.filter_cons_of_pos (decide_eq_true rfl)
        · rw [if_neg fun heq => hsame (key_inj heq), numberAssignment]
          cases stoul value with
          | error e => exact hrest
          | ok n =>
            refine (List.filter_cons_of_neg ?_).trans hrest
            simp [Assignment.setting, hsame]
      · have hother := not_exists.mp hkey
        obtain ⟨assignment, hassignment, hspares⟩ := assignmentOf_other hother value
        rw [hassignment, if_neg (hother setting)]
        cases assignment with
        | none => exact hrest
        | some a =>
          refine (List.filter_cons_of_neg ?_).trans hrest
          simpa using hspares a rfl setting

/-! ## Faithful loading -/

/-- What a call should do.  If it returns, each numeric setting has the decimal number of its
last line, or is as it was.  If a value is not a decimal number that fits, the call fails
and changes nothing. -/
structure LoadsFaithfully (text : Str) (cfg : Config) (error : Option StoulError)
    (cfg' : Config) : Prop where
  loaded : error = none → ∀ setting : Numeric,
    match (numericValues setting (getlines text)).getLast? with
    | none => cfg'.number setting = cfg.number setting
    | some value => Decimal value ∧ (cfg'.number setting).toNat = decimal value
  refused : (∃ setting, ∃ value ∈ numericValues setting (getlines text), ¬Good value) →
    error ≠ none ∧ cfg' = cfg

/-- A file with good values only has no line that throws. -/
theorem not_rejected_of_good {lines : List Str}
    (h : ∀ setting, ∀ value ∈ numericValues setting lines, Good value) :
    ∀ line ∈ lines, ¬Rejected line := by
  intro line hline hrejected
  obtain ⟨setting, value, e, hkv, hstoul⟩ := rejected_iff.mp hrejected
  have hgood := h setting value (mem_numericValues.mpr ⟨line, hline, hkv⟩)
  rw [stoul_decimal hgood.1 (lt_trans hgood.2 (by decide))] at hstoul
  cases hstoul

/-- A line that throws has a value that is not good. -/
theorem exists_not_good {lines : List Str} (h : ∃ line ∈ lines, Rejected line) :
    ∃ setting, ∃ value ∈ numericValues setting lines, ¬Good value := by
  by_contra hnone
  obtain ⟨line, hline, hrejected⟩ := h
  refine not_rejected_of_good (fun setting value hvalue => ?_) line hline hrejected
  by_contra hbad
  exact hnone ⟨setting, value, hvalue, hbad⟩

/-- A file with good values only is loaded as it is written. -/
theorem load_good {text : Str} {cfg : Config}
    (h : ∀ setting, ∀ value ∈ numericValues setting (getlines text), Good value) :
    LoadsFaithfully text cfg (cfg.loadFromFile (some text)).1 (cfg.loadFromFile (some text)).2 := by
  have hload : cfg.loadFromFile (some text) =
      (none, (assignments (getlines text)).foldl Config.assign cfg) :=
    loadLines_accepted (not_rejected_of_good h) cfg
  rw [hload]
  refine ⟨fun _ setting => ?_, fun hbad => ?_⟩
  · have hvalue := Config.assign_writes.get_foldl cfg (assignments (getlines text))
      (.number setting)
    rw [lastWrite, assignments_number (h setting), List.getLast?_map] at hvalue
    cases hlast : (numericValues setting (getlines text)).getLast? with
    | none =>
      rw [hlast] at hvalue
      exact SettingValue.number.inj hvalue
    | some value =>
      have hgood := h setting value (List.mem_of_getLast? hlast)
      rw [hlast] at hvalue
      have hnumber := SettingValue.number.inj hvalue
      refine ⟨hgood.1, ?_⟩
      rw [hnumber]
      exact UInt32.toNat_ofNat_of_lt' hgood.2
  · obtain ⟨setting, value, hvalue, hnot⟩ := hbad
    exact absurd (h setting value hvalue) hnot

/-- The files that are loaded faithfully: all values of numeric settings are decimal numbers
that fit in 32 bits, or a line throws and the lines before the first such line assign what
is there already. -/
theorem load_faithful_iff (text : Str) (cfg : Config) :
    LoadsFaithfully text cfg (cfg.loadFromFile (some text)).1
        (cfg.loadFromFile (some text)).2 ↔
      (∀ setting, ∀ value ∈ numericValues setting (getlines text), Good value) ∨
        ∃ before line after, getlines text = before ++ line :: after ∧ Rejected line ∧
          (∀ line ∈ before, ¬Rejected line) ∧
          ∀ setting a, lastWrite Assignment.setting setting (assignments before) = some a →
            a.value = cfg.value setting := by
  have hrejects : ∀ {before line after}, getlines text = before ++ line :: after →
      Rejected line → (∀ line ∈ before, ¬Rejected line) → ∃ e, cfg.loadFromFile (some text) =
        (some e, (assignments before).foldl Config.assign cfg) := by
    intro before line after hsplit hline hbefore
    obtain ⟨e, he⟩ := hline
    refine ⟨e, ?_⟩
    rw [Config.loadFromFile, hsplit]
    exact loadLines_rejected hbefore he cfg
  constructor
  · intro h
    by_cases hrejected : ∃ line ∈ getlines text, Rejected line
    · right
      obtain ⟨before, line, after, hsplit, hline, hbefore⟩ := exists_first_rejected hrejected
      obtain ⟨e, hload⟩ := hrejects hsplit hline hbefore
      have hsame := (h.refused (exists_not_good hrejected)).2
      rw [hload] at hsame
      exact ⟨before, line, after, hsplit, hline, hbefore,
        (Config.assign_writes.foldl_eq_self_iff cfg _).mp hsame⟩
    · left
      intro setting value hvalue
      by_contra hbad
      have herror := (h.refused ⟨setting, value, hvalue, hbad⟩).1
      have haccepted : ∀ line ∈ getlines text, ¬Rejected line :=
        fun line hline hline' => hrejected ⟨line, hline, hline'⟩
      rw [Config.loadFromFile, loadLines_accepted haccepted] at herror
      exact herror rfl
  · intro h
    rcases h with hgood | ⟨before, line, after, hsplit, hline, hbefore, hsame⟩
    · exact load_good hgood
    · obtain ⟨e, hload⟩ := hrejects hsplit hline hbefore
      rw [hload]
      refine ⟨nofun, fun _ => ⟨nofun, ?_⟩⟩
      exact (Config.assign_writes.foldl_eq_self_iff cfg _).mpr hsame

/-- A file with a negative number. -/
def negativeText : Str := str "replication_factor=-1\n"

/-- A file with a good line before one that throws. -/
def halfwayText : Str := str "replication_factor=5\nchunk_size_mb=x\n"

/-- The negative number is loaded as a large one, and the line that throws does not undo the
one before it. -/
theorem load_unfaithful :
    (∃ cfg', Config.loadFromFile (some negativeText) {} = (none, cfg') ∧
      cfg'.number .replicationFactor = 4294967295 ∧
      ¬LoadsFaithfully negativeText {} none cfg') ∧
    ∃ cfg', Config.loadFromFile (some halfwayText) {} = (some .invalidArgument, cfg') ∧
      cfg'.number .replicationFactor = 5 ∧
      ¬LoadsFaithfully halfwayText {} (some .invalidArgument) cfg' := by
  constructor
  · refine ⟨{ cluster := { replicationFactor := 4294967295 } }, by decide, rfl, fun h => ?_⟩
    have hloaded := h.loaded rfl .replicationFactor
    rw [show numericValues .replicationFactor (getlines negativeText) = [str "-1"] by decide]
      at hloaded
    exact absurd (hloaded.1.2 45 (by decide)) (by decide)
  · refine ⟨{ cluster := { replicationFactor := 5 } }, by decide, rfl, fun h => ?_⟩
    have hbad : ¬Good (str "x") := fun hgood => absurd (hgood.1.2 120 (by decide)) (by decide)
    have hsame := (h.refused ⟨.chunkSizeMb, str "x", by decide, hbad⟩).2
    cases hsame

end StorageEngine
