import StorageEngine.Client.Settings
import StorageEngine.Common.ConfigLoading

/-!
# The start of a metadata node

`src/metadata/metadata_node_main.cpp` up to the settings that the node runs with, and
`Config::load_from_env`.

* `parseArgs` is the loop over the arguments.  `ArgWord` is what it takes them for: every list of
  arguments is made of words, and `parseArgs_words` is what they set.
* `node_started`: when a node starts, and where each of its settings comes from.
* `started_unseen`: the variables and the arguments of a node do not reach its clients.
-/

namespace StorageEngine

open Lib.LastWrite Lib.Remote

/-! ## `load_from_env` -/

/-- Assignments one after the other, up to the first that throws. -/
def assignAll : List (Except StoulError (Option Assignment)) → Config → Option StoulError × Config
  | [], cfg => (none, cfg)
  | .error e :: _, cfg => (some e, cfg)
  | .ok none :: rest, cfg => assignAll rest cfg
  | .ok (some assignment) :: rest, cfg => assignAll rest (cfg.assign assignment)

/-- The variable of a text. -/
def textVariable (setting : Text) : Option Str → Except StoulError (Option Assignment)
  | none => .ok none
  | some v => .ok (some (.text setting v))

/-- The variable of a number. -/
def numberVariable (setting : Numeric) : Option Str → Except StoulError (Option Assignment)
  | none => .ok none
  | some v => numberAssignment setting v

/-- What the variables assign, in the order in which they are looked up. -/
def envAssignments (env : Str → Option Str) : List (Except StoulError (Option Assignment)) :=
  [textVariable .nodeId (env (str "DSE_NODE_ID")),
    textVariable .storagePath (env (str "DSE_STORAGE_PATH")),
    textVariable .listenAddress (env (str "DSE_LISTEN_ADDRESS")),
    textVariable .advertiseAddress (env (str "DSE_ADVERTISE_ADDRESS")),
    textVariable .metadataAddress (env (str "DSE_METADATA_ADDRESS")),
    textVariable .coordinatorAddress (env (str "DSE_COORDINATOR_ADDRESS")),
    numberVariable .replicationFactor (env (str "DSE_REPLICATION_FACTOR")),
    numberVariable .chunkSizeMb (env (str "DSE_CHUNK_SIZE_MB"))]

def Config.loadFromEnv (env : Str → Option Str) (cfg : Config) : Option StoulError × Config :=
  assignAll (envAssignments env) cfg

/-! ## The arguments -/

structure NodeOptions where
  configPath : Str := []
  listenAddr : Str := str "0.0.0.0:50051"
  coordinatorPeers : List Str := []
  deriving DecidableEq, Repr

/-- `value_after`, which is empty for an argument of another form. -/
def valueAfter (arg key : Str) : Str :=
  if (key ++ str "=").isPrefixOf arg then arg.drop (key.length + 1) else []

def NodeOptions.setAddress (opts : NodeOptions) (addr : Str) : NodeOptions :=
  { opts with listenAddr := addr }

def NodeOptions.addPeer (opts : NodeOptions) (peer : Str) : NodeOptions :=
  { opts with coordinatorPeers := opts.coordinatorPeers ++ [peer] }

/-- The loop over the arguments.  The last one has no value after it. -/
def parseArgs : List Str → NodeOptions → NodeOptions
  | [], opts => opts
  | [arg], opts =>
    if valueAfter arg (str "--address") ≠ [] then
      opts.setAddress (valueAfter arg (str "--address"))
    else if valueAfter arg (str "--peer") ≠ [] then opts.addPeer (valueAfter arg (str "--peer"))
    else opts
  | arg :: value :: rest, opts =>
    if arg = str "--config" then parseArgs rest { opts with configPath := value }
    else if arg = str "--address" then parseArgs rest (opts.setAddress value)
    else if valueAfter arg (str "--address") ≠ [] then
      parseArgs (value :: rest) (opts.setAddress (valueAfter arg (str "--address")))
    else if arg = str "--peer" then parseArgs rest (opts.addPeer value)
    else if valueAfter arg (str "--peer") ≠ [] then
      parseArgs (value :: rest) (opts.addPeer (valueAfter arg (str "--peer")))
    else parseArgs (value :: rest) opts

/-! ## The start -/

/-- The settings and the options of the node.  An exception ends the program. -/
def startNode (argv : List Str) (env files : Str → Option Str) :
    Except StoulError (Config × NodeOptions) :=
  let opts := parseArgs argv {}
  let loaded := if opts.configPath ≠ [] then Config.loadFromFile (files opts.configPath) {}
    else (none, {})
  match loaded with
  | (some e, _) => .error e
  | (none, cfg) =>
    match cfg.loadFromEnv env with
    | (some e, _) => .error e
    | (none, cfg) => .ok ({ cfg with listenAddress := opts.listenAddr }, opts)

/-! ## Words -/

/-- What the loop takes one or two arguments for. -/
inductive ArgWord where
  | config (path : Str)
  | address (addr : Str)
  | addressIs (addr : Str)
  | peer (addr : Str)
  | peerIs (addr : Str)
  | ignored (arg : Str)
  deriving DecidableEq, Repr

/-- The options with a value in the next argument. -/
def optionNames : List Str :=
  [str "--config", str "--address", str "--peer"]

namespace ArgWord

def args : ArgWord → List Str
  | config path => [str "--config", path]
  | address addr => [str "--address", addr]
  | addressIs addr => [str "--address" ++ str "=" ++ addr]
  | peer addr => [str "--peer", addr]
  | peerIs addr => [str "--peer" ++ str "=" ++ addr]
  | ignored arg => [arg]

/-- A value after an equals sign is not empty, and nothing else is ignored. -/
def Proper : ArgWord → Prop
  | addressIs addr => addr ≠ []
  | peerIs addr => addr ≠ []
  | ignored arg => arg ∉ optionNames ∧ valueAfter arg (str "--address") = [] ∧
      valueAfter arg (str "--peer") = []
  | _ => True

@[simp] def configPath? : ArgWord → Option Str
  | config path => some path
  | _ => none

@[simp] def listenAddr? : ArgWord → Option Str
  | address addr | addressIs addr => some addr
  | _ => none

@[simp] def peer? : ArgWord → Option Str
  | peer addr | peerIs addr => some addr
  | _ => none

end ArgWord

/-- The words of a command line.  The last argument may be an option without its value. -/
structure CommandLine (words : List ArgWord) (lone argv : List Str) : Prop where
  proper : ∀ w ∈ words, w.Proper
  ends : lone = [] ∨ ∃ name ∈ optionNames, lone = [name]
  args : argv = words.flatMap ArgWord.args ++ lone

/-- The options that words set: the last path and the last address, and all peers. -/
def wordsOptions (words : List ArgWord) (opts : NodeOptions) : NodeOptions where
  configPath := (words.filterMap ArgWord.configPath?).getLastD opts.configPath
  listenAddr := (words.filterMap ArgWord.listenAddr?).getLastD opts.listenAddr
  coordinatorPeers := opts.coordinatorPeers ++ words.filterMap ArgWord.peer?

theorem valueAfter_append (key value : Str) : valueAfter (key ++ str "=" ++ value) key = value := by
  have hprefix : (key ++ str "=").isPrefixOf (key ++ str "=" ++ value) = true := by
    rw [List.isPrefixOf_iff_prefix]
    exact List.prefix_append _ _
  rw [valueAfter, if_pos hprefix]
  exact List.drop_left' (by rw [List.length_append]; rfl)

theorem eq_of_valueAfter {arg key : Str} (h : valueAfter arg key ≠ []) :
    arg = key ++ str "=" ++ valueAfter arg key := by
  unfold valueAfter at h ⊢
  split at h
  · next hprefix =>
    rw [if_pos hprefix]
    obtain ⟨value, rfl⟩ := List.isPrefixOf_iff_prefix.mp hprefix
    rw [List.drop_left' (by rw [List.length_append]; rfl)]
  · exact absurd rfl h

theorem mem_optionNames {arg : Str} : arg ∈ optionNames ↔
    arg = str "--config" ∨ arg = str "--address" ∨ arg = str "--peer" := by
  simp [optionNames]

/-- An argument with an equals sign is not an option name. -/
theorem notMem_optionNames (key value : Str) : key ++ str "=" ++ value ∉ optionNames := by
  have hsign : ∀ name ∈ optionNames, (61 : UInt8) ∉ name := by decide
  intro hmem
  refine hsign _ hmem ?_
  rw [List.append_assoc]
  exact List.mem_append_right _ List.mem_cons_self

/-- An argument that is not an option name is taken on its own. -/
theorem parseArgs_single {arg : Str} (harg : arg ∉ optionNames) (rest : List Str)
    (opts : NodeOptions) :
    parseArgs (arg :: rest) opts = parseArgs rest (parseArgs [arg] opts) := by
  simp only [mem_optionNames, not_or] at harg
  obtain ⟨hconfig, haddress, hpeer⟩ := harg
  cases rest with
  | nil => rw [parseArgs.eq_1]
  | cons value rest =>
    -- the last argument has no tests for names, which fail here
    simp only [parseArgs, if_neg hconfig, if_neg haddress, if_neg hpeer]
    split_ifs <;> rfl

theorem parseArgs_word {w : ArgWord} (hw : w.Proper) (rest : List Str) (opts : NodeOptions) :
    parseArgs (w.args ++ rest) opts = parseArgs rest (wordsOptions [w] opts) := by
  cases w with
  | config path =>
    show parseArgs (str "--config" :: path :: rest) opts = _
    rw [parseArgs, if_pos rfl]
    simp [wordsOptions, List.filterMap_cons]
  | address addr =>
    show parseArgs (str "--address" :: addr :: rest) opts = _
    rw [parseArgs, if_neg (by decide), if_pos rfl]
    simp [wordsOptions, List.filterMap_cons, NodeOptions.setAddress]
  | peer addr =>
    show parseArgs (str "--peer" :: addr :: rest) opts = _
    rw [parseArgs, if_neg (by decide), if_neg (by decide), if_neg (by decide), if_pos rfl]
    simp [wordsOptions, List.filterMap_cons, NodeOptions.addPeer]
  | addressIs addr =>
    rw [ArgWord.args, List.singleton_append, parseArgs_single (notMem_optionNames _ _), parseArgs,
      valueAfter_append, if_pos (show addr ≠ [] from hw)]
    simp [wordsOptions, List.filterMap_cons, NodeOptions.setAddress]
  | peerIs addr =>
    have haddress : valueAfter (str "--peer" ++ str "=" ++ addr) (str "--address") = [] := rfl
    rw [ArgWord.args, List.singleton_append, parseArgs_single (notMem_optionNames _ _), parseArgs,
      haddress, if_neg (not_not.mpr rfl), valueAfter_append, if_pos (show addr ≠ [] from hw)]
    simp [wordsOptions, List.filterMap_cons, NodeOptions.addPeer]
  | ignored arg =>
    obtain ⟨harg, haddress, hpeer⟩ := hw
    rw [ArgWord.args, List.singleton_append, parseArgs_single harg, parseArgs, haddress, hpeer,
      if_neg (not_not.mpr rfl), if_neg (not_not.mpr rfl)]
    simp [wordsOptions, List.filterMap_cons]

theorem wordsOptions_cons (w : ArgWord) (words : List ArgWord) (opts : NodeOptions) :
    wordsOptions (w :: words) opts = wordsOptions words (wordsOptions [w] opts) := by
  cases w <;> simp only [wordsOptions, ArgWord.configPath?, ArgWord.listenAddr?, ArgWord.peer?,
    List.filterMap_cons, List.filterMap_nil, List.getLastD_cons, List.getLastD_nil,
    List.append_assoc, List.singleton_append, List.nil_append]

/-- What the loop makes of a command line. -/
theorem parseArgs_words {words : List ArgWord} {lone argv : List Str}
    (h : CommandLine words lone argv) (opts : NodeOptions) :
    parseArgs argv opts = wordsOptions words opts := by
  obtain ⟨hproper, hlone, rfl⟩ := h
  induction words generalizing opts with
  | nil =>
    have hend : parseArgs lone opts = opts := by
      rcases hlone with rfl | ⟨name, hname, rfl⟩
      · rfl
      · rcases mem_optionNames.mp hname with rfl | rfl | rfl <;> rfl
    rw [List.flatMap_nil, List.nil_append, hend]
    simp [wordsOptions]
  | cons w words ih =>
    rw [List.forall_mem_cons] at hproper
    rw [List.flatMap_cons, List.append_assoc, parseArgs_word hproper.1, ih _ hproper.2]
    exact (wordsOptions_cons w words opts).symm

/-- An argument that is taken on its own is a word. -/
theorem exists_word {arg : Str} (harg : arg ∉ optionNames) :
    ∃ w : ArgWord, w.Proper ∧ w.args = [arg] := by
  by_cases haddress : valueAfter arg (str "--address") = []
  · by_cases hpeer : valueAfter arg (str "--peer") = []
    · exact ⟨.ignored arg, ⟨harg, haddress, hpeer⟩, rfl⟩
    · exact ⟨.peerIs _, hpeer, congrArg (fun a => [a]) (eq_of_valueAfter hpeer).symm⟩
  · exact ⟨.addressIs _, haddress, congrArg (fun a => [a]) (eq_of_valueAfter haddress).symm⟩

theorem CommandLine.cons {words : List ArgWord} {lone argv : List Str} {w : ArgWord}
    (h : CommandLine words lone argv) (hw : w.Proper) :
    CommandLine (w :: words) lone (w.args ++ argv) where
  proper := List.forall_mem_cons.mpr ⟨hw, h.proper⟩
  ends := h.ends
  args := by rw [h.args, List.flatMap_cons, List.append_assoc]

/-- Every list of arguments is made of words. -/
theorem exists_commandLine : ∀ argv : List Str, ∃ words lone, CommandLine words lone argv
  | [] => ⟨[], [], nofun, .inl rfl, rfl⟩
  | [arg] => by
    by_cases harg : arg ∈ optionNames
    · exact ⟨[], [arg], nofun, .inr ⟨arg, harg, rfl⟩, rfl⟩
    · obtain ⟨w, hw, hargs⟩ := exists_word harg
      exact ⟨[w], [], by simpa using hw, .inl rfl, by simp [hargs]⟩
  | arg :: value :: rest => by
    by_cases harg : arg ∈ optionNames
    · obtain ⟨words, lone, h⟩ := exists_commandLine rest
      rcases mem_optionNames.mp harg with rfl | rfl | rfl
      · exact ⟨.config value :: words, lone, h.cons trivial⟩
      · exact ⟨.address value :: words, lone, h.cons trivial⟩
      · exact ⟨.peer value :: words, lone, h.cons trivial⟩
    · obtain ⟨words, lone, h⟩ := exists_commandLine (value :: rest)
      obtain ⟨w, hw, hargs⟩ := exists_word harg
      refine ⟨w :: words, lone, ?_⟩
      have hcons := h.cons hw
      rwa [hargs] at hcons

/-! ## Settings -/

/-- The lines of the configuration file, with none if no file is named or it cannot be opened. -/
def NodeOptions.fileLines (opts : NodeOptions) (files : Str → Option Str) : List Str :=
  if opts.configPath = [] then [] else ((files opts.configPath).map getlines).getD []

/-- What the assignments that do not throw set. -/
def assigned (attempts : List (Except StoulError (Option Assignment))) : List Assignment :=
  attempts.filterMap fun attempt => attempt.toOption.join

theorem assignAll_append (first second : List (Except StoulError (Option Assignment)))
    (cfg : Config) : assignAll (first ++ second) cfg =
      match assignAll first cfg with
      | (some e, cfg) => (some e, cfg)
      | (none, cfg) => assignAll second cfg := by
  induction first generalizing cfg with
  | nil => rfl
  | cons attempt first ih =>
    rcases attempt with e | _ | a
    · rfl
    · exact ih cfg
    · exact ih (cfg.assign a)

/-- Assignments of which none throws are all made. -/
theorem assignAll_eq_none_iff {attempts : List (Except StoulError (Option Assignment))}
    {cfg cfg' : Config} : assignAll attempts cfg = (none, cfg') ↔
      (∀ attempt ∈ attempts, ∀ e, attempt ≠ .error e) ∧
        cfg' = (assigned attempts).foldl Config.assign cfg := by
  induction attempts generalizing cfg with
  | nil => simp [assignAll, assigned, eq_comm]
  | cons attempt attempts ih =>
    rw [List.forall_mem_cons]
    rcases attempt with e | _ | a
    · simp [assignAll]
    · rw [assignAll, ih]
      simp [assigned, Except.toOption]
    · rw [assignAll, ih]
      simp [assigned, Except.toOption]

/-- The loop over the lines is the loop over what they assign. -/
theorem loadLines_eq (lines : List Str) (cfg : Config) :
    loadLines lines cfg = assignAll (lines.map lineAssignment) cfg := by
  induction lines generalizing cfg with
  | nil => rfl
  | cons line lines ih =>
    rw [loadLines, List.map_cons]
    rcases lineAssignment line with e | _ | a
    · rfl
    · exact ih cfg
    · exact ih (cfg.assign a)

/-- A file that is not named or cannot be opened is one without lines. -/
theorem NodeOptions.load_eq (opts : NodeOptions) (files : Str → Option Str) :
    (if opts.configPath ≠ [] then Config.loadFromFile (files opts.configPath) {}
      else (none, {})) = assignAll ((opts.fileLines files).map lineAssignment) {} := by
  by_cases hpath : opts.configPath = []
  · rw [if_neg (not_not.mpr hpath), NodeOptions.fileLines, if_pos hpath]
    rfl
  · rw [if_pos hpath, NodeOptions.fileLines, if_neg hpath, ← loadLines_eq]
    cases files opts.configPath <;> rfl

/-- The file is read before the variables. -/
def NodeOptions.attempts (opts : NodeOptions) (env files : Str → Option Str) :
    List (Except StoulError (Option Assignment)) :=
  (opts.fileLines files).map lineAssignment ++ envAssignments env

theorem startNode_eq_ok_iff {argv : List Str} {env files : Str → Option Str} {cfg : Config}
    {opts : NodeOptions} : startNode argv env files = .ok (cfg, opts) ↔
      opts = parseArgs argv {} ∧
        ∃ cfg', assignAll (opts.attempts env files) {} = (none, cfg') ∧
          cfg = cfg'.assign (.text .listenAddress opts.listenAddr) := by
  simp only [startNode, NodeOptions.load_eq, NodeOptions.attempts, assignAll_append]
  constructor
  · intro h
    split at h
    · cases h
    · next hload =>
      split at h
      · cases h
      · next cfg' henv =>
        cases h
        exact ⟨rfl, cfg', by rw [hload]; exact henv, rfl⟩
  · intro h
    obtain ⟨rfl, cfg', hload, rfl⟩ := h
    split at hload
    · cases hload
    · dsimp only [Config.loadFromEnv]
      rw [hload]
      rfl

/-- The variable of a setting. -/
def Setting.variable : Setting → Option Str
  | .text .nodeId => some (str "DSE_NODE_ID")
  | .text .storagePath => some (str "DSE_STORAGE_PATH")
  | .text .listenAddress => some (str "DSE_LISTEN_ADDRESS")
  | .text .advertiseAddress => some (str "DSE_ADVERTISE_ADDRESS")
  | .text .metadataAddress => some (str "DSE_METADATA_ADDRESS")
  | .text .coordinatorAddress => some (str "DSE_COORDINATOR_ADDRESS")
  | .number .replicationFactor => some (str "DSE_REPLICATION_FACTOR")
  | .number .chunkSizeMb => some (str "DSE_CHUNK_SIZE_MB")
  | _ => none

/-- The settings that have a variable, in the order in which they are looked up. -/
def variableSettings : List Setting :=
  [.text .nodeId, .text .storagePath, .text .listenAddress, .text .advertiseAddress,
    .text .metadataAddress, .text .coordinatorAddress, .number .replicationFactor,
    .number .chunkSizeMb]

/-- What the variable of a setting assigns. -/
def Setting.attempt (env : Str → Option Str) : Setting → Except StoulError (Option Assignment)
  | .text setting => textVariable setting ((Setting.text setting).variable.bind env)
  | .number setting => numberVariable setting ((Setting.number setting).variable.bind env)
  | _ => .ok none

theorem envAssignments_eq (env : Str → Option Str) :
    envAssignments env = variableSettings.map (Setting.attempt env) :=
  rfl

theorem mem_variableSettings {setting : Setting} :
    setting ∈ variableSettings ↔ setting.variable ≠ none := by
  cases setting with
  | number setting => cases setting <;> decide
  | text setting => cases setting <;> decide
  | loadBalance | writeAck | useRocksdb => decide

/-- What a variable with this text sets. -/
def Setting.ofText : Setting → Str → Option SettingValue
  | .text _, v => some (.text v)
  | .number _, v => (stoul v).toOption.map fun n => .number n.toUInt32
  | _, _ => none

theorem Setting.attempt_setting {env : Str → Option Str} {setting : Setting} {a : Assignment}
    (h : (setting.attempt env).toOption.join = some a) : a.setting = setting := by
  cases setting with
  | text setting =>
    rw [Setting.attempt] at h
    generalize (Setting.text setting).variable.bind env = v? at h
    cases v? with
    | none => cases h
    | some v =>
      cases h
      rfl
  | number setting =>
    rw [Setting.attempt] at h
    generalize (Setting.number setting).variable.bind env = v? at h
    cases v? with
    | none => cases h
    | some v =>
      rw [numberVariable, numberAssignment] at h
      cases hstoul : stoul v with
      | error e =>
        rw [hstoul] at h
        cases h
      | ok n =>
        rw [hstoul] at h
        cases h
        rfl
  | loadBalance | writeAck | useRocksdb => cases h

theorem Setting.attempt_value (env : Str → Option Str) (setting : Setting) :
    (setting.attempt env).toOption.join.map Assignment.value =
      (setting.variable.bind env).bind setting.ofText := by
  cases setting with
  | text setting =>
    rw [Setting.attempt]
    cases (Setting.text setting).variable.bind env <;> rfl
  | number setting =>
    rw [Setting.attempt]
    cases (Setting.number setting).variable.bind env with
    | none => rfl
    | some v =>
      rw [numberVariable, numberAssignment, Option.bind_some, Setting.ofText]
      cases stoul v <;> rfl
  | loadBalance | writeAck | useRocksdb => rfl

/-- A variable sets its setting, and nothing else does among the variables. -/
theorem lastWrite_env (env : Str → Option Str) (setting : Setting) :
    (lastWrite Assignment.setting setting (assigned (envAssignments env))).map Assignment.value =
      (setting.variable.bind env).bind setting.ofText := by
  have hattempts : assigned (envAssignments env) =
      variableSettings.filterMap fun setting => (setting.attempt env).toOption.join := by
    rw [assigned, envAssignments_eq, List.filterMap_map]
    rfl
  rw [hattempts, lastWrite_filterMap (by decide) fun k a h => Setting.attempt_setting h]
  split
  · exact Setting.attempt_value env setting
  · next hnone =>
    rw [mem_variableSettings, not_not] at hnone
    rw [hnone]
    rfl

/-- A variable throws if it is that of a number and `std::stoul` refuses its text. -/
theorem env_accepted_iff {env : Str → Option Str} :
    (∀ attempt ∈ envAssignments env, ∀ e, attempt ≠ .error e) ↔
      ∀ setting : Numeric, ∀ v ∈ (Setting.number setting).variable.bind env,
        ∃ n, stoul v = .ok n := by
  have hnumber : ∀ (setting : Numeric) (v? : Option Str),
      (∀ e, numberVariable setting v? ≠ .error e) ↔ ∀ v ∈ v?, ∃ n, stoul v = .ok n := by
    intro setting v?
    cases v? with
    | none => simp [numberVariable]
    | some v =>
      rw [numberVariable, numberAssignment]
      cases hstoul : stoul v with
      | error e => simp [hstoul]
      | ok n => simp [hstoul]
  rw [envAssignments_eq, List.forall_mem_map]
  constructor
  · intro h setting
    by_cases hmem : Setting.number setting ∈ variableSettings
    · exact (hnumber setting _).mp (h _ hmem)
    · rw [mem_variableSettings, not_not] at hmem
      intro v hv
      rw [hmem] at hv
      cases hv
  · intro h setting _
    cases setting with
    | number setting => exact (hnumber setting _).mpr (h setting)
    | text setting =>
      intro e he
      rw [Setting.attempt] at he
      generalize (Setting.text setting).variable.bind env = v? at he
      cases v? <;> cases he
    | loadBalance | writeAck | useRocksdb =>
      intro e he
      cases he

/-! ## Where settings come from -/

/-- The listen address is that of the arguments.  Any other setting is that of its variable, else
that of the last line for it, else the default. -/
def NodeOptions.setting (opts : NodeOptions) (env files : Str → Option Str) :
    Setting → SettingValue
  | .text .listenAddress => .text opts.listenAddr
  | setting =>
    (((setting.variable.bind env).bind setting.ofText).or
      ((lastWrite Assignment.setting setting (assignments (opts.fileLines files))).map
        Assignment.value)).getD (({} : Config).value setting)

theorem value_started (opts : NodeOptions) (env files : Str → Option Str) (setting : Setting) :
    (((assigned (opts.attempts env files)).foldl Config.assign {}).assign
      (.text .listenAddress opts.listenAddr)).value setting = opts.setting env files setting := by
  by_cases hlisten : setting = .text .listenAddress
  · subst hlisten
    exact Config.assign_writes.get_self _ _
  · have hsetting : opts.setting env files setting =
        (((setting.variable.bind env).bind setting.ofText).or
          ((lastWrite Assignment.setting setting (assignments (opts.fileLines files))).map
            Assignment.value)).getD (({} : Config).value setting) := by
      unfold NodeOptions.setting
      split
      · exact absurd rfl hlisten
      · rfl
    rw [Config.assign_writes.get_other _ _ _ hlisten, Config.assign_writes.get_foldl, assigned,
      NodeOptions.attempts, List.filterMap_append, lastWrite_append, Option.map_or, hsetting,
      ← lastWrite_env, List.filterMap_map]
    rfl

/-- When a metadata node starts, and with which options and settings: no line of its file and no
variable of a number may be refused. -/
theorem node_started (argv : List Str) (env files : Str → Option Str) :
    (∃ words lone, CommandLine words lone argv) ∧
      ∀ words lone, CommandLine words lone argv → ∀ cfg opts,
        startNode argv env files = .ok (cfg, opts) ↔
          opts = wordsOptions words {} ∧ (∀ line ∈ opts.fileLines files, ¬Rejected line) ∧
            (∀ setting : Numeric, ∀ v ∈ (Setting.number setting).variable.bind env,
              ∃ n, stoul v = .ok n) ∧
            ∀ setting, cfg.value setting = opts.setting env files setting := by
  refine ⟨exists_commandLine argv, fun words lone h cfg opts => ?_⟩
  have hlines : (∀ attempt ∈ (opts.fileLines files).map lineAssignment,
      ∀ e, attempt ≠ .error e) ↔ ∀ line ∈ opts.fileLines files, ¬Rejected line := by
    simp [Rejected]
  have hcfg : cfg = ((assigned (opts.attempts env files)).foldl Config.assign {}).assign
      (.text .listenAddress opts.listenAddr) ↔
        ∀ setting, cfg.value setting = opts.setting env files setting := by
    simp only [← value_started]
    exact ⟨fun heq _ => by rw [heq], fun heq => Config.assign_writes.ext _ _ heq⟩
  rw [startNode_eq_ok_iff, parseArgs_words h, ← hlines, ← env_accepted_iff, ← hcfg]
  simp only [assignAll_eq_none_iff]
  refine and_congr_right fun _ => ?_
  constructor
  · intro h
    obtain ⟨cfg', ⟨hall, rfl⟩, rfl⟩ := h
    rw [NodeOptions.attempts, List.forall_mem_append] at hall
    exact ⟨hall.1, hall.2, rfl⟩
  · intro h
    obtain ⟨hfile, henv, rfl⟩ := h
    exact ⟨_, ⟨List.forall_mem_append.mpr ⟨hfile, henv⟩, rfl⟩, rfl⟩

/-- Nodes with the same lines select nodes alike, whatever their arguments and variables are. -/
theorem started_loadBalance {argv : List Str} {env files : Str → Option Str} {cfg : Config}
    {opts : NodeOptions} (h : startNode argv env files = .ok (cfg, opts)) :
    cfg.value .loadBalance = (((lastWrite Assignment.setting .loadBalance
      (assignments (opts.fileLines files))).map Assignment.value)).getD
        (({} : Config).value .loadBalance) := by
  obtain ⟨-, cfg', hload, rfl⟩ := startNode_eq_ok_iff.mp h
  obtain ⟨-, rfl⟩ := assignAll_eq_none_iff.mp hload
  exact value_started opts env files .loadBalance

/-- Of two metadata nodes whose files have the same lines, clients cannot tell the arguments and
the variables. -/
theorem started_unseen {argv argv' : List Str} {env env' files files' : Str → Option Str}
    {cfg cfg' : Config} {opts opts' : NodeOptions}
    (h : startNode argv env files = .ok (cfg, opts))
    (h' : startNode argv' env' files' = .ok (cfg', opts'))
    (hlines : opts.fileLines files = opts'.fileLines files') {ι : Type} [DecidableEq ι]
    {reach : Str → Option ι} {changes : Cluster ι → Cluster ι → Prop} {c : Cluster ι}
    {config : Lib.Remote.Config Rpc Rpc.Reply (Cluster ι)
      { a : Job // a.SameUnder cfg.cluster cfg'.cluster } Job.Result} :
    Reachable (fun _ => Cluster.Serves cfg.cluster reach) (fun a => a.1.program) changes c
        config ↔
      Reachable (fun _ => Cluster.Serves cfg'.cluster reach) (fun a => a.1.program) changes c
        config := by
  have hvalue : cfg.value .loadBalance = cfg'.value .loadBalance := by
    rw [started_loadBalance h, started_loadBalance h', hlines]
  exact reachable_congr (fun a => a.2.issues (SettingValue.loadBalance.inj hvalue))
    Cluster.serves_congr

/-- A file that sets the replication factor and the strategy. -/
private def nodeFile : Str :=
  str "replication_factor=5\nload_balance=random\n"

/-- The variable of the replication factor goes before the file, whose strategy stays, and an
address that is not among the arguments is not that of its variable. -/
theorem node_started_variable :
    ∃ cfg, startNode [str "--config", str "node.conf", str "--peer=b:50051", str "--peer"]
        (fun name =>
          if name = str "DSE_REPLICATION_FACTOR" then some (str "2")
          else if name = str "DSE_LISTEN_ADDRESS" then some (str "a:1") else none)
        (fun _ => some nodeFile) =
          .ok (cfg, ⟨str "node.conf", str "0.0.0.0:50051", [str "b:50051"]⟩) ∧
      cfg.number .replicationFactor = 2 ∧ cfg.cluster.loadBalance = .random ∧
        cfg.listenAddress = str "0.0.0.0:50051" := by
  let cfg : Config :=
    { cluster := { replicationFactor := 2, loadBalance := .random }
      listenAddress := str "0.0.0.0:50051" }
  have hline : CommandLine [.config (str "node.conf"), .peerIs (str "b:50051")] [str "--peer"]
      [str "--config", str "node.conf", str "--peer=b:50051", str "--peer"] := by
    refine ⟨?_, .inr ⟨str "--peer", by decide, rfl⟩, rfl⟩
    rw [List.forall_mem_cons, List.forall_mem_singleton]
    exact ⟨trivial, List.cons_ne_nil _ _⟩
  refine ⟨cfg, ((node_started _ _ _).2 _ _ hline cfg _).mpr ⟨rfl, ?_, ?_, ?_⟩, rfl, rfl, rfl⟩
  · have hlines : ∀ line ∈ getlines nodeFile, (lineAssignment line).isOk = true := by decide
    intro line hmem hrejected
    obtain ⟨e, he⟩ := hrejected
    have hok := hlines line hmem
    rw [he] at hok
    cases hok
  · intro setting v hv
    cases setting with
    | replicationFactor => exact ⟨2, by cases hv; decide⟩
    | chunkSizeMb | heartbeatIntervalSec | heartbeatTimeoutSec => cases hv
  · intro setting
    cases setting with
    | number setting => cases setting <;> decide
    | text setting => cases setting <;> decide
    | loadBalance | writeAck | useRocksdb => decide

end StorageEngine
