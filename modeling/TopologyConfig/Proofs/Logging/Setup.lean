import TopologyConfig.Logging.Setup
import TopologyConfig.Proofs.Settings

/-!
Logging as settings set it up. The level that counts is the last one that was chosen: by an assignment that was
accepted, or else when the settings were made. Settings for which no level was ever chosen cannot set up logging,
because theirs goes by the name of the choice; all others set up a console at their level, whatever was set up before.
-/
namespace TopologyConfig

namespace Settings

/-- The level that an assignment chooses, if it is one of a level that is accepted. -/
def levelChosenBy (change : String × Value) : Option LogLevel :=
  if change.1 = Setting.logLevel.name then (readLevel change.2).toOption else none

/-- Settings as the constructor or the environment makes them, with the values that were given. -/
inductive IsMadeFrom : (Setting → Option Value) → Settings → Prop
  | ofValues {values : List (String × Value)} {s : Settings} :
    Settings.ofValues values = .ok s → IsMadeFrom (fun setting => values.lookup setting.name) s
  | ofEnvironment {e : Environment} {s : Settings} :
    Settings.ofEnvironment e = .ok s → IsMadeFrom (fun setting => (e.text? setting.variableName).map Value.str) s

section level

variable {s t : Settings} {setting : Setting} {v : Value} {given : Setting → Option Value} {settings : List Setting}

theorem chosenLevel_put_of_ne (h : s.put setting v = .ok t) (hne : setting ≠ .logLevel) :
    t.chosenLevel = s.chosenLevel := by
  cases setting <;> obtain ⟨_, -, rfl⟩ := map_eq_ok.mp h <;> first | rfl | exact absurd rfl hne

/-- One assignment chooses its level or leaves the one of before. -/
theorem chosenLevel_assigned (s : Settings) (change : String × Value) :
    (s.assigned change).chosenLevel = (levelChosenBy change).or s.chosenLevel := by
  obtain ⟨name, v⟩ := change
  by_cases hname : name = Setting.logLevel.name
  · rw [assigned, levelChosenBy, if_pos hname, hname, assign_name]
    cases hput : s.put .logLevel v with
    | error cause => simp [Except.mapError, map_eq_error.mp hput, Except.toOption]
    | ok t =>
      obtain ⟨level, hlevel, rfl⟩ := map_eq_ok.mp hput
      simp [Except.mapError, hlevel, Except.toOption]
  · rw [assigned, levelChosenBy, if_neg hname, Option.none_or]
    split
    · next t h =>
      obtain rfl | ⟨setting, hsetting, hput⟩ := exists_put_of_assign h
      · rfl
      · exact chosenLevel_put_of_ne hput fun heq => hname (heq ▸ hsetting.symm)
    · rfl

/-- The last assignment that chose a level counts. -/
theorem chosenLevel_assignedAll (s : Settings) (changes : List (String × Value)) :
    (s.assignedAll changes).chosenLevel = (changes.filterMap levelChosenBy).getLast?.or s.chosenLevel := by
  induction changes using List.reverseRecOn with
  | nil => rfl
  | append_singleton changes change ih =>
    rw [assignedAll_concat, chosenLevel_assigned, ih, List.filterMap_append]
    cases h : levelChosenBy change <;> simp [h]

theorem chosenLevel_putGiven (h : Setting.logLevel ∉ settings) :
    (putGiven given s settings).1.chosenLevel = s.chosenLevel := by
  induction settings generalizing s with
  | nil => rfl
  | cons setting settings ih =>
    obtain ⟨hne, hrest⟩ := not_or.mp (mt List.mem_cons.mpr h)
    unfold putGiven
    split
    · exact ih hrest
    · split
      · next hput => rw [ih hrest, chosenLevel_put_of_ne hput (Ne.symm hne)]
      · exact ih hrest

/-- A level is chosen exactly if one is given, because a given one that cannot be read prevents the settings. -/
theorem isSome_chosenLevel_of_ofGiven (h : ofGiven given = .ok s) :
    s.chosenLevel.isSome = (given .logLevel).isSome := by
  have hothers (t : Settings) (ht : putGiven given t Setting.all.tail = (s, [])) : s.chosenLevel = t.chosenLevel := by
    have hlevel : (putGiven given t Setting.all.tail).1.chosenLevel = t.chosenLevel := chosenLevel_putGiven (by decide)
    rwa [ht] at hlevel
  unfold ofGiven at h
  split at h
  · next made hmade =>
    cases h
    have hall : Setting.all = .logLevel :: Setting.all.tail := rfl
    rw [hall, putGiven] at hmade
    split at hmade
    · next hgiven =>
      rw [hothers {} hmade, hgiven]
      rfl
    · next v hgiven =>
      split at hmade
      · next t hput =>
        obtain ⟨level, -, rfl⟩ := map_eq_ok.mp hput
        rw [hothers _ hmade, hgiven]
        rfl
      · cases hmade
  · cases h

theorem IsMadeFrom.isSome_chosenLevel (h : IsMadeFrom given s) : s.chosenLevel.isSome = (given .logLevel).isSome := by
  cases h with
  | ofValues h => exact isSome_chosenLevel_of_ofGiven h
  | ofEnvironment h => exact isSome_chosenLevel_of_ofGiven h

/-- Over a run a level is chosen exactly if one was given at its start or assigned in its course. -/
theorem IsMadeFrom.isSome_chosenLevel_assignedAll (h : IsMadeFrom given s) (changes : List (String × Value)) :
    (s.assignedAll changes).chosenLevel.isSome = true ↔
      (given .logLevel).isSome = true ∨ ∃ change ∈ changes, (levelChosenBy change).isSome = true := by
  rw [chosenLevel_assignedAll, Option.isSome_or, Bool.or_eq_true, h.isSome_chosenLevel, or_comm]
  refine or_congr_right ?_
  rw [List.getLast?_isSome]
  simp [List.filterMap_eq_nil_iff, Option.isSome_iff_ne_none]

end level

end Settings

namespace Logging

namespace Threshold

theorem ofName_name (level : LogLevel) : ofName level.name = .ok (some level) := by
  have hnamed : named.lookup (Text.upper level.name) = some (some level) := by cases level <;> decide +kernel
  simp only [ofName, hnamed]

/-- The name of the choice is none of a threshold. -/
theorem ofName_defaultName :
    ofName ("LogLevel." ++ LogLevel.info.name) = .error (.noConstant "logging" "LOGLEVEL.INFO") := by
  have hraised : Text.upper ("LogLevel." ++ LogLevel.info.name) = "LOGLEVEL.INFO" := by decide +kernel
  have hnamed : named.lookup "LOGLEVEL.INFO" = none := by decide +kernel
  have htext : ("LOGLEVEL.INFO" == textName) = false := by decide +kernel
  simp [ofName, hraised, hnamed, htext]

end Threshold

namespace Setup

/-- Logging is at the level, and goes to the console alone. -/
structure LogsToConsole (l : Setup) (level : LogLevel) : Prop where
  threshold : l.threshold = some level
  handlers : ∃ h : Handler, l.handlers = [h] ∧ h.file = none ∧ h.threshold = some level
  propagates : l.propagates = false

/-- What was set up before does not count. -/
theorem again_eq_setUp (l : Setup) (r : Request) : l.again r = r.setUp := by
  unfold again Request.setUp
  cases Threshold.ofName r.levelName with
  | error e => rfl
  | ok t => cases hfile : r.toFile <;> simp [bind, Except.bind]

end Setup

section

variable {given : Setting → Option Value} {s : Settings}

/-- With a level chosen the console is set up at it. -/
theorem again_ofSettings_of_isSome (before : Setup) (hlevel : s.chosenLevel.isSome = true)
    (hfile : s.logsToFile = false) :
    ∃ l, before.again (.ofSettings s) = .ok l ∧ l.LogsToConsole s.level := by
  obtain ⟨level, hlevel⟩ := Option.isSome_iff_exists.mp hlevel
  have hname : (Request.ofSettings s).levelName = level.name := by simp [Request.ofSettings, hlevel]
  have hconsole : (Request.ofSettings s).toFile = false := hfile
  refine ⟨⟨some level, [consoleHandler (.ofSettings s) (some level)], false⟩, ?_, ?_⟩
  · rw [Setup.again_eq_setUp, Request.setUp, hname, Threshold.ofName_name, hconsole]
    rfl
  · have hs : s.level = level := by simp [Settings.level, hlevel]
    exact hs ▸ ⟨rfl, ⟨_, rfl, rfl, rfl⟩, rfl⟩

/-- Without one the set-up fails, whether there is to be a file or not. -/
theorem again_ofSettings_of_eq_none (before : Setup) (hlevel : s.chosenLevel = none) :
    before.again (.ofSettings s) = .error (.noConstant "logging" "LOGLEVEL.INFO") := by
  have hname : (Request.ofSettings s).levelName = "LogLevel." ++ LogLevel.info.name := by
    simp [Request.ofSettings, Settings.level, hlevel]
  rw [Setup.again_eq_setUp, Request.setUp, hname, Threshold.ofName_defaultName]
  rfl

/-- Settings that do not ask for a file set up a console at their level, whatever was set up before, exactly if a level
was given when they were made or assigned since. If none was, the set-up fails on a name that is not one of a level. -/
theorem settings_log_to_console_iff (hs : Settings.IsMadeFrom given s) (changes : List (String × Value))
    (hfile : (s.assignedAll changes).logsToFile = false) (before : Setup) :
    ((∃ l, before.again (.ofSettings (s.assignedAll changes)) = .ok l ∧ l.LogsToConsole (s.assignedAll changes).level) ↔
      (given .logLevel).isSome = true ∨ ∃ change ∈ changes, (Settings.levelChosenBy change).isSome = true) ∧
    (given .logLevel = none → (∀ change ∈ changes, Settings.levelChosenBy change = none) →
      before.again (.ofSettings (s.assignedAll changes)) = .error (.noConstant "logging" "LOGLEVEL.INFO")) := by
  rw [← hs.isSome_chosenLevel_assignedAll]
  have hfails (h : ¬ (s.assignedAll changes).chosenLevel.isSome = true) :
      before.again (.ofSettings (s.assignedAll changes)) = .error (.noConstant "logging" "LOGLEVEL.INFO") :=
    again_ofSettings_of_eq_none before (Option.not_isSome_iff_eq_none.mp h)
  refine ⟨⟨fun ⟨l, hl, _⟩ => ?_, fun h => again_ofSettings_of_isSome before h hfile⟩, fun hgiven hchanges => ?_⟩
  · by_contra hno
    rw [hfails hno] at hl
    cases hl
  · refine hfails fun h => ?_
    rcases (hs.isSome_chosenLevel_assignedAll changes).mp h with h | ⟨change, hmem, h⟩
    · simp [hgiven] at h
    · simp [hchanges change hmem] at h

/-- A level in lower case from the environment stays in force when another one is refused. -/
theorem level_from_environment_is_set_up :
    ∃ s, Settings.ofEnvironment ⟨[("STORMCONF_LOG_LEVEL", "debug")]⟩ = .ok s ∧
      ∃ l, (⟨none, [], true⟩ : Setup).again (.ofSettings (s.assignedAll [("log_level", .str "loud")])) = .ok l ∧
        l.LogsToConsole .debug := by
  have hmade : Settings.ofEnvironment ⟨[("STORMCONF_LOG_LEVEL", "debug")]⟩ =
      .ok { chosenLevel := some .debug } := by rfl
  have hrefused : ({ chosenLevel := some .debug } : Settings).assignedAll [("log_level", .str "loud")] =
      { chosenLevel := some .debug } := by
    have hassign := Settings.assign_name { chosenLevel := some .debug } .logLevel (.str "loud")
    rw [Settings.assignedAll, List.foldl_cons, List.foldl_nil, Settings.assigned]
    exact hassign ▸ rfl
  have hset := settings_log_to_console_iff (.ofEnvironment hmade) [("log_level", .str "loud")] (by rw [hrefused])
  obtain ⟨l, hl, hconsole⟩ := (hset ⟨none, [], true⟩).1.mpr (.inl (by rfl))
  exact ⟨_, hmade, l, hl, by rwa [hrefused] at hconsole⟩

/-- Settings that are made from nothing cannot set up logging. -/
theorem default_settings_do_not_log :
    ∃ s, Settings.ofValues [] = .ok s ∧ s.logsToFile = false ∧
      (⟨none, [], true⟩ : Setup).again (.ofSettings s) = .error (.noConstant "logging" "LOGLEVEL.INFO") :=
  ⟨{}, by rfl, rfl, again_ofSettings_of_eq_none _ rfl⟩

end

end Logging
end TopologyConfig
