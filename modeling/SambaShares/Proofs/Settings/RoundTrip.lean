import SambaShares.Proofs.Toml.Sections
import SambaShares.Settings.Decode
import SambaShares.Settings.Encode
/-!
Settings are read as they were written, whatever their texts are, as long as their numbers can be
written.
-/

namespace SambaShares

open Toml

/-- A pair whose value is a string. -/
def Toml.Pair.text (key value : Text) : Pair := ⟨key, writeString value, .text value⟩

/-- A pair whose value is a number. -/
def Toml.Pair.number (key : Text) (value : Nat) : Pair := ⟨key, Text.ofNat value, .integer value⟩

theorem Toml.Pair.Valid.text {key : Text} (keyed : isKey key = true) (value : Text) :
    (Pair.text key value).Valid := ⟨keyed, writes_writeString value⟩

theorem Toml.Pair.Valid.number {key : Text} (keyed : isKey key = true) {value : Nat}
    (fits : value < integerLimit) : (Pair.number key value).Valid := ⟨keyed, writes_ofNat fits⟩

/-- The section of a settings file that holds these settings. -/
def StorageSettings.part (settings : StorageSettings) : Toml.Section where
  name := "storage".toList
  pairs := [.text "conf_path".toList settings.confPath, .text "backup_dir".toList settings.backupDir,
    .number "max_backups".toList settings.maxBackups, .text "file_mode".toList settings.fileMode]

@[inherit_doc StorageSettings.part]
def ServiceSettings.part (settings : ServiceSettings) : Toml.Section where
  name := "service".toList
  pairs := [⟨"units".toList, writeStrings settings.units, .array (settings.units.map .text)⟩,
    ⟨"use_sudo".toList, writeBool settings.useSudo, .boolean settings.useSudo⟩,
    .text "systemctl_path".toList settings.systemctlPath,
    .number "restart_timeout_secs".toList settings.restartTimeoutSecs]

@[inherit_doc StorageSettings.part]
def LoggingSettings.part (settings : LoggingSettings) : Toml.Section where
  name := "logging".toList
  pairs := [.text "level".toList settings.level]

namespace Settings

/-- Settings with numbers that can be written. -/
structure Writable (settings : Settings) : Prop where
  maxBackups : settings.storage.maxBackups < integerLimit
  restartTimeoutSecs : settings.service.restartTimeoutSecs < integerLimit

/-- The sections of a settings file. -/
def parts (settings : Settings) : List Toml.Section :=
  [settings.storage.part, settings.service.part, settings.logging.part]

theorem render_eq_parts (settings : Settings) :
    settings.render = ['\n'].intercalate (settings.parts.map Toml.Section.lines) := by
  have storage : "[storage]\n".toList = ['['] ++ "storage".toList ++ [']', '\n'] := by decide
  have service : "\n[service]\n".toList = ['\n'] ++ (['['] ++ "service".toList ++ [']', '\n']) := by
    decide
  have logging : "\n[logging]\n".toList = ['\n'] ++ (['['] ++ "logging".toList ++ [']', '\n']) := by
    decide
  unfold render parts StorageSettings.part ServiceSettings.part LoggingSettings.part
  rw [storage, service, logging]
  simp only [List.map_cons, List.map_nil, List.intercalate_cons_cons, List.intercalate_singleton,
    Toml.Section.lines, List.flatMap_cons,
    List.flatMap_nil]
  simp only [Pair.line, Pair.text, Pair.number, List.append_assoc, List.append_nil]

theorem valid_parts {settings : Settings} (writable : settings.Writable) :
    ∀ part ∈ settings.parts, part.Valid := by
  have storage : ∀ pair ∈ settings.storage.part.pairs, pair.Valid := by
    unfold StorageSettings.part
    simp only [List.forall_mem_cons, List.not_mem_nil, false_implies, implies_true, and_true]
    exact ⟨.text rfl _, .text rfl _, .number rfl writable.maxBackups,
      .text rfl _⟩
  have service : ∀ pair ∈ settings.service.part.pairs, pair.Valid := by
    unfold ServiceSettings.part
    simp only [List.forall_mem_cons, List.not_mem_nil, false_implies, implies_true, and_true]
    exact ⟨⟨rfl, writes_writeStrings _⟩, ⟨rfl, writes_writeBool _⟩, .text rfl _,
      .number rfl writable.restartTimeoutSecs⟩
  have logging : ∀ pair ∈ settings.logging.part.pairs, pair.Valid := by
    unfold LoggingSettings.part
    simp only [List.forall_mem_cons, List.not_mem_nil, false_implies, implies_true, and_true]
    exact .text rfl _
  simp only [parts, List.forall_mem_cons, List.not_mem_nil, false_implies, implies_true,
      and_true]
  have storageKeys : (settings.storage.part.pairs.map Pair.key).Nodup := by
    unfold StorageSettings.part
    simp only [List.map_cons, List.map_nil, Pair.text, Pair.number]
    decide
  have serviceKeys : (settings.service.part.pairs.map Pair.key).Nodup := by
    unfold ServiceSettings.part
    simp only [List.map_cons, List.map_nil, Pair.text, Pair.number]
    decide
  exact ⟨⟨rfl, storageKeys, storage⟩, ⟨rfl, serviceKeys, service⟩,
    ⟨rfl, List.pairwise_singleton _ _, logging⟩⟩

theorem texts?_map_text (texts : List Text) : texts? (.array (texts.map .text)) = some texts := by
  unfold texts?
  induction texts with
  | nil => rfl
  | cons text others ih => simp [List.mapM_cons, text?, ih]

theorem storage?_entry (settings : StorageSettings) :
    storage? settings.part.entry.2 = some settings := rfl

theorem service?_entry (settings : ServiceSettings) :
    service? settings.part.entry.2 = some settings := by
  change ((texts? (.array (settings.units.map .text))).bind fun units =>
    some { settings with units }) = some settings
  rw [texts?_map_text]
  rfl

theorem logging?_entry (settings : LoggingSettings) :
    logging? settings.part.entry.2 = some settings := rfl

theorem ofEntries?_parts (settings : Settings) :
    ofEntries? (settings.parts.map Section.entry) = some settings := by
  change ((storage? settings.storage.part.entry.2).bind fun storage =>
    (service? settings.service.part.entry.2).bind fun service =>
      (logging? settings.logging.part.entry.2).bind fun logging =>
        some { storage, service, logging }) = some settings
  rw [storage?_entry, service?_entry, logging?_entry]
  rfl

/-- What is written is read as the same settings. -/
theorem read?_render {settings : Settings} (writable : settings.Writable) :
    read? settings.render = some settings := by
  have nodup : (settings.parts.map Toml.Section.name).Nodup := by
    have names : settings.parts.map Toml.Section.name =
      ["storage".toList, "service".toList, "logging".toList] := rfl
    rw [names]
    decide
  rw [read?, render_eq_parts, parse?_sections nodup (valid_parts writable), Option.bind_some]
  exact ofEntries?_parts settings

end Settings

end SambaShares
